/-
# The order of texts is that of their bytes

Texts are compared character by character.  In memory they are bytes, as UTF-8 has
them, and compared as such.  The two orders agree: of two characters the lesser one
has the lesser bytes, and differs from the other one before either ends
(`utf8EncodeChar_lt`), so whatever follows does not matter.
-/

namespace RouteDispatch.Text

/-- The bytes of a text. -/
def bytes (s : String) : List UInt8 := s.toByteArray.data.toList

theorem bytes_eq (s : String) : bytes s = s.toList.flatMap String.utf8EncodeChar := by
  rw [bytes, ← String.utf8Encode_toList, List.utf8Encode, List.data_toByteArray]

/-- Rows of bytes are compared by their first bytes, and if these are alike, by what is behind. -/
theorem ofNat_cons_lt {a b : Nat} {u v : List UInt8} (hle : a % 256 ≤ b % 256)
    (hrest : a % 256 = b % 256 → u < v) : UInt8.ofNat a :: u < UInt8.ofNat b :: v := by
  rw [List.cons_lt_cons_iff, UInt8.lt_iff_toNat_lt, ← UInt8.toNat_inj, UInt8.toNat_ofNat',
    UInt8.toNat_ofNat']
  rcases Nat.lt_or_eq_of_le hle with hlt | heq
  · exact Or.inl hlt
  · exact Or.inr ⟨heq, hrest heq⟩

/-- The bytes of a lesser character come before those of a greater one, whatever follows. -/
theorem utf8EncodeChar_lt {c d : Char} (h : c < d) (u v : List UInt8) :
    String.utf8EncodeChar c ++ u < String.utf8EncodeChar d ++ v := by
  have hlt : c.val.toNat < d.val.toNat := h
  have hd : d.val.toNat < 1114112 := by
    have hvalid := d.valid
    simp only [UInt32.isValidChar, Nat.isValidChar] at hvalid
    omega
  simp only [String.utf8EncodeChar]
  generalize c.val.toNat = x at hlt
  generalize d.val.toNat = y at hlt hd
  -- The first byte tells how many there are; of as many, the first that differ decide.
  repeat' split
  all_goals
    iterate 4
      try omega
      try refine ofNat_cons_lt (by omega) fun _ => ?_
    try omega

theorem flatMap_utf8EncodeChar_lt {l m : List Char} (h : l < m) :
    l.flatMap String.utf8EncodeChar < m.flatMap String.utf8EncodeChar := by
  induction l generalizing m with
  | nil =>
    cases m with
    | nil => cases h
    | cons d m =>
      obtain ⟨b, v, hd⟩ := List.exists_cons_of_ne_nil (String.utf8EncodeChar_ne_nil (c := d))
      rw [List.flatMap_cons, hd]
      exact List.nil_lt_cons _ _
  | cons c l ih =>
    cases m with
    | nil => cases h
    | cons d m =>
      rw [List.flatMap_cons, List.flatMap_cons]
      rcases List.cons_lt_cons_iff.mp h with hc | ⟨rfl, hl⟩
      · exact utf8EncodeChar_lt hc _ _
      · exact List.append_left_lt (ih hl)

/-- The order of texts is that of their bytes. -/
theorem bytes_lt_iff (s t : String) : bytes s < bytes t ↔ s < t := by
  rw [bytes_eq, bytes_eq, String.lt_iff]
  constructor
  · intro h
    rcases Std.lt_trichotomy s.toList t.toList with hlt | heq | hgt
    · exact hlt
    · rw [heq] at h
      exact absurd h (List.lt_irrefl _)
    · exact absurd h (List.lt_asymm (flatMap_utf8EncodeChar_lt hgt))
  · exact flatMap_utf8EncodeChar_lt

end RouteDispatch.Text
