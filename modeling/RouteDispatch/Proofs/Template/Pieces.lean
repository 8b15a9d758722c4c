/-
# What any template is turned into

Nothing is asked of a template here.  Its delimiters need not be balanced, and its
text may hold stand-ins, or halves of them.

Stand-ins are made of name characters, which escaping leaves alone and with which no
regular expression of a form begins.  So a pass that gives stand-ins their
meaning takes away whole characters and puts whole expressions in their place
(`restore_written`), and what comes of any template is a row of items
(`body_eq_written`), though not always of those that were meant.
-/
import RouteDispatch.Proofs.Template.Restore

namespace RouteDispatch.Template

open Text

/-! ## Rows of pieces -/

/-- A part of which only the form is known. -/
def Part.ofForm (reach : Reach) (required : Bool) : Part where
  reach
  required
  name := ['_']
  name_ne := List.cons_ne_nil _ _
  name_chars := forall_mem_of_all rfl

/-- What a form stands for, whoever wrote its stand-in. -/
def Form.item : Form → Item
  | optionalSlash => .slash true ['/']
  | requiredSlash => .slash false ['/']
  | requiredQuery => .part (.ofForm .query true)
  | optionalQuery => .part (.ofForm .query false)
  | optionalRest => .part (.ofForm .rest false)
  | requiredRest => .part (.ofForm .rest true)
  | requiredParam => .part (.ofForm .segment true)
  | optionalParam => .part (.ofForm .segment false)

/-- What a piece stands for: a character of the text for itself, and a form for its item. -/
def pieceItem : Piece Form → Item
  | .plain c => .text [c]
  | .found form => form.item

/-- The regular expression of a row of pieces. -/
def written (pieces : List (Piece Form)) : List Char :=
  (pieces.map pieceItem).flatMap Item.fragment

theorem written_cons (piece : Piece Form) (pieces : List (Piece Form)) :
    written (piece :: pieces) = (pieceItem piece).fragment ++ written pieces := rfl

theorem Form.fragment_item (form : Form) : form.item.fragment = form.fragment := by
  cases form <;> rfl

theorem fragment_plain (c : Char) :
    (pieceItem (.plain c)).fragment = if isMeta c then ['\\', c] else [c] :=
  List.append_nil _

/-- Escaped text is a row of characters. -/
theorem written_plain (s : List Char) : written (s.map .plain) = escape s := by
  induction s with
  | nil => rfl
  | cons c s ih =>
    rw [List.map_cons, written_cons, fragment_plain, ih]
    exact (escape_cons c s).symm

/-! ## Stand-ins in a row -/

theorem isNameChar_of_isMeta {c : Char} (h : isMeta c = true) : isNameChar c = false := by
  have hall : ∀ d ∈ "\\.+*?()|[]\x7b\x7d^$#&-~".toList, isNameChar d = false :=
    forall_mem_of_all rfl
  exact hall c (List.contains_iff_mem.mp h)

theorem standIn_chars (form : Form) : ∀ c ∈ form.standIn, isNameChar c = true := by
  cases form <;> exact forall_mem_of_all rfl

theorem standIn_ne (form : Form) : form.standIn ≠ [] := by
  cases form <;> exact List.cons_ne_nil _ _

/-- A name character that a row begins with is a character of the text. -/
theorem written_eq_cons {pieces : List (Piece Form)} {c : Char} {s : List Char}
    (h : written pieces = c :: s) (hc : isNameChar c = true) :
    ∃ rest, pieces = .plain c :: rest ∧ s = written rest := by
  rcases pieces with _ | ⟨d | form, pieces⟩
  · cases h
  · rw [written_cons, fragment_plain] at h
    split at h
    · obtain ⟨rfl, -⟩ := List.cons.inj h
      cases hc
    · obtain ⟨rfl, rfl⟩ := List.cons.inj h
      exact ⟨pieces, rfl, rfl⟩
  · have hfirst : ∃ d u, form.fragment = d :: u ∧ isNameChar d = false := by
      cases form <;> exact ⟨_, _, rfl, rfl⟩
    obtain ⟨d, u, hform, hd⟩ := hfirst
    rw [written_cons, pieceItem, form.fragment_item, hform] at h
    obtain ⟨rfl, -⟩ := List.cons.inj h
    rw [hd] at hc
    cases hc

/-- So are all name characters up to the first that is none. -/
theorem plain_of_prefix {u : List Char} (hu : ∀ c ∈ u, isNameChar c = true)
    {pieces : List (Piece Form)} (h : u <+: written pieces) :
    ∃ rest, pieces = u.map .plain ++ rest ∧ written pieces = u ++ written rest := by
  induction u generalizing pieces with
  | nil => exact ⟨pieces, rfl, rfl⟩
  | cons c u ih =>
    obtain ⟨s, hs⟩ := h
    obtain ⟨tail, rfl, htail⟩ := written_eq_cons hs.symm (hu c List.mem_cons_self)
    have hpre : u <+: written tail := ⟨s, htail⟩
    obtain ⟨rest, rfl, hrest⟩ := ih (fun d hd => hu d (List.mem_cons_of_mem _ hd)) hpre
    refine ⟨rest, rfl, ?_⟩
    exact hs.symm.trans (congrArg (c :: ·) (htail.trans hrest))

/-- Within a piece that no stand-in begins with, none begins. -/
theorem silent_piece {form : Form} {piece : Piece Form} {pieces : List (Piece Form)}
    (h : ¬ form.standIn <+: written (piece :: pieces)) :
    Silent (swapping form.standIn form.fragment) (pieceItem piece).fragment (written pieces) := by
  cases piece with
  | found other =>
    rw [pieceItem, other.fragment_item]
    exact silent_fragment form other _
  | plain c =>
    have hnone : ∀ d s, isNameChar d = false →
        swapping form.standIn form.fragment (d :: s) = none := by
      intro d s hd
      refine swapping_eq_none ?_
      intro hpre
      obtain ⟨e, u, hu⟩ := List.exists_cons_of_ne_nil (standIn_ne form)
      have he := standIn_chars form e (hu ▸ List.mem_cons_self)
      rw [hu] at hpre
      rw [(List.cons_prefix_cons.mp hpre).1, hd] at he
      cases he
    rw [written_cons] at h
    rw [fragment_plain] at h ⊢
    split
    · next hmeta =>
      exact ⟨hnone _ _ rfl, hnone _ _ (isNameChar_of_isMeta hmeta), trivial⟩
    · next hmeta =>
      rw [if_neg hmeta] at h
      exact ⟨swapping_eq_none h, trivial⟩

/-- A pass that gives the stand-ins of a form their meaning leaves a row of pieces. -/
theorem restore_written (form : Form) (pieces : List (Piece Form)) :
    ∃ others, form.restore (written pieces) = written others := by
  show ∃ others, substitute (swapping form.standIn form.fragment) _ = _
  induction hlength : pieces.length using Nat.strongRecOn generalizing pieces with
  | ind n ih =>
    subst hlength
    rcases pieces with _ | ⟨piece, pieces⟩
    · exact ⟨[], rfl⟩
    · by_cases hpre : form.standIn <+: written (piece :: pieces)
      · obtain ⟨rest, hrow, hwritten⟩ := plain_of_prefix (standIn_chars form) hpre
        have hshorter : rest.length < (piece :: pieces).length := by
          have hpos := List.length_pos_iff.mpr (standIn_ne form)
          rw [hrow, List.length_append, List.length_map]
          omega
        obtain ⟨others, hothers⟩ := ih _ hshorter rest rfl
        have hfound : swapping form.standIn form.fragment (form.standIn ++ written rest) =
            some (form.fragment, form.standIn.length) :=
          if_pos (List.isPrefixOf_iff_prefix.mpr (List.prefix_append _ _))
        refine ⟨.found form :: others, ?_⟩
        rw [hwritten, substitute_append_of_some (standIn_ne form) hfound, hothers, written_cons,
          pieceItem, form.fragment_item]
      · obtain ⟨others, hothers⟩ := ih _ (Nat.lt_succ_self _) pieces rfl
        refine ⟨piece :: others, ?_⟩
        rw [written_cons, substitute_append_of_silent (silent_piece hpre), hothers, written_cons]

/-- Whatever a template is, its body is a row of pieces. -/
theorem body_eq_written (s : List Char) : ∃ pieces, body s = written pieces := by
  have hall : ∀ (forms : List Form) (pieces : List (Piece Form)),
      ∃ others, forms.foldl (fun s form => form.restore s) (written pieces) = written others := by
    intro forms
    induction forms with
    | nil => exact fun pieces => ⟨pieces, rfl⟩
    | cons form forms ih =>
      intro pieces
      obtain ⟨others, hothers⟩ := restore_written form pieces
      rw [List.foldl_cons, hothers]
      exact ih others
  rw [body, ← written_plain]
  exact hall _ _

end RouteDispatch.Template
