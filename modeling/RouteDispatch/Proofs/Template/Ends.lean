/-
# Slashes at the ends of a template

A slash at the start or at the end of a template is in no part and in no
separator: all of these begin with another character and end with a delimiter.
So no pass touches it, whatever the template (`body_slash`, `body_concat_slash`).
-/
import RouteDispatch.Proofs.Template.Pieces

namespace RouteDispatch.Template

open Text

/-! ## Rules and slashes -/

/-- What opens a part does not reach to a slash behind it. -/
structure Opener (start? : List Char → Option (List Char)) : Prop where
  slash : ∀ s, start? ('/' :: s) = none
  concat : ∀ s, start? (s ++ ['/']) = start? s
  fits : ∀ {s start}, start? s = some start → start.length ≤ s.length

theorem opener_optional : Opener optionalStart? where
  slash _ := rfl
  concat s := by
    rcases s with _ | ⟨c, s⟩
    · rfl
    · by_cases hcolon : c = ':'
      · rw [hcolon]
        rfl
      · by_cases hbrace : c = '{'
        · rw [hbrace]
          rcases s with _ | ⟨d, s⟩
          · rfl
          · by_cases hquery : d = '?'
            · rw [hquery]
              rfl
            · simp [optionalStart?, hquery]
        · simp [optionalStart?, hcolon, hbrace]
  fits := by
    intro s start h
    unfold optionalStart? at h
    split at h <;> cases h <;> simp

theorem opener_required : Opener requiredStart? where
  slash _ := rfl
  concat s := by
    rcases s with _ | ⟨c, s⟩
    · rfl
    · by_cases hbrace : c = '{'
      · rw [hbrace]
        rfl
      · simp [requiredStart?, hbrace]
  fits := by
    intro s start h
    unfold requiredStart? at h
    split at h <;> cases h
    simp

theorem Opener.nil {start? : List Char → Option (List Char)} (h : Opener start?) :
    start? [] = none := (h.concat []).symm.trans (h.slash [])

theorem ignores_betweenParts {start? : List Char → Option (List Char)} (h : Opener start?)
    (standIn : List Char) : Ignores (betweenParts start? standIn) '/' where
  head s := betweenParts_of_head start? standIn s (by decide) (by decide)
  last c s := by
    simp only [List.cons_append, betweenParts]
    split
    · rcases s with _ | ⟨d, s⟩
      · simp [h.nil]
      · by_cases hslash : d = '/'
        · rw [hslash]
          simp only [List.cons_append, h.concat]
        · have hconcat := h.concat (d :: s)
          rw [List.cons_append] at hconcat
          simp [hslash, hconcat]
    · rfl
  fits := by
    intro s a n hfound
    rcases s with _ | ⟨c, s⟩
    · cases hfound
    · simp only [betweenParts] at hfound
      split at hfound
      · obtain ⟨start, hstart, heq⟩ := Option.map_eq_some_iff.mp hfound
        have hfits := h.fits hstart
        cases heq
        split at hfits <;> simp at hfits ⊢ <;> omega
      · cases hfound

theorem ignores_afterText {start? : List Char → Option (List Char)} (h : Opener start?)
    (standIn : List Char) : Ignores (afterText start? standIn) '/' where
  head s := by
    rcases s with _ | ⟨c, s⟩
    · rfl
    · by_cases hslash : c = '/'
      · rw [hslash]
        rfl
      · simp [afterText, hslash]
  last c s := by
    rcases s with _ | ⟨d, s⟩
    · simp [afterText, h.nil]
    · by_cases hslash : d = '/'
      · rw [hslash]
        simp only [List.cons_append, afterText, h.concat]
      · simp [afterText, hslash]
  fits := by
    intro s a n hfound
    unfold afterText at hfound
    split at hfound
    · split at hfound
      · obtain ⟨start, hstart, heq⟩ := Option.map_eq_some_iff.mp hfound
        have hfits := h.fits hstart
        cases heq
        simp only [List.length_cons]
        omega
      · cases hfound
    · cases hfound

/-- What is enclosed ends with its stop, so a slash behind that is not in it. -/
theorem ignores_enclosed {opening : List Char} {stop : Char} (hne : opening ≠ [])
    (hopening : '/' ∉ opening) (hstop : '/' ≠ stop) : Ignores (enclosed opening stop) '/' where
  head s := by
    refine enclosed_eq_none ?_
    obtain ⟨c, u, rfl⟩ := List.exists_cons_of_ne_nil hne
    have hc : c ≠ '/' := fun heq => hopening (heq ▸ List.mem_cons_self)
    simp [List.isPrefixOf, hc]
  last c s := by
    unfold enclosed
    rw [isPrefixOf_concat hopening]
    split
    · next hpre =>
      have hle := (List.isPrefixOf_iff_prefix.mp hpre).length_le
      rw [List.drop_append_of_le_length hle, upTo?_concat (by simpa using hstop)]
    · rfl
  fits := by
    intro s a n hfound
    unfold enclosed at hfound
    split at hfound
    · next hpre =>
      have hle := (List.isPrefixOf_iff_prefix.mp hpre).length_le
      split at hfound
      · next name hname =>
        obtain ⟨d, rest, hdrop, -, -⟩ := upTo?_eq_some hname
        have hlength := congrArg List.length hdrop
        rw [List.length_drop, List.length_append, List.length_cons] at hlength
        split at hfound
        · cases hfound
        · cases hfound
          omega
      · cases hfound
    · cases hfound

theorem ignores_starred {opening : List Char} {stop : Char}
    (h : Ignores (enclosed opening stop) '/') : Ignores (starred opening stop) '/' where
  head s := by simp only [starred, h.head]
  last c s := by simp only [starred, h.last]
  fits := by
    intro s a n hfound
    unfold starred at hfound
    split at hfound
    · next name n' henclosed =>
      split at hfound
      · cases hfound
        exact h.fits henclosed
      · cases hfound
    · cases hfound

/-- No form has to do with a slash at the start or at the end of a text. -/
theorem ignores_rule (form : Form) : Ignores form.rule '/' := by
  have hmark : ∀ opening stop, opening ≠ [] → '/' ∉ opening → '/' ≠ stop →
      Ignores (fun s => (enclosed opening stop s).map fun p => (form.standIn, p.2)) '/' := by
    intro opening stop hne hopening hstop
    exact (ignores_enclosed hne hopening hstop).map fun _ => form.standIn
  have hstarred : ∀ opening stop, opening ≠ [] → '/' ∉ opening → '/' ≠ stop →
      Ignores (fun s => (starred opening stop s).map fun p => (form.standIn, p.2)) '/' := by
    intro opening stop hne hopening hstop
    exact (ignores_starred (ignores_enclosed hne hopening hstop)).map fun _ => form.standIn
  cases form with
  | optionalSlash =>
    exact (ignores_betweenParts opener_optional _).orElse (ignores_afterText opener_optional _)
  | requiredSlash => exact ignores_betweenParts opener_required _
  | requiredQuery => exact hmark _ _ (by decide) (by decide) (by decide)
  | optionalQuery => exact hmark _ _ (by decide) (by decide) (by decide)
  | optionalRest => exact hstarred _ _ (by decide) (by decide) (by decide)
  | requiredRest => exact hstarred _ _ (by decide) (by decide) (by decide)
  | requiredParam => exact hmark _ _ (by decide) (by decide) (by decide)
  | optionalParam => exact hmark _ _ (by decide) (by decide) (by decide)

theorem ignores_swapping (form : Form) : Ignores (swapping form.standIn form.fragment) '/' := by
  have hslash : '/' ∉ form.standIn := fun hin => absurd (standIn_chars form _ hin) (by decide)
  refine ⟨?_, ?_, ?_⟩
  · intro s
    refine swapping_eq_none ?_
    intro hpre
    obtain ⟨c, u, hu⟩ := List.exists_cons_of_ne_nil (standIn_ne form)
    rw [hu] at hpre hslash
    exact hslash ((List.cons_prefix_cons.mp hpre).1 ▸ List.mem_cons_self)
  · intro d s
    rw [swapping, swapping, isPrefixOf_concat hslash]
  · intro s a n hfound
    unfold swapping at hfound
    split at hfound
    · next hpre =>
      cases hfound
      exact (List.isPrefixOf_iff_prefix.mp hpre).length_le
    · cases hfound

/-! ## The body of a template -/

/-- What every pass leaves in its place, the body of a template has in its place. -/
theorem body_comm (put : List Char → List Char)
    (hsave : ∀ (s : List Char) (form : Form), form.save (put s) = put (form.save s))
    (hescape : ∀ s, escape (put s) = put (escape s))
    (hrestore : ∀ (s : List Char) (form : Form), form.restore (put s) = put (form.restore s))
    (s : List Char) : body (put s) = put (body s) := by
  simp only [body]
  rw [List.foldl_hom put hsave, hescape, List.foldl_hom put hrestore]

theorem body_slash (s : List Char) : body ('/' :: s) = '/' :: body s := by
  refine body_comm ('/' :: ·) ?_ ?_ ?_ s
  · exact fun s form => (ignores_rule form).substitute_cons s
  · exact fun s => escape_cons '/' s
  · exact fun s form => (ignores_swapping form).substitute_cons s

theorem body_concat_slash (s : List Char) : body (s ++ ['/']) = body s ++ ['/'] := by
  refine body_comm (· ++ ['/']) ?_ ?_ ?_ s
  · exact fun s form => (ignores_rule form).substitute_concat s
  · exact fun s => escape_append s ['/']
  · exact fun s form => (ignores_swapping form).substitute_concat s

end RouteDispatch.Template
