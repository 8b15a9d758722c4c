/-
# Taking slices one after the other

What the best cutting of a text comes to can be told from behind (`Gives`): if the
items that follow give their values for the rest of a text, then with one more item
in front, and a slice for it, so do they all.  All that is asked is that the item
has no longer slice from which it could go on (`gives_cons`).

There is one rule for each item.  Text and a slash that is written have one slice
only.  A slash that may be missing is taken if there is one.  A segment is taken up
to the next slash, and an optional one takes the slash as well.  How far a rest
reaches depends on what is behind it, so its rule keeps that condition
(`gives_rest`).
-/
import RouteDispatch.Proofs.Template.Optional

namespace RouteDispatch.Template

open Regex

/-- The values of the best cutting of the text. -/
def Gives (items : List Item) (text : List Char) (values : List (Option String)) : Prop :=
  ∃ slices, CutsBest items slices text ∧ valuesOf items slices = values

/-- The matcher of a plain template has the values that are given. -/
theorem Gives.captures {mode : SlashMode} {t : Plain} {text : List Char}
    {values : List (Option String)} (h : Gives (t.requestItems mode) text values) :
    (t.regex mode).captures? (.ofList text) = some values := by
  obtain ⟨slices, hbest, rfl⟩ := h
  exact captures?_of_best (t.expr_regex mode) hbest

section
variable {items : List Item} {rest : List Char} {values : List (Option String)}

/-- A slice that cannot be exchanged for one as long is the first one of the best cutting. -/
theorem gives_cons {item : Item} {s : Slice} (hs : item.Takes s) (h : Gives items rest values)
    (hlongest : ∀ s' rest', item.Takes s' → s'.text ++ rest' = s.text ++ rest →
      (∃ slices, Cuts items slices rest') → s.text.length ≤ s'.text.length → s' = s) :
    Gives (item :: items) (s.text ++ rest) (valuesOf [item] [s] ++ values) := by
  obtain ⟨back, hbest, rfl⟩ := h
  have hfirst := cuts_singleton hs
  refine ⟨s :: back, ⟨hfirst.append hbest.1, ?_⟩, valuesOf_append hfirst.1 items back⟩
  intro others hothers
  obtain ⟨s', others, rfl⟩ := hothers.exists_cons
  obtain ⟨⟨hs', hall⟩, htext⟩ := hothers
  rw [List.flatMap_cons] at htext
  by_cases hshort : s'.text.length < s.text.length
  · exact Or.inl hshort
  · obtain rfl := hlongest s' _ hs' htext ⟨others, hall, rfl⟩ (Nat.le_of_not_lt hshort)
    exact Or.inr ⟨rfl, hbest.2 _ ⟨hall, List.append_cancel_left htext⟩⟩

/-- Where there is no text left, no part has a value. -/
theorem gives_absent (h : ∃ slices, Cuts items slices []) :
    Gives items [] ((partsOf items).map fun _ => none) := by
  obtain ⟨cut, hcut⟩ := h
  obtain ⟨slices, hbest⟩ := exists_best hcut
  exact ⟨slices, hbest, values_of_slashes hbest.1 (List.forall_mem_nil _) (Or.inl rfl)⟩

/-! ## Text and slashes -/

theorem gives_text (s : List Char) (h : Gives items rest values) :
    Gives (.text s :: items) (s ++ rest) values := by
  have htakes : (Item.text s).Takes { before := s } := rfl
  have hgives := gives_cons htakes h fun s' rest' hs' _ _ _ => hs'
  rwa [Slice.text_before] at hgives

theorem gives_slash (written : List Char) (h : Gives items rest values) :
    Gives (.slash false written :: items) ('/' :: rest) values := by
  have htakes : (Item.slash false written).Takes { before := ['/'] } := Or.inl rfl
  refine gives_cons htakes h ?_
  intro s' rest' hs' _ _ _
  refine hs'.resolve_right ?_
  rintro ⟨hmiss, -⟩
  cases hmiss

/-- A slash that may be missing is taken if it is there. -/
theorem gives_slash_taken (written : List Char) (h : Gives items rest values) :
    Gives (.slash true written :: items) ('/' :: rest) values := by
  obtain ⟨slices, hbest, rfl⟩ := h
  exact ⟨_, hbest.with_lead written, rfl⟩

theorem gives_slash_missing (written : List Char) (h : Gives items rest values)
    (hhead : rest.head? ≠ some '/') : Gives (.slash true written :: items) rest values := by
  obtain ⟨slices, hbest, rfl⟩ := h
  exact ⟨_, hbest.without_lead written hhead, rfl⟩

end

/-! ## Segments -/

section
variable {items : List Item} {p : Part} {x rest : List Char} {values : List (Option String)}

theorem head?_of_admits (hx : Reach.segment.Admits x) (rest : List Char) :
    (x ++ rest).head? ≠ some '/' := by
  obtain ⟨c, u, rfl, hc⟩ := hx.exists_cons
  exact fun h => hc (Option.some.inj h)

/-- A required segment takes all up to the next slash. -/
theorem gives_segment (hp : p.reach = .segment ∧ p.required = true)
    (hx : Reach.segment.Admits x) (hrest : rest = [] ∨ ∃ u, rest = '/' :: u)
    (h : Gives items rest values) :
    Gives (.part p :: items) (x ++ rest) (some (.ofList x) :: values) := by
  have htakes : (Item.part p).Takes { value := some x } :=
    (Part.takes_segment_iff hp).mpr ⟨x, hx, rfl⟩
  have hgives := gives_cons htakes h ?_
  · rwa [Slice.text_value] at hgives
  · intro s' rest' hs' htext _ hlong
    obtain ⟨w, hw, rfl⟩ := (Part.takes_segment_iff hp).mp hs'
    rw [Slice.text_value, Slice.text_value] at htext hlong
    have hpre : w ++ [] <+: x ++ rest := ⟨rest', by rw [List.append_nil, htext]⟩
    rw [segment_eq_of_long hx hw (Or.inl rfl) hrest hpre (by rwa [List.append_nil])]

/-- An optional segment takes all up to the next slash, and the slash. -/
theorem gives_optional (hp : p.reach = .segment ∧ p.required = false)
    (hx : Reach.segment.Admits x) {slash : List Char}
    (hslash : slash = [] ∧ rest = [] ∨ slash = ['/']) (h : Gives items rest values) :
    Gives (.part p :: items) (x ++ (slash ++ rest)) (some (.ofList x) :: values) := by
  have htakes : (Item.part p).Takes { value := some x, after := slash } :=
    (Part.takes_optional_iff hp).mpr ⟨slash, hslash.imp_left And.left, Or.inr ⟨x, hx, rfl⟩⟩
  have hgives := gives_cons htakes h ?_
  · rwa [show (⟨[], some x, slash⟩ : Slice).text = x ++ slash from rfl, List.append_assoc] at hgives
  · intro s' rest' hs' htext _ hlong
    have hbehind : slash ++ rest = [] ∨ ∃ u, slash ++ rest = '/' :: u := by
      rcases hslash with ⟨rfl, rfl⟩ | rfl
      · exact Or.inl rfl
      · exact Or.inr ⟨rest, rfl⟩
    rw [show (⟨[], some x, slash⟩ : Slice).text = x ++ slash from rfl] at htext hlong
    rw [List.append_assoc] at htext
    have hlongest := value_of_longest hp hx hbehind hs' ⟨rest', htext⟩
      (Nat.le_trans (by simp) hlong)
    obtain ⟨slash', hslash', rfl | ⟨w, hw, rfl⟩⟩ := (Part.takes_optional_iff hp).mp hs'
    · cases hlongest.1
    · obtain rfl : w = x := Option.some.inj hlongest.1
      rw [show (⟨[], some w, slash'⟩ : Slice).text = w ++ slash' from rfl] at htext hlong
      rw [List.append_assoc, List.append_right_inj] at htext
      have hsame : slash' = slash := by
        rcases hslash with ⟨rfl, rfl⟩ | rfl
        · exact (List.append_eq_nil_iff.mp htext).1
        · refine hslash'.resolve_left ?_
          rintro rfl
          exact absurd hlong (by simp)
      rw [hsame]

end

/-! ## Rests -/

section
variable {items : List Item} {p : Part} {v rest : List Char} {values : List (Option String)}

/-- A rest takes as much as leaves something to go on with. -/
theorem gives_rest (hp : p.reach = .rest) (hv : Reach.rest.Admits v)
    (hlongest : ∀ w rest', w ++ rest' = v ++ rest → (∃ slices, Cuts items slices rest') →
      v.length ≤ w.length → w = v) (h : Gives items rest values) :
    Gives (.part p :: items) (v ++ rest) (some (.ofList v) :: values) := by
  have htakes : (Item.part p).Takes { value := some v } :=
    (Part.takes_rest_iff hp).mpr (Or.inr ⟨v, hv, rfl⟩)
  have hgives := gives_cons htakes h ?_
  · rwa [Slice.text_value] at hgives
  · intro s' rest' hs' htext hgo hlong
    rcases (Part.takes_rest_iff hp).mp hs' with ⟨-, rfl⟩ | ⟨w, hw, rfl⟩
    · rw [Slice.text_value] at hlong
      exact absurd (List.length_pos_iff.mpr hv.1) (Nat.not_lt.mpr hlong)
    · rw [Slice.text_value, Slice.text_value] at htext hlong
      rw [hlongest w rest' htext hgo hlong]

end

end RouteDispatch.Template
