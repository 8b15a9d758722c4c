/-
# Readings of a request

A reading forgets how a request was cut and keeps what is asked of a cutting: the
text, and the values of its parts.  Readings are put together as the items are: a
reading of a row of items is a reading of its first half followed by one of
the rest (`reads_append`), and single items have few of them.

Where a request has only one list of values in all of its readings, the matcher
gives that list, whatever it prefers (`captures_of_reads`).
-/
import RouteDispatch.Proofs.Template.Captures

namespace RouteDispatch.Template

open Regex

/-- The text can be cut for the items in such a way that their parts have these values. -/
def Reads (items : List Item) (text : List Char) (values : List (Option String)) : Prop :=
  ∃ slices, Cuts items slices text ∧ valuesOf items slices = values

/-! ## Rows of items -/

theorem takeAll_append {first second : List Item} {slices : List Slice} :
    TakeAll (first ++ second) slices ↔
      ∃ front back, slices = front ++ back ∧ TakeAll first front ∧ TakeAll second back := by
  induction first generalizing slices with
  | nil =>
    constructor
    · exact fun h => ⟨[], slices, rfl, trivial, h⟩
    · rintro ⟨front, back, rfl, hfront, hback⟩
      cases front with
      | nil => exact hback
      | cons s front => exact hfront.elim
  | cons item first ih =>
    cases slices with
    | nil =>
      refine ⟨fun h => h.elim, ?_⟩
      rintro ⟨front, back, hsplit, hfront, -⟩
      obtain ⟨rfl, -⟩ := List.append_eq_nil_iff.mp hsplit.symm
      exact hfront.elim
    | cons s slices =>
      constructor
      · rintro ⟨hs, hslices⟩
        obtain ⟨front, back, rfl, hfront, hback⟩ := ih.mp hslices
        exact ⟨s :: front, back, rfl, ⟨hs, hfront⟩, hback⟩
      · rintro ⟨front, back, hsplit, hfront, hback⟩
        cases front with
        | nil => exact hfront.elim
        | cons u front =>
          obtain ⟨rfl, rfl⟩ := List.cons.inj hsplit
          exact ⟨hfront.1, ih.mpr ⟨front, back, rfl, hfront.2, hback⟩⟩

theorem valuesOf_append {first : List Item} {front : List Slice} (h : TakeAll first front)
    (second : List Item) (back : List Slice) :
    valuesOf (first ++ second) (front ++ back) = valuesOf first front ++ valuesOf second back := by
  induction first generalizing front with
  | nil =>
    cases front with
    | nil => rfl
    | cons s front => exact h.elim
  | cons item first ih =>
    cases front with
    | nil => exact h.elim
    | cons s front =>
      have hrest := ih h.2
      cases item with
      | part p => exact congrArg (s.value.map String.ofList :: ·) hrest
      | text t => exact hrest
      | slash mayMiss written => exact hrest

/-- A row is read half by half. -/
theorem reads_append {first second : List Item} {text : List Char}
    {values : List (Option String)} :
    Reads (first ++ second) text values ↔
      ∃ t u v w, text = t ++ u ∧ values = v ++ w ∧ Reads first t v ∧ Reads second u w := by
  constructor
  · rintro ⟨slices, ⟨hall, rfl⟩, rfl⟩
    obtain ⟨front, back, rfl, hfront, hback⟩ := takeAll_append.mp hall
    exact ⟨_, _, _, _, List.flatMap_append, valuesOf_append hfront second back,
      ⟨front, ⟨hfront, rfl⟩, rfl⟩, ⟨back, ⟨hback, rfl⟩, rfl⟩⟩
  · rintro ⟨-, -, -, -, rfl, rfl, ⟨front, ⟨hfront, rfl⟩, rfl⟩, ⟨back, ⟨hback, rfl⟩, rfl⟩⟩
    exact ⟨front ++ back, ⟨takeAll_append.mpr ⟨front, back, rfl, hfront, hback⟩,
      List.flatMap_append⟩, valuesOf_append hfront second back⟩

theorem reads_nil {text : List Char} {values : List (Option String)} :
    Reads [] text values ↔ text = [] ∧ values = [] := by
  constructor
  · rintro ⟨slices, ⟨hall, rfl⟩, rfl⟩
    cases slices with
    | nil => exact ⟨rfl, rfl⟩
    | cons s slices => exact hall.elim
  · rintro ⟨rfl, rfl⟩
    exact ⟨[], ⟨trivial, rfl⟩, rfl⟩

/-! ## Single items -/

theorem reads_singleton {item : Item} {text : List Char} {values : List (Option String)} :
    Reads [item] text values ↔
      ∃ s, item.Takes s ∧ text = s.text ∧ values = valuesOf [item] [s] := by
  constructor
  · rintro ⟨slices, ⟨hall, rfl⟩, rfl⟩
    rcases slices with _ | ⟨s, _ | ⟨u, slices⟩⟩
    · exact hall.elim
    · exact ⟨s, hall.1, List.append_nil _, rfl⟩
    · exact hall.2.elim
  · rintro ⟨s, hs, rfl, rfl⟩
    exact ⟨[s], ⟨⟨hs, trivial⟩, List.append_nil _⟩, rfl⟩

theorem reads_text {t text : List Char} {values : List (Option String)} :
    Reads [.text t] text values ↔ text = t ∧ values = [] := by
  rw [reads_singleton]
  constructor
  · rintro ⟨s, rfl, rfl, rfl⟩
    exact ⟨List.append_nil t, rfl⟩
  · rintro ⟨rfl, rfl⟩
    exact ⟨{ before := text }, rfl, (List.append_nil text).symm, rfl⟩

theorem reads_slash {mayMiss : Bool} {written text : List Char} {values : List (Option String)} :
    Reads [.slash mayMiss written] text values ↔
      (text = ['/'] ∨ (mayMiss = true ∧ text = [])) ∧ values = [] := by
  rw [reads_singleton]
  constructor
  · rintro ⟨s, rfl | ⟨hmiss, rfl⟩, rfl, rfl⟩
    · exact ⟨Or.inl rfl, rfl⟩
    · exact ⟨Or.inr ⟨hmiss, rfl⟩, rfl⟩
  · rintro ⟨rfl | ⟨hmiss, rfl⟩, rfl⟩
    · exact ⟨{ before := ['/'] }, Or.inl rfl, rfl, rfl⟩
    · exact ⟨{}, Or.inr ⟨hmiss, rfl⟩, rfl, rfl⟩

/-- A required segment is read as its value. -/
theorem reads_segment {p : Part} (hreach : p.reach = .segment) (hrequired : p.required = true)
    {text : List Char} {values : List (Option String)} :
    Reads [.part p] text values ↔
      Reach.segment.Admits text ∧ values = [some (.ofList text)] := by
  rw [reads_singleton]
  constructor
  · rintro ⟨s, hs, rfl, rfl⟩
    obtain ⟨v, hv, rfl⟩ := (Part.takes_segment_iff ⟨hreach, hrequired⟩).mp hs
    rw [Slice.text_value]
    exact ⟨hv, rfl⟩
  · rintro ⟨hv, rfl⟩
    exact ⟨{ value := some text }, (Part.takes_segment_iff ⟨hreach, hrequired⟩).mpr ⟨text, hv, rfl⟩,
      (Slice.text_value text).symm, rfl⟩

/-! ## What the matcher gives -/

theorem isMatch_of_captures? {re : Regex} {request : String} {values : List (Option String)}
    (h : re.captures? request = some values) : re.isMatch request = true := by
  rw [captures?] at h
  obtain ⟨trail, htrail, -⟩ := Option.map_eq_some_iff.mp h
  rw [isMatch, htrail]
  rfl

/-- The matcher gives the values of a reading that has no rival. -/
theorem captures_of_reads {mode : SlashMode} {t : Plain} (h : t.text ≠ []) {re : Regex}
    (hcompile : compile mode (.ofList t.text) = .ok re) {text : List Char}
    {values : List (Option String)} (hreads : Reads (t.requestItems mode) text values)
    (hunique : ∀ others, Reads (t.requestItems mode) text others → others = values) :
    re.captures? (.ofList text) = some values := by
  have hcases := captures?_cases (expr_of_plain h hcompile) (.ofList text)
  rw [String.toList_ofList] at hcases
  rcases hcases with ⟨slices, hbest, hvalues⟩ | ⟨hnone, -⟩
  · rw [hvalues, hunique _ ⟨slices, hbest.1, rfl⟩]
  · obtain ⟨slices, hcuts, -⟩ := hreads
    exact (hnone slices hcuts).elim

end RouteDispatch.Template
