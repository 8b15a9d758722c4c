/-
# Best cuttings, and slashes at the ends

The best cutting of a text is best from any of its slices on (`CutsBest.behind`), and
that is how it is followed through a row of items.

Between two requests that differ in a slash at one end, the best cutting carries over
as long as nothing but that slash is cut in another way.  At the front this is so if
what is behind does not begin with a slash (`CutsBest.without_lead`), as a slash at
the front is preferred anyway.  At the end it is so if the items before the slash
cannot take it in (`CutsBest.with_trail`), and if none of them is left with a
slash to give away (`CutsBest.without_trail`).
-/
import RouteDispatch.Proofs.Template.Readings

namespace RouteDispatch.Template

open Regex

/-! ## Preference among rows -/

theorem prefers_append_left (front : List Slice) {slices others : List Slice} :
    Prefers (front ++ slices) (front ++ others) ↔ Prefers slices others := by
  induction front with
  | nil => exact Iff.rfl
  | cons s front ih =>
    constructor
    · intro h
      exact ih.mp (h.resolve_left (Nat.lt_irrefl _)).2
    · exact fun h => Or.inr ⟨rfl, ih.mpr h⟩

theorem Prefers.of_append {front front' back back' : List Slice}
    (hlength : front.length = front'.length) (h : Prefers (front ++ back) (front' ++ back')) :
    Prefers front front' := by
  induction front generalizing front' with
  | nil =>
    cases front' <;> trivial
  | cons s front ih =>
    obtain ⟨u, front', rfl⟩ := List.exists_cons_of_length_eq_add_one hlength.symm
    rcases h with hlt | ⟨heq, h⟩
    · exact Or.inl hlt
    · exact Or.inr ⟨heq, ih (Nat.succ.inj hlength) h⟩

theorem Prefers.append {front front' back back' : List Slice}
    (hlength : front.length = front'.length) (h : Prefers front front')
    (hback : front = front' → Prefers back back') :
    Prefers (front ++ back) (front' ++ back') := by
  induction front generalizing front' with
  | nil =>
    obtain rfl := List.length_eq_zero_iff.mp hlength.symm
    exact hback rfl
  | cons s front ih =>
    obtain ⟨u, front', rfl⟩ := List.exists_cons_of_length_eq_add_one hlength.symm
    rcases h with hlt | ⟨rfl, h⟩
    · exact Or.inl hlt
    · refine Or.inr ⟨rfl, ih (Nat.succ.inj hlength) h ?_⟩
      rintro rfl
      exact hback rfl

theorem TakeAll.length_eq {items : List Item} {slices : List Slice} (h : TakeAll items slices) :
    slices.length = items.length := by
  induction items generalizing slices with
  | nil =>
    cases slices with
    | nil => rfl
    | cons s slices => exact h.elim
  | cons item items ih =>
    cases slices with
    | nil => exact h.elim
    | cons s slices => exact congrArg (· + 1) (ih h.2)

/-! ## Best cuttings -/

/-- The matcher gives the values of the best cutting. -/
theorem captures_of_best {mode : SlashMode} {t : Plain} (h : t.text ≠ []) {re : Regex}
    (hcompile : compile mode (.ofList t.text) = .ok re) {slices : List Slice} {text : List Char}
    (hbest : CutsBest (t.requestItems mode) slices text) :
    re.captures? (.ofList text) = some (valuesOf (t.requestItems mode) slices) :=
  captures?_of_best (expr_of_plain h hcompile) hbest

theorem Cuts.append {first second : List Item} {front back : List Slice} {text text' : List Char}
    (h : Cuts first front text) (h' : Cuts second back text') :
    Cuts (first ++ second) (front ++ back) (text ++ text') :=
  ⟨takeAll_append.mpr ⟨front, back, rfl, h.1, h'.1⟩, by
    rw [List.flatMap_append, h.2, h'.2]⟩

/-- A row is cut half by half. -/
theorem cuts_append {first second : List Item} {slices : List Slice} {text : List Char}
    (h : Cuts (first ++ second) slices text) :
    ∃ front back u v, slices = front ++ back ∧ text = u ++ v ∧ Cuts first front u ∧
      Cuts second back v := by
  obtain ⟨hall, rfl⟩ := h
  obtain ⟨front, back, rfl, hfront, hback⟩ := takeAll_append.mp hall
  exact ⟨front, back, _, _, rfl, List.flatMap_append, ⟨hfront, rfl⟩, ⟨hback, rfl⟩⟩

/-- A best cutting is best from any of its slices on. -/
theorem CutsBest.behind {first second : List Item} {front back : List Slice} {u v : List Char}
    (hfront : Cuts first front u) (hback : Cuts second back v)
    (h : CutsBest (first ++ second) (front ++ back) (u ++ v)) : CutsBest second back v :=
  ⟨hback, fun _ hothers =>
    (prefers_append_left front).mp (h.2 _ (hfront.append hothers))⟩

theorem cuts_singleton {item : Item} {s : Slice} (hs : item.Takes s) : Cuts [item] [s] s.text :=
  ⟨⟨hs, trivial⟩, List.append_nil _⟩

/-- Behind its first slice a best cutting is the best one of the rest. -/
theorem CutsBest.uncons {item : Item} {items : List Item} {slices : List Slice} {text : List Char}
    (h : CutsBest (item :: items) slices text) :
    ∃ s back rest, slices = s :: back ∧ text = s.text ++ rest ∧ item.Takes s ∧
      CutsBest items back rest := by
  obtain ⟨s, back, rfl⟩ := h.1.exists_cons
  obtain ⟨⟨hs, hback⟩, rfl⟩ := h.1
  exact ⟨s, back, _, rfl, List.flatMap_cons, hs, CutsBest.behind (cuts_singleton hs) ⟨hback, rfl⟩ h⟩

/-! ## A slash at the front -/

theorem cuts_slash_cons {mayMiss : Bool} {written : List Char} {items : List Item}
    {slices : List Slice} {text : List Char}
    (h : Cuts (.slash mayMiss written :: items) slices text) :
    (∃ rest text', slices = { before := ['/'] } :: rest ∧ text = '/' :: text' ∧
        Cuts items rest text') ∨
      mayMiss = true ∧ ∃ rest, slices = {} :: rest ∧ Cuts items rest text := by
  obtain ⟨s, rest, rfl⟩ := h.exists_cons
  obtain ⟨⟨hs, hrest⟩, rfl⟩ := h
  rcases hs with rfl | ⟨hmiss, rfl⟩
  · exact Or.inl ⟨rest, _, rfl, rfl, hrest, rfl⟩
  · exact Or.inr ⟨hmiss, rest, rfl, hrest, rfl⟩

theorem CutsBest.with_lead {items : List Item} {slices : List Slice} {text : List Char}
    (written : List Char) (h : CutsBest items slices text) :
    CutsBest (.slash true written :: items) ({ before := ['/'] } :: slices) ('/' :: text) := by
  refine ⟨⟨⟨Or.inl rfl, h.1.1⟩, ?_⟩, ?_⟩
  · rw [List.flatMap_cons, h.1.2]
    rfl
  · intro others hothers
    rcases cuts_slash_cons hothers with ⟨rest, text', rfl, htext, hrest⟩ | ⟨-, rest, rfl, -⟩
    · obtain rfl := (List.cons.inj htext).2
      exact Or.inr ⟨rfl, h.2 _ hrest⟩
    · exact Or.inl (Nat.zero_lt_succ _)

theorem CutsBest.without_lead {items : List Item} {slices : List Slice} {text : List Char}
    (written : List Char) (h : CutsBest items slices text) (htext : text.head? ≠ some '/') :
    CutsBest (.slash true written :: items) ({} :: slices) text := by
  refine ⟨⟨⟨Or.inr ⟨rfl, rfl⟩, h.1.1⟩, h.1.2⟩, ?_⟩
  intro others hothers
  rcases cuts_slash_cons hothers with ⟨rest, text', -, rfl, -⟩ | ⟨-, rest, rfl, hrest⟩
  · exact absurd rfl htext
  · exact Or.inr ⟨rfl, h.2 _ hrest⟩

/-! ## A slash at the end -/

theorem cuts_slash {w : List Char} {slices : List Slice} {text : List Char} :
    Cuts [.slash true w] slices text ↔
      slices = [{ before := ['/'] }] ∧ text = ['/'] ∨ slices = [{}] ∧ text = [] := by
  constructor
  · intro h
    rcases cuts_slash_cons h with ⟨rest, text', rfl, rfl, hrest⟩ | ⟨-, rest, rfl, hrest⟩
    · cases rest with
      | nil => exact Or.inl ⟨rfl, congrArg ('/' :: ·) hrest.2.symm⟩
      | cons s rest => exact hrest.1.elim
    · cases rest with
      | nil => exact Or.inr ⟨rfl, hrest.2.symm⟩
      | cons s rest => exact hrest.1.elim
  · rintro (⟨rfl, rfl⟩ | ⟨rfl, rfl⟩)
    · exact ⟨⟨Or.inl rfl, trivial⟩, rfl⟩
    · exact ⟨⟨Or.inr ⟨rfl, rfl⟩, trivial⟩, rfl⟩

section
variable {items : List Item} {slices : List Slice} {text written : List Char}

/-- With a slash more, if the items before cannot take it in. -/
theorem CutsBest.with_trail (hcuts : Cuts items slices text)
    (h : CutsBest (items ++ [.slash true written]) (slices ++ [({} : Slice)]) text)
    (hfixed : ∀ others, ¬ Cuts items others (text ++ ['/'])) :
    CutsBest (items ++ [.slash true written]) (slices ++ [{ before := ['/'] }])
      (text ++ ['/']) := by
  refine ⟨hcuts.append (cuts_slash.mpr (Or.inl ⟨rfl, rfl⟩)), ?_⟩
  intro others hothers
  obtain ⟨front, back, u, v, rfl, htext, hfront, hback⟩ := cuts_append hothers
  rcases cuts_slash.mp hback with ⟨rfl, rfl⟩ | ⟨rfl, rfl⟩
  · obtain rfl := List.append_cancel_right htext
    have hothers' := hfront.append (cuts_slash (w := written).mpr (Or.inr ⟨rfl, rfl⟩))
    rw [List.append_nil] at hothers'
    have hlength : slices.length = front.length :=
      hcuts.1.length_eq.trans hfront.1.length_eq.symm
    have hprefers := (h.2 _ hothers').of_append hlength
    exact hprefers.append hlength fun _ => Or.inr ⟨rfl, trivial⟩
  · rw [List.append_nil] at htext
    exact (hfixed front (htext ▸ hfront)).elim

/-- With the slash left out, if the text before does not end in one. -/
theorem CutsBest.without_trail (hcuts : Cuts items slices text)
    (h : CutsBest (items ++ [.slash true written]) (slices ++ [{ before := ['/'] }])
      (text ++ ['/'])) (htext : text.getLast? ≠ some '/') :
    CutsBest (items ++ [.slash true written]) (slices ++ [({} : Slice)]) text := by
  have hself := hcuts.append (cuts_slash (w := written).mpr (Or.inr ⟨rfl, rfl⟩))
  rw [List.append_nil] at hself
  refine ⟨hself, ?_⟩
  intro others hothers
  obtain ⟨front, back, u, v, rfl, rfl, hfront, hback⟩ := cuts_append hothers
  rcases cuts_slash.mp hback with ⟨rfl, rfl⟩ | ⟨rfl, rfl⟩
  · rw [List.getLast?_concat] at htext
    exact absurd rfl htext
  · rw [List.append_nil] at h hcuts
    have hothers' := hfront.append (cuts_slash (w := written).mpr (Or.inl ⟨rfl, rfl⟩))
    have hlength : slices.length = front.length :=
      hcuts.1.length_eq.trans hfront.1.length_eq.symm
    have hprefers := (h.2 _ hothers').of_append hlength
    exact hprefers.append hlength fun _ => Or.inr ⟨rfl, trivial⟩

end

end RouteDispatch.Template
