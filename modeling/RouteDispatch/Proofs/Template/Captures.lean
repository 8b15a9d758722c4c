/-
# What the groups of a plain template hold

A request is matched if it can be cut at all.  Then the groups of the parts are where
they have their values in the best cutting (`places?_cases`), and hold these
values (`captures_of_plain`).
-/
import RouteDispatch.Proofs.Template.Places

namespace RouteDispatch.Template

open Regex

/-! ## Requests -/

/-- The source of a plain template has a fragment for every item of a request. -/
theorem sourceChars_requestItems (mode : SlashMode) (t : Plain) (h : t.text ≠ []) :
    sourceChars mode t.text =
      '^' :: ((t.requestItems mode).flatMap Item.fragment ++ ['$']) := by
  rw [sourceChars_of_plain mode t h, Plain.requestItems, Plain.translation]
  cases mode <;> simp [Item.fragment]

theorem expr_of_plain {mode : SlashMode} {t : Plain} (h : t.text ≠ []) {re : Regex}
    (hcompile : compile mode (.ofList t.text) = .ok re) :
    re.expr =
      .row (.edge .textStart :: (exprsFrom 1 (t.requestItems mode) ++ [.edge .textEnd])) := by
  refine expr_of_source ?_ hcompile
  rw [String.toList_ofList]
  exact sourceChars_requestItems mode t h

/-- In a request that can be cut, the groups are where the values of its best cutting are, and one
that cannot is not matched. -/
theorem places?_cases {re : Regex} {items : List Item}
    (h : re.expr = .row (.edge .textStart :: (exprsFrom 1 items ++ [.edge .textEnd])))
    (request : String) :
    (∃ slices, CutsBest items slices request.toList ∧
        re.places? request = some (placesOf [] items slices)) ∨
      ((∀ slices, ¬ Cuts items slices request.toList) ∧ re.places? request = none) := by
  have hsearch := search_items items request.toList
  rw [places?, h]
  cases hfound : (Expr.row (.edge .textStart ::
      (exprsFrom 1 items ++ [.edge .textEnd]))).search request.toList with
  | none =>
    rw [hfound] at hsearch
    exact Or.inr ⟨hsearch, rfl⟩
  | some trail =>
    rw [hfound] at hsearch
    obtain ⟨slices, hbest, rfl⟩ := hsearch
    refine Or.inl ⟨slices, hbest, congrArg some ?_⟩
    obtain ⟨⟨hall, htext⟩, -⟩ := hbest
    show (List.range re.expr.groupCount).map _ = _
    rw [h, groupCount_items, ← places_trailOf hall 1 [], htext]
    rfl

theorem exists_cutsBest_of_places {re : Regex} {items : List Item}
    (h : re.expr = .row (.edge .textStart :: (exprsFrom 1 items ++ [.edge .textEnd])))
    {request : String} {places : List (Option Place)} (hplaces : re.places? request = some places) :
    ∃ slices, CutsBest items slices request.toList ∧ placesOf [] items slices = places := by
  rcases places?_cases h request with ⟨slices, hbest, hsome⟩ | ⟨-, hnone⟩
  · exact ⟨slices, hbest, Option.some.inj (hsome.symm.trans hplaces)⟩
  · rw [hnone] at hplaces
    cases hplaces

/-- A request that can be cut has the values of its best cutting, and one that cannot is not
matched. -/
theorem captures?_cases {re : Regex} {items : List Item}
    (h : re.expr = .row (.edge .textStart :: (exprsFrom 1 items ++ [.edge .textEnd])))
    (request : String) :
    (∃ slices, CutsBest items slices request.toList ∧
        re.captures? request = some (valuesOf items slices)) ∨
      ((∀ slices, ¬ Cuts items slices request.toList) ∧ re.captures? request = none) := by
  rw [captures?_eq_places]
  rcases places?_cases h request with ⟨slices, hbest, hplaces⟩ | ⟨hnone, hplaces⟩
  · rw [hplaces, Option.map_some, ← valuesOf_eq_places]
    exact Or.inl ⟨slices, hbest, rfl⟩
  · rw [hplaces]
    exact Or.inr ⟨hnone, rfl⟩

section
variable {re : Regex} {items : List Item} {text : List Char}
  (h : re.expr = .row (.edge .textStart :: (exprsFrom 1 items ++ [.edge .textEnd])))
include h

/-- The matcher gives the values of the best cutting. -/
theorem captures?_of_best {slices : List Slice} (hbest : CutsBest items slices text) :
    re.captures? (.ofList text) = some (valuesOf items slices) := by
  have hcases := captures?_cases h (.ofList text)
  rw [String.toList_ofList] at hcases
  rcases hcases with ⟨others, hothers, hvalues⟩ | ⟨hnone, -⟩
  · rw [hvalues, hbest.eq hothers]
  · exact (hnone slices hbest.1).elim

/-- The matcher does not match what cannot be cut. -/
theorem captures?_of_not_cuts (hnone : ∀ slices, ¬ Cuts items slices text) :
    re.captures? (.ofList text) = none := by
  have hcases := captures?_cases h (.ofList text)
  rw [String.toList_ofList] at hcases
  rcases hcases with ⟨slices, hbest, -⟩ | ⟨-, hvalues⟩
  · exact (hnone slices hbest.1).elim
  · exact hvalues

end

/-- The matcher of a plain template accepts the requests that can be cut for its items, and gives
the values of the cutting in which every slice in turn is as long as it can be. -/
theorem captures_of_plain (mode : SlashMode) (t : Plain) (h : t.text ≠ []) (re : Regex)
    (hcompile : compile mode (.ofList t.text) = .ok re) (request : String) :
    ((re.captures? request).isSome ↔
        ∃ slices, Cuts (t.requestItems mode) slices request.toList) ∧
      ∀ values, re.captures? request = some values ↔
        ∃ slices, CutsBest (t.requestItems mode) slices request.toList ∧
          values = valuesOf (t.requestItems mode) slices := by
  rcases captures?_cases (expr_of_plain h hcompile) request with
    ⟨slices, hbest, hvalues⟩ | ⟨hnone, hvalues⟩
  · rw [hvalues]
    refine ⟨⟨fun _ => ⟨slices, hbest.1⟩, fun _ => rfl⟩, ?_⟩
    intro values
    constructor
    · intro heq
      exact ⟨slices, hbest, (Option.some.inj heq).symm⟩
    · rintro ⟨others, hothers, rfl⟩
      rw [hbest.eq hothers]
  · rw [hvalues]
    refine ⟨⟨fun h => absurd h Bool.false_ne_true, ?_⟩, fun values => ⟨nofun, ?_⟩⟩
    · rintro ⟨slices, hcuts⟩
      exact (hnone slices hcuts).elim
    · rintro ⟨slices, hbest, -⟩
      exact (hnone slices hbest.1).elim

/-- Two parts, of which a request may leave out the second one. -/
theorem captures_of_usersPage :
    ∃ re, compile .loose (.ofList Plain.usersPage.text) = .ok re ∧
      (re.captures? "/users/7/2").isSome = true ∧ (re.captures? "users/7").isSome = true ∧
      (re.captures? "users").isSome = false := by
  have hok : (compile .loose (.ofList Plain.usersPage.text)).isOk = true := by decide +kernel
  have hne : Plain.usersPage.text ≠ [] := List.cons_ne_nil _ _
  obtain ⟨re, hcompile⟩ : ∃ re, compile .loose (.ofList Plain.usersPage.text) = .ok re := by
    cases hcompile : compile .loose (.ofList Plain.usersPage.text) with
    | ok re => exact ⟨re, rfl⟩
    | error reason =>
      rw [hcompile] at hok
      cases hok
  have hseven : Reach.segment.Admits ['7'] := ⟨List.cons_ne_nil _ _, forall_mem_of_all rfl⟩
  have htwo : Reach.segment.Admits ['2'] := ⟨List.cons_ne_nil _ _, forall_mem_of_all rfl⟩
  have hcaptures := captures_of_plain .loose Plain.usersPage hne re hcompile
  refine ⟨re, hcompile, (hcaptures "/users/7/2").1.mpr ?_, (hcaptures "users/7").1.mpr ?_, ?_⟩
  · refine ⟨[{ before := ['/'] }, { before := "users/".toList }, { value := some ['7'] },
      { before := ['/'] }, { value := some ['2'] }, {}, {}], ?_, rfl⟩
    exact ⟨Or.inl rfl, rfl, ⟨_, hseven, rfl⟩, Or.inl rfl, ⟨_, Or.inl rfl, Or.inr ⟨_, htwo, rfl⟩⟩,
      rfl, Or.inr ⟨rfl, rfl⟩, trivial⟩
  · refine ⟨[{}, { before := "users/".toList }, { value := some ['7'] }, {}, {}, {}, {}], ?_, rfl⟩
    exact ⟨Or.inr ⟨rfl, rfl⟩, rfl, ⟨_, hseven, rfl⟩, Or.inr ⟨rfl, rfl⟩, ⟨_, Or.inl rfl, Or.inl rfl⟩,
      rfl, Or.inr ⟨rfl, rfl⟩, trivial⟩
  · refine eq_false_of_ne_true ?_
    intro hsome
    obtain ⟨slices, hcuts⟩ := (hcaptures "users").1.mp hsome
    obtain ⟨s, slices, rfl⟩ := hcuts.exists_cons
    obtain ⟨⟨hs, -⟩, hcuts⟩ := cuts_cons.mp hcuts
    obtain ⟨u, slices, rfl⟩ := hcuts.exists_cons
    obtain ⟨⟨rfl, hpre⟩, -⟩ := cuts_cons.mp hcuts
    rcases hs with rfl | ⟨-, rfl⟩ <;> exact absurd hpre (by decide)

/-! ## Whether or not there is room -/

/-- The expression that the source of a template says.  It is the matcher of the template, unless it
would take too much room. -/
structure IsMatcher (mode : SlashMode) (template : String) (re : Regex) : Prop where
  parses : Expr.ofSource? (source mode template).toList = some re.expr
  compiles : compile mode template =
    if re.expr.weight ≤ weightLimit then .ok re else .error .oversized

/-- The expression that the source of a plain template says. -/
def Plain.regex (mode : SlashMode) (t : Plain) : Regex where
  source := source mode (.ofList t.text)
  expr := .row (.edge .textStart :: (exprsFrom 1 (t.requestItems mode) ++ [.edge .textEnd]))

theorem Plain.expr_regex (mode : SlashMode) (t : Plain) :
    (t.regex mode).expr =
      .row (.edge .textStart :: (exprsFrom 1 (t.requestItems mode) ++ [.edge .textEnd])) := rfl

theorem Plain.isMatcher_regex (mode : SlashMode) {t : Plain} (h : t.text ≠ []) :
    IsMatcher mode (.ofList t.text) (t.regex mode) := by
  have hsource : sourceChars mode (String.ofList t.text).toList =
      '^' :: ((t.requestItems mode).flatMap Item.fragment ++ ['$']) := by
    rw [String.toList_ofList]
    exact sourceChars_requestItems mode t h
  refine ⟨?_, compile_of_source hsource⟩
  rw [source, String.toList_ofList, hsource]
  exact ofSource?_eq _

end RouteDispatch.Template
