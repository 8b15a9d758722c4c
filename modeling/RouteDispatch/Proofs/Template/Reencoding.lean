/-
# Decoding a request and encoding it again

The values that a plain template captured from a request are filled into it again, and
the result is matched.  Only a query with a slash in its value keeps them from being
filled in; but a query loses its question mark, and a required part that follows
another one without a slash has none in the result.  Apart from these the result is
accepted, and the values are one of its readings (`reads_refilled`).

They need not be the values that the matcher prefers (`recaptured_differs`): slashes
that the request lacked are written and others are left out, and a rest or an
absent part may now take them.  The values are the same again if the template is steady
with them (`Plain.Steady`), and no condition of this can be done without.
-/
import RouteDispatch.Proofs.Template.Steady

namespace RouteDispatch.Template

open Text Regex

/-- Captured values can be filled in again, but for a query with a slash.  Where no query has a value
and required parts have a slash between them, the matcher accepts what they make, and they are one
of its readings; and they are captured from it again where the template is steady. -/
theorem refill_captured {mode : SlashMode} {t : Plain} (h : t.text ≠ []) (hdistinct : t.Distinct)
    {re : Regex} (hcompile : compile mode (.ofList t.text) = .ok re) {request : String}
    (hmarker : Unmarked request.toList) {values : List (Option String)}
    (hvalues : re.captures? request = some values) :
    let given := (t.captured request values).getNamed
    ((fill (.ofList t.text) given).isOk = true ↔ ∀ p ∈ t.parts, p.reach = .query →
        ∀ v, given (.ofList p.label) = some v → '/' ∉ v.toList) ∧
      (t.Joined → (∀ p ∈ t.parts, p.reach = .query → given (.ofList p.label) = none) →
        (Unmarked (t.refilled given) →
          fill (.ofList t.text) given = .ok (.ofList (t.refilled given)) ∧
            re.isMatch (.ofList (t.refilled given)) = true ∧
              Reads (t.requestItems mode) (t.refilled given) values) ∧
        ((mode = .loose → t.text.head? ≠ some '/' → (t.refilled given).head? ≠ some '/') →
          t.Steady mode given →
            fill (.ofList t.text) given = .ok (.ofList (t.refilled given)) ∧
              re.captures? (.ofList (t.refilled given)) = some values)) := by
  intro given
  obtain ⟨slices, hbest, hsome⟩ :
      ∃ slices, CutsBest (t.requestItems mode) slices request.toList ∧
        values = valuesOf (t.requestItems mode) slices := by
    rcases captures?_cases (expr_of_plain h hcompile) request with ⟨slices, hbest, hsome⟩ | ⟨-, hnone⟩
    · exact ⟨slices, hbest, Option.some.inj (hvalues.symm.trans hsome)⟩
    · rw [hnone] at hvalues
      cases hvalues
  have hnamed := getNamed_of_cuts hdistinct hbest.1 request
  rw [← hsome] at hnamed
  obtain ⟨hgiven, hholds⟩ := hnamed
  refine ⟨fill_cases hholds, fun hjoined hqueries => ?_⟩
  have hslashes : ∀ p ∈ t.parts, p.reach = .query →
      ∀ v, given (.ofList p.label) = some v → '/' ∉ v.toList := by
    intro p hp hquery v hv
    rw [hqueries p hp hquery] at hv
    cases hv
  constructor
  · intro hrefilled
    have hreads := reads_refilled hjoined (fun p hp => ⟨hholds p hp, hqueries p hp⟩) mode
    rw [hgiven] at hreads
    exact ⟨fill_eq_refilled hholds hslashes hrefilled, isMatch_of_reads h hcompile hreads, hreads⟩
  · intro hlead hsteady
    obtain ⟨others, hothers, hsame, hunmarked⟩ := best_refilled hjoined hsteady
      (fun p hp => ⟨hholds p hp, hqueries p hp⟩) hbest (hgiven.trans hsome) hlead
    have hcaptures := captures_of_best h hcompile hothers
    rw [hsame, ← hsome] at hcaptures
    exact ⟨fill_eq_refilled hholds hslashes (hunmarked hmarker), hcaptures⟩

/-- The slash at the end belongs to no value and is not written again. -/
theorem refill_captured_usersPage :
    ∃ re, compile .loose (.ofList Plain.usersPage.text) = .ok re ∧
      Plain.usersPage.text = "/users/{id}/:page:".toList ∧
      re.captures? "/users/7/" = some [some "7", none] ∧
      fill (.ofList Plain.usersPage.text)
        (Plain.usersPage.captured "/users/7/" [some "7", none]).getNamed = .ok "/users/7" ∧
      re.captures? "/users/7" = some [some "7", none] := by
  have hok : ((compile .loose (.ofList Plain.usersPage.text)).toOption.bind
      (·.captures? "/users/7/")) = some [some "7", none] := by decide +kernel
  obtain ⟨re, hcompile, hvalues⟩ : ∃ re, compile .loose (.ofList Plain.usersPage.text) = .ok re ∧
      re.captures? "/users/7/" = some [some "7", none] := by
    cases hcompile : compile .loose (.ofList Plain.usersPage.text) with
    | ok re =>
      rw [hcompile, Except.toOption, Option.bind_some] at hok
      exact ⟨re, rfl, hok⟩
    | error reason =>
      rw [hcompile] at hok
      cases hok
  have hne : Plain.usersPage.text ≠ [] := List.cons_ne_nil _ _
  have hdistinct : Plain.usersPage.Distinct := by
    show ["id".toList, "page".toList].Nodup
    decide
  have hmarker : Unmarked "/users/7/".toList := marker_of_not_mem (by decide)
  have hjoined : Plain.usersPage.Joined :=
    List.forall_mem_singleton.mpr fun _ => List.cons_ne_nil _ _
  have hsegments : ∀ p ∈ Plain.usersPage.parts, p.reach = .segment :=
    List.forall_mem_cons.mpr ⟨rfl, List.forall_mem_singleton.mpr rfl⟩
  have hrefilled : Plain.usersPage.refilled
      (Plain.usersPage.captured "/users/7/" [some "7", none]).getNamed = "/users/7".toList := by
    decide +kernel
  have hqueries : ∀ p ∈ Plain.usersPage.parts, p.reach = .query →
      (Plain.usersPage.captured "/users/7/" [some "7", none]).getNamed (.ofList p.label) = none := by
    intro p hp hquery
    rw [hsegments p hp] at hquery
    cases hquery
  have hlead : SlashMode.loose = .loose → Plain.usersPage.text.head? ≠ some '/' →
      (Plain.usersPage.refilled (Plain.usersPage.captured "/users/7/"
        [some "7", none]).getNamed).head? ≠ some '/' := fun _ hhead => absurd rfl hhead
  have hsteady : Plain.usersPage.Steady .loose
      (Plain.usersPage.captured "/users/7/" [some "7", none]).getNamed := by
    intro front cell later hcells
    have hin : cell.part ∈ Plain.usersPage.parts := by
      rw [Plain.parts, hcells]
      exact List.mem_map_of_mem (List.mem_append_right _ List.mem_cons_self)
    have hsegment := hsegments _ hin
    have hnone : cell.part.required = false → later = [] := by
      intro hoptional
      rcases front with _ | ⟨first, _ | ⟨second, front⟩⟩
      · obtain ⟨rfl, -⟩ := List.cons.inj hcells
        cases hoptional
      · obtain ⟨-, hlast⟩ := List.cons.inj hcells
        exact (List.cons.inj hlast).2.symm
      · have hlength := congrArg List.length hcells
        simp only [List.length_append, List.length_cons, Plain.usersPage, List.length_nil] at hlength
        omega
    have hrest : cell.part.reach ≠ .rest := by
      rw [hsegment]
      decide
    exact {
      rest := fun hreach => absurd hreach hrest
      last := fun hreach => absurd hreach hrest
      text := fun _ hoptional => by
        rw [hnone hoptional]
        exact Or.inl rfl
      seam := fun _ hoptional other others hlater => by
        rw [hnone hoptional] at hlater
        cases hlater }
  obtain ⟨-, hagain⟩ := refill_captured hne hdistinct hcompile hmarker hvalues
  obtain ⟨hfill, hcaptures⟩ := (hagain hjoined hqueries).2 hlead hsteady
  rw [hrefilled, String.ofList_toList] at hfill hcaptures
  exact ⟨re, hcompile, rfl, hvalues, hfill, hcaptures⟩

/-- What is captured from a request, and what is captured from the request that these values make,
if they make one that is matched. -/
def recaptured (mode : SlashMode) (template request : String) :
    Option (List (Option String) × Option (List (Option String))) := do
  let re ← (compile mode template).toOption
  let values ← re.captures? request
  let params : Params := { request, ids := paramIds template, values }
  return (values, (fill template params.getNamed).toOption.bind re.captures?)

theorem recaptured_differs :
    recaptured .strict "{?q}" "?x" = some ([some "x"], none) ∧
      recaptured .strict "{?q}" "?a/b" = some ([some "a/b"], none) ∧
      recaptured .strict "{a}{b}" "x/y" = some ([some "x", some "y"], none) ∧
      recaptured .strict ":a:C_OS__" "__R/C_OS__" = some ([some "__R"], none) ∧
      recaptured .loose "{a*}" "//x" = some ([some "/x"], some [some "x"]) ∧
      recaptured .loose "{a*}/" "x" = some ([some "x"], some [some "x/"]) ∧
      recaptured .strict ":a:b{c}" "x/bby" =
        some ([some "x", some "by"], some [some "xb", some "y"]) ∧
      recaptured .strict "{a}x:?q:x?y/x?y/:b*:" "1xx?y/x?yx?y2" =
        some ([some "1", none, some "x?y2"], some [some "1x", some "y/", some "2"]) ∧
      recaptured .strict "{a*}/:b:" "x\ny" =
        some ([some "x", some "\ny"], some [some "x/", some "\ny"]) ∧
      recaptured .strict "x/:a:/:b:/:c:" "x////c" =
        some ([none, none, some "c"], some [none, some "c", none]) ∧
      recaptured .strict "x/:a:/:b*:" "x/1///2" =
        some ([some "1", some "/2"], some [some "1", some "2"]) ∧
      recaptured .loose "x/:a*:/" "x" = some ([none], some [some "/"]) := by
  refine ⟨?_, ?_, ?_, ?_, ?_, ?_, ?_, ?_, ?_, ?_, ?_, ?_⟩ <;> decide +kernel

end RouteDispatch.Template
