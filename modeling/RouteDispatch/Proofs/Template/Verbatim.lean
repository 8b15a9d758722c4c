/-
# Values are written as they are

A value with a slash is not filled into a segment, so that the separators of the
result are those of the template.  The slashes that may be missing are looked for in
the filled text, though, and a value may hold their stand-in.  Then it is taken for a
slash, or left out at the end (`fill_standIn`).

Where all parts are required segments there is no such slash, and any stand-in in the
result was written out in the text or in a value.  Without one the result is the
text with the values in it and has no slash but those of the text; with one it is
not (`Outline.fill_verbatim`).
-/
import RouteDispatch.Proofs.Template.Outline
import RouteDispatch.Proofs.Template.RoundTrip

namespace RouteDispatch.Template

open Text

/-! ## Settling and stand-ins -/

/-- A text is settled just if no stand-in of a slash occurs in it: dropping or writing one makes it
shorter. -/
theorem settleSlashes_eq_self_iff {s : List Char} :
    settleSlashes s.reverse = s ↔ ¬ slashMark <:+: s := by
  have hmark : ['/'].length < slashMark.length := by decide
  have hne : slashMark.reverse ≠ [] := by decide
  show replace slashMark ['/'] (dropRepeated slashMark.reverse s.reverse).reverse = s ↔ _
  by_cases hend : slashMark.reverse <+: s.reverse
  · have hin : slashMark <:+: s := (List.reverse_prefix.mp hend).isInfix
    refine iff_of_false (fun hself => ?_) (not_not_intro hin)
    obtain ⟨rest, hrest⟩ := hend
    have hdropped := (dropRepeated_suffix slashMark.reverse rest).length_le
    have hle := (length_replace hmark (dropRepeated slashMark.reverse s.reverse).reverse).1
    rw [hself, ← hrest, dropRepeated_append hne, List.length_reverse] at hle
    have hlength := congrArg List.length hrest
    rw [List.length_append, List.length_reverse, List.length_reverse] at hlength
    omega
  · have hsame := dropRepeated_of_not_prefix hend
    rw [hsame, List.reverse_reverse]
    constructor
    · intro hself hin
      have hlt := (length_replace hmark s).2 hin
      rw [hself] at hlt
      exact Nat.lt_irrefl _ hlt
    · exact fun hin => replace_of_not_infix hin ['/']

/-! ## Required segments -/

theorem Part.failure?_of_segment {p : Part} (hp : p.reach = .segment ∧ p.required = true)
    {given : String → Option String} :
    p.failure? given = none ↔ ∃ v, given (.ofList p.name) = some v ∧ '/' ∉ v.toList := by
  have hlabel : p.label = p.name := by rw [label, hp.1]
  rw [failure?, hlabel, hp.1, hp.2]
  cases given (.ofList p.name) with
  | none => simp
  | some v => simp

namespace Outline

/-- The text around the parts. -/
def literals (o : Outline) : List Char := o.cells.flatMap Cell.lead ++ o.tail

theorem count_written (o : Outline) {given : String → Option String}
    (h : ∀ cell ∈ o.cells, '/' ∉ cell.part.filling given) :
    (o.written given).count '/' = o.literals.count '/' := by
  have hcells : ∀ cells : List Cell, (∀ cell ∈ cells, '/' ∉ cell.part.filling given) →
      (cells.flatMap fun cell => cell.lead ++ cell.part.filling given).count '/' =
        (cells.flatMap Cell.lead).count '/' := by
    intro cells h
    induction cells with
    | nil => rfl
    | cons cell cells ih =>
      obtain ⟨hcell, hcells⟩ := List.forall_mem_cons.mp h
      rw [List.flatMap_cons, List.flatMap_cons, List.count_append, List.count_append,
        List.count_append, List.count_eq_zero.mpr hcell, ih hcells, Nat.add_zero]
  rw [written, literals, List.count_append, List.count_append, hcells o.cells h]

/-- Where required segments are filled in, all of them have a value and none of these has a slash.
The result is the text with the values in it just if that holds no stand-in of a slash, and then
its slashes are those of the text. -/
theorem fill_verbatim (o : Outline)
    (hsegments : ∀ cell ∈ o.cells, cell.part.reach = .segment ∧ cell.part.required = true)
    {given : String → Option String} {result : String}
    (hfill : fill (.ofList o.text) given = .ok result) :
    (∀ cell ∈ o.cells, ∃ v, given (.ofList cell.part.name) = some v ∧ '/' ∉ v.toList) ∧
    (result.toList = o.written given ↔ ¬ slashMark <:+: o.written given) ∧
    (¬ slashMark <:+: o.written given →
      result.toList.count '/' = o.literals.count '/') := by
  have hfits : ∀ cell ∈ o.cells, cell.part.failure? given = none := by
    have hnone : o.parts.findSome? (Part.failure? given) = none := by
      refine Option.eq_none_iff_forall_ne_some.mpr fun e he => ?_
      have herror := hfill.symm.trans ((fill_error_iff o.undelimited).mpr he)
      cases herror
    rw [parts, List.findSome?_map, List.findSome?_eq_none_iff] at hnone
    exact hnone
  have hvalues : ∀ cell ∈ o.cells,
      ∃ v, given (.ofList cell.part.name) = some v ∧ '/' ∉ v.toList :=
    fun cell hcell => (Part.failure?_of_segment (hsegments cell hcell)).mp (hfits cell hcell)
  have hresult : result.toList = settleSlashes (o.written given).reverse := by
    have hsettled := fill_eq_settled o.undelimited hfits
    have hrow : (itemsFrom none o.cells o.tail).flatMap (Item.filled (Part.filling given)) =
        o.written given :=
      filled_itemsFrom (fun cell hcell => isSoft_of_segment (hsegments cell hcell)) o.tail _
    rw [hrow] at hsettled
    have hsame := Except.ok.inj (hfill.symm.trans hsettled)
    rw [hsame, String.toList_ofList]
  have hverbatim : result.toList = o.written given ↔ ¬ slashMark <:+: o.written given := by
    rw [hresult]
    exact settleSlashes_eq_self_iff
  refine ⟨hvalues, hverbatim, fun hfree => ?_⟩
  rw [hverbatim.mpr hfree]
  refine o.count_written fun cell hcell => ?_
  obtain ⟨v, hv, hslash⟩ := hvalues cell hcell
  have hlabel : cell.part.label = cell.part.name := by rw [Part.label, (hsegments cell hcell).1]
  rwa [Part.filling, hlabel, hv]

/-- The template `{a}x{b}`. -/
def pair : Outline where
  cells := [
    ⟨[], .segment, true, "a".toList, List.cons_ne_nil _ _, forall_mem_of_all rfl⟩,
    ⟨"x".toList, .segment, true, "b".toList, List.cons_ne_nil _ _, forall_mem_of_all rfl⟩]
  tail := []
  undelimited :=
    { leads := List.forall_mem_cons.mpr
        ⟨nofun, List.forall_mem_cons.mpr ⟨forall_mem_of_all rfl, nofun⟩⟩
      tail := nofun }

/-- Text between the values keeps the halves of a stand-in apart. -/
theorem fill_verbatim_pair :
    let halves := fun name => if name = "a" then some "__RC" else some "_OS__"
    String.ofList pair.text = "\x7ba\x7dx\x7bb\x7d" ∧
      fill (.ofList pair.text) halves = .ok "__RCx_OS__" ∧
      "__RCx_OS__".toList = pair.written halves ∧
      "__RCx_OS__".toList.count '/' = pair.literals.count '/' := by
  intro halves
  have hfill : fill (.ofList pair.text) halves = .ok "__RCx_OS__" := by decide +kernel
  have hsegments : ∀ cell ∈ pair.cells,
      cell.part.reach = .segment ∧ cell.part.required = true :=
    List.forall_mem_cons.mpr ⟨⟨rfl, rfl⟩, List.forall_mem_singleton.mpr ⟨rfl, rfl⟩⟩
  have hfree : ¬ slashMark <:+: pair.written halves := by decide
  obtain ⟨-, hverbatim, hcount⟩ := pair.fill_verbatim hsegments hfill
  exact ⟨rfl, hfill, hverbatim.mpr hfree, hcount hfree⟩

/-- A stand-in in a value, or one that two values make, is taken for a slash, and it is left out at
the end. -/
theorem fill_standIn :
    let halves := fun name => if name = "a" then some "__RC" else some "_OS__"
    fill "\x7ba\x7dx" (fun _ => some "__RC_OS__") = .ok "/x" ∧
      fill "x\x7ba\x7d" (fun _ => some "__RC_OS__") = .ok "x" ∧
      fill "\x7ba\x7d\x7bb\x7dx" halves = .ok "/x" := by
  decide +kernel

end Outline

end RouteDispatch.Template
