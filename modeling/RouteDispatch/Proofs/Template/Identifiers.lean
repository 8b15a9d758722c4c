/-
# Names and groups

The names of a template are to line up with the groups of its matcher.  The names
come from one scan of the template as it is written, in which an opening of one kind
may be closed by the other kind; the groups come from passes over the template
without the slashes at its ends, each of which knows one form only.

For plain templates they do line up (`paramIds_line_up`): there is one name and one
group for each part.  For other texts they need not.  What opens with a brace and
closes with a colon has a name and no group, and a stand-in that is written out has
a group and no name (`paramIds_out_of_line`).
-/
import RouteDispatch.Proofs.Template.Captures
import RouteDispatch.Proofs.Template.Translation

namespace RouteDispatch.Template

open Regex

/-! ## The parts of a row -/

/-- The parts among some items. -/
def partsOf : List Item → List Part
  | [] => []
  | .part p :: items => p :: partsOf items
  | .text _ :: items => partsOf items
  | .slash _ _ :: items => partsOf items

theorem partsOf_append (first second : List Item) :
    partsOf (first ++ second) = partsOf first ++ partsOf second := by
  induction first with
  | nil => rfl
  | cons item first ih =>
    cases item with
    | part p => exact congrArg (p :: ·) ih
    | text s => exact ih
    | slash mayMiss written => exact ih

theorem partsOf_separation (prev : Option Part) (cell : Cell) :
    partsOf (cell.separation prev) = [] := by
  rw [Cell.separation]
  split
  · rfl
  · split <;> rfl

theorem partsOf_itemsFrom (prev : Option Part) (cells : List Cell) (tail : List Char) :
    partsOf (itemsFrom prev cells tail) = cells.map (·.part) := by
  induction cells generalizing prev with
  | nil => rfl
  | cons cell cells ih =>
    rw [itemsFrom, partsOf_append, partsOf_separation, List.nil_append, partsOf, ih]
    rfl

/-- No part goes with the slashes at the ends. -/
theorem parts_strip (mode : SlashMode) (t : Plain) : (t.strip mode).parts = t.parts := by
  have hlead : t.dropLead.parts = t.parts := by
    obtain ⟨cells, tail, tidy⟩ := t
    cases cells <;> rfl
  cases mode with
  | loose => exact hlead
  | strict => rfl
  | legacy => rfl

theorem partsOf_requestItems (mode : SlashMode) (t : Plain) :
    partsOf (t.requestItems mode) = t.parts := by
  rw [Plain.requestItems, partsOf_append, partsOf_append, Plain.items, partsOf_itemsFrom]
  have hstrip := parts_strip mode t
  cases mode <;> exact (List.append_nil _).trans hstrip

/-! ## One group for each part -/

theorem groupsOf_eq_length (items : List Item) : groupsOf items = (partsOf items).length := by
  induction items with
  | nil => rfl
  | cons item items ih =>
    rw [groupsOf, ih]
    cases item with
    | part p => exact Nat.add_comm 1 _
    | text s => exact Nat.zero_add _
    | slash mayMiss written => exact Nat.zero_add _

theorem groupCount_of_plain {mode : SlashMode} {t : Plain} (h : t.text ≠ []) {re : Regex}
    (hcompile : compile mode (.ofList t.text) = .ok re) : re.groupCount = t.parts.length := by
  rw [Regex.groupCount, expr_of_plain h hcompile, groupCount_items, groupsOf_eq_length,
    partsOf_requestItems]

/-! ## One name for each part -/

theorem paramIds_of_plain (t : Plain) :
    paramIds (.ofList t.text) = t.parts.map (String.ofList ·.label) := by
  have hslots := findAll_slots t.tidy
  rw [paramIds, String.toList_ofList, Plain.text, hslots, List.map_map, Plain.parts, List.map_map]
  rfl

theorem optionalParamIds_of_plain (t : Plain) :
    optionalParamIds (.ofList t.text) =
      (t.parts.filter (! ·.required)).map (String.ofList ·.label) := by
  have hcolons := findAll_colons t.tidy
  rw [optionalParamIds, String.toList_ofList, Plain.text, hcolons, List.map_map, Plain.parts]
  rfl

/-- A plain template has as many names as its matcher has groups, and the names of its optional
parts are among them. -/
theorem paramIds_line_up {mode : SlashMode} {t : Plain} (h : t.text ≠ []) {re : Regex}
    (hcompile : compile mode (.ofList t.text) = .ok re) :
    (paramIds (.ofList t.text)).length = re.groupCount ∧
      optionalParamIds (.ofList t.text) ⊆ paramIds (.ofList t.text) := by
  rw [groupCount_of_plain h hcompile, paramIds_of_plain, optionalParamIds_of_plain]
  refine ⟨List.length_map _, ?_⟩
  exact (List.filter_sublist.map _).subset

theorem paramIds_line_up_usersPage :
    ∃ re, compile .loose (.ofList Plain.usersPage.text) = .ok re ∧
      (paramIds (.ofList Plain.usersPage.text)).length = re.groupCount ∧
      optionalParamIds (.ofList Plain.usersPage.text) ⊆
        paramIds (.ofList Plain.usersPage.text) := by
  have hok : (compile .loose (.ofList Plain.usersPage.text)).isOk = true := by decide +kernel
  have hne : Plain.usersPage.text ≠ [] := List.cons_ne_nil _ _
  cases hcompile : compile .loose (.ofList Plain.usersPage.text) with
  | ok re => exact ⟨re, rfl, paramIds_line_up hne hcompile⟩
  | error reason =>
    rw [hcompile] at hok
    cases hok

/-- A name without a group, a group without a name, and an optional name that is not among the
names. -/
theorem paramIds_out_of_line :
    paramIds "/\x7ba:" = ["a"] ∧
      (compile .loose "/\x7ba:").toOption.map Regex.groupCount = some 0 ∧
      paramIds "__RC_RP__" = [] ∧
      (compile .loose "__RC_RP__").toOption.map Regex.groupCount = some 1 ∧
      optionalParamIds "\x7ba:b:" = ["b"] ∧ paramIds "\x7ba:b:" = ["a"] := by
  decide +kernel

end RouteDispatch.Template
