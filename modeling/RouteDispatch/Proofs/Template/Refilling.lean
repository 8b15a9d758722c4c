/-
# Captured values go back into their template

The values that a template captured from a request are filled into it again, under
the names of its parts.  This succeeds but for a query with a slash in its value
(`fill_cases`), and what it makes is told item by item, from right to left
(`Plain.refilled`): a slash that may be missing is written if anything stands behind
it.
-/
import RouteDispatch.Proofs.Template.Identifiers
import RouteDispatch.Proofs.Template.Readings
import RouteDispatch.Proofs.Template.Settling
import RouteDispatch.Route.Params
import Mathlib.Data.List.Forall2
import Mathlib.Data.List.Nodup

namespace RouteDispatch.Template

open Text Regex

/-! ## Definitions -/

/-- What stands in the place of a part; a value that is absent leaves nothing. -/
def Part.filling (given : String → Option String) (p : Part) : List Char :=
  ((given (.ofList p.label)).map String.toList).getD []

/-- The text of an item, in front of what stands behind it. -/
def Item.onto (given : String → Option String) : Item → List Char → List Char
  | text s, rest => s ++ rest
  | slash true _, rest => if rest = [] then [] else '/' :: rest
  | slash false written, rest => written ++ rest
  | part p, rest => p.filling given ++ rest

/-- The template with these values. -/
def Plain.refilled (t : Plain) (given : String → Option String) : List Char :=
  t.items.foldr (Item.onto given) []

/-- No two parts have the same name. -/
def Plain.Distinct (t : Plain) : Prop := (t.parts.map Part.label).Nodup

/-- The values that a template captured from a request. -/
def Plain.captured (t : Plain) (request : String) (values : List (Option String)) : Params where
  request
  ids := paramIds (.ofList t.text)
  values

/-- The part may have this value in a request. -/
def Part.Holds (p : Part) (v : Option String) : Prop :=
  ∃ s, p.Takes s ∧ v = s.value.map String.ofList

/-! ## Settled texts -/

/-- The glyphs of an item. -/
def Item.glyphs (given : String → Option String) : Item → List (Option Char)
  | text s => s.map some
  | slash true _ => [none]
  | slash false written => written.map some
  | part p => (p.filling given).map some

theorem spell_map_some (slash s : List Char) : spell slash (s.map some) = s := by
  induction s with
  | nil => rfl
  | cons c s ih => exact congrArg (c :: ·) ih

theorem trimmed_map_some_append (s : List Char) (gs : List (Option Char)) :
    trimmed (s.map some ++ gs) = s.map some ++ trimmed gs := by
  induction s with
  | nil => rfl
  | cons c s ih => exact congrArg (some c :: ·) ih

theorem spell_slash_eq_nil {gs : List (Option Char)} : spell ['/'] gs = [] ↔ gs = [] := by
  cases gs with
  | nil => simp [spell]
  | cons g gs => cases g <;> simp [spell]

theorem spell_glyphs (given : String → Option String) (items : List Item) :
    spell slashMark (items.flatMap (Item.glyphs given)) =
      items.flatMap (Item.filled (Part.filling given)) := by
  induction items with
  | nil => rfl
  | cons item items ih =>
    rw [List.flatMap_cons, List.flatMap_cons, spell_append, ih]
    congr 1
    cases item with
    | text s => exact spell_map_some _ s
    | slash mayMiss written =>
      cases mayMiss with
      | true => rfl
      | false => exact spell_map_some _ written
    | part p => exact spell_map_some _ _

theorem spell_trimmed_glyphs (given : String → Option String) (items : List Item) :
    spell ['/'] (trimmed (items.flatMap (Item.glyphs given))) =
      items.foldr (Item.onto given) [] := by
  induction items with
  | nil => rfl
  | cons item items ih =>
    have hplain : ∀ s : List Char,
        spell ['/'] (trimmed (s.map some ++ items.flatMap (Item.glyphs given))) =
          s ++ items.foldr (Item.onto given) [] := by
      intro s
      rw [trimmed_map_some_append, spell_append, spell_map_some, ih]
    rw [List.flatMap_cons, List.foldr_cons]
    cases item with
    | text s => exact hplain s
    | slash mayMiss written =>
      cases mayMiss with
      | true =>
        rw [Item.onto, ← ih]
        simp only [Item.glyphs, List.singleton_append, trimmed, spell_slash_eq_nil]
        split <;> rfl
      | false => exact hplain written
    | part p => exact hplain _

/-! ## Values by name -/

theorem idxOf?_getElem {α : Type} [BEq α] [LawfulBEq α] {l : List α} (h : l.Nodup) {i : Nat}
    (hi : i < l.length) : l.idxOf? l[i] = some i := by
  refine List.idxOf?_eq_some_iff.mpr ⟨hi, rfl, ?_⟩
  intro j hj heq
  have hsame := (h.getElem_inj_iff).mp heq
  omega

theorem Plain.Distinct.paramIds_nodup {t : Plain} (ht : t.Distinct) :
    (paramIds (.ofList t.text)).Nodup := by
  have hlabels := List.Nodup.map (fun _ _ => String.ofList_injective) ht
  rw [List.map_map] at hlabels
  rw [paramIds_of_plain]
  exact hlabels

/-- Under its own name each part has its own value. -/
theorem map_getNamed {t : Plain} (ht : t.Distinct) {values : List (Option String)}
    (hlength : values.length = t.parts.length) (request : String) :
    t.parts.map (fun p => (t.captured request values).getNamed (.ofList p.label)) = values := by
  have hids : (t.captured request values).ids = t.parts.map (String.ofList ·.label) :=
    paramIds_of_plain t
  have hnodup : (t.captured request values).ids.Nodup := ht.paramIds_nodup
  refine List.ext_getElem ((List.length_map _).trans hlength.symm) ?_
  intro i hi hi'
  have hi₀ : i < t.parts.length := hlength ▸ hi'
  have hid : i < (t.captured request values).ids.length := by
    rw [hids, List.length_map]
    exact hi₀
  have hname : String.ofList t.parts[i].label = (t.captured request values).ids[i] := by
    simp only [hids, List.getElem_map]
  have hvalue : values[i]? = some values[i] := List.getElem?_eq_getElem hi'
  rw [List.getElem_map, hname, Params.getNamed, idxOf?_getElem hnodup hid]
  show (values[i]?).join = values[i]
  rw [hvalue]
  rfl

/-- In a cutting the parts have values that they may have. -/
theorem holds_of_takeAll {items : List Item} {slices : List Slice} (h : TakeAll items slices) :
    List.Forall₂ Part.Holds (partsOf items) (valuesOf items slices) := by
  induction items generalizing slices with
  | nil =>
    cases slices with
    | nil => exact List.Forall₂.nil
    | cons s slices => exact h.elim
  | cons item items ih =>
    cases slices with
    | nil => exact h.elim
    | cons s slices =>
      have hrest := ih h.2
      cases item with
      | part p => exact List.Forall₂.cons ⟨s, h.1, rfl⟩ hrest
      | text t => exact hrest
      | slash mayMiss written => exact hrest

/-- What was captured from a request that can be cut is found again by name. -/
theorem getNamed_of_cuts {mode : SlashMode} {t : Plain} (ht : t.Distinct) {slices : List Slice}
    {text : List Char} (hcuts : Cuts (t.requestItems mode) slices text) (request : String) :
    let given := (t.captured request (valuesOf (t.requestItems mode) slices)).getNamed
    t.parts.map (fun p => given (.ofList p.label)) = valuesOf (t.requestItems mode) slices ∧
      ∀ p ∈ t.parts, p.Holds (given (.ofList p.label)) := by
  intro given
  have hholds := holds_of_takeAll hcuts.1
  rw [partsOf_requestItems] at hholds
  have hmap := map_getNamed ht hholds.length_eq.symm request
  refine ⟨hmap, ?_⟩
  rw [← hmap, List.forall₂_map_right_iff, List.forall₂_same] at hholds
  exact hholds

/-! ## Whether values can be filled in -/

theorem star_mem_text {p : Part} : '*' ∈ p.text ↔ p.reach = .rest := by
  have hname : '*' ∉ p.name := fun hin => absurd (p.name_chars _ hin) (by decide)
  have hopening : '*' ≠ p.opening := by
    rw [Part.opening]
    split <;> decide
  have hclosing : '*' ≠ p.closing := by
    rw [Part.closing]
    split <;> decide
  rw [Part.text, Part.label]
  cases p.reach <;> simp [hname, hopening, hclosing]

theorem brace_mem_text {p : Part} : '{' ∈ p.text ↔ p.required = true := by
  have hlabel : '{' ∉ p.label := fun hin => (p.label_delimiters hin).1 rfl
  rw [Part.text, Part.opening, Part.closing]
  cases p.required <;> simp [hlabel]

/-- A part has a value that it admits, or it is a query with an empty one. -/
theorem Part.Holds.admits {p : Part} {v : String} (h : p.Holds (some v)) (hreach : p.reach ≠ .query) :
    p.reach.Admits v.toList := by
  obtain ⟨reach, required, name, hne, hchars⟩ := p
  obtain ⟨s, hs, hv⟩ := h
  have hvalue : ∀ u, s.value = some u → u = v.toList := by
    intro u hu
    rw [hu] at hv
    rw [Option.some.inj hv, String.toList_ofList]
  have hnone : s.value ≠ none := by
    intro hnone
    rw [hnone] at hv
    cases hv
  cases reach with
  | query => exact absurd rfl hreach
  | segment =>
    cases required with
    | true =>
      obtain ⟨u, hu, rfl⟩ := hs
      exact hvalue u rfl ▸ hu
    | false =>
      obtain ⟨slash, -, rfl | ⟨u, hu, rfl⟩⟩ := hs
      · exact absurd rfl hnone
      · exact hvalue u rfl ▸ hu
  | rest =>
    cases required with
    | true =>
      obtain ⟨u, hu, rfl⟩ := hs
      exact hvalue u rfl ▸ hu
    | false =>
      obtain rfl | ⟨u, hu, rfl⟩ := hs
      · exact absurd rfl hnone
      · exact hvalue u rfl ▸ hu

theorem Part.Holds.not_required {p : Part} (h : p.Holds none) : p.required = false := by
  obtain ⟨reach, required, name, hne, hchars⟩ := p
  cases required with
  | false => rfl
  | true =>
    obtain ⟨s, hs, hv⟩ := h
    cases reach <;> obtain ⟨u, -, rfl⟩ := hs <;> cases hv

/-- Why the part cannot be filled in, if it cannot. -/
def Part.failure? (given : String → Option String) (p : Part) : Option Failure :=
  match given (.ofList p.label) with
  | some v =>
    if p.reach ≠ .rest ∧ '/' ∈ v.toList then some (.invalidValue (.ofList p.text) v) else none
  | none => if p.required then some (.missingSegment (.ofList p.text)) else none

theorem value_eq (p : Part) (given : String → Option String) :
    p.slot.value given =
      match p.failure? given with
      | some e => .error e
      | none => .ok (p.filling given) := by
  rw [Slot.value, Part.slot, Part.failure?, Part.filling]
  cases given (.ofList p.label) with
  | some v =>
    simp only [star_mem_text, ← ne_eq]
    split <;> rfl
  | none =>
    simp only [brace_mem_text]
    split <;> rfl

/-- A value that a part may have can be filled in, unless it is a query with a slash. -/
theorem Part.Holds.failure?_eq_none_iff {p : Part} {given : String → Option String}
    (h : p.Holds (given (.ofList p.label))) :
    p.failure? given = none ↔
      (p.reach = .query → ∀ v, given (.ofList p.label) = some v → '/' ∉ v.toList) := by
  rw [Part.failure?]
  cases hv : given (.ofList p.label) with
  | none =>
    rw [hv] at h
    simp [h.not_required]
  | some v =>
    rw [hv] at h
    cases hreach : p.reach with
    | segment =>
      have hadmits := h.admits (by rw [hreach]; decide)
      rw [hreach] at hadmits
      have hslash : '/' ∉ v.toList := fun hin => absurd (hadmits.2 '/' hin) (by decide)
      simp [hslash]
    | rest => simp
    | query => simp

/-! ## What is filled in -/

/-- Parts are filled in from left to right, up to the first that cannot be. -/
theorem fillOnto_eq (given : String → Option String) (items : List Item) (done : List Char) :
    fillOnto given done (items.flatMap Item.pieces) =
      match (partsOf items).findSome? (Part.failure? given) with
      | some e => .error e
      | none => .ok ((items.flatMap (Item.filled (Part.filling given))).reverse ++ done) := by
  induction items generalizing done with
  | nil => rfl
  | cons item items ih =>
    rw [List.flatMap_cons, List.flatMap_cons, List.reverse_append, List.append_assoc]
    cases item with
    | part p =>
      rw [Item.pieces, List.singleton_append, fillOnto, value_eq, partsOf, List.findSome?_cons]
      cases p.failure? given with
      | some e => rfl
      | none => exact ih _
    | text s => exact (fillOnto_plain given s done _).trans (ih _)
    | slash mayMiss written =>
      exact (fillOnto_plain given ((Item.slash mayMiss written).held 1) done _).trans (ih _)

section
variable {cells : List Cell} {tail : List Char} (ht : Undelimited cells tail)
  {given : String → Option String}
include ht

/-- The first part that cannot be filled in says why the template cannot be. -/
theorem fill_error_iff {e : Failure} :
    fill (.ofList (cells.flatMap Cell.text ++ tail)) given = .error e ↔
      (cells.map (·.part)).findSome? (Part.failure? given) = some e := by
  rw [fill, String.toList_ofList, fillChars_eq ht, fillOnto_eq, partsOf_itemsFrom]
  cases (cells.map (·.part)).findSome? (Part.failure? given) with
  | none => exact iff_of_false nofun nofun
  | some e' =>
    show Except.error e' = Except.error e ↔ some e' = some e
    rw [Except.error.injEq, Option.some.injEq]

/-- A template whose parts can all be filled in is filled item by item, and its slashes are settled
at the end. -/
theorem fill_eq_settled (hfits : ∀ cell ∈ cells, cell.part.failure? given = none) :
    fill (.ofList (cells.flatMap Cell.text ++ tail)) given =
      .ok (.ofList (settleSlashes
        ((itemsFrom none cells tail).flatMap (Item.filled (Part.filling given))).reverse)) := by
  have hnone : (cells.map (·.part)).findSome? (Part.failure? given) = none := by
    rw [List.findSome?_map, List.findSome?_eq_none_iff]
    exact hfits
  rw [fill, String.toList_ofList, fillChars_eq ht, fillOnto_eq, partsOf_itemsFrom, hnone,
    List.append_nil]
  rfl

/-- Without a marker in it, the text has its slashes written where anything stands behind them. -/
theorem fill_eq_onto (hfits : ∀ cell ∈ cells, cell.part.failure? given = none)
    (hmarker : Unmarked ((itemsFrom none cells tail).foldr (Item.onto given) [])) :
    fill (.ofList (cells.flatMap Cell.text ++ tail)) given =
      .ok (.ofList ((itemsFrom none cells tail).foldr (Item.onto given) [])) := by
  rw [← spell_trimmed_glyphs] at hmarker ⊢
  have hsettled := settleSlashes_spell hmarker
  rw [spell_glyphs] at hsettled
  rw [fill_eq_settled ht hfits, hsettled]

end

section
variable {t : Plain} {given : String → Option String}
  (hholds : ∀ p ∈ t.parts, p.Holds (given (.ofList p.label)))
include hholds

/-- Nothing but a slash in a query keeps captured values from being filled in. -/
theorem fill_cases :
    (fill (.ofList t.text) given).isOk = true ↔ ∀ p ∈ t.parts, p.reach = .query →
      ∀ v, given (.ofList p.label) = some v → '/' ∉ v.toList := by
  have hfails : (fill (.ofList t.text) given).isOk = true ↔
      t.parts.findSome? (Part.failure? given) = none := by
    have herror : ∀ e, fill (.ofList t.text) given = .error e ↔
        t.parts.findSome? (Part.failure? given) = some e :=
      fun e => fill_error_iff t.tidy.undelimited
    cases hfill : fill (.ofList t.text) given with
    | ok result =>
      refine iff_of_true rfl (Option.eq_none_iff_forall_ne_some.mpr fun e he => ?_)
      have hbad := (herror e).mpr he
      rw [hfill] at hbad
      cases hbad
    | error e =>
      rw [(herror e).mp hfill]
      exact iff_of_false nofun nofun
  rw [hfails, List.findSome?_eq_none_iff]
  exact forall₂_congr fun p hp => (hholds p hp).failure?_eq_none_iff

theorem fill_eq_refilled (hquery : ∀ p ∈ t.parts, p.reach = .query →
      ∀ v, given (.ofList p.label) = some v → '/' ∉ v.toList)
    (hmarker : Unmarked (t.refilled given)) :
    fill (.ofList t.text) given = .ok (.ofList (t.refilled given)) := by
  refine fill_eq_onto t.tidy.undelimited (fun cell hcell => ?_) hmarker
  have hp : cell.part ∈ t.parts := List.mem_map_of_mem hcell
  exact (hholds _ hp).failure?_eq_none_iff.mpr (hquery _ hp)

end

end RouteDispatch.Template
