/-
# What was filled in can be read

A template that was filled in is a row of text, values and slashes, with the slashes
at its ends that the mode takes away from the template (`Stripped`).  Each of its
items can be read with the value that was filled in (`reads_foldr_onto`), so the
matcher accepts the whole, and the values are those of one of its readings
(`reads_refilled`).

Two things keep an item from being read: a query has lost its question mark, and a
required part has no slash before it where none is written in the template.
-/
import RouteDispatch.Proofs.Template.Refilling
import RouteDispatch.Proofs.Template.Segments

namespace RouteDispatch.Template

open Text Regex

/-- Where a required part stands directly behind another one, a slash is written between them. -/
def Plain.Joined (t : Plain) : Prop :=
  ∀ cell ∈ t.cells.tail, cell.part.isSoft = false → cell.lead ≠ []

/-! ## Items of a template -/

/-- What holds of text, of parts and of the slashes between them holds of all items. -/
theorem forall_mem_itemsFrom {P : Item → Prop} (htext : ∀ s, P (.text s))
    (hhard : P (.slash false ['/'])) {prev : Option Part} {cells : List Cell}
    (hpart : ∀ cell ∈ cells, P (.part cell.part))
    (hsoft : ∀ cell ∈ cells, cell.part.isSoft = true → ∀ written, P (.slash true written))
    (hfirst : prev.isSome → ∀ cell ∈ cells.head?, cell.part.isSoft = false → cell.lead ≠ [])
    (hlater : ∀ cell ∈ cells.tail, cell.part.isSoft = false → cell.lead ≠ []) (tail : List Char) :
    ∀ item ∈ itemsFrom prev cells tail, P item := by
  induction cells generalizing prev with
  | nil =>
    intro item hitem
    rw [List.mem_singleton.mp hitem]
    exact htext tail
  | cons cell cells ih =>
    have hrest : ∀ item ∈ itemsFrom (some cell.part) cells tail, P item := ih
      (fun other hother => hpart other (List.mem_cons_of_mem _ hother))
      (fun other hother => hsoft other (List.mem_cons_of_mem _ hother))
      (fun _ other hother => hlater other (List.mem_of_mem_head? hother))
      (fun other hother => hlater other (List.mem_of_mem_tail hother))
    have hseparation : ∀ item ∈ cell.separation prev, P item := by
      intro item hitem
      rw [Cell.separation] at hitem
      split at hitem
      · next hjoin =>
        rw [List.mem_singleton.mp hitem]
        cases hcell : cell.part.isSoft with
        | true => exact hsoft cell List.mem_cons_self hcell _
        | false =>
          have hslash := hjoin.2.resolve_left (hfirst hjoin.1 cell rfl hcell)
          rw [hslash]
          exact hhard
      · split at hitem
        · next hword =>
          rcases List.mem_cons.mp hitem with rfl | hitem
          · exact htext _
          · rw [List.mem_singleton.mp hitem]
            exact hsoft cell List.mem_cons_self hword.1 _
        · rw [List.mem_singleton.mp hitem]
          exact htext _
    intro item hitem
    rcases List.mem_append.mp hitem with hitem | hitem
    · exact hseparation item hitem
    · rcases List.mem_cons.mp hitem with rfl | hitem
      · exact hpart cell List.mem_cons_self
      · exact hrest item hitem

theorem cells_strip (mode : SlashMode) (t : Plain) : (t.strip mode).cells.tail = t.cells.tail := by
  have hlead : t.dropLead.cells.tail = t.cells.tail := by
    obtain ⟨cells, tail, tidy⟩ := t
    cases cells <;> rfl
  cases mode with
  | loose => exact hlead
  | strict => rfl
  | legacy => rfl

theorem forall_mem_strip {P : Item → Prop} (htext : ∀ s, P (.text s))
    (hhard : P (.slash false ['/'])) {t : Plain} (hjoined : t.Joined)
    (hpart : ∀ p ∈ t.parts, P (.part p))
    (hsoft : ∀ p ∈ t.parts, p.isSoft = true → ∀ written, P (.slash true written))
    (mode : SlashMode) : ∀ item ∈ (t.strip mode).items, P item := by
  have hmem : ∀ cell ∈ (t.strip mode).cells, cell.part ∈ t.parts := by
    intro cell hcell
    rw [← parts_strip mode t]
    exact List.mem_map_of_mem hcell
  have hfirst : (none : Option Part).isSome → ∀ cell ∈ (t.strip mode).cells.head?,
      cell.part.isSoft = false → cell.lead ≠ [] := fun h => nomatch h
  refine forall_mem_itemsFrom htext hhard ?_ ?_ hfirst ?_ _
  · exact fun cell hcell => hpart _ (hmem cell hcell)
  · exact fun cell hcell => hsoft _ (hmem cell hcell)
  · rw [cells_strip]
    exact hjoined

/-! ## Slashes at the ends -/

/-- The items of a template without the slashes at its ends, and these slashes. -/
structure Stripped (mode : SlashMode) (t : Plain) (inner : List Item)
    (edge tail edge' : List Char) : Prop where
  items : (t.strip mode).items = inner ++ [.text tail]
  lead : Edge (mode = .loose) edge
  trail : Edge (¬ mode = .strict) edge'
  refilled : ∀ given, t.refilled given = edge ++ inner.foldr (Item.onto given) (tail ++ edge')
  lead_nil : mode = .loose → edge = [] → t.text.head? ≠ some '/'
  trail_nil : ¬ mode = .strict → edge' = [] → tail.getLast? ≠ some '/'
  last : inner.getLast? = t.parts.getLast?.map .part
  tail_eq : t.parts ≠ [] → t.tail = tail ++ edge'

/-- The items of the first cells are the same whatever comes behind them. -/
theorem itemsFrom_append (prev : Option Part) (cells : List Cell) :
    ∃ inner before, (∀ later tail,
        itemsFrom prev (cells ++ later) tail = inner ++ itemsFrom before later tail) ∧
      inner.getLast? = (cells.map (·.part)).getLast?.map .part := by
  induction cells generalizing prev with
  | nil => exact ⟨[], prev, fun _ _ => rfl, rfl⟩
  | cons cell cells ih =>
    obtain ⟨inner, before, hinner, hlast⟩ := ih (some cell.part)
    refine ⟨cell.separation prev ++ .part cell.part :: inner, before, fun later tail => ?_, ?_⟩
    · rw [List.cons_append, itemsFrom, hinner, List.append_assoc, List.cons_append]
    · rw [List.getLast?_append, List.map_cons, List.getLast?_cons, List.getLast?_cons, hlast]
      cases (cells.map (·.part)).getLast? <;> rfl

theorem endsInWordSlash_edge {allowed : Prop} {edge : List Char} (h : Edge allowed edge)
    (s : List Char) : endsInWordSlash (edge ++ s) = endsInWordSlash s := by
  rcases h with rfl | ⟨-, rfl⟩
  · rfl
  · rw [Bool.eq_iff_iff, endsInWordSlash_iff, endsInWordSlash_iff]
    constructor
    · rintro ⟨before, c, heq, hc⟩
      cases before with
      | nil =>
        obtain ⟨rfl, -⟩ := List.cons.inj heq
        cases hc
      | cons d before => exact ⟨before, c, (List.cons.inj heq).2, hc⟩
    · rintro ⟨before, c, rfl, hc⟩
      exact ⟨'/' :: before, c, rfl, hc⟩

/-- A slash that is taken away from the text before the first part stands before its items. -/
theorem foldr_separation {allowed : Prop} {edge lead : List Char} (hedge : Edge allowed edge)
    {cell : Cell} (hlead : cell.lead = edge ++ lead) (given : String → Option String)
    (rest : List Char) :
    (cell.separation none).foldr (Item.onto given) rest =
      edge ++ (({ cell with lead } : Cell).separation none).foldr (Item.onto given) rest := by
  have hword := endsInWordSlash_edge hedge lead
  rw [Cell.separation, Cell.separation, hlead, hword]
  simp only [Option.isSome_none, Bool.false_eq_true, false_and, if_false]
  split
  · next hjoin =>
    obtain ⟨before, c, rfl, -⟩ := endsInWordSlash_iff.mp hjoin.2
    rw [List.dropLast_append_of_ne_nil (by simp)]
    exact List.append_assoc _ _ _
  · exact List.append_assoc _ _ _

theorem exists_stripped (mode : SlashMode) (t : Plain) :
    ∃ inner edge tail edge', Stripped mode t inner edge tail edge' := by
  obtain ⟨cells, tail, tidy⟩ := t
  cases cells with
  | nil =>
    obtain ⟨edge, hedge, hlead, hnil⟩ := leadOf_edge mode tail
    obtain ⟨edge', hedge', htail, hnil'⟩ := tailOf_edge mode (leadOf mode tail)
    refine ⟨[], edge, tailOf mode (leadOf mode tail), edge', ?_, hedge, hedge', ?_, hnil, hnil',
      rfl, fun h => absurd rfl h⟩
    · cases mode <;> rfl
    · intro given
      rw [List.foldr_nil, ← htail, ← hlead]
      exact List.append_nil tail
  | cons cell cells =>
    obtain ⟨edge, hedge, hlead, hnil⟩ := leadOf_edge mode cell.lead
    obtain ⟨edge', hedge', htail, hnil'⟩ := tailOf_edge mode tail
    obtain ⟨inner, before, happend, hlast⟩ := itemsFrom_append (some cell.part) cells
    have hinner : ∀ tail, itemsFrom (some cell.part) cells tail = inner ++ [.text tail] := by
      intro tail
      have hnone := happend [] tail
      rwa [List.append_nil] at hnone
    refine ⟨({ cell with lead := leadOf mode cell.lead } : Cell).separation none ++
      .part cell.part :: inner, edge, tailOf mode tail, edge', ?_, hedge, hedge', ?_, ?_, hnil', ?_,
      fun _ => htail⟩
    · rw [items_strip_cons mode rfl, itemsFrom, hinner, List.append_assoc, List.cons_append]
    · intro given
      rw [Plain.refilled, Plain.items, itemsFrom, hinner, List.foldr_append,
        foldr_separation hedge hlead, List.foldr_append, List.foldr_cons, List.foldr_cons,
        List.foldr_append, ← htail, List.foldr_cons, List.foldr_nil, Item.onto, List.append_nil]
    · intro hmode hedge hhead
      refine hnil hmode hedge ?_
      have htext : (⟨cell :: cells, tail, tidy⟩ : Plain).text =
          cell.lead ++ (cell.part.text ++ (cells.flatMap Cell.text ++ tail)) := by
        simp only [Plain.text, List.flatMap_cons, Cell.text, List.append_assoc]
      rw [htext, List.head?_append] at hhead
      cases hfirst : cell.lead.head? with
      | some c =>
        rw [hfirst] at hhead
        exact hhead
      | none =>
        rw [hfirst, Part.text, Part.opening] at hhead
        split at hhead <;> cases hhead
    · rw [List.getLast?_append, Plain.parts, List.map_cons, List.getLast?_cons, List.getLast?_cons,
        hlast]
      cases (cells.map (·.part)).getLast? <;> rfl

/-- The matcher stands for the items with a slash at either end, as the mode has it. -/
theorem Stripped.requestItems {mode : SlashMode} {t : Plain} {inner : List Item}
    {edge tail edge' : List Char} (h : Stripped mode t inner edge tail edge') :
    t.requestItems mode = (if mode = .loose then [.slash true []] else []) ++
      ((inner ++ [.text tail]) ++ if ¬ mode = .strict then [.slash true []] else []) := by
  rw [Plain.requestItems, h.items, ite_not]

/-! ## What was filled in can be read -/

/-- What is written for the item can be read with the value of its part. -/
def Item.Refills (given : String → Option String) : Item → Prop
  | text _ => True
  | slash mayMiss written => mayMiss = true ∨ written = ['/']
  | part p => p.Holds (given (.ofList p.label)) ∧
      (p.reach = .query → given (.ofList p.label) = none)

/-- A slash is written, unless it may be missing and nothing is behind it. -/
theorem Item.Refills.onto_slash {given : String → Option String} {mayMiss : Bool}
    {written : List Char} (h : (Item.slash mayMiss written).Refills given) (rest : List Char) :
    (mayMiss = true ∧ rest = [] ∧ (Item.slash mayMiss written).onto given rest = []) ∨
      (Item.slash mayMiss written).onto given rest = '/' :: rest := by
  cases mayMiss with
  | false =>
    obtain rfl : written = ['/'] := h.resolve_left Bool.false_ne_true
    exact Or.inr rfl
  | true =>
    by_cases hrest : rest = []
    · exact Or.inl ⟨rfl, hrest, if_pos hrest⟩
    · exact Or.inr (if_neg hrest)

theorem Part.takes_value (p : Part) (hreach : p.reach ≠ .query) {v : List Char}
    (hv : p.reach.Admits v) : p.Takes { value := some v } := by
  rw [Part.Takes]
  cases hp : p.reach with
  | query => exact absurd hp hreach
  | segment =>
    rw [hp] at hv
    cases p.required with
    | true => exact ⟨v, hv, rfl⟩
    | false => exact ⟨[], Or.inl rfl, Or.inr ⟨v, hv, rfl⟩⟩
  | rest =>
    rw [hp] at hv
    cases p.required with
    | true => exact ⟨v, hv, rfl⟩
    | false => exact Or.inr ⟨v, hv, rfl⟩

theorem reads_filling {p : Part} {given : String → Option String}
    (h : (Item.part p).Refills given) :
    Reads [.part p] (p.filling given) [given (.ofList p.label)] := by
  obtain ⟨hholds, hquery⟩ := h
  rw [reads_singleton]
  cases hv : given (.ofList p.label) with
  | none =>
    rw [hv] at hholds
    have hoptional := hholds.not_required
    refine ⟨{}, ?_, ?_, rfl⟩
    · rw [Item.Takes, Part.Takes, hoptional]
      cases p.reach with
      | segment => exact ⟨[], Or.inl rfl, Or.inl rfl⟩
      | rest => exact Or.inl rfl
      | query => exact Or.inl rfl
    · rw [Part.filling, hv]
      rfl
  | some v =>
    rw [hv] at hholds hquery
    have hreach : p.reach ≠ .query := fun h => absurd (hquery h) (Option.some_ne_none v)
    have hadmits := hholds.admits hreach
    refine ⟨{ value := some v.toList }, p.takes_value hreach hadmits, ?_, ?_⟩
    · rw [Part.filling, hv]
      exact (List.append_nil _).symm
    · rw [valuesOf, Option.map_some, String.ofList_toList]
      rfl

/-- Before other text, items are written as they can be read. -/
theorem reads_foldr_onto {given : String → Option String} {items : List Item}
    (h : ∀ item ∈ items, item.Refills given) (rest : List Char) :
    ∃ u, items.foldr (Item.onto given) rest = u ++ rest ∧
      Reads items u ((partsOf items).map fun p => given (.ofList p.label)) := by
  induction items with
  | nil => exact ⟨[], rfl, reads_nil.mpr ⟨rfl, rfl⟩⟩
  | cons item items ih =>
    obtain ⟨u, hu, hreads⟩ := ih fun other hother => h other (List.mem_cons_of_mem _ hother)
    have hitem := h item List.mem_cons_self
    have hcons : ∀ {front values}, Reads [item] front values →
        Reads (item :: items) (front ++ u)
          (values ++ (partsOf items).map fun p => given (.ofList p.label)) :=
      fun hfront => reads_append.mpr ⟨_, _, _, _, rfl, rfl, hfront, hreads⟩
    rw [List.foldr_cons, hu]
    cases item with
    | text s => exact ⟨s ++ u, (List.append_assoc _ _ _).symm, hcons (reads_text.mpr ⟨rfl, rfl⟩)⟩
    | part p =>
      exact ⟨p.filling given ++ u, (List.append_assoc _ _ _).symm, hcons (reads_filling hitem)⟩
    | slash mayMiss written =>
      rcases hitem.onto_slash (u ++ rest) with ⟨hmiss, hnil, honto⟩ | honto
      · exact ⟨[] ++ u, honto.trans hnil.symm, hcons (reads_slash.mpr ⟨Or.inr ⟨hmiss, rfl⟩, rfl⟩)⟩
      · exact ⟨'/' :: u, honto, hcons (reads_slash.mpr ⟨Or.inl rfl, rfl⟩)⟩

theorem Stripped.partsOf_inner {mode : SlashMode} {t : Plain} {inner : List Item}
    {edge tail edge' : List Char} (h : Stripped mode t inner edge tail edge') :
    partsOf inner = t.parts := by
  have hparts := partsOf_itemsFrom none (t.strip mode).cells (t.strip mode).tail
  have hitems : itemsFrom none (t.strip mode).cells (t.strip mode).tail = inner ++ [.text tail] :=
    h.items
  rw [hitems, partsOf_append] at hparts
  exact ((List.append_nil _).symm.trans hparts).trans (parts_strip mode t)

theorem Stripped.refills {mode : SlashMode} {t : Plain} {inner : List Item}
    {edge tail edge' : List Char} (h : Stripped mode t inner edge tail edge') (hjoined : t.Joined)
    {given : String → Option String} (hparts : ∀ p ∈ t.parts, (Item.part p).Refills given) :
    ∀ item ∈ inner, item.Refills given := by
  have hall := forall_mem_strip (P := Item.Refills given) (fun _ => trivial) (Or.inr rfl)
    hjoined hparts (fun _ _ _ _ => Or.inl rfl) mode
  rw [h.items] at hall
  exact fun item hitem => hall item (List.mem_append_left _ hitem)

/-- What is filled in is a request that can be read with the values. -/
theorem reads_refilled {t : Plain} (hjoined : t.Joined) {given : String → Option String}
    (hparts : ∀ p ∈ t.parts, (Item.part p).Refills given) (mode : SlashMode) :
    Reads (t.requestItems mode) (t.refilled given)
      (t.parts.map fun p => given (.ofList p.label)) := by
  obtain ⟨inner, edge, tail, edge', hstripped⟩ := exists_stripped mode t
  obtain ⟨u, hu, hreads⟩ := reads_foldr_onto (hstripped.refills hjoined hparts) (tail ++ edge')
  rw [hstripped.partsOf_inner] at hreads
  rw [hstripped.refilled, hu, hstripped.requestItems, List.append_assoc inner]
  refine reads_append.mpr ⟨edge, _, [], _, rfl, rfl, reads_edge.mpr ⟨hstripped.lead, rfl⟩, ?_⟩
  refine reads_append.mpr ⟨u, _, _, [], rfl, (List.append_nil _).symm, hreads, ?_⟩
  exact reads_append.mpr ⟨tail, edge', [], [], rfl, rfl, reads_text.mpr ⟨rfl, rfl⟩,
    reads_edge.mpr ⟨hstripped.trail, rfl⟩⟩

theorem isMatch_of_reads {mode : SlashMode} {t : Plain} (h : t.text ≠ []) {re : Regex}
    (hcompile : compile mode (.ofList t.text) = .ok re) {text : List Char}
    {values : List (Option String)} (hreads : Reads (t.requestItems mode) text values) :
    re.isMatch (.ofList text) = true := by
  obtain ⟨slices, hcuts, -⟩ := hreads
  have hcases := captures?_cases (expr_of_plain h hcompile) (.ofList text)
  rw [String.toList_ofList] at hcases
  rcases hcases with ⟨others, -, hvalues⟩ | ⟨hnone, -⟩
  · exact isMatch_of_captures? hvalues
  · exact (hnone slices hcuts).elim

end RouteDispatch.Template
