/-
# Steady templates

What stands behind a part, and which values are there, decides whether the part has
its value again once the values are filled in (`Part.Steady`).  Behind a rest nothing
may be missing, as it would take in the slash that is written then.  Behind an
optional segment or query some text must begin with a slash, for what else stands
there could be taken for its value.  And an optional segment must not be able to give
its slash to the next part, or to take one from it.

Where this is so for all parts of a template, its items are a steady row
(`exists_steadyRow`), and the best cutting of what is filled in has the values of the
request (`best_refilled`).
-/
import RouteDispatch.Proofs.Template.Regained

namespace RouteDispatch.Template

open Text Regex

/-! ## Definitions -/

/-- The text behind a part, up to the next one. -/
def textBehind : List Cell → (tail : List Char) → List Char
  | [], tail => tail
  | cell :: _, _ => cell.lead

/-- With this behind it, the part has its value again. -/
structure Part.Steady (mode : SlashMode) (given : String → Option String) (p : Part)
    (later : List Cell) (tail : List Char) : Prop where
  /-- Behind a rest all parts are required. -/
  rest : p.reach = .rest → ∀ cell ∈ later, cell.part.required = true
  /-- Where a slash at the end is taken away, a rest does not have slashes and nothing else
  behind it. -/
  last : p.reach = .rest → later = [] → ¬ mode = .strict → tail = [] ∨ ∃ c ∈ tail, c ≠ '/'
  /-- Behind an optional segment or query no text stands but such as begins with a slash. -/
  text : p.reach ≠ .rest → p.required = false →
    textBehind later tail = [] ∨ ∃ u, textBehind later tail = '/' :: u
  /-- Where no more than slashes are between an optional segment and the next part, the value of
  that one does not begin with a slash, and if it is absent, all values behind it are. -/
  seam : p.reach = .segment → p.required = false → ∀ cell others, later = cell :: others →
    (∀ c ∈ cell.lead, c = '/') →
      (∀ v, given (.ofList cell.part.label) = some v → v.toList.head? ≠ some '/') ∧
        (given (.ofList cell.part.label) = none →
          ∀ other ∈ others, given (.ofList other.part.label) = none)

/-- All parts of the template have their values again. -/
def Plain.Steady (t : Plain) (mode : SlashMode) (given : String → Option String) : Prop :=
  ∀ front cell later, t.cells = front ++ cell :: later → cell.part.Steady mode given later t.tail

/-! ## From cells to items -/

/-- The items of cells, without the text behind the last one. -/
def between (prev : Option Part) : List Cell → List Item
  | [] => []
  | cell :: cells => cell.separation prev ++ .part cell.part :: between (some cell.part) cells

theorem itemsFrom_between (prev : Option Part) (cells : List Cell) (tail : List Char) :
    itemsFrom prev cells tail = between prev cells ++ [.text tail] := by
  induction cells generalizing prev with
  | nil => rfl
  | cons cell cells ih => rw [itemsFrom, between, ih, List.append_assoc, List.cons_append]

theorem partsOf_between (prev : Option Part) (cells : List Cell) :
    partsOf (between prev cells) = cells.map (·.part) := by
  have hparts := partsOf_itemsFrom prev cells []
  rw [itemsFrom_between, partsOf_append] at hparts
  exact (List.append_nil _).symm.trans hparts

theorem steadyParts_separation {given : String → Option String} {rest : List Char}
    (prev : Option Part) (cell : Cell) {items : List Item} (h : SteadyParts given rest items) :
    SteadyParts given rest (cell.separation prev ++ items) := by
  rw [Cell.separation]
  split
  · exact h
  · split <;> exact h

section
variable {mode : SlashMode} {given : String → Option String} {p : Part} {later : List Cell}
  {tail : List Char} (h : p.Steady mode given later tail)
  (hjoined : ∀ cell ∈ later, cell.part.isSoft = false → cell.lead ≠ [])
  (hrefills : ∀ cell ∈ later, (Item.part cell.part).Refills given)
include h hjoined

/-- Nothing may be missing behind a rest. -/
theorem kept_between (hrefills : ∀ cell ∈ later, (Item.part cell.part).Refills given)
    (hreach : p.reach = .rest) : ∀ item ∈ between (some p) later, item.Kept := by
  have hrequired := h.rest hreach
  have hquery : ∀ cell ∈ later, cell.part.reach ≠ .query := by
    intro cell hcell
    obtain ⟨v, hv⟩ := (hrefills cell hcell).exists_value (hrequired cell hcell)
    exact ((hrefills cell hcell).admits hv).1
  have hkept : ∀ cell ∈ later, (Item.part cell.part).Kept := by
    intro cell hcell
    by_cases hrest : cell.part.reach = .rest
    · exact Or.inl hrest
    · exact Or.inr ⟨cell.part.reach.eq_segment hrest (hquery cell hcell), hrequired cell hcell⟩
  have hsoft : ∀ cell ∈ later, cell.part.isSoft = true →
      ∀ written, (Item.slash true written).Kept := by
    intro cell hcell hsoft
    rw [isSoft_of_required (hrequired cell hcell) (hquery cell hcell)] at hsoft
    cases hsoft
  have hall : ∀ item ∈ itemsFrom (some p) later [], item.Kept :=
    forall_mem_itemsFrom (fun _ => trivial) ⟨rfl, rfl⟩ hkept hsoft
      (fun _ cell hcell => hjoined cell (List.mem_of_mem_head? hcell))
      (fun cell hcell => hjoined cell (List.mem_of_mem_tail hcell)) []
  rw [itemsFrom_between] at hall
  exact (List.forall_mem_append.mp hall).1

/-- Behind an optional segment or query there is a slash, or nothing. -/
theorem slash_between (hreach : p.reach ≠ .rest) (hoptional : p.required = false) :
    (between (some p) later).foldr (Item.onto given) tail = [] ∨
      ∃ u, (between (some p) later).foldr (Item.onto given) tail = '/' :: u := by
  have htext := h.text hreach hoptional
  cases later with
  | nil => exact htext
  | cons cell later =>
    change cell.lead = [] ∨ ∃ u, cell.lead = '/' :: u at htext
    rw [between, List.foldr_append, Cell.separation]
    split
    · next hjoin =>
      cases hsoft : cell.part.isSoft with
      | true =>
        rw [List.foldr_cons, List.foldr_nil, Item.onto]
        split
        · exact Or.inl rfl
        · exact Or.inr ⟨_, rfl⟩
      | false =>
        have hslash := hjoin.2.resolve_left (hjoined cell List.mem_cons_self hsoft)
        rw [hslash]
        exact Or.inr ⟨_, rfl⟩
    · next hjoin =>
      obtain ⟨u, hu⟩ := htext.resolve_left fun hnil => hjoin ⟨rfl, Or.inl hnil⟩
      split
      · obtain ⟨c, u, rfl⟩ := List.exists_cons_of_ne_nil (l := u) fun hnil =>
          hjoin ⟨rfl, Or.inr (by rw [hu, hnil])⟩
        rw [hu]
        exact Or.inr ⟨_, rfl⟩
      · rw [hu]
        exact Or.inr ⟨_, rfl⟩

omit hjoined in
theorem seam_between (hreach : p.reach = .segment) (hoptional : p.required = false) :
    Seam given (between (some p) later) := by
  cases later with
  | nil => trivial
  | cons cell later =>
    have hpart : (∀ c ∈ cell.lead, c = '/') →
        Seam given (.part cell.part :: between (some cell.part) later) := by
      intro hslashes
      obtain ⟨hhead, habsent⟩ := h.seam hreach hoptional cell later rfl hslashes
      refine ⟨hhead, fun hnone => ?_⟩
      rw [partsOf_between]
      exact List.forall_mem_map.mpr (habsent hnone)
    rw [between, Cell.separation]
    split
    · next hjoin =>
      refine hpart ?_
      rcases hjoin.2 with hlead | hlead <;> simp [hlead]
    · split
      · next hword =>
        intro hslashes
        obtain ⟨before, c, hlead, hc⟩ := endsInWordSlash_iff.mp hword.2
        have hmem : c ∈ cell.lead.dropLast := by
          rw [hlead, List.dropLast_append_of_ne_nil (by simp)]
          exact List.mem_append_right _ List.mem_cons_self
        rw [hslashes c hmem] at hc
        cases hc
      · exact hpart

include hrefills in
theorem Part.Steady.before : p.SteadyBefore given tail (between (some p) later) where
  kept := kept_between h hjoined hrefills
  required hreach := by
    rw [partsOf_between]
    exact List.forall_mem_map.mpr (h.rest hreach)
  text := slash_between h hjoined
  seam := seam_between h

end

theorem steadyParts_between {mode : SlashMode} {given : String → Option String} {cells : List Cell}
    {tail : List Char} (h : ∀ front cell later, cells = front ++ cell :: later →
      cell.part.Steady mode given later tail)
    (hjoined : ∀ cell ∈ cells.tail, cell.part.isSoft = false → cell.lead ≠ [])
    (hrefills : ∀ cell ∈ cells, (Item.part cell.part).Refills given) (prev : Option Part) :
    SteadyParts given tail (between prev cells) := by
  induction cells generalizing prev with
  | nil => trivial
  | cons cell cells ih =>
    obtain ⟨-, hcells⟩ := List.forall_mem_cons.mp hrefills
    refine steadyParts_separation prev cell ⟨(h [] cell cells rfl).before hjoined hcells, ?_⟩
    exact ih (fun front other later heq => h (cell :: front) other later (congrArg (cell :: ·) heq))
      (fun other hother => hjoined other (List.mem_of_mem_tail hother)) hcells _

/-! ## The whole template -/

/-- No cell but the first one is changed where slashes are taken away, and that one keeps its part. -/
theorem exists_cells_of_strip {mode : SlashMode} {t : Plain} {front : List Cell} {cell : Cell}
    {later : List Cell} (h : (t.strip mode).cells = front ++ cell :: later) :
    ∃ front' cell', t.cells = front' ++ cell' :: later ∧ cell'.part = cell.part := by
  have hparts : (t.strip mode).cells.map (·.part) = t.cells.map (·.part) := parts_strip mode t
  have htail := cells_strip mode t
  rw [h] at hparts htail
  cases hcells : t.cells with
  | nil =>
    rw [hcells, List.map_append] at hparts
    exact absurd hparts (List.append_ne_nil_of_right_ne_nil _ (List.cons_ne_nil _ _))
  | cons first cells =>
    rw [hcells] at hparts htail
    cases front with
    | nil =>
      obtain rfl : later = cells := htail
      exact ⟨[], first, rfl, (List.cons.inj hparts).1.symm⟩
    | cons other front =>
      obtain rfl : front ++ cell :: later = cells := htail
      exact ⟨first :: front, cell, rfl, rfl⟩

section
variable {mode : SlashMode} {t : Plain} {given : String → Option String} (hjoined : t.Joined)
  (hsteady : t.Steady mode given) (hrefills : ∀ p ∈ t.parts, (Item.part p).Refills given)
include hjoined hsteady hrefills

/-- Between the slashes at its ends, a steady template is a steady row. -/
theorem exists_steadyRow : ∃ inner edge tail edge', Stripped mode t inner edge tail edge' ∧
    SteadyRow given (¬ mode = .strict) tail edge' inner := by
  obtain ⟨inner, edge, tail, edge', hstripped⟩ := exists_stripped mode t
  refine ⟨inner, edge, tail, edge', hstripped, ?_⟩
  have hinner : inner = between none (t.strip mode).cells := by
    have hitems := hstripped.items
    rw [Plain.items, itemsFrom_between] at hitems
    exact (List.append_inj' hitems.symm rfl).1
  have hcells : ∀ front cell later, (t.strip mode).cells = front ++ cell :: later →
      cell.part.Steady mode given later (tail ++ edge') := by
    intro front cell later heq
    obtain ⟨front', cell', hcells, hpart⟩ := exists_cells_of_strip heq
    have hne : t.parts ≠ [] := by
      rw [Plain.parts, hcells, List.map_append]
      exact List.append_ne_nil_of_right_ne_nil _ (List.cons_ne_nil _ _)
    rw [← hpart, ← hstripped.tail_eq hne]
    exact hsteady front' cell' later hcells
  have hmem : ∀ cell ∈ (t.strip mode).cells, cell.part ∈ t.parts := by
    intro cell hcell
    rw [← parts_strip mode t]
    exact List.mem_map_of_mem hcell
  refine ⟨hstripped.refills hjoined hrefills, ?_, ?_, hstripped.trail, hstripped.trail_nil⟩
  · rw [hinner]
    refine steadyParts_between hcells ?_ (fun cell hcell => hrefills _ (hmem cell hcell)) none
    rw [cells_strip]
    exact hjoined
  · intro front item heq
    have hlast := hstripped.last
    rw [heq, List.getLast?_concat] at hlast
    obtain ⟨p, hp, hitem⟩ := Option.map_eq_some_iff.mp hlast.symm
    refine ⟨p, hitem.symm, fun hreach hmode => ?_⟩
    rw [← parts_strip mode t] at hp
    obtain ⟨parts, hparts⟩ := List.getLast?_eq_some_iff.mp hp
    obtain ⟨cells, last, hsplit, -, hback⟩ := List.map_eq_append_iff.mp hparts
    obtain ⟨cell, rfl, rfl⟩ := List.map_eq_singleton_iff.mp hback
    exact (hcells cells cell [] hsplit).last hreach rfl hmode

/-- The best cutting of what is filled in has the values of the request. -/
theorem best_refilled {slices : List Slice} {text : List Char}
    (hbest : CutsBest (t.requestItems mode) slices text)
    (hgiven : t.parts.map (fun p => given (.ofList p.label)) =
      valuesOf (t.requestItems mode) slices)
    (hlead : mode = .loose → t.text.head? ≠ some '/' → (t.refilled given).head? ≠ some '/') :
    ∃ others, CutsBest (t.requestItems mode) others (t.refilled given) ∧
      valuesOf (t.requestItems mode) others = valuesOf (t.requestItems mode) slices ∧
        (Unmarked text → Unmarked (t.refilled given)) := by
  obtain ⟨inner, edge, tail, edge', hstripped, hrow⟩ := exists_steadyRow hjoined hsteady hrefills
  have hitems : t.requestItems mode = (if mode = .loose then [.slash true []] else []) ++
      (inner ++ ends (¬ mode = .strict) tail) := by
    rw [hstripped.requestItems, List.append_assoc inner]
    rfl
  rw [hitems] at hbest hgiven ⊢
  obtain ⟨front, back, u, v, rfl, rfl, hfront, hback⟩ := cuts_append hbest.1
  rw [valuesOf_lead hfront] at hgiven
  have hfinds : Finds given (¬ mode = .strict) tail inner back v := by
    refine ⟨hbest.behind hfront hback, ?_⟩
    rw [← hgiven, hstripped.partsOf_inner]
  obtain ⟨cut, hcut⟩ := hrow.exists_cuts
  obtain ⟨others, hothers⟩ := exists_best hcut
  have hvalues := hrow.regains hfinds [] _ others (List.forall_mem_nil _) rfl (Or.inl rfl) hothers
  have hrefilled := hstripped.refilled given
  have hnil : mode = .loose → edge = [] →
      (inner.foldr (Item.onto given) (tail ++ edge')).head? ≠ some '/' := by
    rintro hmode rfl
    have hhead := hlead hmode (hstripped.lead_nil hmode rfl)
    rwa [hrefilled] at hhead
  obtain ⟨front', hfront', hall⟩ := best_swap_lead hothers hstripped.lead hnil
  refine ⟨front' ++ others, hrefilled ▸ hall, ?_, fun hmarker => ?_⟩
  · rw [valuesOf_lead hfront', valuesOf_lead hfront, hvalues, hfinds.2]
  · have hinner : Unmarked (inner.foldr (Item.onto given) (tail ++ edge')) :=
      hrow.unmarked hfinds (x := []) fun s hs hin =>
        hmarker ((hin.trans hs).trans (List.suffix_append u v).isInfix)
    rw [hrefilled]
    rcases hstripped.lead with rfl | ⟨-, rfl⟩
    · exact hinner
    · exact unmarked_slash.mpr ⟨unmarked_nil, hinner⟩

end

end RouteDispatch.Template
