/-
# Where values begin and end

In a template whose texts begin and end with slashes, a value ends where its segment
does: whatever stands behind it is nothing or a slash (`CutsBest.parted`).  A part takes as
much as it can, and what later parts take from there on they can as well be
without (`cuts_later_cases`).

A value also begins where its segment does, with one exception.  The slash between a
word and an optional part need not be there, so the value of that part may stand
directly behind the word (`Bounded`).  Between two parts this cannot happen, for the
first one would have taken the value of the second (`bounds_later`).
-/
import RouteDispatch.Proofs.Template.Joined

namespace RouteDispatch.Template

open Text Regex

/-- Nothing follows, or a slash. -/
def Parted (s : List Char) : Prop := s = [] ∨ ∃ u, s = '/' :: u

/-! ## Slices of segments -/

/-- A segment takes its value, if it has one, and perhaps a slash. -/
structure Part.SegmentSlice (s : Slice) : Prop where
  before : s.before = []
  value : ∀ v, s.value = some v → Reach.segment.Admits v
  after : s.after = [] ∨ s.after = ['/']

theorem Part.Takes.segmentSlice {p : Part} (hp : p.reach = .segment) {s : Slice} (h : p.Takes s) :
    SegmentSlice s := by
  rw [Part.Takes, hp] at h
  cases hrequired : p.required with
  | true =>
    rw [hrequired] at h
    obtain ⟨v, hv, rfl⟩ := h
    exact ⟨rfl, fun w hw => Option.some.inj hw ▸ hv, Or.inl rfl⟩
  | false =>
    rw [hrequired] at h
    obtain ⟨slash, hslash, rfl | ⟨v, hv, rfl⟩⟩ := h
    · exact ⟨rfl, fun w hw => absurd hw.symm (Option.some_ne_none w), hslash⟩
    · exact ⟨rfl, fun w hw => Option.some.inj hw ▸ hv, hslash⟩

theorem Part.SegmentSlice.text {s : Slice} (h : SegmentSlice s) :
    s.text = s.value.getD [] ++ s.after := by
  rw [Slice.text, h.before, List.nil_append]

theorem optional_of_isSoft {p : Part} (hp : p.reach = .segment) (h : p.isSoft = true) :
    p.required = false := by
  cases hrequired : p.required with
  | false => rfl
  | true =>
    rw [isSoft_of_segment ⟨hp, hrequired⟩] at h
    cases h

/-- What is before a part is the text of its cell, or that without the slash at the end. -/
theorem cuts_separation_cases {prev : Option Part} {cell : Cell} (hlead : prev.isSome → cell.lead ≠ [])
    {slices : List Slice} {u : List Char} (h : Cuts (cell.separation prev) slices u) :
    u = cell.lead ∨ cell.part.isSoft = true ∧ u = cell.lead.dropLast ∧
      (cell.lead = ['/'] ∨ endsInWordSlash cell.lead = true) := by
  rw [Cell.separation] at h
  split at h
  · next hjoin =>
    have hslash := hjoin.2.resolve_left (hlead hjoin.1)
    have hread := (reads_slash.mp ⟨slices, h, rfl⟩).1
    rw [hslash]
    exact hread.imp_right fun hsoft => ⟨hsoft.1, hsoft.2, Or.inl rfl⟩
  · split at h
    · next hsoft =>
      obtain ⟨before, c, hword, -⟩ := endsInWordSlash_iff.mp hsoft.2
      have hrow : Cuts ([.text cell.lead.dropLast] ++ [.slash true ['/']]) slices u := h
      obtain ⟨front, back, v, w, -, rfl, hfront, hback⟩ := cuts_append hrow
      obtain ⟨-, rfl⟩ := cuts_text.mp hfront
      rcases cuts_slash.mp hback with ⟨-, rfl⟩ | ⟨-, rfl⟩
      · refine Or.inl ?_
        rw [hword]
        simp
      · exact Or.inr ⟨hsoft.1, List.append_nil _, Or.inr hsoft.2⟩
    · exact Or.inl (cuts_text.mp h).2

theorem Cuts.absent {p : Part} (hp : p.reach = .segment ∧ p.required = false) {first : List Item}
    {front : List Slice} {u : List Char} (hfirst : Cuts first front u) {slash : List Char}
    (hslash : slash = [] ∨ slash = ['/']) {items : List Item} {others : List Slice}
    {rest : List Char} (h : Cuts items others rest) :
    Cuts (first ++ .part p :: items) (front ++ { after := slash } :: others)
      (u ++ (slash ++ rest)) := by
  have htakes : p.Takes { after := slash } :=
    (Part.takes_optional_iff hp).mpr ⟨slash, hslash, Or.inl rfl⟩
  exact hfirst.append ⟨⟨htakes, h.1⟩, by rw [List.flatMap_cons, h.2]; rfl⟩

/-- Only a slash parts a segment from a value behind it. -/
theorem Part.SegmentSlice.after_of_parted {s : Slice} (h : SegmentSlice s) {v rest : List Char}
    (hv : Reach.segment.Admits v) (hparted : Parted (s.after ++ (v ++ rest))) :
    s.after = ['/'] := by
  refine h.after.resolve_left fun hnil => ?_
  obtain ⟨c, w, rfl, hc⟩ := hv.exists_cons
  rw [hnil] at hparted
  rcases hparted with hempty | ⟨u, hu⟩
  · cases hempty
  · exact hc (List.cons.inj hu).1

/-! ## What is behind a part -/

/-- The text of a cell that is a step further in a path: it begins and ends with a slash. -/
structure Cell.Step (cell : Cell) : Prop where
  segment : cell.part.reach = .segment
  head : ∃ u, cell.lead = '/' :: u
  last : cell.lead.getLast? = some '/'

theorem Cell.Step.lead_ne {cell : Cell} (h : cell.Step) : cell.lead ≠ [] := by
  obtain ⟨u, hu⟩ := h.head
  rw [hu]
  exact List.cons_ne_nil _ _

theorem dropLast_of_word {s u : List Char} (h : endsInWordSlash s = true) (hs : s = '/' :: u) :
    ∃ w, s.dropLast = '/' :: w := by
  obtain ⟨before, c, hword, hc⟩ := endsInWordSlash_iff.mp h
  rw [hs] at hword
  cases before with
  | nil => exact absurd (List.cons.inj hword).1.symm (isNameChar_ne hc rfl)
  | cons d before =>
    have hslash : s = ('/' :: (before ++ [c])) ++ ['/'] := by
      rw [hs, (List.cons.inj hword).2]
      simp
    exact ⟨before ++ [c], by rw [hslash, List.dropLast_concat]⟩

section
variable {tail : List Char} (htail : Parted tail) {trail : List Item}
  (htrail : ∀ slices text, Cuts trail slices text → Parted text)
include htail htrail

/-- Behind a part there is nothing or a slash, or the value of an optional part, which may as well
have none. -/
theorem cuts_later_cases (prev : Part) {cells : List Cell} (hcells : ∀ cell ∈ cells, cell.Step)
    {slices : List Slice} {text : List Char}
    (h : Cuts (itemsFrom (some prev) cells tail ++ trail) slices text) :
    Parted text ∨ ∃ w rest others, Reach.segment.Admits w ∧ text = w ++ rest ∧
      Cuts (itemsFrom (some prev) cells tail ++ trail) others rest := by
  induction cells generalizing prev slices text with
  | nil =>
    refine Or.inl ?_
    obtain ⟨front, back, u, v, -, rfl, hfront, hback⟩ := cuts_append h
    obtain ⟨-, rfl⟩ := cuts_text.mp hfront
    rcases htail with rfl | ⟨w, rfl⟩
    · exact htrail _ _ hback
    · exact Or.inr ⟨w ++ v, rfl⟩
  | cons cell cells ih =>
    obtain ⟨hcell, hcells⟩ := List.forall_mem_cons.mp hcells
    obtain ⟨lead, hlead⟩ := hcell.head
    rw [itemsFrom, List.append_assoc, List.cons_append] at h ⊢
    obtain ⟨front, back, u, v, -, rfl, hfront, hback⟩ := cuts_append h
    have hopens : u = [] ∧ cell.part.isSoft = true ∨ ∃ w, u = '/' :: w := by
      rcases cuts_separation_cases (fun _ => hcell.lead_ne) hfront with rfl | ⟨hsoft, rfl, hslash | hword⟩
      · exact Or.inr ⟨lead, hlead⟩
      · exact Or.inl ⟨by rw [hslash]; rfl, hsoft⟩
      · exact Or.inr (dropLast_of_word hword hlead)
    rcases hopens with ⟨rfl, hsoft⟩ | ⟨w, rfl⟩
    · have hoptional := optional_of_isSoft hcell.segment hsoft
      obtain ⟨s, later, rfl⟩ := hback.exists_cons
      obtain ⟨⟨hs, hlater⟩, rfl⟩ := hback
      obtain ⟨slash, hslash, rfl | ⟨w, hw, rfl⟩⟩ :=
        (Part.takes_optional_iff ⟨hcell.segment, hoptional⟩).mp hs
      · rcases hslash with rfl | rfl
        · rcases ih cell.part hcells ⟨hlater, rfl⟩ with hparted | ⟨w, rest, others, hw, hrest, hothers⟩
          · exact Or.inl hparted
          · exact Or.inr ⟨w, rest, _, hw, hrest,
              hfront.absent ⟨hcell.segment, hoptional⟩ (Or.inl rfl) hothers⟩
        · exact Or.inl (Or.inr ⟨_, rfl⟩)
      · refine Or.inr ⟨w, _, _, hw, ?_,
          hfront.absent ⟨hcell.segment, hoptional⟩ hslash ⟨hlater, rfl⟩⟩
        rw [List.nil_append, List.nil_append, List.flatMap_cons, ← List.append_assoc w]
        rfl
    · exact Or.inl (Or.inr ⟨w ++ v, rfl⟩)

end

/-- In the best cutting a segment is followed by nothing or a slash, for it would have taken more. -/
theorem CutsBest.parted {p : Part} (hp : p.reach = .segment) {items : List Item} {s : Slice}
    {slices : List Slice} {text : List Char}
    (hitems : ∀ slices text, Cuts items slices text → Parted text ∨ ∃ w rest others,
      Reach.segment.Admits w ∧ text = w ++ rest ∧ Cuts items others rest)
    (h : CutsBest (.part p :: items) (s :: slices) text) :
    Parted (s.after ++ slices.flatMap Slice.text) := by
  obtain ⟨⟨⟨hs, hall⟩, rfl⟩, hbest⟩ := h
  have hslice := Part.Takes.segmentSlice hp hs
  rcases hslice.after with hnil | hslash
  · rw [hnil, List.nil_append]
    rcases hitems slices _ ⟨hall, rfl⟩ with hparted | ⟨w, rest, others, hw, hrest, hothers⟩
    · exact hparted
    · have hadmits : Reach.segment.Admits (s.value.getD [] ++ w) := by
        refine ⟨List.append_ne_nil_of_right_ne_nil _ hw.1, ?_⟩
        refine List.forall_mem_append.mpr ⟨?_, hw.2⟩
        cases hv : s.value with
        | none => exact List.forall_mem_nil _
        | some v => exact (hslice.value v hv).2
      have hmore : p.Takes { value := some (s.value.getD [] ++ w) } :=
        p.takes_value (by rw [hp]; decide) (hp ▸ hadmits)
      have htext : s.text = s.value.getD [] := by rw [hslice.text, hnil, List.append_nil]
      have hmoreText : (⟨[], some (s.value.getD [] ++ w), []⟩ : Slice).text = s.text ++ w := by
        rw [htext]
        exact List.append_nil _
      have hprefers := hbest ({ value := some (s.value.getD [] ++ w) } :: others)
        ⟨⟨hmore, hothers.1⟩, by
          rw [List.flatMap_cons, List.flatMap_cons, hmoreText, hothers.2, hrest, List.append_assoc]⟩
      have hpos := List.length_pos_iff.mpr hw.1
      have hlonger : s.text.length < (⟨[], some (s.value.getD [] ++ w), []⟩ : Slice).text.length := by
        rw [hmoreText, List.length_append]
        omega
      rcases hprefers with hlt | ⟨heq, -⟩
      · omega
      · rw [← heq] at hlonger
        exact absurd hlonger (Nat.lt_irrefl _)
  · rw [hslash]
    exact Or.inr ⟨_, rfl⟩

/-! ## Bounds of a place -/

/-- The value at this place is a whole segment, unless its part is an optional one behind a word:
then it may go on directly behind that text. -/
structure Bounded (cell : Cell) (found : Place) : Prop where
  left : found.before = [] ∨ found.before.getLast? = some '/' ∨
    cell.part.required = false ∧ endsInWordSlash cell.lead = true ∧
      cell.lead.dropLast <:+ found.before
  right : Parted found.after

/-- Each value is where it may be. -/
def Bounds (cells : List Cell) (places : List (Option Place)) : Prop :=
  List.Forall₂ (fun cell place => ∀ found, place = some found → Bounded cell found) cells places

theorem placesOf_append_of_partless {first : List Item} (hpartless : partsOf first = [])
    {front : List Slice} (h : TakeAll first front) (before : List Char) (second : List Item)
    (back : List Slice) :
    placesOf before (first ++ second) (front ++ back) =
      placesOf (before ++ front.flatMap Slice.text) second back := by
  induction first generalizing before front with
  | nil =>
    cases front with
    | nil => exact congrArg (placesOf · second back) (List.append_nil before).symm
    | cons s front => exact h.elim
  | cons item first ih =>
    cases front with
    | nil => exact h.elim
    | cons s front =>
      have hrest : partsOf first = [] → _ := fun hnil => ih hnil h.2 (before ++ s.text)
      rw [List.flatMap_cons, ← List.append_assoc]
      cases item with
      | part p => cases hpartless
      | text t => exact hrest hpartless
      | slash mayMiss written => exact hrest hpartless

theorem placesOf_of_partless {items : List Item} (hpartless : partsOf items = [])
    {slices : List Slice} (h : TakeAll items slices) (before : List Char) :
    placesOf before items slices = [] := by
  have hrow := placesOf_append_of_partless hpartless h before [] []
  rwa [List.append_nil, List.append_nil] at hrow

/-- A value is bounded if what is behind the separation of its cell is, and what is before it. -/
theorem bounded_of_cuts {prev : Option Part} {cell : Cell} (hsegment : cell.part.reach = .segment)
    (hlead : cell.lead = [] ∨ cell.lead.getLast? = some '/') (hprev : prev.isSome → cell.lead ≠ [])
    {front : List Slice} {u : List Char} (hfront : Cuts (cell.separation prev) front u)
    {before : List Char} {s : Slice} (hs : cell.part.Takes s) {behind : List Char}
    (hbefore : ∀ v, s.value = some v → u = [] → before = [] ∨ before.getLast? = some '/')
    (hbehind : Parted (s.after ++ behind)) :
    ∀ found, s.value.map (⟨before ++ u ++ s.before, ·, s.after ++ behind⟩) = some found →
      Bounded cell found := by
  intro found hfound
  obtain ⟨v, hv, rfl⟩ := Option.map_eq_some_iff.mp hfound
  refine ⟨?_, hbehind⟩
  show before ++ u ++ s.before = [] ∨ (before ++ u ++ s.before).getLast? = some '/' ∨ _ ∧ _ ∧
    _ <:+ before ++ u ++ s.before
  rw [(hs.segmentSlice hsegment).before, List.append_nil]
  have hempty : u = [] → before ++ u = [] ∨ (before ++ u).getLast? = some '/' := by
    rintro rfl
    rw [List.append_nil]
    exact hbefore v hv rfl
  rcases cuts_separation_cases hprev hfront with rfl | ⟨hsoft, rfl, hslash | hword⟩
  · rcases hlead with hnil | hlast
    · exact (hempty hnil).imp_right Or.inl
    · refine Or.inr (Or.inl ?_)
      rw [List.getLast?_append, hlast]
      rfl
  · exact (hempty (by rw [hslash]; rfl)).imp_right Or.inl
  · exact Or.inr (Or.inr ⟨optional_of_isSoft hsegment hsoft, hword, List.suffix_append _ _⟩)

section
variable {tail : List Char} (htail : Parted tail) {trail : List Item} (hpartless : partsOf trail = [])
  (htrail : ∀ slices text, Cuts trail slices text → Parted text)
include htail hpartless htrail

/-- From one part on, all values are bounded. -/
theorem bounds_later {prev : Part} (hprev : prev.reach = .segment) {cells : List Cell}
    (hcells : ∀ cell ∈ cells, cell.Step) (before : List Char) {s : Slice} {slices : List Slice}
    {text : List Char}
    (h : CutsBest (.part prev :: (itemsFrom (some prev) cells tail ++ trail)) (s :: slices) text) :
    Parted (s.after ++ slices.flatMap Slice.text) ∧
      Bounds cells (placesOf (before ++ s.text) (itemsFrom (some prev) cells tail ++ trail) slices) := by
  have hparted := h.parted hprev fun _ _ hcuts => cuts_later_cases htail htrail prev hcells hcuts
  refine ⟨hparted, ?_⟩
  induction cells generalizing prev before s slices text with
  | nil =>
    have hrow : partsOf (.text tail :: trail) = [] := hpartless
    show Bounds [] (placesOf (before ++ s.text) (.text tail :: trail) slices)
    rw [placesOf_of_partless hrow h.1.1.2]
    exact List.Forall₂.nil
  | cons cell cells ih =>
    obtain ⟨hcell, hcells⟩ := List.forall_mem_cons.mp hcells
    rw [itemsFrom, List.append_assoc, List.cons_append] at h ⊢
    obtain ⟨hs, hall⟩ := h.1.1
    have htext : s.text ++ slices.flatMap Slice.text = text := h.1.2
    obtain ⟨front, back, u, v, rfl, hsplit, hfront, hback⟩ := cuts_append ⟨hall, rfl⟩
    obtain ⟨s', later, rfl⟩ := hback.exists_cons
    have hlater : CutsBest (.part cell.part :: (itemsFrom (some cell.part) cells tail ++ trail))
        (s' :: later) v := by
      have hstart : Cuts (.part prev :: cell.separation (some prev)) (s :: front) (s.text ++ u) :=
        ⟨⟨hs, hfront.1⟩, by rw [List.flatMap_cons, hfront.2]⟩
      rw [← htext, hsplit, ← List.append_assoc] at h
      exact h.behind hstart hback
    obtain ⟨⟨hs', -⟩, rfl⟩ := hback
    have hright := hlater.parted hcell.segment fun _ _ hcuts =>
      cuts_later_cases htail htrail cell.part hcells hcuts
    have hbounds := ih hcell.segment hcells (before ++ s.text ++ u) hlater hright
    -- A value directly behind the part before would have been taken by that part.
    have hbefore : ∀ v, s'.value = some v → u = [] →
        before ++ s.text = [] ∨ (before ++ s.text).getLast? = some '/' := by
      rintro v hv rfl
      have hslice' := hs'.segmentSlice hcell.segment
      rw [hsplit, List.nil_append, List.flatMap_cons, hslice'.text, hv, Option.getD_some,
        List.append_assoc] at hparted
      refine Or.inr ?_
      rw [(hs.segmentSlice hprev).text,
        (hs.segmentSlice hprev).after_of_parted (hslice'.value v hv) hparted, ← List.append_assoc,
        List.getLast?_concat]
    rw [placesOf_append_of_partless (partsOf_separation _ _) hfront.1, hfront.2, placesOf]
    refine List.Forall₂.cons ?_ hbounds
    exact bounded_of_cuts hcell.segment (Or.inr hcell.last) (fun _ => hcell.lead_ne) hfront hs'
      hbefore hright

end

/-- Segments with slashes between them, and perhaps some text before the first. -/
structure Plain.Steps (t : Plain) : Prop where
  first : ∀ cell, t.cells.head? = some cell →
    cell.part.reach = .segment ∧ (cell.lead = [] ∨ cell.lead.getLast? = some '/')
  later : ∀ cell ∈ t.cells.tail, cell.Step
  tail : t.cells ≠ [] → Parted t.tail

theorem Parted.of_append {s u : List Char} (h : Parted (s ++ u)) : Parted s := by
  cases s with
  | nil => exact Or.inl rfl
  | cons c s =>
    rcases h with hnil | ⟨w, hw⟩
    · cases hnil
    · exact Or.inr ⟨s, by rw [(List.cons.inj hw).1]⟩

theorem Plain.Steps.dropLead {t : Plain} (h : t.Steps) : t.dropLead.Steps := by
  obtain ⟨cells, tail, tidy⟩ := t
  cases cells with
  | nil => exact ⟨nofun, nofun, fun hne => absurd rfl hne⟩
  | cons cell cells =>
    refine ⟨?_, h.later, fun _ => h.tail (List.cons_ne_nil _ _)⟩
    rintro _ ⟨⟩
    obtain ⟨hsegment, hlead⟩ := h.first cell rfl
    refine ⟨hsegment, ?_⟩
    show SlashMode.dropLead cell.lead = [] ∨ (SlashMode.dropLead cell.lead).getLast? = some '/'
    rcases dropLead_cases cell.lead with hsame | hslash
    · rwa [hsame]
    · cases hdropped : SlashMode.dropLead cell.lead with
      | nil => exact Or.inl rfl
      | cons c u =>
        rw [hdropped] at hslash
        rw [hslash, List.getLast?_cons_cons] at hlead
        exact Or.inr (hlead.resolve_left (List.cons_ne_nil _ _))

theorem Plain.Steps.dropTrail {t : Plain} (h : t.Steps) : t.dropTrail.Steps := by
  refine ⟨h.first, h.later, fun hne => ?_⟩
  have htail := h.tail hne
  show Parted (SlashMode.dropTrail t.tail)
  rcases dropTrail_cases t.tail with hsame | hslash
  · rwa [hsame]
  · rw [hslash] at htail
    exact htail.of_append

theorem Plain.Steps.strip {t : Plain} (h : t.Steps) (mode : SlashMode) : (t.strip mode).Steps := by
  cases mode with
  | loose => exact h.dropLead.dropTrail
  | strict => exact h
  | legacy => exact h.dropTrail

/-- The slash that a mode allows at the end. -/
theorem cuts_trail {mode : SlashMode} {slices : List Slice} {text : List Char}
    (h : Cuts (if mode = .strict then [] else [.slash true []]) slices text) : Parted text := by
  split at h
  · exact Or.inl (reads_nil.mp ⟨slices, h, rfl⟩).1
  · rcases cuts_slash.mp h with ⟨-, rfl⟩ | ⟨-, rfl⟩
    · exact Or.inr ⟨[], rfl⟩
    · exact Or.inl rfl

/-- The best cutting has its values where they are bounded. -/
theorem Plain.Steps.bounds {mode : SlashMode} {t : Plain} (h : t.Steps) {slices : List Slice}
    {text : List Char} (hbest : CutsBest (t.requestItems mode) slices text) :
    Bounds (t.strip mode).cells (placesOf [] (t.requestItems mode) slices) := by
  have hsteps := h.strip mode
  have hedge : partsOf (if mode = .loose then [Item.slash true []] else []) = [] := by
    cases mode <;> rfl
  have htrail : partsOf (if mode = .strict then [] else [Item.slash true []]) = [] := by
    cases mode <;> rfl
  rw [Plain.requestItems, Plain.items] at hbest ⊢
  obtain ⟨edge, slices, e, u, rfl, rfl, hfirst, hcuts⟩ := cuts_append hbest.1
  replace hbest := hbest.behind hfirst hcuts
  rw [placesOf_append_of_partless hedge hfirst.1, hfirst.2, List.nil_append]
  have htexts := hsteps.tail
  have hcellsFirst := hsteps.first
  have hcellsLater := hsteps.later
  rcases hcells : (t.strip mode).cells with _ | ⟨cell, cells⟩
  · rw [hcells] at hbest
    have hrow : partsOf ([.text (t.strip mode).tail] ++
        if mode = .strict then [] else [.slash true []]) = [] := htrail
    rw [itemsFrom, placesOf_of_partless hrow hbest.1.1]
    exact List.Forall₂.nil
  · rw [hcells] at hbest htexts hcellsFirst hcellsLater
    obtain ⟨hsegment, hlead⟩ := hcellsFirst cell rfl
    have hprev : (none : Option Part).isSome → cell.lead ≠ [] := fun hsome => Bool.noConfusion hsome
    rw [itemsFrom, List.append_assoc, List.cons_append] at hbest ⊢
    obtain ⟨front, back, w, v, rfl, rfl, hfront, hback⟩ := cuts_append hbest.1
    replace hbest := hbest.behind hfront hback
    obtain ⟨s, later, rfl⟩ := hback.exists_cons
    obtain ⟨hright, hbounds⟩ := bounds_later (htexts (List.cons_ne_nil _ _)) htrail
      (fun _ _ => cuts_trail) hsegment hcellsLater (e ++ w) hbest
    rw [placesOf_append_of_partless (partsOf_separation _ _) hfront.1, hfront.2, placesOf]
    refine List.Forall₂.cons ?_ hbounds
    refine bounded_of_cuts hsegment hlead hprev hfront hback.1.1 (fun _ _ _ => ?_) hright
    rcases (reads_edge.mp ⟨edge, hfirst, rfl⟩).1 with rfl | ⟨-, rfl⟩
    · exact Or.inl rfl
    · exact Or.inr rfl

end RouteDispatch.Template
