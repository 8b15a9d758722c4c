/-
# Requests of required segments

A request of a template whose parts are all required segments is the text of the
template with a value in the place of each part (`row`), and perhaps a slash more at
either end (`reads_requestItems`).

What keeps two values apart is the text between them.  If it has a slash or a
question mark, which no value has, then what comes before the first of these is the
same in all readings of a request, and so is the first value; then the next one
begins at the same place again (`values_unique`).

At the ends a slash may be taken away from the template and read with the request
instead.  That cannot shift the values either: a segment neither begins with a slash
(`shifted_ne`) nor ends with one.  So the text that such values make has one
reading, whatever the mode (`reads_row`).
-/
import RouteDispatch.Proofs.Template.Readings

namespace RouteDispatch.Template

/-- The characters that no segment holds. -/
def isStop (c : Char) : Bool := c == '/' || c == '?'

/-- A value for each cell, such as a segment holds. -/
def SegmentValues (cells : List Cell) (vs : List (List Char)) : Prop :=
  vs.length = cells.length ∧ ∀ v ∈ vs, Reach.segment.Admits v

/-- The text of cells with these values in the place of their parts, from left to right. -/
def row : List Cell → List (List Char) → (tail : List Char) → List Char
  | cell :: cells, v :: vs, tail => cell.lead ++ (v ++ row cells vs tail)
  | _, _, tail => tail

/-- The values as a matcher gives them. -/
def captured (vs : List (List Char)) : List (Option String) := vs.map fun v => some (.ofList v)

theorem segmentValues_nil {vs : List (List Char)} : SegmentValues [] vs ↔ vs = [] := by
  constructor
  · exact fun h => List.length_eq_zero_iff.mp h.1
  · rintro rfl
    exact ⟨rfl, nofun⟩

theorem segmentValues_cons {cell : Cell} {cells : List Cell} {vs : List (List Char)} :
    SegmentValues (cell :: cells) vs ↔
      ∃ v ws, vs = v :: ws ∧ Reach.segment.Admits v ∧ SegmentValues cells ws := by
  constructor
  · rintro ⟨hlength, hadmits⟩
    obtain ⟨v, ws, rfl⟩ := List.exists_cons_of_length_eq_add_one hlength
    obtain ⟨hv, hws⟩ := List.forall_mem_cons.mp hadmits
    exact ⟨v, ws, rfl, hv, Nat.succ.inj hlength, hws⟩
  · rintro ⟨v, ws, rfl, hv, hlength, hws⟩
    exact ⟨congrArg (· + 1) hlength, List.forall_mem_cons.mpr ⟨hv, hws⟩⟩

theorem row_append_tail {cells : List Cell} {vs : List (List Char)} (h : SegmentValues cells vs)
    (tail edge : List Char) : row cells vs (tail ++ edge) = row cells vs tail ++ edge := by
  induction cells generalizing vs with
  | nil => rfl
  | cons cell cells ih =>
    obtain ⟨v, vs, rfl, -, hvs⟩ := segmentValues_cons.mp h
    simp only [row, ih hvs, List.append_assoc]

/-! ## Where a value ends -/

theorem Reach.Admits.not_stop {v : List Char} (h : Reach.segment.Admits v) :
    ∀ c ∈ v, isStop c = false := by
  intro c hc
  have hadmits := h.2 c hc
  simp only [Reach.admits, Bool.and_eq_true, bne_iff_ne] at hadmits
  simp [isStop, hadmits]

theorem admits_segment_iff {v : List Char} :
    Reach.segment.Admits v ↔ v ≠ [] ∧ '/' ∉ v ∧ '?' ∉ v := by
  constructor
  · intro h
    refine ⟨h.1, fun hc => ?_, fun hc => ?_⟩
    · exact absurd (h.not_stop _ hc) (by decide)
    · exact absurd (h.not_stop _ hc) (by decide)
  · rintro ⟨hne, hslash, hmark⟩
    refine ⟨hne, fun c hc => ?_⟩
    have hc₁ : c ≠ '/' := fun h => hslash (h ▸ hc)
    have hc₂ : c ≠ '?' := fun h => hmark (h ▸ hc)
    simp [Reach.admits, hc₁, hc₂]

theorem Reach.Admits.not_mem_slash {v : List Char} (h : Reach.segment.Admits v) : '/' ∉ v :=
  (admits_segment_iff.mp h).2.1

theorem admits_singleton {c : Char} (hslash : c ≠ '/') (hmark : c ≠ '?') :
    Reach.segment.Admits [c] :=
  admits_segment_iff.mpr ⟨List.cons_ne_nil c [], fun hmem => hslash (List.mem_singleton.mp hmem).symm,
    fun hmem => hmark (List.mem_singleton.mp hmem).symm⟩

/-- What comes before the first stop behind a value does not tell the value from another one. -/
theorem eq_of_append_eq {v w rest rest' : List Char} (hv : Reach.segment.Admits v)
    (hw : Reach.segment.Admits w) (h : v ++ rest = w ++ rest')
    (hrest : rest.takeWhile (! isStop ·) = rest'.takeWhile (! isStop ·)) : v = w := by
  have htake : ∀ u : List Char, Reach.segment.Admits u → ∀ rest : List Char,
      (u ++ rest).takeWhile (! isStop ·) = u ++ rest.takeWhile (! isStop ·) := by
    intro u hu rest
    refine List.takeWhile_append_of_pos ?_
    intro c hc
    rw [hu.not_stop c hc]
    rfl
  have hboth := congrArg (List.takeWhile (! isStop ·)) h
  rw [htake v hv, htake w hw, hrest] at hboth
  exact List.append_cancel_right hboth

theorem takeWhile_append_of_stop {s : List Char} (h : ∃ c ∈ s, isStop c = true)
    (rest : List Char) :
    (s ++ rest).takeWhile (! isStop ·) = s.takeWhile (! isStop ·) := by
  induction s with
  | nil =>
    obtain ⟨c, hc, -⟩ := h
    cases hc
  | cons c s ih =>
    rw [List.cons_append, List.takeWhile_cons, List.takeWhile_cons]
    cases hc : isStop c with
    | true => rfl
    | false =>
      have hs : ∃ c ∈ s, isStop c = true := by
        obtain ⟨d, hd, hstop⟩ := h
        rcases List.mem_cons.mp hd with rfl | hd
        · rw [hc] at hstop
          cases hstop
        · exact ⟨d, hd, hstop⟩
      rw [ih hs]

/-- A slash at one end, where it is allowed. -/
def Edge (allowed : Prop) (s : List Char) : Prop := s = [] ∨ (allowed ∧ s = ['/'])

theorem takeWhile_append_edge {allowed : Prop} (s : List Char) {edge : List Char}
    (h : Edge allowed edge) :
    (s ++ edge).takeWhile (! isStop ·) = s.takeWhile (! isStop ·) := by
  rcases h with rfl | ⟨-, rfl⟩
  · rw [List.append_nil]
  · induction s with
    | nil => rfl
    | cons c s ih => rw [List.cons_append, List.takeWhile_cons, List.takeWhile_cons, ih]

/-- From a value on, the values in a text are determined. -/
theorem values_unique {cells : List Cell}
    (hstop : ∀ cell ∈ cells, ∃ c ∈ cell.lead, isStop c = true) (tail : List Char)
    {allowed : Prop} {edge edge' : List Char} (hedge : Edge allowed edge)
    (hedge' : Edge allowed edge') {vs ws : List (List Char)} (hvs : SegmentValues cells vs)
    (hws : SegmentValues cells ws) {v w : List Char} (hv : Reach.segment.Admits v)
    (hw : Reach.segment.Admits w)
    (h : v ++ (row cells vs tail ++ edge) = w ++ (row cells ws tail ++ edge')) :
    v :: vs = w :: ws := by
  induction cells generalizing v w vs ws with
  | nil =>
    obtain rfl := segmentValues_nil.mp hvs
    obtain rfl := segmentValues_nil.mp hws
    have hend : (tail ++ edge).takeWhile (! isStop ·) = (tail ++ edge').takeWhile (! isStop ·) :=
      (takeWhile_append_edge tail hedge).trans (takeWhile_append_edge tail hedge').symm
    rw [eq_of_append_eq hv hw h hend]
  | cons cell cells ih =>
    obtain ⟨v', vs, rfl, hv', hvs⟩ := segmentValues_cons.mp hvs
    obtain ⟨w', ws, rfl, hw', hws⟩ := segmentValues_cons.mp hws
    have hlead := hstop cell List.mem_cons_self
    simp only [row, List.append_assoc] at h
    obtain rfl := eq_of_append_eq hv hw h
      ((takeWhile_append_of_stop hlead _).trans (takeWhile_append_of_stop hlead _).symm)
    have hnext := List.append_cancel_left (List.append_cancel_left h)
    have hlater := fun other hother => hstop other (List.mem_cons_of_mem _ hother)
    rw [ih hlater hvs hws hv' hw' hnext]

/-! ## Where the first value begins -/

/-- A slash more in front of some text shifts it, and what comes behind does not begin with a
slash. -/
theorem shifted_ne (s : List Char) {c : Char} (hc : c ≠ '/') (u w : List Char) :
    s ++ c :: u ≠ '/' :: (s ++ w) := by
  induction s with
  | nil => exact fun h => hc (List.cons.inj h).1
  | cons d s ih =>
    intro h
    obtain ⟨rfl, hrest⟩ := List.cons.inj h
    exact ih hrest

theorem Reach.Admits.exists_cons {v : List Char} (h : Reach.segment.Admits v) :
    ∃ c u, v = c :: u ∧ c ≠ '/' := by
  obtain ⟨c, u, rfl⟩ := List.exists_cons_of_ne_nil h.1
  refine ⟨c, u, rfl, ?_⟩
  rintro rfl
  exact absurd (h.not_stop '/' List.mem_cons_self) (by decide)

/-- In front of the first value a slash is read in all readings or in none. -/
theorem edge_unique {allowed : Prop} {edge edge' s v w u u' : List Char} (hedge : Edge allowed edge)
    (hedge' : Edge allowed edge') (hv : Reach.segment.Admits v) (hw : Reach.segment.Admits w)
    (h : edge ++ (s ++ (v ++ u)) = edge' ++ (s ++ (w ++ u'))) : v ++ u = w ++ u' := by
  obtain ⟨c, v, rfl, hc⟩ := hv.exists_cons
  obtain ⟨d, w, rfl, hd⟩ := hw.exists_cons
  rcases hedge with rfl | ⟨-, rfl⟩ <;> rcases hedge' with rfl | ⟨-, rfl⟩
  · exact List.append_cancel_left h
  · exact (shifted_ne s hc _ _ h).elim
  · exact (shifted_ne s hd _ _ h.symm).elim
  · exact List.append_cancel_left (List.cons.inj h).2

/-! ## Readings -/

/-- Before a required part stands what is written there. -/
theorem reads_separation {prev : Option Part} {cell : Cell} (hsoft : cell.part.isSoft = false)
    (hlead : prev.isSome → cell.lead ≠ []) {text : List Char} {values : List (Option String)} :
    Reads (cell.separation prev) text values ↔ text = cell.lead ∧ values = [] := by
  rw [Cell.separation, hsoft]
  split
  · next hjoin =>
    have hslash : cell.lead = ['/'] := hjoin.2.resolve_left (hlead hjoin.1)
    rw [reads_slash, hslash]
    simp
  · simp only [Bool.false_eq_true, false_and, if_false]
    exact reads_text

theorem reads_edge {p : Prop} [Decidable p] {text : List Char} {values : List (Option String)} :
    Reads (if p then [.slash true []] else []) text values ↔ Edge p text ∧ values = [] := by
  by_cases hp : p
  · rw [if_pos hp, reads_slash, Edge, or_comm]
    simp [hp]
  · rw [if_neg hp, reads_nil, Edge]
    simp [hp]

theorem isSoft_of_segment {p : Part} (h : p.reach = .segment ∧ p.required = true) :
    p.isSoft = false := by
  rw [Part.isSoft, h.1, h.2]
  rfl

section
variable {cells : List Cell}
  (hsegments : ∀ cell ∈ cells, cell.part.reach = .segment ∧ cell.part.required = true)
include hsegments

theorem reads_itemsFrom (prev : Option Part)
    (hfirst : prev.isSome → ∀ cell ∈ cells.head?, cell.lead ≠ [])
    (hlater : ∀ cell ∈ cells.tail, cell.lead ≠ []) (tail text : List Char)
    (values : List (Option String)) :
    Reads (itemsFrom prev cells tail) text values ↔
      ∃ vs, SegmentValues cells vs ∧ text = row cells vs tail ∧ values = captured vs := by
  induction cells generalizing prev text values with
  | nil =>
    rw [itemsFrom, reads_text]
    constructor
    · rintro ⟨rfl, rfl⟩
      exact ⟨[], segmentValues_nil.mpr rfl, rfl, rfl⟩
    · rintro ⟨vs, hvs, rfl, rfl⟩
      obtain rfl := segmentValues_nil.mp hvs
      exact ⟨rfl, rfl⟩
  | cons cell cells ih =>
    have hcell := hsegments cell List.mem_cons_self
    have hrest := fun text values =>
      ih (fun other hother => hsegments other (List.mem_cons_of_mem _ hother)) (some cell.part)
        (fun _ other hother => hlater other (List.mem_of_mem_head? hother))
        (fun other hother => hlater other (List.mem_of_mem_tail hother)) text values
    have hsplit : itemsFrom prev (cell :: cells) tail =
        cell.separation prev ++ ([.part cell.part] ++ itemsFrom (some cell.part) cells tail) := rfl
    rw [hsplit, reads_append]
    simp only [reads_append, reads_separation (isSoft_of_segment hcell) fun h => hfirst h cell rfl,
      reads_segment hcell.1 hcell.2, hrest]
    constructor
    · rintro ⟨t, u, v, w, rfl, rfl, ⟨rfl, rfl⟩, t', u', v', w', rfl, rfl, ⟨ht', rfl⟩, vs, hvs,
        rfl, rfl⟩
      exact ⟨t' :: vs, segmentValues_cons.mpr ⟨t', vs, rfl, ht', hvs⟩, rfl, rfl⟩
    · rintro ⟨vs, hvs, rfl, rfl⟩
      obtain ⟨v, vs, rfl, hv, hvs⟩ := segmentValues_cons.mp hvs
      exact ⟨_, _, _, _, rfl, rfl, ⟨rfl, rfl⟩, _, _, _, _, rfl, rfl, ⟨hv, rfl⟩, vs, hvs, rfl, rfl⟩

/-- The requests of segments, with the slashes that the mode allows at the ends. -/
theorem reads_requestItems {mode : SlashMode} {t : Plain} {tail : List Char}
    (hitems : (t.strip mode).items = itemsFrom none cells tail)
    (hlater : ∀ cell ∈ cells.tail, cell.lead ≠ []) (text : List Char)
    (values : List (Option String)) :
    Reads (t.requestItems mode) text values ↔
      ∃ edge vs edge', Edge (mode = .loose) edge ∧ SegmentValues cells vs ∧
        Edge (¬ mode = .strict) edge' ∧ text = edge ++ (row cells vs tail ++ edge') ∧
          values = captured vs := by
  have hedges : (if mode = .strict then [] else [Item.slash true []]) =
      if ¬ mode = .strict then [.slash true []] else [] := (ite_not _ _ _).symm
  have hmiddle := reads_itemsFrom hsegments none (fun h => nomatch h) hlater tail
  rw [Plain.requestItems, hedges, hitems]
  simp only [reads_append, reads_edge, hmiddle]
  constructor
  · rintro ⟨edge, u, _, _, rfl, rfl, ⟨hedge, rfl⟩, _, edge', _, _, rfl, rfl, ⟨vs, hvs, rfl, rfl⟩,
      hedge', rfl⟩
    exact ⟨edge, vs, edge', hedge, hvs, hedge', rfl, List.append_nil _⟩
  · rintro ⟨edge, vs, edge', hedge, hvs, hedge', rfl, rfl⟩
    exact ⟨edge, _, [], _, rfl, rfl, ⟨hedge, rfl⟩, _, edge', _, [], rfl, (List.append_nil _).symm,
      ⟨vs, hvs, rfl, rfl⟩, hedge', rfl⟩

end

/-! ## Slashes that a mode takes away -/

/-- What a mode leaves of the text before the first part. -/
def leadOf (mode : SlashMode) (s : List Char) : List Char :=
  if mode = .loose then SlashMode.dropLead s else s

/-- What a mode leaves of the text behind the last part. -/
def tailOf (mode : SlashMode) (s : List Char) : List Char :=
  if mode = .strict then s else SlashMode.dropTrail s

/-- A slash is taken away at the start if there is one. -/
theorem leadOf_edge (mode : SlashMode) (s : List Char) :
    ∃ edge, Edge (mode = .loose) edge ∧ s = edge ++ leadOf mode s ∧
      (mode = .loose → edge = [] → s.head? ≠ some '/') := by
  rw [leadOf]
  split
  · next hmode =>
    cases s with
    | nil => exact ⟨[], Or.inl rfl, rfl, fun _ _ => nofun⟩
    | cons c s =>
      by_cases hc : c = '/'
      · rw [hc]
        exact ⟨['/'], Or.inr ⟨hmode, rfl⟩, rfl, fun _ => nofun⟩
      · refine ⟨[], Or.inl rfl, (dropLead_of_ne hc s).symm, fun _ _ hhead => hc ?_⟩
        exact Option.some.inj hhead
  · next hmode => exact ⟨[], Or.inl rfl, rfl, fun h => absurd h hmode⟩

/-- A slash is taken away at the end if there is one. -/
theorem tailOf_edge (mode : SlashMode) (s : List Char) :
    ∃ edge, Edge (¬ mode = .strict) edge ∧ s = tailOf mode s ++ edge ∧
      (¬ mode = .strict → edge = [] → (tailOf mode s).getLast? ≠ some '/') := by
  rw [tailOf]
  split
  · next hmode => exact ⟨[], Or.inl rfl, (List.append_nil s).symm, fun h => absurd hmode h⟩
  · next hmode =>
    by_cases hlast : s.getLast? = some '/'
    · obtain ⟨u, rfl⟩ := List.getLast?_eq_some_iff.mp hlast
      refine ⟨['/'], Or.inr ⟨hmode, rfl⟩, ?_, fun _ => nofun⟩
      rw [SlashMode.dropTrail, if_pos hlast, List.dropLast_concat]
    · rw [SlashMode.dropTrail, if_neg hlast]
      exact ⟨[], Or.inl rfl, (List.append_nil s).symm, fun _ _ => hlast⟩

theorem tailOf_eq (mode : SlashMode) {s : List Char} (h : s.getLast? ≠ some '/') :
    tailOf mode s = s := by
  rw [tailOf, SlashMode.dropTrail, if_neg h, ite_self]

theorem leadOf_append (mode : SlashMode) {s : List Char} (h : s ≠ []) (u : List Char) :
    leadOf mode (s ++ u) = leadOf mode s ++ u := by
  rw [leadOf, leadOf]
  split
  · exact dropLead_append h u
  · rfl

/-- Text that ends in another character than a slash keeps that character. -/
theorem leadOf_concat (mode : SlashMode) {c : Char} (hc : c ≠ '/') (s : List Char) :
    ∃ s', leadOf mode (s ++ [c]) = s' ++ [c] := by
  cases s with
  | nil =>
    refine ⟨[], ?_⟩
    rw [List.nil_append, leadOf, dropLead_of_ne hc, ite_self]
  | cons d s => exact ⟨leadOf mode (d :: s), leadOf_append mode (List.cons_ne_nil d s) [c]⟩

theorem leadOf_of_edge {mode : SlashMode} {edge s : List Char} (h : Edge (mode = .loose) edge)
    (hs : mode = .loose → s.head? ≠ some '/') : leadOf mode (edge ++ s) = s := by
  rw [leadOf]
  split
  · next hmode =>
    rcases h with rfl | ⟨-, rfl⟩
    · refine (dropLead_cases s).resolve_right fun hslash => hs hmode ?_
      rw [hslash]
      rfl
    · rfl
  · next hmode => rw [h.resolve_right fun h => hmode h.1, List.nil_append]

theorem tailOf_of_edge {mode : SlashMode} {edge s : List Char} (h : Edge (¬ mode = .strict) edge)
    (hs : s.getLast? ≠ some '/') : tailOf mode (s ++ edge) = s := by
  rcases h with rfl | ⟨hmode, rfl⟩
  · rw [List.append_nil, tailOf_eq mode hs]
  · rw [tailOf, if_neg hmode, SlashMode.dropTrail, if_pos List.getLast?_concat, List.dropLast_concat]

theorem strip_eq (mode : SlashMode) (s : List Char) : mode.strip s = tailOf mode (leadOf mode s) := by
  cases mode <;> rfl

/-- What a mode takes away of a text is a slash at either end. -/
theorem edges_of_strip (mode : SlashMode) (s : List Char) :
    ∃ edge edge', Edge (mode = .loose) edge ∧ Edge (¬ mode = .strict) edge' ∧
      s = edge ++ (mode.strip s ++ edge') := by
  obtain ⟨edge, hedge, hlead, -⟩ := leadOf_edge mode s
  obtain ⟨edge', hedge', htail, -⟩ := tailOf_edge mode (leadOf mode s)
  refine ⟨edge, edge', hedge, hedge', ?_⟩
  rw [strip_eq, ← htail, ← hlead]

theorem items_strip_nil (mode : SlashMode) {t : Plain} (h : t.cells = []) :
    (t.strip mode).items = [.text (tailOf mode (leadOf mode t.tail))] := by
  obtain ⟨_, tail, tidy⟩ := t
  cases h
  cases mode <;> rfl

theorem items_strip_cons (mode : SlashMode) {t : Plain} {cell : Cell} {cells : List Cell}
    (h : t.cells = cell :: cells) :
    (t.strip mode).items =
      itemsFrom none ({ cell with lead := leadOf mode cell.lead } :: cells) (tailOf mode t.tail) := by
  obtain ⟨_, tail, tidy⟩ := t
  cases h
  cases mode <;> rfl

/-- What a mode takes away is a slash at either end, where a request may have it. -/
theorem strip_cells (mode : SlashMode) {t : Plain} {cell : Cell} {cells : List Cell}
    (h : t.cells = cell :: cells) :
    ∃ lead tail edge edge',
      (t.strip mode).items = itemsFrom none ({ cell with lead } :: cells) tail ∧
        Edge (mode = .loose) edge ∧ Edge (¬ mode = .strict) edge' ∧
        cell.lead = edge ++ lead ∧ t.tail = tail ++ edge' := by
  obtain ⟨edge, hedge, hlead, -⟩ := leadOf_edge mode cell.lead
  obtain ⟨edge', hedge', htail, -⟩ := tailOf_edge mode t.tail
  exact ⟨_, _, edge, edge', items_strip_cons mode h, hedge, hedge', hlead, htail⟩

/-- The text that values make of segments has one reading. -/
theorem reads_row (mode : SlashMode) {t : Plain} {cell : Cell} {cells : List Cell}
    (hcells : t.cells = cell :: cells)
    (hsegments : ∀ other ∈ cell :: cells, other.part.reach = .segment ∧ other.part.required = true)
    (hstop : ∀ other ∈ cells, ∃ c ∈ other.lead, isStop c = true) {vs : List (List Char)}
    (hvs : SegmentValues (cell :: cells) vs) (values : List (Option String)) :
    Reads (t.requestItems mode) (row (cell :: cells) vs t.tail) values ↔ values = captured vs := by
  obtain ⟨lead, tail, edge, edge', hitems, hedge, hedge', hlead, htail⟩ := strip_cells mode hcells
  have hstripped : ∀ other ∈ ({ cell with lead } : Cell) :: cells,
      other.part.reach = .segment ∧ other.part.required = true :=
    List.forall_mem_cons.mpr (List.forall_mem_cons.mp hsegments)
  have hlater : ∀ other ∈ cells, other.lead ≠ [] := by
    intro other hother hnil
    obtain ⟨c, hc, -⟩ := hstop other hother
    rw [hnil] at hc
    cases hc
  obtain ⟨v, vs, rfl, hv, hvs⟩ := segmentValues_cons.mp hvs
  have hrow : row (cell :: cells) (v :: vs) t.tail =
      edge ++ (lead ++ (v ++ (row cells vs tail ++ edge'))) := by
    rw [htail, row, hlead, row_append_tail hvs, List.append_assoc]
  rw [hrow, reads_requestItems hstripped hitems hlater]
  constructor
  · rintro ⟨before, ws, behind, hbefore, hws, hbehind, htext, rfl⟩
    obtain ⟨w, ws, rfl, hw, hws⟩ := segmentValues_cons.mp hws
    simp only [row, List.append_assoc] at htext
    have hfirst := edge_unique hedge hbefore hv hw htext
    rw [values_unique hstop tail hedge' hbehind hvs hws hv hw hfirst]
  · rintro rfl
    refine ⟨edge, v :: vs, edge', hedge, segmentValues_cons.mpr ⟨v, vs, rfl, hv, hvs⟩, hedge', ?_, rfl⟩
    simp only [row, List.append_assoc]

end RouteDispatch.Template
