/-
# Templates of segments

A template whose slashes stand between segments, each of them some text or one
required part, asks for nothing that a regular expression is needed for: its requests
are taken apart at their slashes, and the parts are compared with the segments one by
one (`takeAll?`).

To compare the two, the segments are laid out as a plain template, in which the text
between two parts is one piece (`layout`).  The readings of its requests are known
(`reads_requestItems`), and they come to the parts of a request that have no slash and
fit the segments (`reads_layout`).  All this is said of templates for which there is
room, and of too many segments there is no matcher (`not_captures_of_segments`).
-/
import RouteDispatch.Proofs.Template.Room

namespace RouteDispatch.Template

open Text Regex

/-- A segment of a template: some text, or a required part. -/
inductive Segment where
  | literal (s : List Char) (ne : s ≠ [])
      (chars : ∀ c ∈ s, c ≠ '/' ∧ c ≠ '{' ∧ c ≠ '}' ∧ c ≠ ':') (unmarked : Unmarked s)
  | param (p : Part) (segment : p.reach = .segment ∧ p.required = true)

namespace Segment

def text : Segment → List Char
  | literal s _ _ _ => s
  | param p _ => p.text

/-- The values that a part of a request gives, if it fits the segment. -/
def take? (part : List Char) : Segment → Option (List (Option String))
  | literal s _ _ _ => if part = s then some [] else none
  | param _ _ => if part ≠ [] ∧ '?' ∉ part then some [some (.ofList part)] else none

end Segment

/-- The values that parts of a request give, if they fit the segments one by one. -/
def takeAll? : List Segment → List (List Char) → Option (List (Option String))
  | [], [] => some []
  | segment :: segments, part :: parts => do
    let value ← segment.take? part
    let values ← takeAll? segments parts
    return value ++ values
  | _, _ => none

/-- The parts of a request.  Where the mode allows it, a slash at its end counts for nothing, and the one
at its start may be missing; otherwise it has to begin with a slash. -/
def requestParts? (mode : SlashMode) (request : List Char) : Option (List (List Char)) :=
  match mode, mode.strip request with
  | .loose, inner => some (inner.splitOn '/')
  | _, '/' :: inner => some (inner.splitOn '/')
  | _, _ => none

/-- The template of segments. -/
def segmentsText (segments : List Segment) : List Char :=
  '/' :: ['/'].intercalate (segments.map Segment.text)

/-! ## Laying out -/

/-- The cells of segments behind some text, and the text behind the last cell. -/
def layout : (lead : List Char) → Segment → List Segment → List Cell × List Char
  | lead, .literal s _ _ _, [] => ([], lead ++ s)
  | lead, .literal s _ _ _, next :: rest => layout (lead ++ (s ++ ['/'])) next rest
  | lead, .param p _, [] => ([⟨lead, p⟩], [])
  | lead, .param p _, next :: rest =>
    (⟨lead, p⟩ :: (layout ['/'] next rest).1, (layout ['/'] next rest).2)

theorem text_layout (lead : List Char) (first : Segment) (rest : List Segment) :
    (layout lead first rest).1.flatMap Cell.text ++ (layout lead first rest).2 =
      lead ++ ['/'].intercalate ((first :: rest).map Segment.text) := by
  fun_induction layout lead first rest with
  | case1 lead s =>
    rw [List.map_singleton, List.intercalate_singleton]
    rfl
  | case2 lead s ne chars unmarked next rest ih =>
    rw [ih, List.map_cons, List.map_cons, List.map_cons, intercalate_cons]
    simp [Segment.text]
  | case3 lead p =>
    rw [List.map_singleton, List.intercalate_singleton]
    simp [Segment.text, Cell.text]
  | case4 lead p segment next rest ih =>
    rw [List.flatMap_cons, List.append_assoc, ih, List.map_cons, List.map_cons, List.map_cons,
      intercalate_cons]
    simp [Segment.text, Cell.text]

/-- All cells are those of required segments. -/
theorem segments_layout (lead : List Char) (first : Segment) (rest : List Segment) :
    ∀ cell ∈ (layout lead first rest).1, cell.part.reach = .segment ∧ cell.part.required = true := by
  fun_induction layout lead first rest with
  | case1 => exact List.forall_mem_nil _
  | case2 lead s ne chars unmarked next rest ih => exact ih
  | case3 lead p segment => exact List.forall_mem_singleton.mpr segment
  | case4 lead p segment next rest ih => exact List.forall_mem_cons.mpr ⟨segment, ih⟩

/-- Behind the first cell there is text before every cell. -/
theorem lead_ne_of_layout (lead : List Char) (first : Segment) (rest : List Segment) :
    (lead ≠ [] → ∀ cell ∈ (layout lead first rest).1, cell.lead ≠ []) ∧
      ∀ cell ∈ (layout lead first rest).1.tail, cell.lead ≠ [] := by
  fun_induction layout lead first rest with
  | case1 => exact ⟨fun _ => List.forall_mem_nil _, List.forall_mem_nil _⟩
  | case2 lead s ne chars unmarked next rest ih =>
    have hne : lead ++ (s ++ ['/']) ≠ [] := by simp
    exact ⟨fun _ => ih.1 hne, ih.2⟩
  | case3 lead p => exact ⟨fun hne => List.forall_mem_singleton.mpr hne, List.forall_mem_nil _⟩
  | case4 lead p segment next rest ih =>
    have hlater := ih.1 (List.cons_ne_nil _ _)
    exact ⟨fun hne => List.forall_mem_cons.mpr ⟨hne, hlater⟩, hlater⟩

/-- Behind the last part there is no slash at the end. -/
theorem tail_layout (lead : List Char) (first : Segment) (rest : List Segment) :
    (layout lead first rest).2.getLast? ≠ some '/' := by
  fun_induction layout lead first rest with
  | case1 lead s ne chars =>
    rw [List.getLast?_append_of_ne_nil _ ne]
    exact fun hlast => (chars _ (List.mem_of_getLast? hlast)).1 rfl
  | case2 lead s ne chars unmarked next rest ih => exact ih
  | case3 lead p => exact nofun
  | case4 lead p segment next rest ih => exact ih

/-- A slash more before cells, or before the text if there is no cell. -/
def slashed : List Cell × List Char → List Cell × List Char
  | ([], tail) => ([], '/' :: tail)
  | (cell :: cells, tail) => ({ cell with lead := '/' :: cell.lead } :: cells, tail)

theorem layout_slash (lead : List Char) (first : Segment) (rest : List Segment) :
    layout ('/' :: lead) first rest = slashed (layout lead first rest) := by
  fun_induction layout lead first rest with
  | case1 lead s => rfl
  | case2 lead s ne chars unmarked next rest ih => exact ih
  | case3 lead p segment => rfl
  | case4 lead p segment next rest ih => rfl

/-- Text that may stand before a segment. -/
structure Front (lead : List Char) : Prop where
  delimiters : ∀ c ∈ lead, c ≠ '{' ∧ c ≠ '}' ∧ c ≠ ':'
  unmarked : ∀ s, Unmarked s → Unmarked (lead ++ s)

theorem front_slash : Front ['/'] where
  delimiters := forall_mem_of_all rfl
  unmarked _ hs := unmarked_slash.mpr ⟨unmarked_nil, hs⟩

theorem Front.append {lead s : List Char} (h : Front lead) (hs : Unmarked s)
    (chars : ∀ c ∈ s, c ≠ '/' ∧ c ≠ '{' ∧ c ≠ '}' ∧ c ≠ ':') : Front (lead ++ (s ++ ['/'])) where
  delimiters c hc := by
    rcases List.mem_append.mp hc with hc | hc
    · exact h.delimiters c hc
    · rcases List.mem_append.mp hc with hc | hc
      · exact (chars c hc).2
      · exact front_slash.delimiters c hc
  unmarked u hu := by
    have heq : lead ++ (s ++ ['/']) ++ u = (lead ++ s) ++ '/' :: u := by simp
    rw [heq]
    exact unmarked_slash.mpr ⟨h.unmarked s hs, hu⟩

/-- Text between required parts. -/
theorem literal_of_required {prev next : Option Part} (hprev : ∀ q, prev = some q → q.required = true)
    (hnext : ∀ q, next = some q → q.required = true) {s : List Char}
    (delimiters : ∀ c ∈ s, c ≠ '{' ∧ c ≠ '}' ∧ c ≠ ':') (unmarked : Unmarked s) :
    Literal prev s next where
  delimiters := delimiters
  marker := unmarked
  head q hq hoptional := by
    rw [hprev q hq] at hoptional
    cases hoptional
  last q hq hoptional := by
    rw [hnext q hq] at hoptional
    cases hoptional

theorem tidy_layout {lead : List Char} (h : Front lead) (first : Segment) (rest : List Segment)
    {prev : Option Part} (hprev : ∀ q, prev = some q → q.required = true) :
    Tidy prev (layout lead first rest).1 (layout lead first rest).2 := by
  have hnone : ∀ q, (none : Option Part) = some q → q.required = true := nofun
  fun_induction layout lead first rest generalizing prev with
  | case1 lead s ne chars unmarked =>
    refine literal_of_required hprev hnone ?_ (h.unmarked s unmarked)
    exact List.forall_mem_append.mpr ⟨h.delimiters, fun c hc => (chars c hc).2⟩
  | case2 lead s ne chars unmarked next rest ih => exact ih (h.append unmarked chars) hprev
  | case3 lead p segment =>
    have hp : ∀ q, some p = some q → q.required = true := fun q hq => Option.some.inj hq ▸ segment.2
    have hlead := h.unmarked [] unmarked_nil
    rw [List.append_nil] at hlead
    exact ⟨literal_of_required hprev hp h.delimiters hlead,
      literal_of_required hp hnone (List.forall_mem_nil _) unmarked_nil⟩
  | case4 lead p segment next rest ih =>
    have hp : ∀ q, some p = some q → q.required = true := fun q hq => Option.some.inj hq ▸ segment.2
    have hlead := h.unmarked [] unmarked_nil
    rw [List.append_nil] at hlead
    exact ⟨literal_of_required hprev hp h.delimiters hlead, ih front_slash hp⟩

/-- The segments as a plain template. -/
def plainOf (first : Segment) (rest : List Segment) : Plain where
  cells := (layout ['/'] first rest).1
  tail := (layout ['/'] first rest).2
  tidy := tidy_layout front_slash first rest fun _ h => nomatch h

theorem text_plainOf (first : Segment) (rest : List Segment) :
    (plainOf first rest).text = segmentsText (first :: rest) :=
  text_layout ['/'] first rest

/-- A mode takes away nothing but the slash at the start. -/
theorem items_plainOf (mode : SlashMode) (first : Segment) (rest : List Segment) :
    ((plainOf first rest).strip mode).items =
      itemsFrom none (layout (leadOf mode ['/']) first rest).1
        (layout (leadOf mode ['/']) first rest).2 := by
  have hlead : leadOf mode ['/'] = if mode = .loose then [] else ['/'] := by cases mode <;> rfl
  have htail := tail_layout [] first rest
  have htail' := tail_layout ['/'] first rest
  have hslash := layout_slash [] first rest
  rw [hlead]
  rcases hplain : layout [] first rest with ⟨_ | ⟨cell, cells⟩, tail⟩
  · rw [hplain] at hslash htail
    have hcells : (plainOf first rest).cells = [] := congrArg Prod.fst hslash
    have hrest : (plainOf first rest).tail = '/' :: tail := congrArg Prod.snd hslash
    rw [hslash] at htail'
    rw [items_strip_nil mode hcells, hrest]
    by_cases hmode : mode = .loose
    · rw [if_pos hmode, leadOf, if_pos hmode, hplain]
      exact congrArg (fun s => [Item.text s]) (tailOf_eq mode htail)
    · rw [if_neg hmode, leadOf, if_neg hmode, hslash]
      exact congrArg (fun s => [Item.text s]) (tailOf_eq mode htail')
  · rw [hplain] at hslash htail
    have hcells : (plainOf first rest).cells = { cell with lead := '/' :: cell.lead } :: cells :=
      congrArg Prod.fst hslash
    have hrest : (plainOf first rest).tail = tail := congrArg Prod.snd hslash
    rw [items_strip_cons mode hcells, hrest, tailOf_eq mode htail]
    by_cases hmode : mode = .loose
    · rw [if_pos hmode, leadOf, if_pos hmode, hplain]
      rfl
    · rw [if_neg hmode, leadOf, if_neg hmode, hslash]
      rfl

/-! ## Parts -/

theorem takeAll?_cons {segment : Segment} {segments : List Segment} {parts : List (List Char)}
    {values : List (Option String)} :
    takeAll? (segment :: segments) parts = some values ↔
      ∃ part later value others, parts = part :: later ∧ segment.take? part = some value ∧
        takeAll? segments later = some others ∧ values = value ++ others := by
  cases parts with
  | nil =>
    refine ⟨nofun, ?_⟩
    rintro ⟨part, later, value, others, hparts, -⟩
    cases hparts
  | cons part parts =>
    rw [takeAll?]
    constructor
    · intro h
      obtain ⟨value, hvalue, h⟩ := Option.bind_eq_some_iff.mp h
      obtain ⟨others, hothers, h⟩ := Option.bind_eq_some_iff.mp h
      exact ⟨part, parts, value, others, rfl, hvalue, hothers, (Option.some.inj h).symm⟩
    · rintro ⟨part', later, value, others, hparts, hvalue, hothers, rfl⟩
      obtain ⟨rfl, rfl⟩ := List.cons.inj hparts
      rw [hvalue, hothers]
      rfl

theorem takeAll?_nil {parts : List (List Char)} {values : List (Option String)} :
    takeAll? [] parts = some values ↔ parts = [] ∧ values = [] := by
  cases parts with
  | nil =>
    rw [takeAll?, Option.some_inj, eq_comm]
    exact (and_iff_right rfl).symm
  | cons part parts => exact ⟨nofun, fun h => nomatch h.1⟩

theorem takeAll?_singleton {segment : Segment} {parts : List (List Char)}
    {values : List (Option String)} :
    takeAll? [segment] parts = some values ↔
      ∃ part, parts = [part] ∧ segment.take? part = some values := by
  rw [takeAll?_cons]
  constructor
  · rintro ⟨part, later, value, others, rfl, hvalue, hothers, rfl⟩
    obtain ⟨rfl, rfl⟩ := takeAll?_nil.mp hothers
    exact ⟨part, rfl, by rwa [List.append_nil]⟩
  · rintro ⟨part, rfl, hvalue⟩
    exact ⟨part, [], values, [], rfl, hvalue, rfl, (List.append_nil values).symm⟩

theorem Segment.take?_literal {s : List Char} {ne : s ≠ []}
    {chars : ∀ c ∈ s, c ≠ '/' ∧ c ≠ '{' ∧ c ≠ '}' ∧ c ≠ ':'} {unmarked : Unmarked s}
    {part : List Char} {values : List (Option String)} :
    (Segment.literal s ne chars unmarked).take? part = some values ↔ part = s ∧ values = [] := by
  rw [take?]
  split
  · next h => simp [h, eq_comm]
  · next h => simp [h]

/-- A part without a slash fits a parameter if it may be its value. -/
theorem Segment.take?_param {p : Part} {segment : p.reach = .segment ∧ p.required = true}
    {part : List Char} (hslash : '/' ∉ part) {values : List (Option String)} :
    (Segment.param p segment).take? part = some values ↔
      Reach.segment.Admits part ∧ values = [some (.ofList part)] := by
  rw [take?, admits_segment_iff]
  split
  · next h => simp [h, hslash, eq_comm]
  · next h =>
    refine ⟨nofun, fun hadmits => (h ?_).elim⟩
    exact ⟨hadmits.1.1, hadmits.1.2.2⟩

theorem Segment.ne_of_take? {segment : Segment} {part : List Char} {values : List (Option String)}
    (h : segment.take? part = some values) : part ≠ [] := by
  cases segment with
  | literal s ne chars unmarked =>
    rw [(take?_literal.mp h).1]
    exact ne
  | param p segment =>
    rintro rfl
    cases h

theorem ne_of_takeAll? {segments : List Segment} {parts : List (List Char)}
    {values : List (Option String)} (h : takeAll? segments parts = some values) :
    ∀ part ∈ parts, part ≠ [] := by
  induction segments generalizing parts values with
  | nil =>
    rw [(takeAll?_nil.mp h).1]
    exact List.forall_mem_nil _
  | cons segment segments ih =>
    obtain ⟨part, later, value, others, rfl, hvalue, hothers, -⟩ := takeAll?_cons.mp h
    exact List.forall_mem_cons.mpr ⟨Segment.ne_of_take? hvalue, ih hothers⟩

/-- What the cells of segments are read as. -/
theorem reads_layout (lead : List Char) (first : Segment) (rest : List Segment) (text : List Char)
    (values : List (Option String)) :
    (∃ vs, SegmentValues (layout lead first rest).1 vs ∧
        text = row (layout lead first rest).1 vs (layout lead first rest).2 ∧
          values = captured vs) ↔
      ∃ parts, takeAll? (first :: rest) parts = some values ∧ (∀ part ∈ parts, '/' ∉ part) ∧
        text = lead ++ ['/'].intercalate parts := by
  fun_induction layout lead first rest generalizing text values with
  | case1 lead s ne chars unmarked =>
    have hslash : '/' ∉ s := fun hmem => (chars _ hmem).1 rfl
    constructor
    · rintro ⟨vs, hvs, rfl, rfl⟩
      obtain rfl := segmentValues_nil.mp hvs
      refine ⟨[s], takeAll?_singleton.mpr ⟨s, rfl, Segment.take?_literal.mpr ⟨rfl, rfl⟩⟩,
        List.forall_mem_singleton.mpr hslash, ?_⟩
      rw [List.intercalate_singleton]
      rfl
    · rintro ⟨parts, htake, -, rfl⟩
      obtain ⟨part, rfl, hpart⟩ := takeAll?_singleton.mp htake
      obtain ⟨rfl, rfl⟩ := Segment.take?_literal.mp hpart
      exact ⟨[], segmentValues_nil.mpr rfl, by rw [List.intercalate_singleton]; rfl, rfl⟩
  | case2 lead s ne chars unmarked next rest ih =>
    have hslash : '/' ∉ s := fun hmem => (chars _ hmem).1 rfl
    rw [ih]
    constructor
    · rintro ⟨parts, htake, hparts, rfl⟩
      obtain ⟨part, later, value, others, rfl, -⟩ := takeAll?_cons.mp htake
      refine ⟨s :: part :: later, takeAll?_cons.mpr ⟨s, _, [], values, rfl, ?_, htake, rfl⟩,
        List.forall_mem_cons.mpr ⟨hslash, hparts⟩, ?_⟩
      · exact Segment.take?_literal.mpr ⟨rfl, rfl⟩
      · rw [intercalate_cons]
        simp
    · rintro ⟨parts, htake, hparts, rfl⟩
      obtain ⟨part, later, value, others, rfl, hpart, hothers, rfl⟩ := takeAll?_cons.mp htake
      obtain ⟨rfl, rfl⟩ := Segment.take?_literal.mp hpart
      obtain ⟨part', later, value, others', rfl, -⟩ := takeAll?_cons.mp hothers
      refine ⟨part' :: later, hothers, (List.forall_mem_cons.mp hparts).2, ?_⟩
      rw [intercalate_cons]
      simp
  | case3 lead p segment =>
    constructor
    · rintro ⟨vs, hvs, rfl, rfl⟩
      obtain ⟨v, vs, rfl, hv, hvs⟩ := segmentValues_cons.mp hvs
      obtain rfl := segmentValues_nil.mp hvs
      have hslash := (admits_segment_iff.mp hv).2.1
      refine ⟨[v], takeAll?_singleton.mpr ⟨v, rfl, (Segment.take?_param hslash).mpr ⟨hv, rfl⟩⟩,
        List.forall_mem_singleton.mpr hslash, ?_⟩
      rw [List.intercalate_singleton]
      exact congrArg (lead ++ ·) (List.append_nil v)
    · rintro ⟨parts, htake, hparts, rfl⟩
      obtain ⟨part, rfl, hpart⟩ := takeAll?_singleton.mp htake
      obtain ⟨hv, rfl⟩ := (Segment.take?_param (hparts _ List.mem_cons_self)).mp hpart
      refine ⟨[part], segmentValues_cons.mpr ⟨part, [], rfl, hv, segmentValues_nil.mpr rfl⟩, ?_, rfl⟩
      rw [List.intercalate_singleton]
      exact congrArg (lead ++ ·) (List.append_nil part).symm
  | case4 lead p segment next rest ih =>
    constructor
    · rintro ⟨vs, hvs, rfl, rfl⟩
      obtain ⟨v, vs, rfl, hv, hvs⟩ := segmentValues_cons.mp hvs
      have hslash := (admits_segment_iff.mp hv).2.1
      obtain ⟨parts, htake, hparts, htext⟩ := (ih _ _).mp ⟨vs, hvs, rfl, rfl⟩
      obtain ⟨part, later, value, others, rfl, -⟩ := takeAll?_cons.mp htake
      refine ⟨v :: part :: later, takeAll?_cons.mpr ⟨v, _, [some (.ofList v)], captured vs, rfl, ?_,
        htake, rfl⟩, List.forall_mem_cons.mpr ⟨hslash, hparts⟩, ?_⟩
      · exact (Segment.take?_param hslash).mpr ⟨hv, rfl⟩
      · rw [row, htext, intercalate_cons]
        rfl
    · rintro ⟨parts, htake, hparts, rfl⟩
      obtain ⟨part, later, value, others, rfl, hpart, hothers, rfl⟩ := takeAll?_cons.mp htake
      obtain ⟨hslash, hparts⟩ := List.forall_mem_cons.mp hparts
      obtain ⟨hv, rfl⟩ := (Segment.take?_param hslash).mp hpart
      obtain ⟨part', later, value, others', rfl, -⟩ := takeAll?_cons.mp hothers
      obtain ⟨vs, hvs, htext, rfl⟩ := (ih _ _).mpr ⟨_, hothers, hparts, rfl⟩
      refine ⟨part :: vs, segmentValues_cons.mpr ⟨part, vs, rfl, hv, hvs⟩, ?_, rfl⟩
      rw [row, ← htext, intercalate_cons]
      rfl

/-! ## Requests -/

/-- What a mode leaves of a request that has its slashes at the ends. -/
theorem strip_of_edges {mode : SlashMode} {edge inner edge' : List Char}
    (hedge : Edge (mode = .loose) edge) (hedge' : Edge (¬ mode = .strict) edge')
    (hhead : inner.head? ≠ some '/') (hlast : inner.getLast? ≠ some '/') (hne : inner ≠ []) :
    mode.strip (edge ++ (leadOf mode ['/'] ++ inner ++ edge')) = leadOf mode ['/'] ++ inner := by
  have hfirst : mode = .loose → (leadOf mode ['/'] ++ inner ++ edge').head? ≠ some '/' := by
    rintro rfl
    show (inner ++ edge').head? ≠ some '/'
    rwa [List.head?_append_of_ne_nil _ hne]
  have hend : (leadOf mode ['/'] ++ inner).getLast? ≠ some '/' := by
    rwa [List.getLast?_append_of_ne_nil _ hne]
  rw [strip_eq, leadOf_of_edge hedge hfirst, tailOf_of_edge hedge' hend]

theorem requestParts?_iff {mode : SlashMode} {request : List Char} {parts : List (List Char)} :
    requestParts? mode request = some parts ↔
      ∃ inner, mode.strip request = leadOf mode ['/'] ++ inner ∧ parts = inner.splitOn '/' := by
  have hslash : mode ≠ .loose → leadOf mode ['/'] = ['/'] := fun h => if_neg h
  have hsame : ∀ {inner : List Char}, some (inner.splitOn '/') = some parts ↔
      ∃ u, inner = u ∧ parts = u.splitOn '/' :=
    ⟨fun h => ⟨_, rfl, (Option.some.inj h).symm⟩, fun ⟨_, hu, hparts⟩ => by rw [hparts, hu]⟩
  unfold requestParts?
  split
  · exact hsame
  · next inner hmode hstrip =>
    rw [hslash (by rintro rfl; exact hmode rfl), hstrip, hsame]
    simp
  · next hmode hstrip =>
    refine ⟨nofun, ?_⟩
    rintro ⟨inner, hinner, -⟩
    rw [hslash (by rintro rfl; exact hmode rfl)] at hinner
    exact (hstrip _ hinner).elim

/-- The requests of segments are those that fall into fitting parts. -/
theorem reads_plainOf (mode : SlashMode) (first : Segment) (rest : List Segment)
    (request : List Char) (values : List (Option String)) :
    Reads ((plainOf first rest).requestItems mode) request values ↔
      (requestParts? mode request).bind (takeAll? (first :: rest)) = some values := by
  have hlater := (lead_ne_of_layout (leadOf mode ['/']) first rest).2
  have hsegments := segments_layout (leadOf mode ['/']) first rest
  rw [reads_requestItems hsegments (items_plainOf mode first rest) hlater, Option.bind_eq_some_iff]
  constructor
  · rintro ⟨edge, vs, edge', hedge, hvs, hedge', rfl, rfl⟩
    obtain ⟨parts, htake, hparts, htext⟩ :=
      (reads_layout (leadOf mode ['/']) first rest _ _).mp ⟨vs, hvs, rfl, rfl⟩
    have hne := ne_of_takeAll? htake
    obtain ⟨hhead, hlast⟩ := ends_intercalate hne hparts
    obtain ⟨part, later, -, -, rfl, -⟩ := takeAll?_cons.mp htake
    refine ⟨part :: later, requestParts?_iff.mpr ⟨['/'].intercalate (part :: later), ?_, ?_⟩, htake⟩
    · rw [htext]
      exact strip_of_edges hedge hedge' hhead hlast
        (intercalate_ne_nil (hne _ List.mem_cons_self) later)
    · exact (List.splitOn_intercalate '/' hparts (List.cons_ne_nil _ _)).symm
  · rintro ⟨parts, hparts, htake⟩
    obtain ⟨inner, hstrip, rfl⟩ := requestParts?_iff.mp hparts
    obtain ⟨edge, edge', hedge, hedge', hrequest⟩ := edges_of_strip mode request
    obtain ⟨vs, hvs, htext, hvalues⟩ := (reads_layout (leadOf mode ['/']) first rest _ _).mpr
      ⟨_, htake, fun _ => not_mem_of_mem_splitOn, rfl⟩
    refine ⟨edge, vs, edge', hedge, hvs, hedge', ?_, hvalues⟩
    rw [hrequest, hstrip, ← htext, List.intercalate_splitOn]

/-- The matcher of segments takes a request apart at its slashes, and compares the parts with the
segments one by one. -/
theorem captures_of_segments (mode : SlashMode) (first : Segment) (rest : List Segment) :
    ∃ re, IsMatcher mode (.ofList (segmentsText (first :: rest))) re ∧
      ∀ request, re.captures? request =
        (requestParts? mode request.toList).bind (takeAll? (first :: rest)) := by
  have htext := text_plainOf first rest
  have hne : (plainOf first rest).text ≠ [] := by
    rw [htext]
    exact List.cons_ne_nil _ _
  refine ⟨(plainOf first rest).regex mode, htext ▸ Plain.isMatcher_regex mode hne, ?_⟩
  intro request
  have hreads := reads_plainOf mode first rest request.toList
  rcases captures?_cases (Plain.expr_regex mode (plainOf first rest)) request with
    ⟨slices, hbest, hvalues⟩ | ⟨hnone, hvalues⟩
  · rw [hvalues]
    exact ((hreads _).mp ⟨slices, hbest.1, rfl⟩).symm
  · rw [hvalues]
    refine (Option.eq_none_iff_forall_not_mem.mpr ?_).symm
    intro values hmem
    obtain ⟨slices, hcuts, -⟩ := (hreads values).mpr hmem
    exact hnone slices hcuts

theorem takeAll?_replicate {segment : Segment} {part : List Char} {value : Option String}
    (h : segment.take? part = some [value]) (n : Nat) :
    takeAll? (List.replicate n segment) (List.replicate n part) = some (List.replicate n value) := by
  induction n with
  | zero => rfl
  | succ n ih => exact takeAll?_cons.mpr ⟨part, _, [value], _, rfl, h, ih, rfl⟩

/-- Of fifteen thousand segments there is no matcher, so it does not take apart what they do. -/
theorem not_captures_of_segments :
    let a : Part := ⟨.segment, true, ['a'], List.cons_ne_nil _ _, forall_mem_of_all rfl⟩
    let segments := List.replicate 15000 (Segment.param a ⟨rfl, rfl⟩)
    let request := '/' :: ['/'].intercalate (List.replicate 15000 ['x'])
    (requestParts? .strict request).bind (takeAll? segments) =
        some (List.replicate 15000 (some "x")) ∧
      ¬ ∃ re, compile .strict (.ofList (segmentsText segments)) = .ok re ∧
        re.captures? (.ofList request) = some (List.replicate 15000 (some "x")) := by
  intro a segments request
  let later := List.replicate 14999 a
  have htext : segmentsText segments = ['/'] ++ (a.text ++ steps (later.map Part.text)) := by
    have hmap : segments.map Segment.text = a.text :: later.map Part.text := by
      rw [List.map_replicate, List.map_replicate]
      rfl
    rw [segmentsText, hmap, intercalate_slash]
    rfl
  have hslash : ∀ part ∈ List.replicate 15000 ['x'], '/' ∉ part := by
    intro part hpart
    rw [List.eq_of_mem_replicate hpart]
    decide
  have hparts : requestParts? .strict request = some (List.replicate 15000 ['x']) :=
    congrArg some (List.splitOn_intercalate '/' hslash (List.cons_ne_nil _ _))
  have hliteral : Literal none ['/'] (some a) :=
    literal_lead (List.forall_mem_nil _) unmarked_nil a
  have hmany : weightLimit < 1000 * (later.length + 1) := by
    rw [List.length_replicate]
    decide
  have htake : ∀ n, takeAll? (List.replicate n (.param a ⟨rfl, rfl⟩)) (List.replicate n ['x']) =
      some (List.replicate n (some "x")) := takeAll?_replicate rfl
  constructor
  · rw [hparts, Option.bind_some, htake]
  · rintro ⟨re, hcompile, -⟩
    rw [htext, oversized_of_joined .strict hliteral hmany] at hcompile
    cases hcompile

end RouteDispatch.Template
