/-
# Filling a path and reading it back

A path is a template of required segments, with text between any two of them that no
segment holds.  Filling it and matching it go through the template in different
ways: the one looks for names in the template as it is written, the other takes
slashes away, puts stand-ins in the place of the parts and turns them into groups.

Both come to the same row of text and values.  That filling writes it is read off
the items of the template (`fillChars_of_values`), and that matching finds the very
same values in it is the uniqueness of its reading (`reads_row`).
-/
import RouteDispatch.Proofs.Template.Filling
import RouteDispatch.Proofs.Template.Segments

namespace RouteDispatch.Template

/-- A template of required segments.  Between two of them there is text that no segment holds. -/
structure Path where
  cells : List Cell
  tail : List Char
  cells_ne : cells ≠ []
  segments : ∀ cell ∈ cells, cell.part.reach = .segment ∧ cell.part.required = true
  lead_chars : ∀ cell ∈ cells, ∀ c ∈ cell.lead, c ≠ '{' ∧ c ≠ '}' ∧ c ≠ ':'
  tail_chars : ∀ c ∈ tail, c ≠ '{' ∧ c ≠ '}' ∧ c ≠ ':'
  apart : ∀ cell ∈ cells.tail, ∃ c ∈ cell.lead, isStop c = true

/-- The value for the name of a part. -/
def Part.given (values : String → Option String) (p : Part) : List Char :=
  ((values (.ofList p.name)).map String.toList).getD []

namespace Path

def text (p : Path) : List Char := p.cells.flatMap Cell.text ++ p.tail

/-- The text with values in the place of the parts. -/
def filled (values : String → Option String) (p : Path) : List Char :=
  p.cells.flatMap (fun cell => cell.lead ++ cell.part.given values) ++ p.tail

end Path

/-! ## Filling -/

theorem filled_itemsFrom {prev : Option Part} {cells : List Cell}
    (hsoft : ∀ cell ∈ cells, cell.part.isSoft = false) (tail : List Char)
    (value : Part → List Char) :
    (itemsFrom prev cells tail).flatMap (Item.filled value) =
      cells.flatMap (fun cell => cell.lead ++ value cell.part) ++ tail := by
  induction cells generalizing prev with
  | nil => exact List.append_nil tail
  | cons cell cells ih =>
    have hcell := hsoft cell List.mem_cons_self
    have hseparation : (cell.separation prev).flatMap (Item.filled value) = cell.lead := by
      rw [Cell.separation, hcell]
      split
      · exact List.append_nil _
      · simp only [Bool.false_eq_true, false_and, if_false]
        exact List.append_nil _
    rw [itemsFrom, List.flatMap_append, List.flatMap_cons, hseparation,
      ih fun other hother => hsoft other (List.mem_cons_of_mem _ hother), List.flatMap_cons]
    simp only [Item.filled, List.append_assoc]

/-- A value without a slash may be given to a segment. -/
theorem value_of_segment {p : Part} (hreach : p.reach = .segment) {values : String → Option String}
    {v : String} (hvalue : values (.ofList p.name) = some v)
    (hadmits : Reach.segment.Admits v.toList) : p.slot.value values = .ok (p.given values) := by
  have hname : p.slot.name = p.name := by
    show p.label = p.name
    rw [Part.label, hreach]
  have hslash : '/' ∉ v.toList := by
    intro hmem
    exact absurd (hadmits.not_stop '/' hmem) (by decide)
  rw [Slot.value, hname, hvalue]
  simp only [hslash, and_false, if_false]
  rw [Part.given, hvalue]
  rfl

namespace Path

variable (p : Path)

theorem tidy_of_unmarked {prev : Option Part} (hprev : ∀ q, prev = some q → q.required = true)
    {cells : List Cell} (hcells : ∀ cell ∈ cells, cell ∈ p.cells)
    (hleads : ∀ cell ∈ cells, Unmarked cell.lead) (htail : Unmarked p.tail) :
    Tidy prev cells p.tail := by
  have hnotOptional : ∀ {other : Option Part}, (∀ q, other = some q → q.required = true) →
      ∀ q, other = some q → q.required = false → False := by
    intro other hother q hq hoptional
    rw [hother q hq] at hoptional
    cases hoptional
  induction cells generalizing prev with
  | nil =>
    exact ⟨p.tail_chars, htail, fun q hq hoptional => (hnotOptional hprev q hq hoptional).elim, nofun⟩
  | cons cell cells ih =>
    have hcell := hcells cell List.mem_cons_self
    have hnext : ∀ q, some cell.part = some q → q.required = true := by
      rintro q ⟨⟩
      exact (p.segments cell hcell).2
    refine ⟨⟨p.lead_chars cell hcell, hleads cell List.mem_cons_self,
      fun q hq hoptional => (hnotOptional hprev q hq hoptional).elim,
      fun q hq hoptional => (hnotOptional hnext q hq hoptional).elim⟩, ?_⟩
    exact ih hnext (fun other hother => hcells other (List.mem_cons_of_mem _ hother))
      fun other hother => hleads other (List.mem_cons_of_mem _ hother)

/-- Text of the template is in what it is filled to. -/
theorem lead_infix_filled (values : String → Option String) {cell : Cell} (h : cell ∈ p.cells) :
    cell.lead <:+: p.filled values := by
  obtain ⟨front, back, hsplit⟩ := List.append_of_mem h
  refine ⟨front.flatMap (fun cell => cell.lead ++ cell.part.given values),
    cell.part.given values ++
      (back.flatMap (fun cell => cell.lead ++ cell.part.given values) ++ p.tail), ?_⟩
  rw [filled, hsplit]
  simp only [List.flatMap_append, List.flatMap_cons, List.append_assoc]

theorem filled_eq_row (values : String → Option String) :
    p.filled values = row p.cells (p.cells.map (·.part.given values)) p.tail := by
  rw [filled]
  induction p.cells with
  | nil => rfl
  | cons cell cells ih =>
    rw [List.flatMap_cons, List.map_cons, row, ← ih]
    simp only [List.append_assoc]

/-- The values that a map has for the names are such as segments hold, and they are what the map
says. -/
theorem given_values {values : String → Option String}
    (h : ∀ cell ∈ p.cells, ∃ v, values (.ofList cell.part.name) = some v ∧
      Reach.segment.Admits v.toList) :
    SegmentValues p.cells (p.cells.map (·.part.given values)) ∧
      captured (p.cells.map (·.part.given values)) =
        p.cells.map fun cell => values (.ofList cell.part.name) := by
  refine ⟨⟨List.length_map _, ?_⟩, ?_⟩
  · intro v hv
    obtain ⟨cell, hcell, rfl⟩ := List.mem_map.mp hv
    obtain ⟨u, hu, hadmits⟩ := h cell hcell
    rwa [Part.given, hu]
  · rw [captured, List.map_map]
    refine List.map_congr_left ?_
    intro cell hcell
    obtain ⟨v, hv, -⟩ := h cell hcell
    simp only [Function.comp, Part.given, hv, Option.map_some, Option.getD_some,
      String.ofList_toList]

theorem text_ne : p.text ≠ [] := by
  obtain ⟨cell, cells, hcells⟩ := List.exists_cons_of_ne_nil p.cells_ne
  rw [text, hcells, List.flatMap_cons, Cell.text, Part.text]
  simp

/-- Values that segments may hold are filled in as they are, and come back one by one from the
request that they make.  The mode plays no part in this. -/
theorem fill_captures (mode : SlashMode) {re : Regex}
    (hcompile : compile mode (.ofList p.text) = .ok re) {values : String → Option String}
    (hvalues : ∀ cell ∈ p.cells, ∃ v, values (.ofList cell.part.name) = some v ∧
      Reach.segment.Admits v.toList)
    (hmarker : ¬ ['R', 'C', '_'] <:+: p.filled values) :
    fill (.ofList p.text) values = .ok (.ofList (p.filled values)) ∧
      re.isMatch (.ofList (p.filled values)) = true ∧
      re.captures? (.ofList (p.filled values)) =
        some (p.cells.map fun cell => values (.ofList cell.part.name)) := by
  have htidy : Tidy none p.cells p.tail := by
    have hnone : ∀ q, (none : Option Part) = some q → q.required = true := nofun
    refine p.tidy_of_unmarked hnone (fun _ h => h) ?_ ?_
    · exact fun cell hcell hin => hmarker (hin.trans (p.lead_infix_filled values hcell))
    · exact fun hin => hmarker (hin.trans (List.suffix_append _ _).isInfix)
  let t : Plain := ⟨p.cells, p.tail, htidy⟩
  have hfill : fill (.ofList p.text) values = .ok (.ofList (p.filled values)) := by
    have hparts : ∀ q ∈ t.parts, q.slot.value values = .ok (q.given values) := by
      intro q hq
      obtain ⟨cell, hcell, rfl⟩ := List.mem_map.mp hq
      obtain ⟨v, hv, hadmits⟩ := hvalues cell hcell
      exact value_of_segment (p.segments cell hcell).1 hv hadmits
    have hitems : t.items.flatMap (Item.filled (Part.given values)) = p.filled values :=
      filled_itemsFrom (fun cell hcell => isSoft_of_segment (p.segments cell hcell)) p.tail _
    have hchars := fillChars_of_values t hparts
    rw [hitems, settleSlashes_of_unmarked hmarker] at hchars
    rw [fill, String.toList_ofList]
    exact congrArg (Except.map String.ofList) hchars
  obtain ⟨hsuit, hgiven⟩ := p.given_values hvalues
  obtain ⟨first, cells, hcells⟩ := List.exists_cons_of_ne_nil p.cells_ne
  have hsegments := p.segments
  have hstop := p.apart
  rw [hcells] at hsegments hstop hsuit
  have hreads := reads_row mode (t := t) hcells hsegments hstop hsuit
  rw [← hcells, ← p.filled_eq_row values, hgiven] at hreads
  have hcaptures := captures_of_reads (t := t) p.text_ne hcompile ((hreads _).mpr rfl)
    fun others => (hreads others).mp
  exact ⟨hfill, isMatch_of_captures? hcaptures, hcaptures⟩

/-- The template `/users/{user}/posts/{post}`. -/
def userPost : Path where
  cells := [
    ⟨"/users/".toList, .segment, true, "user".toList, List.cons_ne_nil _ _, forall_mem_of_all rfl⟩,
    ⟨"/posts/".toList, .segment, true, "post".toList, List.cons_ne_nil _ _, forall_mem_of_all rfl⟩]
  tail := []
  cells_ne := List.cons_ne_nil _ _
  segments := List.forall_mem_cons.mpr ⟨⟨rfl, rfl⟩, List.forall_mem_cons.mpr ⟨⟨rfl, rfl⟩, nofun⟩⟩
  lead_chars := List.forall_mem_cons.mpr
    ⟨forall_mem_of_all rfl, List.forall_mem_cons.mpr ⟨forall_mem_of_all rfl, nofun⟩⟩
  tail_chars := nofun
  apart := List.forall_mem_cons.mpr ⟨⟨'/', List.mem_cons_self, rfl⟩, nofun⟩

theorem fill_captures_userPost :
    let values := fun name => if name = "user" then some "7" else some "42"
    ∃ re, compile .loose (.ofList userPost.text) = .ok re ∧
      userPost.text = "/users/{user}/posts/{post}".toList ∧
      fill (.ofList userPost.text) values = .ok "/users/7/posts/42" ∧
      re.isMatch "/users/7/posts/42" = true ∧
      re.captures? "/users/7/posts/42" = some [some "7", some "42"] := by
  intro values
  have hok : (compile .loose (.ofList userPost.text)).isOk = true := by decide +kernel
  obtain ⟨re, hcompile⟩ : ∃ re, compile .loose (.ofList userPost.text) = .ok re := by
    cases hcompile : compile .loose (.ofList userPost.text) with
    | ok re => exact ⟨re, rfl⟩
    | error reason =>
      rw [hcompile] at hok
      cases hok
  have hvalues : ∀ cell ∈ userPost.cells, ∃ v, values (.ofList cell.part.name) = some v ∧
      Reach.segment.Admits v.toList := by
    refine List.forall_mem_cons.mpr ⟨⟨"7", rfl, by decide, forall_mem_of_all rfl⟩, ?_⟩
    exact List.forall_mem_cons.mpr ⟨⟨"42", rfl, by decide, forall_mem_of_all rfl⟩, nofun⟩
  have hmarker : ¬ ['R', 'C', '_'] <:+: userPost.filled values := marker_of_not_mem (by decide)
  obtain ⟨hfill, hmatch, hcaptures⟩ := userPost.fill_captures .loose hcompile hvalues hmarker
  exact ⟨re, hcompile, rfl, hfill, hmatch, hcaptures⟩

end Path

end RouteDispatch.Template
