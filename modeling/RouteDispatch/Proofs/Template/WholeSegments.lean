/-
# Captured values are whole segments

A path template is a row of components with slashes between them, each of them some text
or a part that holds one segment.  In a request that it matches, every captured value
ends where a segment ends, and with one exception it begins where a segment begins
(`captures_whole`).

The exception is an optional part directly behind text that ends in a name character.
The slash between the two may be missing, as it has to be if there is no value;
but then the value may go on where the text ends (`captures_glued`).
-/
import RouteDispatch.Proofs.Template.Bounds

namespace RouteDispatch.Template

open Text Regex

/-- A component of a path template. -/
inductive Component where
  | literal (s : List Char) (ne : s ≠ [])
      (chars : ∀ c ∈ s, c ≠ '/' ∧ c ≠ '{' ∧ c ≠ '}' ∧ c ≠ ':' ∧ c ≠ '*' ∧ c ≠ '?')
      (unmarked : Unmarked s)
  | param (p : Part) (segment : p.reach = .segment)

def Component.text : Component → List Char
  | literal s _ _ _ => s
  | param p _ => p.text

/-- The template of components, with or without a slash before them. -/
def pathText (slashed : Bool) (components : List Component) : List Char :=
  (if slashed then ['/'] else []) ++ ['/'].intercalate (components.map Component.text)

/-- The parts of a path template, each with the text directly before it, if there is any. -/
def partsBehind : (text : List Char) → List Component → List (List Char × Part)
  | _, [] => []
  | _, .literal s _ _ _ :: rest => partsBehind s rest
  | text, .param p _ :: rest => (text, p) :: partsBehind [] rest

/-- The value at this place is a whole segment; that of an optional part behind a word may also
begin directly behind the word. -/
structure Whole (param : List Char × Part) (found : Place) : Prop where
  left : found.before = [] ∨ found.before.getLast? = some '/' ∨
    param.2.required = false ∧ (∃ c, param.1.getLast? = some c ∧ isNameChar c = true) ∧
      param.1 <:+ found.before
  right : found.after = [] ∨ ∃ u, found.after = '/' :: u

/-! ## Cells of components -/

/-- The cells of components that have a slash before each, behind some text, and the text behind the
last cell. -/
def cellsBehind : (text : List Char) → List Component → List Cell × List Char
  | text, [] => ([], text)
  | text, .literal s _ _ _ :: rest => cellsBehind (text ++ '/' :: s) rest
  | text, .param p _ :: rest =>
    (⟨text ++ ['/'], p⟩ :: (cellsBehind [] rest).1, (cellsBehind [] rest).2)

/-- The cells of components without a slash before the first. -/
def cellsOf (text : List Char) (first : Component) (rest : List Component) : List Cell × List Char :=
  match first with
  | .literal s _ _ _ => cellsBehind (text ++ s) rest
  | .param p _ => (⟨text, p⟩ :: (cellsBehind [] rest).1, (cellsBehind [] rest).2)

theorem text_cellsBehind (text : List Char) (components : List Component) :
    (cellsBehind text components).1.flatMap Cell.text ++ (cellsBehind text components).2 =
      text ++ steps (components.map Component.text) := by
  fun_induction cellsBehind text components with
  | case1 text => exact (List.append_nil text).symm
  | case2 text s ne chars unmarked rest ih =>
    rw [ih, List.map_cons, steps_cons]
    simp [Component.text]
  | case3 text p segment rest ih =>
    rw [List.flatMap_cons, List.append_assoc, ih, List.map_cons, steps_cons]
    simp [Component.text, Cell.text]

theorem text_cellsOf (text : List Char) (first : Component) (rest : List Component) :
    (cellsOf text first rest).1.flatMap Cell.text ++ (cellsOf text first rest).2 =
      text ++ ['/'].intercalate ((first :: rest).map Component.text) := by
  rw [List.map_cons, intercalate_slash]
  cases first with
  | literal s ne chars unmarked =>
    rw [cellsOf, text_cellsBehind, List.append_assoc]
    rfl
  | param p segment =>
    rw [cellsOf, List.flatMap_cons, List.append_assoc, text_cellsBehind]
    simp [Component.text, Cell.text]

/-! ## Plain text -/

/-- Text in which nothing has a meaning. -/
structure Quiet (s : List Char) : Prop where
  chars : ∀ c ∈ s, c ≠ '{' ∧ c ≠ '}' ∧ c ≠ ':' ∧ c ≠ '*' ∧ c ≠ '?'
  unmarked : Unmarked s

theorem quiet_nil : Quiet [] := ⟨List.forall_mem_nil _, unmarked_nil⟩

theorem Quiet.slash {s u : List Char} (hs : Quiet s) (hu : Quiet u) : Quiet (s ++ '/' :: u) where
  chars := List.forall_mem_append.mpr
    ⟨hs.chars, List.forall_mem_cons.mpr ⟨by decide, hu.chars⟩⟩
  unmarked := unmarked_slash.mpr ⟨hs.unmarked, hu.unmarked⟩

theorem Quiet.literal {s : List Char} (h : Quiet s) (prev next : Option Part) :
    Literal prev s next where
  delimiters c hc := ⟨(h.chars c hc).1, (h.chars c hc).2.1, (h.chars c hc).2.2.1⟩
  marker := h.unmarked
  head _ _ _ hhead := (h.chars _ (List.mem_of_head? hhead)).2.2.2.2 rfl
  last _ _ _ hlast := (h.chars _ (List.mem_of_getLast? hlast)).2.2.2.1 rfl

theorem tidy_cellsBehind {text : List Char} (h : Quiet text) (prev : Option Part)
    (components : List Component) :
    Tidy prev (cellsBehind text components).1 (cellsBehind text components).2 := by
  fun_induction cellsBehind text components generalizing prev with
  | case1 text => exact h.literal prev none
  | case2 text s ne chars unmarked rest ih =>
    exact ih (h.slash ⟨fun c hc => (chars c hc).2, unmarked⟩) prev
  | case3 text p segment rest ih =>
    exact ⟨(h.slash quiet_nil).literal prev (some p), ih quiet_nil (some p)⟩

theorem tidy_cellsOf (slashed : Bool) (first : Component) (rest : List Component) :
    Tidy none (cellsOf (if slashed then ['/'] else []) first rest).1
      (cellsOf (if slashed then ['/'] else []) first rest).2 := by
  have hslash : ∀ s, Quiet s → Quiet ((if slashed then ['/'] else []) ++ s) := by
    intro s hs
    cases slashed with
    | true => exact quiet_nil.slash hs
    | false => exact hs
  cases first with
  | literal s ne chars unmarked =>
    exact tidy_cellsBehind (hslash s ⟨fun c hc => (chars c hc).2, unmarked⟩) none rest
  | param p segment =>
    have hlead := hslash [] quiet_nil
    rw [List.append_nil] at hlead
    exact ⟨hlead.literal none (some p), tidy_cellsBehind quiet_nil (some p) rest⟩

/-- The components as a plain template. -/
def plainPath (slashed : Bool) (first : Component) (rest : List Component) : Plain where
  cells := (cellsOf (if slashed then ['/'] else []) first rest).1
  tail := (cellsOf (if slashed then ['/'] else []) first rest).2
  tidy := tidy_cellsOf slashed first rest

theorem text_plainPath (slashed : Bool) (first : Component) (rest : List Component) :
    (plainPath slashed first rest).text = pathText slashed (first :: rest) :=
  text_cellsOf _ first rest

theorem text_plainPath_ne_nil (slashed : Bool) (first : Component) (rest : List Component) :
    (plainPath slashed first rest).text ≠ [] := by
  rw [text_plainPath, pathText, List.map_cons]
  refine List.append_ne_nil_of_right_ne_nil _ (intercalate_ne_nil ?_ _)
  cases first with
  | literal s ne chars unmarked => exact ne
  | param p segment => exact List.cons_ne_nil _ _

/-! ## Steps -/

theorem steps_cellsBehind {text : List Char} (h : Parted text) (components : List Component) :
    (∀ cell ∈ (cellsBehind text components).1, cell.Step) ∧
      Parted (cellsBehind text components).2 := by
  have hmore : ∀ {text : List Char} (s : List Char), Parted text → ∃ u, text ++ '/' :: s = '/' :: u := by
    rintro text s (rfl | ⟨u, rfl⟩)
    · exact ⟨s, rfl⟩
    · exact ⟨u ++ '/' :: s, rfl⟩
  fun_induction cellsBehind text components with
  | case1 text => exact ⟨List.forall_mem_nil _, h⟩
  | case2 text s ne chars unmarked rest ih => exact ih (Or.inr (hmore s h))
  | case3 text p segment rest ih =>
    obtain ⟨hcells, htail⟩ := ih (Or.inl rfl)
    exact ⟨List.forall_mem_cons.mpr ⟨⟨segment, hmore [] h, List.getLast?_concat⟩, hcells⟩, htail⟩

/-- Behind any text, the cells are those of segments with slashes between them. -/
theorem steps_of_cellsBehind (text : List Char) (components : List Component)
    (tidy : Tidy none (cellsBehind text components).1 (cellsBehind text components).2) :
    Plain.Steps ⟨(cellsBehind text components).1, (cellsBehind text components).2, tidy⟩ := by
  fun_induction cellsBehind text components with
  | case1 text => exact ⟨nofun, nofun, fun hne => absurd rfl hne⟩
  | case2 text s ne chars unmarked rest ih => exact ih tidy
  | case3 text p segment rest ih =>
    obtain ⟨hcells, htail⟩ := steps_cellsBehind (Or.inl rfl) rest
    refine ⟨?_, hcells, fun _ => htail⟩
    rintro _ ⟨⟩
    exact ⟨segment, Or.inr List.getLast?_concat⟩

theorem steps_plainPath (slashed : Bool) (first : Component) (rest : List Component) :
    (plainPath slashed first rest).Steps := by
  cases first with
  | literal s ne chars unmarked => exact steps_of_cellsBehind _ rest _
  | param p segment =>
    obtain ⟨hcells, htail⟩ := steps_cellsBehind (Or.inl rfl) rest
    refine ⟨?_, hcells, fun _ => htail⟩
    rintro _ ⟨⟩
    refine ⟨segment, ?_⟩
    cases slashed with
    | true => exact Or.inr rfl
    | false => exact Or.inl rfl

/-! ## Cells and their parts -/

/-- The cell is that of the part.  If its text ends in a word, then so does the text directly before
the part. -/
structure Cell.Behind (cell : Cell) (param : List Char × Part) : Prop where
  part : cell.part = param.2
  slash : '/' ∉ param.1
  word : endsInWordSlash cell.lead = true →
    (∃ c, param.1.getLast? = some c ∧ isNameChar c = true) ∧ param.1 <:+ cell.lead.dropLast

theorem behind_cellsBehind {text near : List Char} (hnear : near <:+ text)
    (hnil : near = [] → text = []) (hslash : '/' ∉ near) (components : List Component) :
    List.Forall₂ Cell.Behind (cellsBehind text components).1 (partsBehind near components) := by
  fun_induction cellsBehind text components generalizing near with
  | case1 text => exact List.Forall₂.nil
  | case2 text s ne chars unmarked rest ih =>
    have hsuffix : s <:+ text ++ '/' :: s := (List.suffix_cons _ _).trans (List.suffix_append _ _)
    exact ih hsuffix (fun hs => absurd hs ne) fun hmem => (chars _ hmem).1 rfl
  | case3 text p segment rest ih =>
    refine List.Forall₂.cons ⟨rfl, hslash, fun hword => ?_⟩
      (ih (List.suffix_refl _) (fun _ => rfl) List.not_mem_nil)
    obtain ⟨before, c, heq, hc⟩ := endsInWordSlash_iff.mp hword
    have htext : text = before ++ [c] := by
      refine List.append_cancel_right (heq.trans ?_)
      rw [List.append_assoc]
      rfl
    show (∃ c, near.getLast? = some c ∧ _) ∧ near <:+ (text ++ ['/']).dropLast
    rw [List.dropLast_concat]
    refine ⟨⟨c, ?_, hc⟩, hnear⟩
    have hne : near ≠ [] := by
      intro hempty
      rw [hnil hempty] at htext
      simp at htext
    obtain ⟨front, hfront⟩ := hnear
    have hlast := congrArg List.getLast? (hfront.trans htext)
    rwa [List.getLast?_append_of_ne_nil _ hne, List.getLast?_concat] at hlast

theorem behind_plainPath (slashed : Bool) (first : Component) (rest : List Component) :
    List.Forall₂ Cell.Behind (plainPath slashed first rest).cells
      (partsBehind [] (first :: rest)) := by
  cases first with
  | literal s ne chars unmarked =>
    exact behind_cellsBehind (List.suffix_append _ s) (fun hs => absurd hs ne)
      (fun hmem => (chars _ hmem).1 rfl) rest
  | param p segment =>
    refine List.Forall₂.cons ⟨rfl, List.not_mem_nil, fun hword => ?_⟩
      (behind_cellsBehind (List.suffix_refl _) (fun _ => rfl) List.not_mem_nil rest)
    cases slashed <;> cases hword

theorem Cell.Behind.dropLead {cell : Cell} {param : List Char × Part} (h : cell.Behind param) :
    Cell.Behind { cell with lead := SlashMode.dropLead cell.lead } param := by
  refine ⟨h.part, h.slash, fun hword => ?_⟩
  change endsInWordSlash (SlashMode.dropLead cell.lead) = true at hword
  show _ ∧ _ <:+ (SlashMode.dropLead cell.lead).dropLast
  rcases dropLead_cases cell.lead with hsame | hslash
  · rw [hsame] at hword ⊢
    exact h.word hword
  · obtain ⟨before, c, hdropped, hc⟩ := endsInWordSlash_iff.mp hword
    have hlead : endsInWordSlash cell.lead = true :=
      endsInWordSlash_iff.mpr ⟨'/' :: before, c, by rw [hslash, hdropped]; rfl, hc⟩
    obtain ⟨hlast, hsuffix⟩ := h.word hlead
    have hne : SlashMode.dropLead cell.lead ≠ [] := by
      rw [hdropped]
      simp
    rw [hslash, List.dropLast_cons_of_ne_nil hne] at hsuffix
    refine ⟨hlast, (List.suffix_cons_iff.mp hsuffix).resolve_left fun heq => h.slash ?_⟩
    rw [heq]
    exact List.mem_cons_self

theorem behind_strip {t : Plain} {params : List (List Char × Part)}
    (h : List.Forall₂ Cell.Behind t.cells params) (mode : SlashMode) :
    List.Forall₂ Cell.Behind (t.strip mode).cells params := by
  cases mode with
  | strict => exact h
  | legacy => exact h
  | loose =>
    obtain ⟨cells, tail, tidy⟩ := t
    cases h with
    | nil => exact List.Forall₂.nil
    | cons hcell hcells => exact List.Forall₂.cons hcell.dropLead hcells

/-! ## Captured values -/

/-- What bounds the value of a cell makes it a whole segment. -/
theorem Bounded.whole {cell : Cell} {param : List Char × Part} (hcell : cell.Behind param)
    {found : Place} (h : Bounded cell found) : Whole param found := by
  refine ⟨?_, h.right⟩
  rcases h.left with hnil | hlast | ⟨hoptional, hword, hsuffix⟩
  · exact Or.inl hnil
  · exact Or.inr (Or.inl hlast)
  · obtain ⟨hlast, hnear⟩ := hcell.word hword
    exact Or.inr (Or.inr ⟨hcell.part ▸ hoptional, hlast, hnear.trans hsuffix⟩)

theorem whole_of_bounds {cells : List Cell} {params : List (List Char × Part)}
    (hcells : List.Forall₂ Cell.Behind cells params) {places : List (Option Place)}
    (h : Bounds cells places) :
    List.Forall₂ (fun param place => ∀ found, place = some found → Whole param found) params
      places := by
  induction hcells generalizing places with
  | nil =>
    cases h
    exact List.Forall₂.nil
  | cons hcell _ ih =>
    obtain _ | ⟨hfirst, hlater⟩ := h
    exact List.Forall₂.cons (fun found hfound => (hfirst found hfound).whole hcell) (ih hlater)

/-- The places are within the text. -/
theorem covers_of_mem_placesOf {before : List Char} {items : List Item} {slices : List Slice}
    {found : Place} (h : some found ∈ placesOf before items slices) :
    found.before ++ (found.value ++ found.after) = before ++ slices.flatMap Slice.text := by
  fun_induction placesOf before items slices with
  | case1 before p items s slices ih =>
    rcases List.mem_cons.mp h with h | h
    · obtain ⟨v, hv, rfl⟩ := Option.map_eq_some_iff.mp h.symm
      rw [List.flatMap_cons, Slice.text, hv]
      simp only [Option.getD_some, List.append_assoc]
    · rw [ih h, List.flatMap_cons, List.append_assoc]
  | case2 before item items s slices _ ih => rw [ih h, List.flatMap_cons, List.append_assoc]
  | case3 => cases h

/-- Every value that a path template captures is a whole segment of the request, but for the values
of optional parts behind a word. -/
theorem captures_whole (mode : SlashMode) (slashed : Bool) (first : Component)
    (rest : List Component) {re : Regex}
    (hcompile : compile mode (.ofList (pathText slashed (first :: rest))) = .ok re)
    {request : String} {values : List (Option String)}
    (hvalues : re.captures? request = some values) :
    ∃ places, re.places? request = some places ∧
      values = places.map (Option.map fun place => .ofList place.value) ∧
      (∀ found, some found ∈ places →
        found.before ++ (found.value ++ found.after) = request.toList) ∧
      List.Forall₂ (fun param place => ∀ found, place = some found → Whole param found)
        (partsBehind [] (first :: rest)) places := by
  rw [← text_plainPath] at hcompile
  rw [captures?_eq_places] at hvalues
  obtain ⟨places, hplaces, rfl⟩ := Option.map_eq_some_iff.mp hvalues
  refine ⟨places, hplaces, rfl, ?_⟩
  obtain ⟨slices, hbest, rfl⟩ := exists_cutsBest_of_places
    (expr_of_plain (text_plainPath_ne_nil slashed first rest) hcompile) hplaces
  constructor
  · intro found hmem
    exact (covers_of_mem_placesOf hmem).trans hbest.1.2
  · exact whole_of_bounds (behind_strip (behind_plainPath slashed first rest) mode)
      ((steps_plainPath slashed first rest).bounds hbest)

/-- Behind a word both values of a request may be whole segments. -/
theorem captures_whole_news :
    let id : Part := ⟨.segment, true, "id".toList, by decide, forall_mem_of_all rfl⟩
    let page : Part := ⟨.segment, false, "page".toList, by decide, forall_mem_of_all rfl⟩
    ∃ re places, compile .loose "/news/\x7bid\x7d/:page:" = .ok re ∧
      re.captures? "/news/7/2" = some [some "7", some "2"] ∧
      re.places? "/news/7/2" = some places ∧
      List.Forall₂ (fun param place => ∀ found, place = some found → Whole param found)
        [("news".toList, id), ([], page)] places := by
  intro id page
  have hok : ((compile .loose "/news/\x7bid\x7d/:page:").toOption.bind
      (·.captures? "/news/7/2")) = some [some "7", some "2"] := by decide +kernel
  obtain ⟨re, hcompile, hvalues⟩ : ∃ re, compile .loose "/news/\x7bid\x7d/:page:" = .ok re ∧
      re.captures? "/news/7/2" = some [some "7", some "2"] := by
    cases hcompile : compile .loose "/news/\x7bid\x7d/:page:" with
    | ok re =>
      rw [hcompile, Except.toOption, Option.bind_some] at hok
      exact ⟨re, rfl, hok⟩
    | error reason =>
      rw [hcompile] at hok
      cases hok
  let news : Component :=
    .literal "news".toList (by decide) (forall_mem_of_all rfl) (marker_of_not_mem (by decide))
  obtain ⟨places, hplaces, -, -, hwhole⟩ :=
    captures_whole .loose true news [.param id rfl, .param page rfl] hcompile hvalues
  exact ⟨re, places, hcompile, hvalues, hplaces, hwhole⟩

/-- An optional part takes what goes on directly behind a word.  A required part does not, and neither
does an optional one behind text that ends in another character. -/
theorem captures_glued :
    (compile .loose "foo/:a:").toOption.bind (·.captures? "foobar") = some [some "bar"] ∧
      (compile .loose "foo/:a:").toOption.bind (·.places? "foobar") =
        some [some ⟨"foo".toList, "bar".toList, []⟩] ∧
      (compile .loose "foo/\x7ba\x7d").toOption.bind (·.captures? "foobar") = none ∧
      (compile .loose "foo./:a:").toOption.bind (·.captures? "foo.bar") = none := by
  decide +kernel

end RouteDispatch.Template
