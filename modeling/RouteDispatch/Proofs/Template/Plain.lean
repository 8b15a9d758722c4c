/-
# Plain templates

A template is plain when it is a row of parts with text around them, and nothing in
the text can be taken for a delimiter, a mark or a stand-in.  The type carries
these conditions, so a plain template that is put together wrongly does not exist.

This file also says what a plain template means, without any pass over its text:
`Plain.items` lists text, slashes and parts as they stand side by side, and each
item has its own regular expression (`Item.fragment`).  What stands between two
parts depends on the parts next to it and on nothing else.
-/
import RouteDispatch.Template.Source

namespace RouteDispatch.Template

/-! ## Parts -/

/-- How far a part reaches: to the next slash or question mark, as far as it can, or from a
question mark to the hash. -/
inductive Reach where
  | segment
  | rest
  | query
deriving DecidableEq

/-- A part of a template.  Required parts stand in braces, optional ones between colons. -/
structure Part where
  reach : Reach
  required : Bool
  name : List Char
  name_ne : name ≠ []
  name_chars : ∀ c ∈ name, isNameChar c = true

namespace Part

/-- The name with its mark. -/
def label (p : Part) : List Char :=
  match p.reach with
  | .segment => p.name
  | .rest => p.name ++ ['*']
  | .query => '?' :: p.name

def opening (p : Part) : Char := if p.required then '{' else ':'

def closing (p : Part) : Char := if p.required then '}' else ':'

def text (p : Part) : List Char := p.opening :: (p.label ++ [p.closing])

/-- A slash before the part may be missing. -/
def isSoft (p : Part) : Bool := !p.required || p.reach == .query

/-- The regular expression of a part. -/
def fragment (p : Part) : List Char :=
  match p.reach, p.required with
  | .segment, true => "([^/?]+)".toList
  | .segment, false => "([^/?]+)?/?".toList
  | .rest, true => "(.+)".toList
  | .rest, false => "(.+)?".toList
  | .query, true => "\\?([^#]+)".toList
  | .query, false => "(?:\\?([^#]*))?".toList

end Part

/-! ## Templates -/

/-- Text that may stand between these parts. -/
structure Literal (prev : Option Part) (s : List Char) (next : Option Part) : Prop where
  delimiters : ∀ c ∈ s, c ≠ '{' ∧ c ≠ '}' ∧ c ≠ ':'
  marker : ¬ ['R', 'C', '_'] <:+: s
  head : ∀ p, prev = some p → p.required = false → s.head? ≠ some '?'
  last : ∀ p, next = some p → p.required = false → s.getLast? ≠ some '*'

/-- A part with the text before it. -/
structure Cell where
  lead : List Char
  part : Part

def Cell.text (cell : Cell) : List Char := cell.lead ++ cell.part.text

/-- The rest of a template behind a part, or a whole template. -/
def Tidy (prev : Option Part) : List Cell → (tail : List Char) → Prop
  | [], tail => Literal prev tail none
  | cell :: cells, tail =>
    Literal prev cell.lead (some cell.part) ∧ Tidy (some cell.part) cells tail

/-- A plain template. -/
structure Plain where
  cells : List Cell
  tail : List Char
  tidy : Tidy none cells tail

namespace Plain

def text (t : Plain) : List Char := t.cells.flatMap Cell.text ++ t.tail

def parts (t : Plain) : List Part := t.cells.map (·.part)

end Plain

/-- No delimiter occurs in the text around the parts. -/
structure Undelimited (cells : List Cell) (tail : List Char) : Prop where
  leads : ∀ cell ∈ cells, ∀ c ∈ cell.lead, c ≠ '{' ∧ c ≠ '}' ∧ c ≠ ':'
  tail : ∀ c ∈ tail, c ≠ '{' ∧ c ≠ '}' ∧ c ≠ ':'

theorem Undelimited.of_cons {cell : Cell} {cells : List Cell} {tail : List Char}
    (h : Undelimited (cell :: cells) tail) :
    (∀ c ∈ cell.lead, c ≠ '{' ∧ c ≠ '}' ∧ c ≠ ':') ∧ Undelimited cells tail := by
  obtain ⟨hcell, hcells⟩ := List.forall_mem_cons.mp h.leads
  exact ⟨hcell, hcells, h.tail⟩

theorem Tidy.undelimited {prev : Option Part} {cells : List Cell} {tail : List Char}
    (h : Tidy prev cells tail) : Undelimited cells tail := by
  induction cells generalizing prev with
  | nil => exact ⟨List.forall_mem_nil _, Literal.delimiters h⟩
  | cons cell cells ih =>
    obtain ⟨hcell, hcells⟩ := h
    exact ⟨List.forall_mem_cons.mpr ⟨hcell.delimiters, (ih hcells).leads⟩, (ih hcells).tail⟩

/-! ## What stands side by side -/

/-- The text ends in a name character and a slash. -/
def endsInWordSlash (s : List Char) : Bool :=
  match s.reverse with
  | '/' :: c :: _ => isNameChar c
  | _ => false

/-- What a template is made of.  A slash that joins two parts need not be written. -/
inductive Item where
  | text (s : List Char)
  | slash (mayMiss : Bool) (written : List Char)
  | part (p : Part)

/-- What stands before the part of a cell. -/
def Cell.separation (prev : Option Part) (cell : Cell) : List Item :=
  if prev.isSome ∧ (cell.lead = [] ∨ cell.lead = ['/']) then
    [.slash cell.part.isSoft cell.lead]
  else if cell.part.isSoft ∧ endsInWordSlash cell.lead then
    [.text cell.lead.dropLast, .slash true ['/']]
  else [.text cell.lead]

def itemsFrom (prev : Option Part) : List Cell → (tail : List Char) → List Item
  | [], tail => [.text tail]
  | cell :: cells, tail =>
    cell.separation prev ++ .part cell.part :: itemsFrom (some cell.part) cells tail

/-- The items of a template, from left to right. -/
def Plain.items (t : Plain) : List Item := itemsFrom none t.cells t.tail

/-- The regular expression of an item. -/
def Item.fragment : Item → List Char
  | text s => escape s
  | slash mayMiss _ => if mayMiss then "/?".toList else "/".toList
  | part p => p.fragment

/-- The regular expression of a template, item by item. -/
def Plain.translation (t : Plain) : List Char := t.items.flatMap Item.fragment

/-! ## Characters of names and labels -/

/-- What holds of all characters of a text can be read off a text that is given. -/
theorem forall_mem_of_all {s : List Char} {p : Char → Prop} [DecidablePred p]
    (h : s.all (fun c => decide (p c)) = true) : ∀ c ∈ s, p c :=
  fun c hc => of_decide_eq_true (List.all_eq_true.mp h c hc)

theorem isNameChar_ne {c d : Char} (h : isNameChar c = true) (hd : isNameChar d = false) :
    c ≠ d := by
  rintro rfl
  rw [h] at hd
  cases hd

namespace Part

theorem label_ne (p : Part) : p.label ≠ [] := by
  rw [label]
  cases p.reach with
  | segment => exact p.name_ne
  | rest => exact List.append_ne_nil_of_right_ne_nil _ (List.cons_ne_nil _ _)
  | query => exact List.cons_ne_nil _ _

theorem mem_label {p : Part} {c : Char} (h : c ∈ p.label) :
    isNameChar c = true ∨ c = '*' ∨ c = '?' := by
  rw [label] at h
  cases hr : p.reach with
  | segment =>
    rw [hr] at h
    exact Or.inl (p.name_chars c h)
  | rest =>
    rw [hr] at h
    rcases List.mem_append.mp h with h | h
    · exact Or.inl (p.name_chars c h)
    · exact Or.inr (Or.inl (List.mem_singleton.mp h))
  | query =>
    rw [hr] at h
    rcases List.mem_cons.mp h with h | h
    · exact Or.inr (Or.inr h)
    · exact Or.inl (p.name_chars c h)

/-- No delimiter and no slash occurs in a label. -/
theorem label_delimiters {p : Part} {c : Char} (h : c ∈ p.label) :
    c ≠ '{' ∧ c ≠ '}' ∧ c ≠ ':' ∧ c ≠ '/' := by
  rcases mem_label h with hc | rfl | rfl
  · exact ⟨isNameChar_ne hc rfl, isNameChar_ne hc rfl,
      isNameChar_ne hc rfl, isNameChar_ne hc rfl⟩
  · decide
  · decide

end Part

theorem endsInWordSlash_iff {s : List Char} :
    endsInWordSlash s = true ↔ ∃ before c, s = before ++ [c, '/'] ∧ isNameChar c = true := by
  rw [endsInWordSlash]
  constructor
  · intro h
    split at h
    · next c rest hs =>
      refine ⟨rest.reverse, c, ?_, h⟩
      have hrev := congrArg List.reverse hs
      simpa using hrev
    · cases h
  · rintro ⟨before, c, rfl, hc⟩
    simp [hc]

/-! ## Slashes at the ends -/

theorem Literal.dropLead {s : List Char} {next : Option Part} (h : Literal none s next) :
    Literal none (SlashMode.dropLead s) next := by
  unfold SlashMode.dropLead
  split
  · next s =>
    refine ⟨fun c hc => h.delimiters c (List.mem_cons_of_mem _ hc), ?_, ?_, ?_⟩
    · exact fun hin => h.marker (hin.trans (List.suffix_cons _ _).isInfix)
    · intro p hp
      cases hp
    · intro p hp hopt hlast
      refine h.last p hp hopt ?_
      cases s with
      | nil => cases hlast
      | cons c s => rwa [List.getLast?_cons_cons]
  · exact h

theorem dropLead_cases (s : List Char) :
    SlashMode.dropLead s = s ∨ s = '/' :: SlashMode.dropLead s := by
  unfold SlashMode.dropLead
  split
  · exact Or.inr rfl
  · exact Or.inl rfl

theorem dropLead_of_ne {c : Char} (h : c ≠ '/') (s : List Char) :
    SlashMode.dropLead (c :: s) = c :: s :=
  (dropLead_cases (c :: s)).resolve_right fun heq => h (List.cons.inj heq).1

theorem dropLead_append {s : List Char} (h : s ≠ []) (u : List Char) :
    SlashMode.dropLead (s ++ u) = SlashMode.dropLead s ++ u := by
  obtain ⟨c, s, rfl⟩ := List.exists_cons_of_ne_nil h
  by_cases hc : c = '/'
  · rw [hc]
    rfl
  · rw [List.cons_append, dropLead_of_ne hc, dropLead_of_ne hc, List.cons_append]

theorem dropTrail_cases (s : List Char) :
    SlashMode.dropTrail s = s ∨ s = SlashMode.dropTrail s ++ ['/'] := by
  rw [SlashMode.dropTrail]
  split
  · next h =>
    obtain ⟨u, rfl⟩ := List.getLast?_eq_some_iff.mp h
    exact Or.inr (by simp)
  · exact Or.inl rfl

theorem Literal.dropTrail {prev : Option Part} {s : List Char} (h : Literal prev s none) :
    Literal prev (SlashMode.dropTrail s) none := by
  rcases dropTrail_cases s with hs | hs
  · rwa [hs]
  · have hpre : SlashMode.dropTrail s <+: s := ⟨['/'], hs.symm⟩
    refine ⟨fun c hc => h.delimiters c (hpre.mem hc), ?_, ?_, ?_⟩
    · exact fun hin => h.marker (hin.trans hpre.isInfix)
    · intro p hp hopt hhead
      refine h.head p hp hopt ?_
      rw [hs]
      cases hd : SlashMode.dropTrail s with
      | nil =>
        rw [hd] at hhead
        cases hhead
      | cons c u =>
        rw [hd] at hhead
        exact hhead
    · intro p hp
      cases hp

theorem Tidy.dropTrail {prev : Option Part} {cells : List Cell} {tail : List Char}
    (h : Tidy prev cells tail) : Tidy prev cells (SlashMode.dropTrail tail) := by
  induction cells generalizing prev with
  | nil => exact Literal.dropTrail h
  | cons cell cells ih => exact ⟨h.1, ih h.2⟩

namespace Plain

/-- The template without a slash at its start. -/
def dropLead (t : Plain) : Plain :=
  match t with
  | ⟨[], tail, tidy⟩ => ⟨[], SlashMode.dropLead tail, Literal.dropLead tidy⟩
  | ⟨cell :: cells, tail, tidy⟩ =>
    ⟨{ cell with lead := SlashMode.dropLead cell.lead } :: cells, tail,
      Literal.dropLead tidy.1, tidy.2⟩

/-- The template without a slash at its end. -/
def dropTrail (t : Plain) : Plain := ⟨t.cells, SlashMode.dropTrail t.tail, t.tidy.dropTrail⟩

/-- What is left of a template once its slashes are dropped. -/
def strip (mode : SlashMode) (t : Plain) : Plain :=
  match mode with
  | .loose => t.dropLead.dropTrail
  | .legacy => t.dropTrail
  | .strict => t

theorem text_dropLead (t : Plain) : t.dropLead.text = SlashMode.dropLead t.text := by
  obtain ⟨cells, tail, tidy⟩ := t
  cases cells with
  | nil => rfl
  | cons cell cells =>
    show (SlashMode.dropLead cell.lead ++ cell.part.text) ++ cells.flatMap Cell.text ++ tail =
      SlashMode.dropLead ((cell.lead ++ cell.part.text) ++ cells.flatMap Cell.text ++ tail)
    cases hlead : cell.lead with
    | nil =>
      rw [Part.text, Part.opening]
      cases cell.part.required <;> rfl
    | cons c lead => simp only [List.append_assoc, dropLead_append (List.cons_ne_nil c lead)]

/-- Behind the last part there is no slash. -/
theorem getLast?_cells (cells : List Cell) : (cells.flatMap Cell.text).getLast? ≠ some '/' := by
  induction cells with
  | nil =>
    intro h
    cases h
  | cons cell cells ih =>
    rw [List.flatMap_cons, List.getLast?_append]
    cases hlast : (cells.flatMap Cell.text).getLast? with
    | some c =>
      rw [hlast] at ih
      exact ih
    | none =>
      have hclose : cell.text.getLast? = some cell.part.closing := by
        rw [Cell.text, Part.text, ← List.cons_append, ← List.append_assoc, List.getLast?_concat]
      rw [hclose, Part.closing]
      cases cell.part.required <;> decide

theorem text_dropTrail (t : Plain) : t.dropTrail.text = SlashMode.dropTrail t.text := by
  have hcells := getLast?_cells t.cells
  simp only [text, dropTrail, SlashMode.dropTrail, List.getLast?_append]
  cases htail : t.tail with
  | nil =>
    have hne : ¬ (none.or (t.cells.flatMap Cell.text).getLast? = some '/') := hcells
    rw [List.getLast?_nil, if_neg hne]
    rfl
  | cons c tail =>
    rw [List.getLast?_eq_some_getLast (List.cons_ne_nil c tail), Option.some_or]
    split
    · rw [List.dropLast_append_of_ne_nil (List.cons_ne_nil c tail)]
    · rfl

theorem text_strip (mode : SlashMode) (t : Plain) : (t.strip mode).text = mode.strip t.text := by
  cases mode with
  | loose =>
    rw [strip, text_dropTrail, text_dropLead]
    rfl
  | strict => rfl
  | legacy => exact t.text_dropTrail

end Plain

/-! ## An example -/

theorem marker_of_not_mem {s : List Char} (h : 'R' ∉ s) : ¬ ['R', 'C', '_'] <:+: s :=
  fun hin => h (hin.mem List.mem_cons_self)

/-- The template `/users/{id}/:page:`. -/
def Plain.usersPage : Plain :=
  let id : Part := ⟨.segment, true, "id".toList, by decide, forall_mem_of_all rfl⟩
  let page : Part := ⟨.segment, false, "page".toList, by decide, forall_mem_of_all rfl⟩
  have hid : ∀ p, some id = some p → p.required = false → False := by
    intro p hp hr
    rw [← Option.some.inj hp] at hr
    exact absurd hr (by decide)
  { cells := [⟨"/users/".toList, id⟩, ⟨"/".toList, page⟩]
    tail := []
    tidy :=
      ⟨⟨forall_mem_of_all rfl, marker_of_not_mem (by decide), nofun, fun p hp hr => (hid p hp hr).elim⟩,
        ⟨forall_mem_of_all rfl, marker_of_not_mem (by decide), fun p hp hr => (hid p hp hr).elim,
          fun _ _ _ => by decide⟩,
        ⟨forall_mem_of_all rfl, marker_of_not_mem (by decide), fun _ _ _ => by decide, nofun⟩⟩ }

end RouteDispatch.Template
