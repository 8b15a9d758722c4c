/-
# The requests of a plain template

A request belongs to a plain template if it can be cut into slices, one for each
item, such that every item takes its slice (`Cuts`).  What a part gives as its value
is the middle of its slice.

Often there are many such cuttings.  `Prefers` is the order among them: at the first
slice in which two cuttings differ, the longer one is preferred.
-/
import RouteDispatch.Proofs.Template.Plain

namespace RouteDispatch.Template

/-- What is cut out of a request for an item, with the value in its midst if there is one. -/
structure Slice where
  before : List Char := []
  value : Option (List Char) := none
  after : List Char := []
deriving DecidableEq

def Slice.text (s : Slice) : List Char := s.before ++ (s.value.getD [] ++ s.after)

theorem Slice.text_before (u : List Char) : ({ before := u } : Slice).text = u := List.append_nil u

theorem Slice.text_value (v : List Char) : ({ value := some v } : Slice).text = v :=
  List.append_nil v

/-- The characters that a part may take. -/
def Reach.admits : Reach → Char → Bool
  | segment, c => c != '/' && c != '?'
  | rest, c => c != '\n'
  | query, c => c != '#'

/-- A value that a part may take, not counting the empty one. -/
def Reach.Admits (reach : Reach) (v : List Char) : Prop :=
  v ≠ [] ∧ ∀ c ∈ v, reach.admits c = true

/-- The part takes the slice: a required part has a value; an optional segment may have a slash
behind it; a query has a question mark before it. -/
def Part.Takes (p : Part) (s : Slice) : Prop :=
  match p.reach, p.required with
  | .segment, true => ∃ v, Reach.segment.Admits v ∧ s = { value := some v }
  | .segment, false =>
    ∃ slash, (slash = [] ∨ slash = ['/']) ∧
      (s = { after := slash } ∨
        ∃ v, Reach.segment.Admits v ∧ s = { value := some v, after := slash })
  | .rest, true => ∃ v, Reach.rest.Admits v ∧ s = { value := some v }
  | .rest, false => s = {} ∨ ∃ v, Reach.rest.Admits v ∧ s = { value := some v }
  | .query, true => ∃ v, Reach.query.Admits v ∧ s = { before := ['?'], value := some v }
  | .query, false =>
    s = {} ∨ ∃ v, (∀ c ∈ v, Reach.query.admits c = true) ∧
      s = { before := ['?'], value := some v }

section
variable {p : Part} {s : Slice}

theorem Part.takes_segment_iff (hp : p.reach = .segment ∧ p.required = true) :
    p.Takes s ↔ ∃ v, Reach.segment.Admits v ∧ s = { value := some v } := by
  rw [Part.Takes, hp.1, hp.2]

/-- What an optional segment may take is its value, and perhaps a slash behind it. -/
theorem Part.takes_optional_iff (hp : p.reach = .segment ∧ p.required = false) :
    p.Takes s ↔ ∃ slash, (slash = [] ∨ slash = ['/']) ∧
      (s = { after := slash } ∨
        ∃ v, Reach.segment.Admits v ∧ s = { value := some v, after := slash }) := by
  rw [Part.Takes, hp.1, hp.2]

theorem Part.takes_rest_iff (hp : p.reach = .rest) :
    p.Takes s ↔ p.required = false ∧ s = {} ∨ ∃ v, Reach.rest.Admits v ∧ s = { value := some v } := by
  rw [Part.Takes, hp]
  cases p.required with
  | true =>
    refine ⟨Or.inr, fun h => h.resolve_left ?_⟩
    rintro ⟨hoptional, -⟩
    cases hoptional
  | false => exact or_congr_left (and_iff_right rfl).symm

end

/-- The item takes the slice. -/
def Item.Takes : Item → Slice → Prop
  | text t, s => s = { before := t }
  | slash mayMiss _, s => s = { before := ['/'] } ∨ (mayMiss = true ∧ s = {})
  | part p, s => p.Takes s

/-- Each item takes its slice. -/
def TakeAll : List Item → List Slice → Prop
  | [], [] => True
  | item :: items, s :: slices => item.Takes s ∧ TakeAll items slices
  | _, _ => False

/-- The text is cut into these slices, each taken by its item. -/
def Cuts (items : List Item) (slices : List Slice) (text : List Char) : Prop :=
  TakeAll items slices ∧ slices.flatMap Slice.text = text

/-- The first cutting is the second one, or longer in the first slice in which they differ. -/
def Prefers : List Slice → List Slice → Prop
  | s :: slices, u :: others => u.text.length < s.text.length ∨ (s = u ∧ Prefers slices others)
  | _, _ => True

/-- A cutting of the text that is preferred to all others. -/
def CutsBest (items : List Item) (slices : List Slice) (text : List Char) : Prop :=
  Cuts items slices text ∧ ∀ others, Cuts items others text → Prefers slices others

/-- The values of the parts, from left to right. -/
def valuesOf : List Item → List Slice → List (Option String)
  | .part _ :: items, s :: slices => s.value.map String.ofList :: valuesOf items slices
  | _ :: items, _ :: slices => valuesOf items slices
  | _, _ => []

/-- The items of a request: those of the template without its slashes at the ends, and the slashes
that the mode allows there. -/
def Plain.requestItems (mode : SlashMode) (t : Plain) : List Item :=
  (if mode = .loose then [.slash true []] else []) ++
    ((t.strip mode).items ++ (if mode = .strict then [] else [.slash true []]))

end RouteDispatch.Template
