/-
Filling values into a template.
-/
import RouteDispatch.Template.Form

namespace RouteDispatch.Template

/-- Why no request can be made. -/
inductive Failure where
  /-- The route was given a regular expression in place of a template. -/
  | notTemplate (source : String)
  /-- A required part has no value. -/
  | missingSegment (part : String)
  /-- A value with a slash was given to a part that holds one segment. -/
  | invalidValue (part value : String)
deriving DecidableEq, Repr

/-- The failure in words. -/
def Failure.message : Failure → String
  | notTemplate source => s!"Route pattern should be a string, got raw regex '{source}'."
  | missingSegment part => s!"The segment {part} is required."
  | invalidValue part value => s!"Invalid value \"{value}\" for segment \"{part}\"."

/-- What goes in the place of a part. -/
def Slot.value (slot : Slot) (values : String → Option String) : Except Failure (List Char) :=
  match values (.ofList slot.name) with
  | some value =>
    if '*' ∉ slot.text ∧ '/' ∈ value.toList then
      .error (.invalidValue (.ofList slot.text) value)
    else .ok value.toList
  | none =>
    if '{' ∈ slot.text then .error (.missingSegment (.ofList slot.text)) else .ok []

/-- The pieces of a template with their values, put before those that are done, last one
first. -/
def fillOnto (values : String → Option String) (done : List Char) :
    List (Text.Piece Slot) → Except Failure (List Char)
  | [] => .ok done
  | .plain c :: pieces => fillOnto values (c :: done) pieces
  | .found slot :: pieces =>
    match slot.value values with
    | .ok value => fillOnto values (value.reverse ++ done) pieces
    | .error e => .error e

/-- The optional slashes at the end left out, and all others written, in a text that is given
last character first. -/
def settleSlashes (reversed : List Char) : List Char :=
  let mark := Form.standIn .optionalSlash
  Text.replace mark ['/'] (Text.dropRepeated mark.reverse reversed).reverse

/-- The request that a template and these values make. Optional parts without a value vanish,
together with the separators that they leave at the end. -/
def fillChars (template : List Char) (values : String → Option String) :
    Except Failure (List Char) :=
  (fillOnto values [] (Text.cut slotRule (Form.save .optionalSlash template))).map settleSlashes

/-- The request that a template and these values make. -/
def fill (template : String) (values : String → Option String) : Except Failure String :=
  (fillChars template.toList values).map .ofList

end RouteDispatch.Template
