/-
How much the slashes at the ends of a template matter.
-/
import RouteDispatch.Text.Blank

namespace RouteDispatch

/-- How the slashes at the ends of a template and of a request are treated. -/
inductive SlashMode where
  /-- One slash at either end of a template is dropped, and a request may have one there. -/
  | loose
  /-- A template is taken as it is. -/
  | strict
  /-- As loose, but at the end only. -/
  | legacy
deriving DecidableEq, Repr

namespace SlashMode

instance : Inhabited SlashMode := ⟨loose⟩

/-- The mode in small letters. -/
def name : SlashMode → String
  | loose => "loose"
  | strict => "strict"
  | legacy => "legacy"

/-- The mode with this name. -/
def ofName? (s : String) : Option SlashMode :=
  [loose, strict, legacy].find? (·.name == s)

/-- The mode that a text names, however it is capitalised and whatever white space is around it;
else the text in small letters, without that space. -/
def ofText (text : String) : Except String SlashMode :=
  let plain := String.ofList (Text.lower (Text.trim text.toList))
  match ofName? plain with
  | some mode => .ok mode
  | none => .error plain

/-- Why a text names no mode. -/
def unknownMessage (text : String) : String := s!"unknown slash mode '{text}'"

/-- Without one slash at the start. -/
def dropLead : List Char → List Char
  | '/' :: s => s
  | s => s

/-- Without one slash at the end. -/
def dropTrail (s : List Char) : List Char :=
  if s.getLast? = some '/' then s.dropLast else s

/-- What is left of a template once its slashes are dropped. -/
def strip : SlashMode → List Char → List Char
  | loose, s => dropTrail (dropLead s)
  | legacy, s => dropTrail s
  | strict, s => s

theorem ofName?_name (mode : SlashMode) : ofName? mode.name = some mode := by
  cases mode <;> rfl

end SlashMode

end RouteDispatch
