/-
Settings taken from the environment.
-/
import RouteDispatch.SlashMode

namespace RouteDispatch

/-- What the environment may choose for a new router. -/
structure Settings where
  slashMode : SlashMode := .loose
deriving DecidableEq, Repr

/-- The settings that a variable holds. One that is not set, is no text, or names no mode leaves
the default. -/
def Settings.ofVariable (value : Option ByteArray) : Settings :=
  match value.bind String.fromUTF8? with
  | none => {}
  | some text =>
    match SlashMode.ofText text with
    | .ok slashMode => { slashMode }
    | .error _ => {}

end RouteDispatch
