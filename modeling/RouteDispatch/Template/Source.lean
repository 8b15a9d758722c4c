/-
From a template to the regular expression that matches its requests.

Every part is put away behind its stand-in, the rest is escaped, and the
stand-ins are turned into regular expressions. What does not follow the forms
is thereby plain text, so every template has a source.
-/
import RouteDispatch.Regex
import RouteDispatch.SlashMode
import RouteDispatch.Template.Form

namespace RouteDispatch.Template

/-- The characters that mean something in a regular expression. -/
def isMeta (c : Char) : Bool := "\\.+*?()|[]\x7b\x7d^$#&-~".toList.contains c

/-- The regular expression that matches just this text. -/
def escape (s : List Char) : List Char :=
  s.flatMap fun c => if isMeta c then ['\\', c] else [c]

/-- The regular expression for a template without its slashes at the ends. -/
def body (template : List Char) : List Char :=
  let saved := Form.all.foldl (fun s form => form.save s) template
  Form.all.foldl (fun s form => form.restore s) (escape saved)

/-- The source of the matcher of a template. -/
def sourceChars (mode : SlashMode) (template : List Char) : List Char :=
  let lead := if mode = .loose ∧ template ≠ [] then ['/', '?'] else []
  let trail := if mode = .strict then [] else ['/', '?']
  let inner := if template = [] then [] else body (mode.strip template)
  '^' :: (lead ++ (inner ++ (trail ++ ['$'])))

/-- The source of the matcher of a template. -/
def source (mode : SlashMode) (template : String) : String :=
  .ofList (sourceChars mode template.toList)

/-- The matcher of a template. -/
def compile (mode : SlashMode) (template : String) : Except Regex.Rejection Regex :=
  Regex.compile (source mode template)

end RouteDispatch.Template
