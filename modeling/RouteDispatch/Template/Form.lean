/-
The forms a template is made of, and how each is found in a text.

Six of them stand for a part of the request; the other two are the separators
that such parts have between them. While a template is worked on, each form is
held by a stand-in made of letters and underscores, which no later step takes
for anything else.
-/
import RouteDispatch.Text.Cut

namespace RouteDispatch.Template

/-- The forms, in the order in which they are looked for: a form whose text could be taken for
another one comes before that one. -/
inductive Form where
  /-- A slash that may be missing, between two parts of which the second is optional or a
  required query. -/
  | optionalSlash
  /-- The slash between two parts of which the second is required. -/
  | requiredSlash
  /-- A query, from the question mark to the hash or the end. -/
  | requiredQuery
  | optionalQuery
  /-- Anything, slashes included. -/
  | optionalRest
  | requiredRest
  /-- A segment, without slash and question mark. -/
  | requiredParam
  | optionalParam
deriving DecidableEq, Repr

namespace Form

/-- All forms, in order. -/
def all : List Form :=
  [optionalSlash, requiredSlash, requiredQuery, optionalQuery, optionalRest, requiredRest,
    requiredParam, optionalParam]

/-- The text that holds the place of a form. -/
def standIn : Form → List Char
  | optionalSlash => "__RC_OS__".toList
  | requiredSlash => "__RC_RS__".toList
  | requiredQuery => "__RC_RQ__".toList
  | optionalQuery => "__RC_OQ__".toList
  | optionalRest => "__RC_OR__".toList
  | requiredRest => "__RC_RR__".toList
  | requiredParam => "__RC_RP__".toList
  | optionalParam => "__RC_OP__".toList

/-- The regular expression that a form stands for. -/
def fragment : Form → List Char
  | optionalSlash => "/?".toList
  | requiredSlash => "/".toList
  | requiredQuery => "\\?([^#]+)".toList
  | optionalQuery => "(?:\\?([^#]*))?".toList
  | optionalRest => "(.+)?".toList
  | requiredRest => "(.+)".toList
  | requiredParam => "([^/?]+)".toList
  | optionalParam => "([^/?]+)?/?".toList

end Form

/-! ## Finding the forms -/

/-- The start of an optional part, or of a required query. -/
def optionalStart? : List Char → Option (List Char)
  | ':' :: _ => some [':']
  | '{' :: '?' :: _ => some ['{', '?']
  | _ => none

/-- The start of a required part. -/
def requiredStart? : List Char → Option (List Char)
  | '{' :: _ => some ['{']
  | _ => none

/-- A letter or digit of the first 128 characters, or an underscore. -/
def isNameChar (c : Char) : Bool := c.isAlphanum || c == '_'

/-- Finds a separator: the end of a part, perhaps a slash, and the start of the next part. What
is around the separator stays. -/
def betweenParts (start? : List Char → Option (List Char)) (standIn : List Char) :
    Text.Rule (List Char)
  | [] => none
  | c :: s =>
    if c == ':' || c == '}' then
      let (slash, s) := match s with
        | '/' :: s => (1, s)
        | _ => (0, s)
      (start? s).map fun start => (c :: (standIn ++ start), 1 + slash + start.length)
    else none

/-- Finds a separator that follows plain text: a name character, a slash, and the start of a
part. -/
def afterText (start? : List Char → Option (List Char)) (standIn : List Char) :
    Text.Rule (List Char)
  | c :: '/' :: s =>
    if isNameChar c then
      (start? s).map fun start => (c :: (standIn ++ start), 2 + start.length)
    else none
  | _ => none

/-- Finds what is enclosed between an opening and the next `stop`; the name must not be empty. -/
def enclosed (opening : List Char) (stop : Char) : Text.Rule (List Char) := fun s =>
  if opening.isPrefixOf s then
    match Text.upTo? (· == stop) (s.drop opening.length) with
    | some name =>
      if name.isEmpty then none else some (name, opening.length + name.length + 1)
    | none => none
  else none

/-- As `enclosed`, with an asterisk behind the name. -/
def starred (opening : List Char) (stop : Char) : Text.Rule (List Char) := fun s =>
  match enclosed opening stop s with
  | some (name, n) =>
    if name.getLast? = some '*' ∧ 1 < name.length then some (name.dropLast, n) else none
  | none => none

namespace Form

/-- Finds a form, in whose place its stand-in goes. -/
def rule (form : Form) : Text.Rule (List Char) := fun s =>
  match form with
  | optionalSlash =>
    betweenParts optionalStart? form.standIn s <|> afterText optionalStart? form.standIn s
  | requiredSlash => betweenParts requiredStart? form.standIn s
  | requiredQuery => (enclosed ['{', '?'] '}' s).map fun (_, n) => (form.standIn, n)
  | optionalQuery => (enclosed [':', '?'] ':' s).map fun (_, n) => (form.standIn, n)
  | optionalRest => (starred [':'] ':' s).map fun (_, n) => (form.standIn, n)
  | requiredRest => (starred ['{'] '}' s).map fun (_, n) => (form.standIn, n)
  | requiredParam => (enclosed ['{'] '}' s).map fun (_, n) => (form.standIn, n)
  | optionalParam => (enclosed [':'] ':' s).map fun (_, n) => (form.standIn, n)

/-- Puts the stand-in in the place of every part of this form. -/
def save (form : Form) (s : List Char) : List Char := Text.substitute form.rule s

/-- Puts the regular expression in the place of every stand-in. -/
def restore (form : Form) (s : List Char) : List Char :=
  Text.replace form.standIn form.fragment s

end Form

/-! ## The names that a template declares -/

/-- A part of any form but the separators: its whole text, and the name between the
delimiters. -/
structure Slot where
  text : List Char
  name : List Char
deriving DecidableEq

/-- Finds a part between delimiters of either kind. -/
def slotRule : Text.Rule Slot
  | [] => none
  | c :: s =>
    if c == '{' || c == ':' then
      match Text.upTo? (fun d => d == '}' || d == ':') s with
      | some name =>
        if name.isEmpty then none
        else some (⟨(c :: s).take (name.length + 2), name⟩, name.length + 2)
      | none => none
    else none

/-- The names of all parts, from left to right. Those of rests and queries keep their mark. -/
def paramIds (template : String) : List String :=
  (Text.findAll slotRule template.toList).map (.ofList ·.name)

/-- The names of the parts between colons. -/
def optionalParamIds (template : String) : List String :=
  (Text.findAll (enclosed [':'] ':') template.toList).map .ofList

end RouteDispatch.Template
