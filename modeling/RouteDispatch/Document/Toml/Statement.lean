/-
The statements of a TOML text: the headings of tables, and keys with values.
-/
import RouteDispatch.Document.Toml.Scalar
import RouteDispatch.Document.Toml.Table

namespace RouteDispatch.Toml

/-! ## White space and comments -/

/-- Skips the blanks of a line. -/
def blanks : Reading Unit := discard (Reading.run isBlank)

/-- Skips blanks, line breaks and comments. -/
def skipGap : (inComment : Bool) → List Char → Option (List Char)
  | _, [] => some []
  | inComment, c :: s =>
    if c = '\n' then skipGap false s
    else if c = '\r' then if s.head? = some '\n' then skipGap inComment s else none
    else if inComment then if isControl c then none else skipGap true s
    else if isBlank c then skipGap false s
    else if c = '#' then skipGap true s
    else some (c :: s)

/-- Skips blanks, line breaks and comments. -/
def gap : Reading Unit := fun s => (skipGap false s).map ((), ·)

/-- Skips the rest of a line, which holds a comment at most. -/
def lineEnd : Reading Unit := do
  blanks
  if ← Reading.skip? '#' then
    let comment ← Reading.run (· != '\n')
    let plain := if comment.getLast? = some '\r' then comment.dropLast else comment
    if plain.any isControl then failure
    discard (Reading.skip? '\n')
  else
    match ← Reading.peek with
    | none => pure ()
    | some '\r' => Reading.word "\r\n"
    | _ => Reading.word "\n"

/-! ## Keys -/

/-- The characters of a key without quotation marks. -/
def isBareChar (c : Char) : Bool := c.isAlphanum || c == '_' || c == '-'

/-- Reads one part of a key. -/
def keyPart : Reading String := do
  match ← Reading.peek with
  | some '"' | some '\'' => lineText?
  | _ => return .ofList (← Reading.run1 isBareChar)

/-- Reads the further parts of a key, each behind a dot, and puts them behind those that are done,
last one first. -/
def keyOnto : (rounds : Nat) → (done : List String) → Reading (List String)
  | 0, done => return done.reverse
  | rounds + 1, done => do
    blanks
    if ← Reading.skip? '.' then
      blanks
      keyOnto rounds ((← keyPart) :: done)
    else return done.reverse

/-- Reads a key, all of whose parts lead to a table but the last one. -/
def key : Reading (List String) := do
  let first ← keyPart
  keyOnto (← get).length [first]

/-! ## Values -/

/-- Reads a key and its value. -/
def entry (value : Reading Document) : Reading (List String × Document) := do
  let k ← key
  blanks
  Reading.word "="
  blanks
  return (k, ← value)

/-- Reads a value; `inner` reads those that it holds, if it may hold any. -/
def valueWith (inner : Option (Reading Document)) : Reading Document := do
  match ← Reading.peek with
  | some '[' =>
    match inner with
    | none => failure
    | some value =>
      Reading.word "["
      return .list (← Reading.items value gap ']' true)
  | some '{' =>
    match inner with
    | none => failure
    | some value =>
      Reading.word "\x7b"
      let entries ← Reading.items (entry value) gap '}' true
      liftM (inlineTable? entries)
  | _ => scalar

/-- Reads a value with at most this many lists and tables one inside the other. -/
def value : (depth : Nat) → Reading Document
  | 0 => valueWith none
  | depth + 1 => valueWith (some (value depth))

/-- The deepest nesting of lists and inline tables. -/
def depthLimit : Nat := 80

/-! ## Statements -/

/-- Reads a statement. -/
def statement : Reading Statement := do
  if ← Reading.skip? '[' then
    let many ← Reading.skip? '['
    blanks
    let k ← key
    blanks
    Reading.word (if many then "]]" else "]")
    return if many then .element k else .heading k
  else
    let (k, v) ← entry (value depthLimit)
    return .entry k v

/-- Reads all statements, one a line, and puts them behind those that are done, last one first. -/
def statementsOnto : (rounds : Nat) → (done : List Statement) → Reading (List Statement)
  | 0, _ => failure
  | rounds + 1, done => do
    blanks
    match ← Reading.peek with
    | none => return done.reverse
    | some c =>
      if c = '#' ∨ c = '\n' ∨ c = '\r' then
        lineEnd
        statementsOnto rounds done
      else
        let s ← statement
        lineEnd
        statementsOnto rounds (s :: done)

/-- The statements of a text, before which a byte order mark may stand. -/
def statements? (text : List Char) : Option (List Statement) :=
  let text := if text.head? = some '\ufeff' then text.drop 1 else text
  Reading.whole (statementsOnto (text.length + 1) []) text

/-- The document that a text writes. -/
def document? (s : String) : Option Document := (statements? s.toList).bind build?

end RouteDispatch.Toml
