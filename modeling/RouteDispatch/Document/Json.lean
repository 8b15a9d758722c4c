/-
Documents written in JSON.
-/
import RouteDispatch.Document
import RouteDispatch.Text.Digits

namespace RouteDispatch.Json

/-- White space between tokens. -/
def isBlank (c : Char) : Bool := c == ' ' || c == '\t' || c == '\n' || c == '\r'

/-- Skips white space. -/
def gap : Reading Unit := discard (Reading.run isBlank)

/-! ## Texts -/

/-- Reads what stands behind a backslash, and says how long it is. A character beyond the first
65536 is written as two halves, neither of which may stand alone. -/
def escape? : List Char → Option (Char × Nat)
  | '"' :: _ => some ('"', 1)
  | '\\' :: _ => some ('\\', 1)
  | '/' :: _ => some ('/', 1)
  | 'b' :: _ => some ('\x08', 1)
  | 'f' :: _ => some ('\x0C', 1)
  | 'n' :: _ => some ('\n', 1)
  | 'r' :: _ => some ('\r', 1)
  | 't' :: _ => some ('\t', 1)
  | 'u' :: s => do
    let n ← Text.hexPrefix? 4 s
    if 0xD800 ≤ n ∧ n < 0xDC00 then
      match s.drop 4 with
      | '\\' :: 'u' :: s =>
        let m ← Text.hexPrefix? 4 s
        if 0xDC00 ≤ m ∧ m < 0xE000 then
          let c ← Text.charAt? (0x10000 + (n - 0xD800) * 0x400 + (m - 0xDC00))
          return (c, 11)
        else failure
      | _ => failure
    else
      let c ← Text.charAt? n
      return (c, 5)
  | _ => none

/-- Reads a text up to its closing quotation mark, behind the characters that are done, last one
first. The first `skip` characters belong to an escape already read. -/
def textOnto (done : List Char) : (skip : Nat) → List Char → Option (String × List Char)
  | _, [] => none
  | skip + 1, _ :: s => textOnto done skip s
  | 0, c :: s =>
    if c = '"' then some (.ofList done.reverse, s)
    else if c = '\\' then
      match escape? s with
      | some (d, n) => textOnto (d :: done) n s
      | none => none
    else if c.toNat < 0x20 then none
    else textOnto (c :: done) 0 s

/-- Reads a text, the opening quotation mark being gone. -/
def text : Reading String := textOnto [] 0

/-! ## Numbers -/

/-- Reads digits behind a character, if that is next. -/
def digitsAfter (c : Char) : Reading (Option (List Char)) := do
  if ← Reading.skip? c then return some (← Reading.run1 Char.isDigit) else return none

/-- Reads an exponent, if one is next. -/
def exponent : Reading (Option Int) := do
  let small ← Reading.skip? 'e'
  let large ← if small then pure false else Reading.skip? 'E'
  if small || large then
    let minus ← Reading.skip? '-'
    if !minus then discard (Reading.skip? '+')
    let n := Text.decimal (← Reading.run1 Char.isDigit)
    return some (if minus then -n else n)
  else return none

/-- Reads a number. One with a fraction or an exponent is no integer, and neither are minus zero
and those beyond 64 bits. -/
def number : Reading Document := do
  let minus ← Reading.skip? '-'
  let whole ← Reading.run1 Char.isDigit
  if whole.head? = some '0' ∧ 1 < whole.length then failure
  let fraction ← digitsAfter '.'
  let exponent ← exponent
  let digits := Text.decimal (whole ++ fraction.getD [])
  if !Document.fitsDouble digits (exponent.getD 0 - (fraction.getD []).length) then failure
  let n : Int := if minus then -digits else digits
  if fraction.isSome || exponent.isSome || (minus && n == 0) || !Document.isWord n then
    return .real
  else return .int n

/-! ## Values -/

/-- Reads the name and the value of a member. -/
def member (value : Reading Document) : Reading (String × Document) := do
  Reading.word "\""
  let name ← text
  gap
  Reading.word ":"
  let v ← value
  return (name, v)

/-- Reads a value; `inner` reads those that it holds, if it may hold any. -/
def valueWith (inner : Option (Reading Document)) : Reading Document := do
  gap
  match ← Reading.peek with
  | some '"' => Reading.word "\""; return .text (← text)
  | some 'n' => Reading.word "null"; return .null
  | some 't' => Reading.word "true"; return .bool true
  | some 'f' => Reading.word "false"; return .bool false
  | some '[' =>
    match inner with
    | none => failure
    | some value =>
      Reading.word "["
      return .list (← Reading.items value gap ']' false)
  | some '{' =>
    match inner with
    | none => failure
    | some value =>
      Reading.word "\x7b"
      return .record (← Reading.items (member value) gap '}' false)
  | _ => number

/-- Reads a value with at most this many lists and records one inside the other. -/
def value : (depth : Nat) → Reading Document
  | 0 => valueWith none
  | depth + 1 => valueWith (some (value depth))

/-- The deepest nesting of lists and records. -/
def depthLimit : Nat := 127

/-- The document that a text writes. -/
def document? (s : String) : Option Document :=
  Reading.whole (do let d ← value depthLimit; gap; return d) s.toList

end RouteDispatch.Json
