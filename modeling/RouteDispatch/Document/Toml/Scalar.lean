/-
The scalar values of TOML: texts in four notations, integers, floating-point
numbers, truth values, dates and times.
-/
import RouteDispatch.Document
import RouteDispatch.Text.Digits

namespace RouteDispatch.Toml

/-- Spaces and tab stops, which never end a line. -/
def isBlank (c : Char) : Bool := c == ' ' || c == '\t'

/-- Control characters, which no text and no comment may hold; the tab stop is none of them. -/
def isControl (c : Char) : Bool := (c.toNat < 0x20 && c != '\t') || c.toNat == 0x7F

/-! ## Texts -/

/-- Reads what stands behind a backslash, and says how long it is. -/
def escape? : List Char → Option (Char × Nat)
  | '"' :: _ => some ('"', 1)
  | '\\' :: _ => some ('\\', 1)
  | 'b' :: _ => some ('\x08', 1)
  | 'e' :: _ => some ('\x1B', 1)
  | 'f' :: _ => some ('\x0C', 1)
  | 'n' :: _ => some ('\n', 1)
  | 'r' :: _ => some ('\r', 1)
  | 't' :: _ => some ('\t', 1)
  | 'x' :: s => (Text.hexPrefix? 2 s >>= Text.charAt?).map (·, 3)
  | 'u' :: s => (Text.hexPrefix? 4 s >>= Text.charAt?).map (·, 5)
  | 'U' :: s => (Text.hexPrefix? 8 s >>= Text.charAt?).map (·, 9)
  | _ => none

/-- A backslash at the end of a line takes the line break and all blanks behind it away. Says how
long these are, the backslash being gone. -/
def foldedBreak? (s : List Char) : Option Nat :=
  let isSpace := fun c => isBlank c || c == '\n' || c == '\r'
  match s.dropWhile isBlank with
  | '\n' :: _ => some (s.takeWhile isSpace).length
  | '\r' :: '\n' :: _ => some (s.takeWhile isSpace).length
  | _ => none

/-- How a text is written. -/
structure Quoting where
  /-- The quotation mark. -/
  quote : Char
  /-- A backslash begins an escape. -/
  escapes : Bool
  /-- The text may go over several lines, and ends by three quotation marks. -/
  multiLine : Bool

/-- Reads a text up to its end, behind the characters that are done, last one first. The first
`skip` characters are read already. -/
def textOnto (n : Quoting) (done : List Char) :
    (skip : Nat) → List Char → Option (String × List Char)
  | _, [] => none
  | skip + 1, _ :: s => textOnto n done skip s
  | 0, c :: s =>
    if c = n.quote then
      if n.multiLine then
        -- Up to two quotation marks belong to the text, even before the three that end it.
        let marks := (s.takeWhile (· == n.quote)).length + 1
        if marks < 3 then textOnto n (List.replicate marks c ++ done) (marks - 1) s
        else if marks ≤ 5 then
          some (.ofList (List.replicate (marks - 3) c ++ done).reverse, s.drop (marks - 1))
        else none
      else some (.ofList done.reverse, s)
    else if c = '\\' ∧ n.escapes then
      match (if n.multiLine then foldedBreak? s else none) with
      | some k => textOnto n done k s
      | none =>
        match escape? s with
        | some (d, k) => textOnto n (d :: done) k s
        | none => none
    else if n.multiLine ∧ (c = '\n' ∨ (c = '\r' ∧ s.head? = some '\n')) then
      textOnto n (c :: done) 0 s
    else if isControl c then none
    else textOnto n (c :: done) 0 s

/-- Drops one line break. -/
def dropBreak : List Char → List Char
  | '\n' :: s => s
  | '\r' :: '\n' :: s => s
  | s => s

/-- Reads a text on one line, in either notation. -/
def lineText? : List Char → Option (String × List Char)
  | '"' :: s => textOnto ⟨'"', true, false⟩ [] 0 s
  | '\'' :: s => textOnto ⟨'\'', false, false⟩ [] 0 s
  | _ => none

/-- Reads a text in any notation. A line break behind three quotation marks is no part of it. -/
def text? : List Char → Option (String × List Char)
  | '"' :: '"' :: '"' :: s => textOnto ⟨'"', true, true⟩ [] 0 (dropBreak s)
  | '\'' :: '\'' :: '\'' :: s => textOnto ⟨'\'', false, true⟩ [] 0 (dropBreak s)
  | s => lineText? s

/-! ## Numbers -/

/-- Without its underscores, each of which must stand between two digits; all else must be digits
of the given kind, one at least. -/
def digits? (isDigit : Char → Bool) (s : List Char) : Option (List Char) :=
  let between := fun (a, b) => a != '_' || isDigit b
  if s.head?.any isDigit ∧ s.getLast?.any isDigit ∧ (s.zip (s.drop 1)).all between ∧
      s.all (fun c => isDigit c || c == '_')
  then some (s.filter (· != '_'))
  else none

/-- Decimal digits without an idle zero in front. -/
def wholeDigits? (s : List Char) : Option (List Char) := do
  let ds ← digits? Char.isDigit s
  if ds.head? = some '0' ∧ 1 < ds.length then none else some ds

/-- A number in another base. -/
def based? (base : Nat) (s : List Char) : Option Int := do
  let value := fun c => (Text.hexDigit? c).filter (· < base)
  let ds ← digits? (fun c => (value c).isSome) s
  return ds.foldl (fun n c => base * n + (value c).getD 0) 0

/-- Without a sign, and whether that was a minus. -/
def unsigned : List Char → Bool × List Char
  | '-' :: s => (true, s)
  | '+' :: s => (false, s)
  | s => (false, s)

/-- An integer. -/
def integer? : List Char → Option Int
  | '0' :: 'x' :: s => based? 16 s
  | '0' :: 'o' :: s => based? 8 s
  | '0' :: 'b' :: s => based? 2 s
  | s => do
    let (minus, s) := unsigned s
    let n := Text.decimal (← wholeDigits? s)
    return if minus then -n else n

/-- What stands before the first character with a property, and what stands behind it, if there
is one. -/
def splitAtFirst (p : Char → Bool) (s : List Char) : List Char × Option (List Char) :=
  match s.dropWhile (! p ·) with
  | [] => (s, none)
  | _ :: rest => (s.takeWhile (! p ·), some rest)

/-- It is a floating-point number that has a place among the doubles. -/
def isFloat (s : List Char) : Bool :=
  let (_, s) := unsigned s
  if ["inf".toList, "nan".toList].contains s then true
  else
    let (mantissa, exponent) := splitAtFirst (fun c => c == 'e' || c == 'E') s
    let (whole, fraction) := splitAtFirst (· == '.') mantissa
    let power := match exponent with
      | none => some (0 : Int)
      | some e =>
        let (minus, e) := unsigned e
        (digits? Char.isDigit e).map fun ds =>
          if minus then -(Text.decimal ds) else (Text.decimal ds : Int)
    let places := match fraction with
      | none => some []
      | some f => digits? Char.isDigit f
    match wholeDigits? whole, places, power with
    | some w, some f, some p =>
      (exponent.isSome || fraction.isSome) &&
        Document.fitsDouble (Text.decimal (w ++ f)) (p - f.length)
    | _, _, _ => false

/-! ## Dates and times -/

/-- The number written by exactly this many digits. -/
def fixed? (width : Nat) (s : List Char) : Option Nat :=
  if s.length = width ∧ s.all Char.isDigit then some (Text.decimal s) else none

/-- The days of a month. -/
def daysIn (year month : Nat) : Nat :=
  if month = 2 then
    if year % 4 = 0 ∧ (year % 100 ≠ 0 ∨ year % 400 = 0) then 29 else 28
  else if month = 4 ∨ month = 6 ∨ month = 9 ∨ month = 11 then 30
  else 31

/-- It is a date, as year, month and day. -/
def isDate (s : List Char) : Bool :=
  match fixed? 4 (s.take 4), s.drop 4 with
  | some year, '-' :: s =>
    match fixed? 2 (s.take 2), s.drop 2 with
    | some month, '-' :: s =>
      match fixed? 2 s with
      | some day => 1 ≤ month && month ≤ 12 && 1 ≤ day && day ≤ daysIn year month
      | none => false
    | _, _ => false
  | _, _ => false

/-- Reads hour and minute, and gives what is left. -/
def clock? (s : List Char) : Option (List Char) :=
  match fixed? 2 (s.take 2), s.drop 2 with
  | some hour, ':' :: s =>
    match fixed? 2 (s.take 2) with
    | some minute => if hour < 24 ∧ minute < 60 then some (s.drop 2) else none
    | none => none
  | _, _ => none

/-- Reads a time, whose seconds may be missing, and gives what is left. -/
def time? (s : List Char) : Option (List Char) := do
  match ← clock? s with
  | ':' :: s =>
    let second ← fixed? 2 (s.take 2)
    if 60 < second then failure
    match s.drop 2 with
    | '.' :: s =>
      let places := s.takeWhile Char.isDigit
      if places.isEmpty then none else some (s.drop places.length)
    | s => some s
  | s => some s

/-- It is the distance from universal time, or nothing. -/
def isOffset : List Char → Bool
  | [] => true
  | ['Z'] => true
  | ['z'] => true
  | '+' :: s => clock? s == some []
  | '-' :: s => clock? s == some []
  | _ => false

/-- It is a date, a time, or a date and a time with or without an offset. -/
def isMoment (s : List Char) : Bool :=
  if isDate s then true
  else if time? s == some [] then true
  else
    match s.drop 10 with
    | d :: rest =>
      isDate (s.take 10) && (d == 'T' || d == 't' || d == ' ') && (time? rest).any isOffset
    | [] => false

/-! ## Scalars -/

/-- The characters of numbers, words, dates and times. -/
def isAtomChar (c : Char) : Bool :=
  c.isAlphanum || c == '+' || c == '-' || c == '.' || c == '_' || c == ':'

/-- The text of a number, word, date or time at the start. A blank may stand between a date and a
time. -/
def atomText (s : List Char) : List Char :=
  let first := s.takeWhile isAtomChar
  match s.drop first.length with
  | ' ' :: c :: rest =>
    if isDate first ∧ c.isDigit then first ++ ' ' :: (c :: rest).takeWhile isAtomChar else first
  | _ => first

/-- The value of a number, word, date or time. -/
def atom? (s : List Char) : Option Document :=
  if s = "true".toList then some (.bool true)
  else if s = "false".toList then some (.bool false)
  else
    match integer? s with
    | some n => if Document.isWord n then some (.int n) else none
    | none =>
      if isFloat s then some .real
      else if isMoment s then some .moment
      else none

/-- Reads a scalar. -/
def scalar : Reading Document := fun s =>
  match s.head? with
  | some '"' | some '\'' => (text? s).map fun (t, rest) => (.text t, rest)
  | _ =>
    let a := atomText s
    (atom? a).map fun d => (d, s.drop a.length)

end RouteDispatch.Toml
