/-
Reading the written form of a regular expression.

The reader goes through the text once, a token at a time. Its state holds
every bracket that is still open, so one step never looks back, and the steps
over a text put together from pieces are the steps over the pieces.

Unicode is always on: `\d`, `\s`, `\w` and `\b` ask for the Unicode classes.
The flags are `i` (any case), `m` (`^` and `$` also at line breaks), `s` (a dot
matches line breaks too) and `U` (greedy and lazy change places).
-/
import RouteDispatch.Regex.Expr
import RouteDispatch.Text.Cut
import RouteDispatch.Text.Digits

namespace RouteDispatch.Regex

/-! ## Escapes -/

/-- What an escape stands for. -/
inductive Escaped where
  | literal (c : Char)
  | cls (members : CharClass)
  | edge (e : Edge)

/-- A code point, as `width` digits or as any number of digits in braces, and how long it is. -/
def codePoint? (width : Nat) : List Char → Option (Char × Nat)
  | '{' :: s => do
    let digits ← Text.upTo? (· == '}') s
    let c ← Text.hexNumber? digits >>= Text.charAt?
    return (c, digits.length + 2)
  | s => do
    let c ← Text.hexPrefix? width s >>= Text.charAt?
    return (c, width)

/-- The text before and after the first place where `mark` stands. -/
def splitAt? (mark : List Char) : List Char → Option (List Char × List Char)
  | [] => if mark.isEmpty then some ([], []) else none
  | c :: s =>
    if mark.isPrefixOf (c :: s) then some ([], (c :: s).drop mark.length)
    else (splitAt? mark s).map fun (before, after) => (c :: before, after)

/-- The value of a property that is given by name and value. -/
def valueNamed? (property value : List Char) : Option CharClass :=
  if ["gc", "generalcategory"].contains (Unicode.plainName property)
  then Unicode.categoryNamed? value
  else none

/-- The class that is meant between the braces of a property, and whether it is negated there. -/
def property? (name : List Char) : Option (CharClass × Bool) :=
  match splitAt? ['!', '='] name with
  | some (property, value) => (valueNamed? property value).map (·, true)
  | none =>
    match splitAt? [':'] name with
    | some (property, value) => (valueNamed? property value).map (·, false)
    | none =>
      match splitAt? ['='] name with
      | some (property, value) => (valueNamed? property value).map (·, false)
      | none => (Unicode.classNamed? name).map (·, false)

/-- Adds the characters that differ in case only, if they are asked for. -/
def CharClass.inCase (anyCase : Bool) (members : CharClass) : CharClass :=
  if anyCase then .anyCase members else members

/-- Takes the complement, if it is asked for. -/
def CharClass.unless (negated : Bool) (members : CharClass) : CharClass :=
  if negated then .compl members else members

/-- A property, as one letter or as a name in braces, and how long it is. -/
def propertyClass? (anyCase negated : Bool) : List Char → Option (Escaped × Nat)
  | [] => none
  | '\\' :: _ => none
  | '{' :: s => do
    let name ← Text.upTo? (· == '}') s
    let (members, differs) ← property? name
    return (.cls (CharClass.unless (negated != differs) (CharClass.inCase anyCase members)),
      name.length + 2)
  | c :: _ => do
    let members ← Unicode.classNamed? [c]
    return (.cls (CharClass.unless negated (CharClass.inCase anyCase members)), 1)

/-- The edges of words that are asked for by name. -/
def wordEdge? (name : List Char) : Option Edge :=
  [("start", Edge.wordStart), ("end", .wordEnd), ("start-half", .wordStartHalf),
    ("end-half", .wordEndHalf)].lookup (String.ofList name)

/-- What follows `\b`: a name in braces, or nothing that belongs to it. -/
def wordBoundary? : List Char → Option (Edge × Nat)
  | '{' :: s =>
    let name := s.takeWhile fun c => c.isAlpha || c == '-'
    if name.isEmpty then some (.wordBoundary, 0)
    else if (s.drop name.length).head? == some '}'
    then (wordEdge? name).map (·, name.length + 2)
    else none
  | _ => some (.wordBoundary, 0)

/-- Reads an escape, the backslash being gone, and says how long it is. A sign of the first 128
characters that is no letter and no digit stands for itself. -/
def escape? (anyCase : Bool) : List Char → Option (Escaped × Nat)
  | [] => none
  | c :: s =>
    match c with
    | 'd' => some (.cls Unicode.decimalDigit, 1)
    | 'D' => some (.cls (.compl Unicode.decimalDigit), 1)
    | 's' => some (.cls Unicode.whiteSpace, 1)
    | 'S' => some (.cls (.compl Unicode.whiteSpace), 1)
    | 'w' => some (.cls Unicode.word, 1)
    | 'W' => some (.cls (.compl Unicode.word), 1)
    | 'p' => (propertyClass? anyCase false s).map fun (e, n) => (e, n + 1)
    | 'P' => (propertyClass? anyCase true s).map fun (e, n) => (e, n + 1)
    | 'x' => (codePoint? 2 s).map fun (c, n) => (.literal c, n + 1)
    | 'u' => (codePoint? 4 s).map fun (c, n) => (.literal c, n + 1)
    | 'U' => (codePoint? 8 s).map fun (c, n) => (.literal c, n + 1)
    | 'a' => some (.literal '\x07', 1)
    | 'f' => some (.literal '\x0C', 1)
    | 't' => some (.literal '\t', 1)
    | 'n' => some (.literal '\n', 1)
    | 'r' => some (.literal '\r', 1)
    | 'v' => some (.literal '\x0B', 1)
    | 'A' => some (.edge .textStart, 1)
    | 'z' => some (.edge .textEnd, 1)
    | 'b' => (wordBoundary? s).map fun (e, n) => (.edge e, n + 1)
    | 'B' => some (.edge .notWordBoundary, 1)
    | '<' => some (.edge .wordStart, 1)
    | '>' => some (.edge .wordEnd, 1)
    | c => if c.toNat < 0x80 ∧ ¬ c.isAlphanum then some (.literal c, 1) else none

/-! ## The state of the reader -/

/-- How the text at hand is to be understood. -/
structure Flags where
  anyCase : Bool := false
  multiLine : Bool := false
  dotAll : Bool := false
  swapGreed : Bool := false

/-- Sets or clears a flag; there are no others. -/
def Flags.put? (flags : Flags) (on : Bool) : Char → Option Flags
  | 'i' => some { flags with anyCase := on }
  | 'm' => some { flags with multiLine := on }
  | 's' => some { flags with dotAll := on }
  | 'U' => some { flags with swapGreed := on }
  | _ => none

/-- Follows a directive: flags to set, then perhaps a hyphen and flags to clear. No flag may
occur twice. -/
def Flags.follow? (flags : Flags) (directive : List Char) : Option Flags :=
  let toSet := directive.takeWhile (· != '-')
  let toClear := directive.drop (toSet.length + 1)
  if directive.getLast? = some '-' ∨ ¬ (toSet ++ toClear).Nodup then none
  else do
    let flags ← toSet.foldlM (·.put? true) flags
    toClear.foldlM (·.put? false) flags

/-- The branches of a choice that is being read. -/
structure Branches where
  /-- The branches that are complete, the last one first. -/
  complete : List Expr := []
  /-- The items of the running branch, the last one first. A directive for flags is an item
  without an expression. -/
  items : List (Option Expr) := []

namespace Branches

/-- The running branch as it stands. -/
def running (b : Branches) : Expr := .row (b.items.reverse.filterMap id)

/-- Adds an item to the running branch. -/
def push (b : Branches) (e : Expr) : Branches := { b with items := some e :: b.items }

/-- Begins another branch. -/
def next (b : Branches) : Branches := { complete := b.running :: b.complete, items := [] }

/-- All branches, none of them running any more. -/
def close (b : Branches) : Expr := .choice (b.running :: b.complete).reverse

end Branches

/-- A group that is being read, with what was read around it. -/
structure OpenGroup where
  index : Option Nat
  flags : Flags
  around : Branches

/-- The operations between two parts of a class. -/
inductive ClassOp where
  | inter
  | diff
  | symmDiff

/-- Applies an operation. -/
def ClassOp.apply : ClassOp → CharClass → CharClass → CharClass
  | inter => .inter
  | diff => CharClass.diff
  | symmDiff => CharClass.symmDiff

/-- A class in square brackets that is being read. -/
structure OpenClass where
  negated : Bool
  /-- What stands before the last operation. -/
  before : Option (CharClass × ClassOp) := none
  members : CharClass := .none

namespace OpenClass

/-- Adds members. -/
def add (c : OpenClass) (members : CharClass) : OpenClass :=
  { c with members := .union c.members members }

/-- The members so far, the last operation carried out. -/
def current (c : OpenClass) (anyCase : Bool) : CharClass :=
  let members := CharClass.inCase anyCase c.members
  match c.before with
  | none => members
  | some (before, op) => op.apply before members

/-- Begins the second part of an operation. -/
def operate (c : OpenClass) (anyCase : Bool) (op : ClassOp) : OpenClass :=
  { negated := c.negated, before := some (c.current anyCase, op) }

/-- The class, all of it being read. -/
def close (c : OpenClass) (anyCase : Bool) : CharClass :=
  CharClass.unless c.negated (c.current anyCase)

end OpenClass

/-- The state between two tokens. -/
structure Reader where
  flags : Flags := {}
  branches : Branches := {}
  /-- The open groups, the innermost one first. -/
  groups : List OpenGroup := []
  /-- The open classes, the innermost one first. -/
  classes : List OpenClass := []
  /-- How many groups with a number there have been. -/
  groupCount : Nat := 0
  /-- The names of groups that are taken. -/
  names : List (List Char) := []

namespace Reader

/-- Adds an item. -/
def push (r : Reader) (e : Expr) : Reader := { r with branches := r.branches.push e }

/-! ## Classes in square brackets -/

/-- The classes that have a name between colons. -/
def asciiClasses : List (String × CharClass) := [
  ("alnum", .spans [(0x30, 0x39), (0x41, 0x5A), (0x61, 0x7A)]),
  ("alpha", .spans [(0x41, 0x5A), (0x61, 0x7A)]),
  ("ascii", .spans [(0x00, 0x7F)]),
  ("blank", .spans [(0x09, 0x09), (0x20, 0x20)]),
  ("cntrl", .spans [(0x00, 0x1F), (0x7F, 0x7F)]),
  ("digit", .spans [(0x30, 0x39)]),
  ("graph", .spans [(0x21, 0x7E)]),
  ("lower", .spans [(0x61, 0x7A)]),
  ("print", .spans [(0x20, 0x7E)]),
  ("punct", .spans [(0x21, 0x2F), (0x3A, 0x40), (0x5B, 0x60), (0x7B, 0x7E)]),
  ("space", .spans [(0x09, 0x0D), (0x20, 0x20)]),
  ("upper", .spans [(0x41, 0x5A)]),
  ("word", .spans [(0x30, 0x39), (0x41, 0x5A), (0x5F, 0x5F), (0x61, 0x7A)]),
  ("xdigit", .spans [(0x30, 0x39), (0x41, 0x46), (0x61, 0x66)])]

/-- A class named between colons, the opening bracket being gone, and how long it is. -/
def asciiClass? (anyCase : Bool) : List Char → Option (CharClass × Nat)
  | ':' :: s => do
    let (negated, s) := match s with
      | '^' :: s => (true, s)
      | _ => (false, s)
    let name ← Text.upTo? (· == ':') s
    if (s.drop (name.length + 1)).head? != some ']' then failure
    let members ← asciiClasses.lookup (String.ofList name)
    return (CharClass.unless negated (CharClass.inCase anyCase members),
      name.length + (if negated then 4 else 3))
  | _ => none

/-- What opens a class, the bracket being gone: perhaps a caret, then any hyphens, or else a
closing bracket, stand for themselves. -/
def classOpening (s : List Char) : OpenClass × Nat :=
  let (negated, caret, s) := match s with
    | '^' :: s => (true, 1, s)
    | _ => (false, 0, s)
  let hyphens := (s.takeWhile (· == '-')).length
  if hyphens = 0 then
    if s.head? == some ']' then ({ negated, members := .single ']' }, caret + 1)
    else ({ negated }, caret)
  else ({ negated, members := .single '-' }, caret + hyphens)

/-- One character or escape of a class, and how long it is. -/
def classAtom? (anyCase : Bool) : List Char → Option (Escaped × Nat)
  | [] => none
  | '\\' :: s => (escape? anyCase s).map fun (e, n) => (e, n + 1)
  | c :: _ => some (.literal c, 1)

/-- A range, or a single atom, and how long it is. A hyphen before a closing bracket or another
hyphen makes no range. -/
def classItem? (anyCase : Bool) (s : List Char) : Option (CharClass × Nat) := do
  let (first, n) ← classAtom? anyCase s
  let range := match s.drop n with
    | '-' :: c :: _ => c != ']' && c != '-'
    | _ => false
  if range then
    let (last, m) ← classAtom? anyCase (s.drop (n + 1))
    match first, last with
    | .literal lo, .literal hi => if lo ≤ hi then some (.range lo hi, n + 1 + m) else none
    | _, _ => none
  else
    match first with
    | .literal c => some (.single c, n)
    | .cls members => some (members, n)
    | .edge _ => none

/-- Reads a token inside of a class. -/
def classToken? (r : Reader) (c : OpenClass) (around : List OpenClass) :
    List Char → Option (Reader × Nat)
  | ']' :: _ =>
    let members := c.close r.flags.anyCase
    match around with
    | [] => some ({ r with classes := [] }.push (.char members), 1)
    | outer :: around => some ({ r with classes := outer.add members :: around }, 1)
  | '&' :: '&' :: _ => some (operation .inter, 2)
  | '-' :: '-' :: _ => some (operation .diff, 2)
  | '~' :: '~' :: _ => some (operation .symmDiff, 2)
  | '[' :: s =>
    match asciiClass? r.flags.anyCase s with
    | some (members, n) => some ({ r with classes := c.add members :: around }, n + 1)
    | none =>
      let (inner, n) := classOpening s
      some ({ r with classes := inner :: c :: around }, n + 1)
  | s => (classItem? r.flags.anyCase s).map fun (members, n) =>
    ({ r with classes := c.add members :: around }, n)
where
  operation (op : ClassOp) : Reader :=
    { r with classes := c.operate r.flags.anyCase op :: around }

/-! ## Groups -/

/-- The name may be given to a group: letters, digits, `_`, `.`, `[` and `]`, of which the first
is a letter or `_`. -/
def isGroupName : List Char → Bool
  | [] => false
  | c :: s =>
    (c == '_' || Unicode.alphabetic.contains c) &&
      s.all fun c => ['_', '.', '[', ']'].contains c || Unicode.alphabetic.contains c ||
        Unicode.numeral.contains c

/-- Opens a group. -/
def openGroup (r : Reader) (index : Option Nat) (flags : Flags) : Reader :=
  { r with
    flags
    branches := {}
    groups := ⟨index, r.flags, r.branches⟩ :: r.groups }

/-- Opens a group that gets the next number. -/
def openNumbered (r : Reader) : Reader :=
  { r with groupCount := r.groupCount + 1 }.openGroup (some (r.groupCount + 1)) r.flags

/-- Opens a group whose name is next, and says how long the name is with its end. -/
def openNamed? (r : Reader) (s : List Char) : Option (Reader × Nat) := do
  let name ← Text.upTo? (· == '>') s
  if isGroupName name ∧ name ∉ r.names then
    some ({ r with names := name :: r.names }.openNumbered, name.length + 1)
  else none

/-- A directive for flags, which ends by a colon if it opens a group and by a bracket if it
concerns what follows in this group. -/
def directive? (r : Reader) (s : List Char) : Option (Reader × Nat) := do
  let directive := s.takeWhile fun c => c != ':' && c != ')'
  let flags ← r.flags.follow? directive
  match s.drop directive.length with
  | ':' :: _ => some (r.openGroup none flags, directive.length + 1)
  | ')' :: _ =>
    if directive.isEmpty then none
    else
      let branches := { r.branches with items := none :: r.branches.items }
      some ({ r with flags, branches }, directive.length + 1)
  | _ => none

/-- What opens a group, the bracket being gone. There is no looking around. -/
def groupOpening? (r : Reader) : List Char → Option (Reader × Nat)
  | '?' :: '=' :: _ => none
  | '?' :: '!' :: _ => none
  | '?' :: '<' :: '=' :: _ => none
  | '?' :: '<' :: '!' :: _ => none
  | '?' :: 'P' :: '<' :: s => (r.openNamed? s).map fun (r, n) => (r, n + 3)
  | '?' :: '<' :: s => (r.openNamed? s).map fun (r, n) => (r, n + 2)
  | '?' :: s => (r.directive? s).map fun (r, n) => (r, n + 1)
  | _ => some (r.openNumbered, 0)

/-- Closes the innermost group. -/
def closeGroup? (r : Reader) : Option Reader :=
  match r.groups with
  | [] => none
  | g :: groups =>
    some { r with
      flags := g.flags
      branches := g.around.push (.group g.index r.branches.close)
      groups }

/-! ## Repetitions -/

/-- Repeats the last item, which must be there and be no directive. -/
def repeatLast? (r : Reader) (least : Nat) (most : Option Nat) (lazily : Bool) : Option Reader :=
  match r.branches.items with
  | some e :: items =>
    let e := e.times least most (lazily == r.flags.swapGreed)
    some { r with branches := { r.branches with items := some e :: items } }
  | _ => none

/-- A number below 2³², with white space around it, and how long all of this is. -/
def count? (s : List Char) : Option (Nat × Nat) :=
  let lead := (s.takeWhile Unicode.whiteSpace.contains).length
  let digits := (s.drop lead).takeWhile Char.isDigit
  let trail := ((s.drop (lead + digits.length)).takeWhile Unicode.whiteSpace.contains).length
  let n := Text.decimal digits
  if digits.isEmpty ∨ UInt32.size ≤ n then none else some (n, lead + digits.length + trail)

/-- The bounds of a repetition, the opening brace being gone, and how long they are with the
closing one. -/
def bounds? (s : List Char) : Option (Nat × Option Nat × Nat) := do
  let (least, n) ← count? s
  match s.drop n with
  | '}' :: _ => some (least, some least, n + 1)
  | ',' :: '}' :: _ => some (least, none, n + 2)
  | ',' :: s =>
    let (most, m) ← count? s
    match s.drop m with
    | '}' :: _ => if least ≤ most then some (least, some most, n + m + 2) else none
    | _ => none
  | _ => none

/-- A repetition whose bounds are in braces, the opening one being gone. -/
def bounded? (r : Reader) (s : List Char) : Option (Reader × Nat) := do
  let (least, most, n) ← bounds? s
  let lazily := (s.drop n).head? == some '?'
  let r ← r.repeatLast? least most lazily
  return (r, if lazily then n + 1 else n)

/-! ## Tokens -/

/-- A character that stands for itself. -/
def literal (r : Reader) (c : Char) : Reader :=
  r.push (.char (CharClass.inCase r.flags.anyCase (.single c)))

/-- Adds what an escape stands for. -/
def pushEscaped (r : Reader) : Escaped → Reader
  | .literal c => r.literal c
  | .cls members => r.push (.char members)
  | .edge e => r.push (.edge e)

/-- Reads a token outside of classes, and says how long it is. -/
def token? (r : Reader) : List Char → Option (Reader × Nat)
  | [] => none
  | '(' :: s => (r.groupOpening? s).map fun (r, n) => (r, n + 1)
  | ')' :: _ => r.closeGroup?.map (·, 1)
  | '|' :: _ => some ({ r with branches := r.branches.next }, 1)
  | '[' :: s =>
    let (inner, n) := classOpening s
    some ({ r with classes := [inner] }, n + 1)
  | '?' :: '?' :: _ => (r.repeatLast? 0 (some 1) true).map (·, 2)
  | '?' :: _ => (r.repeatLast? 0 (some 1) false).map (·, 1)
  | '*' :: '?' :: _ => (r.repeatLast? 0 none true).map (·, 2)
  | '*' :: _ => (r.repeatLast? 0 none false).map (·, 1)
  | '+' :: '?' :: _ => (r.repeatLast? 1 none true).map (·, 2)
  | '+' :: _ => (r.repeatLast? 1 none false).map (·, 1)
  | '{' :: s => (r.bounded? s).map fun (r, n) => (r, n + 1)
  | '.' :: _ => some (r.push (.char (if r.flags.dotAll then .all else .compl (.single '\n'))), 1)
  | '^' :: _ => some (r.push (.edge (if r.flags.multiLine then .lineStart else .textStart)), 1)
  | '$' :: _ => some (r.push (.edge (if r.flags.multiLine then .lineEnd else .textEnd)), 1)
  | '\\' :: s => (escape? r.flags.anyCase s).map fun (e, n) => (r.pushEscaped e, n + 1)
  | c :: _ => some (r.literal c, 1)

/-- Reads one token. -/
def step? (r : Reader) (s : List Char) : Option (Reader × Nat) :=
  match r.classes with
  | [] => r.token? s
  | c :: around => r.classToken? c around s

/-- Reads a text, of which the first `skip` characters belong to a token already read. -/
def run? (r : Reader) : (skip : Nat) → List Char → Option Reader
  | _, [] => some r
  | skip + 1, _ :: s => r.run? skip s
  | 0, c :: s =>
    match r.step? (c :: s) with
    | none => none
    | some (r, n) => r.run? (n - 1) s

/-- The expression that was read, if nothing is open any more. -/
def finish? (r : Reader) : Option Expr :=
  if r.groups.isEmpty ∧ r.classes.isEmpty then some r.branches.close else none

end Reader

/-- The expression that a text writes. -/
def Expr.ofSource? (source : List Char) : Option Expr := do
  let e ← ({} : Reader).run? 0 source >>= Reader.finish?
  if e.depth ≤ depthLimit then some e else none

end RouteDispatch.Regex
