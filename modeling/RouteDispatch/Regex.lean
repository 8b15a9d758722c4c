/-
Compiled regular expressions: what the rest of the library asks of them.

A source either compiles or is rejected for one of two causes. A compiled
expression finds its leftmost match, preferred as `Expr.ways` says, and gives
what its groups matched there.
-/
import RouteDispatch.Regex.Primed
import RouteDispatch.Regex.Reader

namespace RouteDispatch

/-- A compiled regular expression, with the text it was compiled from. -/
structure Regex where
  source : String
  expr : Regex.Expr

namespace Regex

/-- Why a source does not compile. -/
inductive Rejection where
  /-- It does not follow the grammar. -/
  | malformed
  /-- It would take more room than is allowed. -/
  | oversized
deriving DecidableEq, Repr

/-- What makes an expression of a source, or rejects it. -/
abbrev Engine := String → Except Rejection Regex

/-- The engine of this library. It reads what is said at `Reader` and rejects all else, such as
scripts in a property and the flags `R`, `u` and `x`. Whoever needs those hands in another
engine. -/
def compile (source : String) : Except Rejection Regex :=
  match Expr.ofSource? source.toList with
  | none => .error .malformed
  | some expr => if expr.weight ≤ weightLimit then .ok ⟨source, expr⟩ else .error .oversized

/-- The number of groups that remember what they matched. -/
def groupCount (r : Regex) : Nat := r.expr.groupCount

/-- How much of the text was left when a group was last entered and last left. -/
def Trail.span? (trail : Trail) (n : Nat) : Option (Nat × Nat) := do
  let entered ← trail.reverse.find? fun m => m.group == n && m.opens
  let exited ← trail.reverse.find? fun m => m.group == n && !m.opens
  return (entered.left, exited.left)

/-- The part of a text between two places, each given by how much is left there. -/
def between (text : List Char) (first last : Nat) : String :=
  .ofList ((text.drop (text.length - first)).take (first - last))

/-- What each group matched; a group that took no part has nothing. -/
def Trail.captures (trail : Trail) (count : Nat) (text : List Char) : List (Option String) :=
  (List.range count).map fun i =>
    (Trail.span? trail (i + 1)).map fun (first, last) => between text first last

/-- What the groups matched at the preferred match in a text. -/
def captures? (r : Regex) (text : String) : Option (List (Option String)) :=
  (r.expr.search text.toList).map fun trail => Trail.captures trail r.groupCount text.toList

/-- There is a match somewhere in the text. -/
def isMatch (r : Regex) (text : String) : Bool := (r.expr.search text.toList).isSome

end Regex

end RouteDispatch
