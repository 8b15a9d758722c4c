/-
The values that a request gave to the parts of a route.
-/
import RouteDispatch.Text.Digits

namespace RouteDispatch

/-- The values that a route captured from a request, in the order of its groups. -/
structure Params where
  request : String
  /-- The names that the route declares; a route without a template declares none. -/
  ids : List String
  /-- A group that took no part has no value. -/
  values : List (Option String)
deriving DecidableEq, Repr

/-- The number that a text writes in decimal digits, perhaps after one plus sign, if it is below
2⁶⁴. -/
def position? (s : String) : Option Nat :=
  let digits : List Char := match s.toList with
    | '+' :: digits => digits
    | digits => digits
  let n := Text.decimal digits
  if digits.isEmpty ∨ ¬ digits.all Char.isDigit ∨ UInt64.size ≤ n then none else some n

namespace Params

/-- The key under which the request itself is found. -/
def requestKey : String := "request_"

/-- The value of the group at a position. -/
def getIndex (p : Params) (i : Nat) : Option String := (p.values[i]?).join

/-- The value of the first group that a name is declared for. -/
def getNamed (p : Params) (name : String) : Option String :=
  (p.ids.idxOf? name).bind p.getIndex

/-- The value for a key, which is the key of the request, a declared name, or a position. -/
def get (p : Params) (key : String) : Option String :=
  if key = requestKey then some p.request
  else if key ∈ p.ids then p.getNamed key
  else (position? key).bind p.getIndex

/-- The declared names with their values. -/
def named (p : Params) : List (String × Option String) := p.ids.zip p.values

end Params

end RouteDispatch
