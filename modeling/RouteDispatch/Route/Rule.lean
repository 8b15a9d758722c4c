/-
Rules for the values of a route.
-/
import RouteDispatch.Delivery
import RouteDispatch.Regex
import RouteDispatch.Route.Params
import RouteDispatch.Text.Quoted

namespace RouteDispatch

/-- A check that the user of a router supplies: it is given the value, the request and all values,
and answers or fails. -/
structure Predicate where
  name : String
  test : Option String → Params → Except String Bool

/-- A call to a predicate. -/
structure PredicateCall where
  name : String
  value : Option String
  params : Params
deriving DecidableEq, Repr

/-- What a value has to satisfy. -/
inductive Rule where
  /-- The expression matches somewhere in the value. -/
  | pattern (regex : Regex)
  /-- The value is one of these. -/
  | oneOf (allowed : List String)
  | predicate (p : Predicate)

namespace Rule

/-- The rule that an expression must match. -/
def ofSource (source : String) (engine : Regex.Engine := Regex.compile) :
    Except Regex.Rejection Rule := (engine source).map pattern

/-- Checks a value. One that is absent satisfies no expression and is in no list. -/
def check (rule : Rule) (value : Option String) (params : Params) :
    Traced PredicateCall Bool :=
  match rule with
  | pattern regex => pure (value.any regex.isMatch)
  | oneOf allowed => pure (value.any allowed.contains)
  | predicate p => .call ⟨p.name, value, params⟩ (p.test value params)

/-- The rule on one line. -/
def shown : Rule → String
  | pattern regex => Text.shownCase "Pattern" (Text.quoted regex.source)
  | oneOf allowed => Text.shownCase "OneOf" (Text.shownList (allowed.map Text.quoted))
  | predicate _ => "Predicate(..)"

end Rule

end RouteDispatch
