/-
Routes: a pattern with its matcher, the rules for its values, and its
listeners.
-/
import RouteDispatch.Route.Rule
import RouteDispatch.Signal
import RouteDispatch.Template.Fill
import RouteDispatch.Template.Source

namespace RouteDispatch

/-- The number of a route in its router. -/
structure RouteId where
  index : Nat
deriving DecidableEq, Repr

/-- The number in words. -/
def RouteId.text (id : RouteId) : String := "route#" ++ toString id.index

/-- What a route is matched by. -/
inductive Pattern where
  | template (text : String)
  /-- A regular expression of the user's own; its groups have no names. -/
  | regex (re : Regex)

namespace Pattern

/-- The pattern as it was written. -/
def text : Pattern → String
  | template text => text
  | regex re => re.source

/-- The template, if it is one. -/
def template? : Pattern → Option String
  | template text => some text
  | regex _ => none

/-- The expression that matches the requests, if the pattern has one. -/
def matcher? (mode : SlashMode) : Pattern → Option Regex
  | template text => (Template.compile mode text).toOption
  | regex re => some re

/-- The pattern on one line. -/
def shown : Pattern → String
  | template text => Text.shownCase "Template" (Text.quoted text)
  | regex re => Text.shownCase "Regex" (Text.shownCase "Regex" (Text.quoted re.source))

end Pattern

/-- Makes the arguments of listeners from the values of a request. -/
abbrev Normalizer := Params → Except String (List (Option String))

/-- A route. -/
structure Route where
  id : RouteId
  pattern : Pattern
  /-- A route without a matcher matches nothing. -/
  matcher : Option Regex
  paramIds : List String
  optionalParamIds : List String
  priority : Int
  /-- In the order in which their names first came; no name comes twice. -/
  rules : List (String × Rule) := []
  greedy : Bool := false
  normalizer : Option Normalizer := none
  onMatch : Signal := {}
  onPass : Signal := {}

namespace Route

/-- A route without rules and listeners. -/
def ofPattern (id : RouteId) (pattern : Pattern) (priority : Int) (mode : SlashMode) : Route where
  id
  pattern
  matcher := pattern.matcher? mode
  paramIds := (pattern.template?.map Template.paramIds).getD []
  optionalParamIds := (pattern.template?.map Template.optionalParamIds).getD []
  priority

/-! ## Rules -/

/-- The rules with another one, which takes the place of the one it shares its name with. -/
def putRule (name : String) (rule : Rule) : List (String × Rule) → List (String × Rule)
  | [] => [(name, rule)]
  | (n, r) :: rules =>
    if n = name then (name, rule) :: rules else (n, r) :: putRule name rule rules

/-- Adds a rule, or replaces the one with this name. -/
def addRule (route : Route) (name : String) (rule : Rule) : Route :=
  { route with rules := putRule name rule route.rules }

/-- Adds rules in order. -/
def addRules (route : Route) (rules : List (String × Rule)) : Route :=
  rules.foldl (fun route (name, rule) => route.addRule name rule) route

/-- The rule with this name. -/
def rule? (route : Route) (name : String) : Option Rule := route.rules.lookup name

/-! ## Listeners -/

/-- Drops all listeners. -/
def clearListeners (route : Route) : Route :=
  { route with onMatch := route.onMatch.clear, onPass := route.onPass.clear }

/-! ## Matching -/

/-- The values that the matcher captures from a request, if it matches. -/
def params? (route : Route) (request : String) : Option Params := do
  let matcher ← route.matcher
  let values ← matcher.captures? request
  return { request, ids := route.paramIds, values }

/-- Checks the value that belongs to the name of a rule. An optional part that is absent or empty
satisfies every rule. -/
def checkRule (route : Route) (name : String) (rule : Rule) (params : Params) :
    Traced PredicateCall Bool :=
  let value := params.get name
  if value.all (·.isEmpty) && route.optionalParamIds.contains name then pure true
  else rule.check value params

/-- Checks rules in order, up to the first that fails. -/
def checkRules (route : Route) (params : Params) :
    List (String × Rule) → Traced PredicateCall Bool
  | [] => pure true
  | (name, rule) :: rules => do
    if ← route.checkRule name rule params then route.checkRules params rules else pure false

/-- Whether the matcher matches the request and all rules are satisfied. -/
def accepts (route : Route) (request : String) : Traced PredicateCall Bool :=
  match route.params? request with
  | none => pure false
  | some params => route.checkRules params route.rules

/-- The arguments that listeners are given: the values of the request, put in shape by the
normalizer of the route, or else by the one of the router. -/
def arguments (route : Route) (request : String) (fallback : Option Normalizer) :
    Except String (List (Option String)) :=
  match route.params? request with
  | none => .ok []
  | some params =>
    match route.normalizer <|> fallback with
    | some normalize => normalize params
    | none => .ok params.values

/-- The request that these values make. -/
def fill (route : Route) (values : String → Option String) : Except Template.Failure String :=
  match route.pattern with
  | .template text => Template.fill text values
  | .regex re => .error (.notTemplate re.source)

/-! ## Display -/

/-- The route on one line. -/
def shown (route : Route) : String :=
  Text.shownRecord "Route" [
    ("id", Text.shownCase "RouteId" (toString route.id.index)),
    ("pattern", route.pattern.shown),
    ("priority", toString route.priority),
    ("param_ids", Text.shownList (route.paramIds.map Text.quoted)),
    ("optional_param_ids", Text.shownList (route.optionalParamIds.map Text.quoted)),
    ("rules", Text.shownList (route.rules.map fun (name, rule) =>
      "(" ++ Text.quoted name ++ ", " ++ rule.shown ++ ")")),
    ("greedy", Text.shownBool route.greedy),
    ("has_normalizer", Text.shownBool route.normalizer.isSome),
    ("matched", route.onMatch.shown),
    ("passed", route.onPass.shown)]

end Route

end RouteDispatch
