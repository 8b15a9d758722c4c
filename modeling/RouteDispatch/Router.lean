/-
Routers: routes in order of priority, and the listeners for what a request
matches.

A request is first matched against the routes, which changes nothing. If some
match, the routes of the last result are told that they are passed, the new
result is remembered, and then the listeners of each match are called. If none
matches, only the listeners for that case are called, and the last result
stays remembered.
-/
import RouteDispatch.Route
import RouteDispatch.Settings

namespace RouteDispatch

/-- What happened during a dispatch, in the words of the listeners and predicates that were
called. The request may come with extra arguments of any type. -/
inductive Event (α : Type) where
  | predicate (call : PredicateCall)
  /-- A listener of a route heard that the last result is over. -/
  | passed (listener request : String)
  /-- A listener of a route heard of a match. -/
  | matched (listener : String) (extra : List α) (params : List (Option String))
  /-- A listener of the router heard of a match. -/
  | routed (listener : String) (extra : List α) (request : String) (id : RouteId)
      (params : List (Option String)) (isFirst : Bool)
  /-- A listener of the router heard that nothing matched. -/
  | bypassed (listener : String) (extra : List α) (request : String)

/-- A router. -/
structure Router where
  /-- The routes in the order in which they are consulted: higher priorities first, and among
  equal ones the earlier route first. -/
  routes : List Route := []
  /-- The routes of the last result. -/
  previous : List RouteId := []
  /-- The number of the next route. -/
  nextId : Nat := 0
  slashMode : SlashMode := .loose
  normalizer : Option Normalizer := none
  onMatch : Signal := {}
  onDefault : Signal := {}

/-- What may be chosen for a new router. -/
structure RouterOptions where
  normalizer : Option Normalizer := none
  slashMode : Option SlashMode := none

/-- A match: the route, and the arguments for its listeners. -/
structure Match where
  id : RouteId
  arguments : List (Option String)
deriving DecidableEq, Repr

namespace Router

/-- A router without routes. -/
def ofOptions (options : RouterOptions) : Router where
  slashMode := options.slashMode.getD .loose
  normalizer := options.normalizer

/-- A router whose slash mode is taken from the environment. -/
def ofSettings (settings : Settings) : Router :=
  ofOptions { slashMode := some settings.slashMode }

/-- The number of routes. -/
def size (r : Router) : Nat := r.routes.length

/-! ## Routes -/

/-- Puts a route behind those of at least its priority. -/
def place (route : Route) (routes : List Route) : List Route :=
  let ahead := fun (other : Route) => decide (route.priority ≤ other.priority)
  routes.takeWhile ahead ++ route :: routes.dropWhile ahead

/-- Registers a route, and says which number it got. -/
def add (r : Router) (pattern : Pattern) (priority : Int) : RouteId × Router :=
  let id : RouteId := ⟨r.nextId⟩
  let route := Route.ofPattern id pattern priority r.slashMode
  (id, { r with nextId := r.nextId + 1, routes := place route r.routes })

/-- The route with this number. -/
def route? (r : Router) (id : RouteId) : Option Route := r.routes.find? (·.id == id)

/-- Changes the route with this number. -/
def modify (r : Router) (id : RouteId) (change : Route → Route) : Router :=
  { r with routes := r.routes.map fun route => if route.id == id then change route else route }

/-- Takes out the route with this number. -/
def remove (r : Router) (id : RouteId) : Option Route × Router :=
  (r.route? id, { r with routes := r.routes.filter (·.id != id) })

/-- Takes out all routes and forgets the last result. -/
def removeAll (r : Router) : Router := { r with routes := [], previous := [] }

/-- Drops the listeners of the router; those of its routes stay. -/
def clearListeners (r : Router) : Router :=
  { r with onMatch := r.onMatch.clear, onDefault := r.onDefault.clear }

/-! ## Matching -/

/-- The matches among these routes: the first that accepts the request, unless there is a match
already, and all greedy ones behind it that accept it too. -/
def collect (request : String) (fallback : Option Normalizer) :
    (found : Bool) → List Route → Traced PredicateCall (List Match)
  | _, [] => pure []
  | found, route :: routes => do
    let accepted ← if !found || route.greedy then route.accepts request else pure false
    if accepted then
      let arguments ← Traced.ofResult (route.arguments request fallback)
      let others ← collect request fallback true routes
      return ⟨route.id, arguments⟩ :: others
    else collect request fallback found routes

/-- All matches of a request. -/
def matches? (r : Router) (request : String) : Traced PredicateCall (List Match) :=
  collect request r.normalizer false r.routes

/-! ## Notifying -/

variable {α : Type}

/-- Tells a route that it is passed, if it is still there. -/
def notifyPassed (request : String) (id : RouteId) (r : Router) : Delivery (Event α) Router :=
  match r.route? id with
  | none => .done r
  | some route =>
    (route.onPass.dispatch (Event.passed · request)).within fun onPass =>
      r.modify id fun route => { route with onPass }

/-- Tells a route and then the router of a match. -/
def notifyMatched (extra : List α) (request : String) (m : Match × Bool) (r : Router) :
    Delivery (Event α) Router :=
  let (⟨id, arguments⟩, isFirst) := m
  let ofRoute : Delivery (Event α) Router :=
    match r.route? id with
    | none => .done r
    | some route =>
      (route.onMatch.dispatch (Event.matched · extra arguments)).within fun onMatch =>
        r.modify id fun route => { route with onMatch }
  ofRoute.andThen fun r =>
    (r.onMatch.dispatch (Event.routed · extra request id arguments isFirst)).within fun onMatch =>
      { r with onMatch }

/-- Tells the router that nothing matched. -/
def notifyBypassed (extra : List α) (request : String) (r : Router) : Delivery (Event α) Router :=
  (r.onDefault.dispatch (Event.bypassed · extra request)).within fun onDefault =>
    { r with onDefault }

/-- The matches, each with a sign whether it is the first. -/
def markFirst : List Match → List (Match × Bool)
  | [] => []
  | m :: ms => (m, true) :: ms.map (·, false)

/-- Dispatches a request with extra arguments. -/
def parse (r : Router) (request : String) (extra : List α) : Delivery (Event α) Router :=
  let found := r.matches? request
  let delivery : Delivery (Event α) Router :=
    match found.result with
    | .error failure => ⟨r, [], some failure⟩
    | .ok [] => notifyBypassed extra request r
    | .ok ms =>
      (Delivery.forEach (notifyPassed request) r.previous r).andThen fun r =>
        Delivery.forEach (notifyMatched extra request) (markFirst ms)
          { r with previous := ms.map (·.id) }
  delivery.after (found.calls.map .predicate)

/-! ## Display -/

/-- A slash mode as it is shown in a record. -/
def shownMode (mode : SlashMode) : String :=
  Text.shownRecord "Lexer" [("slash_mode", match mode with
    | .loose => "Loose"
    | .strict => "Strict"
    | .legacy => "Legacy")]

/-- The router on one line, its routes in ascending order. -/
def shown (r : Router) : String :=
  Text.shownRecord "Router" [
    ("routes", Text.shownList (r.routes.reverse.map Route.shown)),
    ("prev_routes", Text.shownList (r.previous.map fun id =>
      Text.shownCase "RouteId" (toString id.index))),
    ("lexer", shownMode r.slashMode),
    ("has_normalize_fn", Text.shownBool r.normalizer.isSome),
    ("routed", r.onMatch.shown),
    ("bypassed", r.onDefault.shown)]

end Router

/-- The options on one line. -/
def RouterOptions.shown (options : RouterOptions) : String :=
  Text.shownRecord "RouterOptions" [
    ("normalize_fn", Text.shownBool options.normalizer.isSome),
    ("lexer", match options.slashMode with
      | none => "None"
      | some mode => Text.shownCase "Some" (Router.shownMode mode))]

end RouteDispatch
