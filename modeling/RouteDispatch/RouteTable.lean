/-
Tables of routes, and what it takes to put one into a router.

All rules of a table are compiled before the first route is registered, so a
table is applied as a whole or not at all. Which expressions there are is not
decided here: the engine that compiles them is handed in.
-/
import RouteDispatch.Router

namespace RouteDispatch

/-- A rule as a table gives it. -/
inductive RuleSource where
  | oneOf (allowed : List String)
  | pattern (source : String)
deriving DecidableEq, Repr

/-- The rules stand in the order of their names, and no name comes twice. -/
abbrev InOrder (rules : List (String × RuleSource)) : Prop :=
  rules.Pairwise fun a b => a.1 < b.1

/-- A route as a table gives it. -/
structure RouteEntry where
  pattern : String
  priority : Int := 0
  greedy : Bool := false
  rules : List (String × RuleSource) := []
  inOrder : InOrder rules := by decide
deriving DecidableEq, Repr

/-- A table of routes. -/
structure RouteTable where
  /-- The slash mode, if the table has a section for it. -/
  lexer : Option SlashMode := none
  routes : List RouteEntry := []
deriving DecidableEq, Repr

/-- Why a table is not applied: the first rule that does not compile. -/
structure InvalidRule where
  name : String
  pattern : String
deriving DecidableEq, Repr

/-- The failure in words. -/
def InvalidRule.message (e : InvalidRule) : String :=
  s!"Invalid rule '{e.name}' on route '{e.pattern}'"

/-- The rule, compiled. -/
def RuleSource.compile (engine : Regex.Engine) : RuleSource → Except Regex.Rejection Rule
  | oneOf allowed => .ok (.oneOf allowed)
  | pattern source => Rule.ofSource source engine

/-- The rules of an entry, compiled in order. -/
def RouteEntry.compileRules (engine : Regex.Engine) (entry : RouteEntry) :
    Except InvalidRule (List (String × Rule)) :=
  entry.rules.mapM fun (name, source) =>
    match source.compile engine with
    | .ok rule => .ok (name, rule)
    | .error _ => .error ⟨name, entry.pattern⟩

/-- Registers an entry with its compiled rules. -/
def RouteEntry.register (entry : RouteEntry) (rules : List (String × Rule)) (r : Router) :
    RouteId × Router :=
  let (id, r) := r.add (.template entry.pattern) entry.priority
  (id, r.modify id fun route => { route with greedy := entry.greedy }.addRules rules)

namespace RouteTable

/-- The slash mode the table was written for. -/
def slashMode (t : RouteTable) : SlashMode := t.lexer.getD .loose

/-- Registers entries in order, and gives their numbers. -/
def registerAll : List (RouteEntry × List (String × Rule)) → Router → List RouteId × Router
  | [], r => ([], r)
  | (entry, rules) :: entries, r =>
    let (id, r) := entry.register rules r
    let (ids, r) := registerAll entries r
    (id :: ids, r)

/-- Registers all entries of the table on a router, unless one of their rules does not compile. -/
def apply (t : RouteTable) (r : Router) (engine : Regex.Engine := Regex.compile) :
    Except InvalidRule (List RouteId × Router) := do
  let compiled ← t.routes.mapM fun entry => do return (entry, ← entry.compileRules engine)
  return registerAll compiled r

/-- A router with the slash mode and the entries of the table. -/
def build (t : RouteTable) (engine : Regex.Engine := Regex.compile) :
    Except InvalidRule Router :=
  (t.apply (.ofOptions { slashMode := some t.slashMode }) engine).map (·.2)

end RouteTable

end RouteDispatch
