/-
# A parse without failures

What a parse does when nothing that it calls fails, said without its two phases
and without the calls they are made of: which routes answer a request
(`answering`), what is then heard and in which order (`notifications`), and the
router that is left (`settled`).

`answering` walks the routes once, in consult order: the first that fits the
request, and every later greedy one that fits it as well.  Whether a route fits
(`Route.fits`) is a plain conjunction over its rules.  The main statement is an
equation between the parse and this description, for every router that can be
reached.
-/
import RouteDispatch.Proofs.Router.Run

namespace RouteDispatch

/-! ## The description -/

/-- The value is what the rule asks for. -/
def Rule.admits (rule : Rule) (value : Option String) (params : Params) : Bool :=
  match rule with
  | .pattern regex => value.any regex.isMatch
  | .oneOf allowed => value.any allowed.contains
  | .predicate p => (p.test value params).toOption == some true

namespace Route

/-- The rule concerns an optional part that is absent or empty, or it admits the value. -/
def satisfies (route : Route) (params : Params) (named : String × Rule) : Bool :=
  ((params.get named.1).all (·.isEmpty) && route.optionalParamIds.contains named.1) ||
    named.2.admits (params.get named.1) params

/-- The matcher matches the request, and all rules are satisfied. -/
def fits (route : Route) (request : String) : Bool :=
  match route.params? request with
  | none => false
  | some params => route.rules.all (route.satisfies params)

/-- The arguments for the listeners of the route. -/
def given (route : Route) (request : String) (fallback : Option Normalizer) :
    List (Option String) :=
  (route.arguments request fallback).toOption.getD []

/-- The route once its listeners heard that it is passed. -/
def spendPass (route : Route) : Route := route.putPass route.onPass.spent

/-- The route once its listeners heard of a match. -/
def spendMatch (route : Route) : Route := route.putMatch route.onMatch.spent

theorem spendPass_id (route : Route) : route.spendPass.id = route.id := rfl

theorem spendMatch_id (route : Route) : route.spendMatch.id = route.id := rfl

end Route

/-- No call to one of these listeners ever fails. -/
def Signal.Quiet (s : Signal) : Prop := ∀ l ∈ s.listeners, ∀ n, l.fails n = none

/-- The signal after this many dispatches.  A single one is enough to spend the listeners that are
called once. -/
def Signal.spentBy (s : Signal) : Nat → Signal
  | 0 => s
  | n + 1 => ⟨(s.listeners.filter (! ·.once)).map fun l => { l with calls := l.calls + (n + 1) }⟩

theorem Signal.Quiet.due {s : Signal} (h : s.Quiet) {ε : Type} (event : String → ε) :
    Call.Quiet (s.due event) := by
  intro c hc
  obtain ⟨l, hl, rfl⟩ := List.mem_map.mp hc
  exact h l hl l.calls

theorem Signal.Quiet.spent {s : Signal} (h : s.Quiet) : s.spent.Quiet := by
  intro l hl
  obtain ⟨old, hold, rfl⟩ := List.mem_map.mp hl
  exact h old (List.mem_filter.mp hold).1

namespace Router

variable {α : Type}

/-- Of routes in consult order, the first that fits the request, and all greedy ones behind it
that fit it. -/
def answering (request : String) (routes : List Route) : List Route :=
  match routes.dropWhile fun route => ! route.fits request with
  | [] => []
  | first :: later => first :: later.filter fun route => route.greedy && route.fits request

/-- What is heard of one answer: first by the listeners of the route, then by those of the router.
Of the latter, those that are called once hear of the first answer only. -/
def heard (r : Router) (request : String) (extra : List α) (isFirst : Bool) (route : Route) :
    List (Event α) :=
  let arguments := route.given request r.normalizer
  (route.onMatch.listeners.map fun l => .matched l.name extra arguments) ++
    (r.onMatch.listeners.filter fun l => isFirst || ! l.once).map fun l =>
      .routed l.name extra request route.id arguments isFirst

/-- What is heard when these routes answer a request: by default listeners if there are none, and
else by the pass listeners of the last result as far as it is still there, and then of every
answer. -/
def notifications (r : Router) (request : String) (extra : List α) : List Route → List (Event α)
  | [] => r.onDefault.listeners.map fun l => .bypassed l.name extra request
  | first :: later =>
    ((r.previous.filterMap r.route?).flatMap fun route =>
      route.onPass.listeners.map fun l => .passed l.name request) ++
    (r.heard request extra true first ++ later.flatMap (r.heard request extra false))

/-- The router once these routes have changed in this way. -/
def modifyAll (r : Router) (ids : List RouteId) (change : Route → Route) : Router :=
  { r with routes := r.routes.map fun route => if route.id ∈ ids then change route else route }

/-- The router that is left once these routes have answered a request. -/
def settled (r : Router) (answers : List Route) : Router :=
  if answers = [] then { r with onDefault := r.onDefault.spent }
  else
    let ids := answers.map (·.id)
    { (r.modifyAll r.previous Route.spendPass).modifyAll ids Route.spendMatch with
      previous := ids
      onMatch := r.onMatch.spentBy answers.length }

/-- Nothing that a user supplied to the router fails, however it is called. -/
structure Untroubled (r : Router) : Prop where
  predicates : ∀ route ∈ r.routes, ∀ name p, (name, Rule.predicate p) ∈ route.rules →
    ∀ value params, ∃ answer, p.test value params = .ok answer
  normalizers : ∀ route ∈ r.routes, ∀ normalize, route.normalizer = some normalize →
    ∀ params, ∃ arguments, normalize params = .ok arguments
  fallback : ∀ normalize, r.normalizer = some normalize →
    ∀ params, ∃ arguments, normalize params = .ok arguments
  routeListeners : ∀ route ∈ r.routes, route.onMatch.Quiet ∧ route.onPass.Quiet
  listeners : r.onMatch.Quiet ∧ r.onDefault.Quiet

/-! ## Which routes answer -/

theorem check_result {rule : Rule} {value : Option String} {params : Params} {answer : Bool}
    (h : (rule.check value params).result = .ok answer) : answer = rule.admits value params := by
  cases rule with
  | pattern regex => exact (Except.ok.inj h).symm
  | oneOf allowed => exact (Except.ok.inj h).symm
  | predicate p =>
    have htest : p.test value params = .ok answer := h
    cases answer <;> simp [Rule.admits, htest, Except.toOption]

theorem checkRule_result {route : Route} {named : String × Rule} {params : Params}
    {answer : Bool} (h : (route.checkRule named.1 named.2 params).result = .ok answer) :
    answer = route.satisfies params named := by
  rw [Route.checkRule] at h
  rw [Route.satisfies]
  split at h
  · next hopt =>
    cases h
    rw [hopt, Bool.true_or]
  · next hopt =>
    rw [check_result h, eq_false_of_ne_true hopt, Bool.false_or]

theorem checkRules_result {route : Route} {params : Params} {rules : List (String × Rule)}
    {answer : Bool} (h : (route.checkRules params rules).result = .ok answer) :
    answer = rules.all (route.satisfies params) := by
  induction rules with
  | nil => exact (Except.ok.inj h).symm
  | cons named rules ih =>
    rw [Route.checkRules] at h
    obtain ⟨first, hfirst, hrest⟩ := Traced.bind_ok h
    rw [List.all_cons, ← checkRule_result hfirst]
    cases first with
    | true => exact ih hrest
    | false => exact (Except.ok.inj hrest).symm

theorem accepts_result {route : Route} {request : String} {answer : Bool}
    (h : (route.accepts request).result = .ok answer) : answer = route.fits request := by
  rw [Route.accepts] at h
  rw [Route.fits]
  cases hparams : route.params? request with
  | none =>
    rw [hparams] at h
    exact (Except.ok.inj h).symm
  | some params =>
    rw [hparams] at h
    exact checkRules_result h

/-- The match that a route makes of a request. -/
def matchOf (request : String) (fallback : Option Normalizer) (route : Route) : Match :=
  ⟨route.id, route.given request fallback⟩

/-- The search for matches, in the midst of it.  With a match found, only greedy routes are left
to add to it. -/
theorem collect_result {request : String} {fallback : Option Normalizer} {found : Bool}
    {routes : List Route} {ms : List Match}
    (h : (collect request fallback found routes).result = .ok ms) :
    ms = (if found then routes.filter fun route => route.greedy && route.fits request
      else answering request routes).map (matchOf request fallback) := by
  induction routes generalizing found ms with
  | nil =>
    cases h
    cases found <;> rfl
  | cons route routes ih =>
    rw [collect_cons] at h
    obtain ⟨accepted, hasked, h⟩ := Traced.bind_ok h
    have hfits : accepted = ((!found || route.greedy) && route.fits request) := by
      split at hasked
      · next hask => rw [accepts_result hasked, hask, Bool.true_and]
      · next hask =>
        cases hasked
        rw [eq_false_of_ne_true hask, Bool.false_and]
    cases accepted with
    | true =>
      obtain ⟨arguments, hgiven, h⟩ := Traced.bind_ok h
      obtain ⟨others, hothers, h⟩ := Traced.bind_ok h
      have hmatch : (⟨route.id, arguments⟩ : Match) = matchOf request fallback route := by
        have harguments : route.arguments request fallback = .ok arguments := hgiven
        rw [matchOf, Route.given, harguments]
        rfl
      cases h
      rw [ih hothers, hmatch]
      cases found with
      | true =>
        have hpick : (route.greedy && route.fits request) = true := by simpa using hfits.symm
        simp [hpick]
      | false =>
        have hpick : route.fits request = true := by simpa using hfits.symm
        simp [answering, hpick]
    | false =>
      have hrest := ih h
      cases found with
      | true =>
        have hpick : (route.greedy && route.fits request) = false := by simpa using hfits.symm
        simpa [hpick] using hrest
      | false =>
        have hpick : route.fits request = false := by simpa using hfits.symm
        simpa [answering, hpick] using hrest

theorem matches?_result {r : Router} {request : String} {ms : List Match}
    (h : (r.matches? request).result = .ok ms) :
    ms = (answering request r.routes).map (matchOf request r.normalizer) :=
  collect_result h

/-! ### Nothing stands in the way -/

theorem check_answers {rule : Rule} {value : Option String} {params : Params}
    (h : ∀ p, rule = .predicate p → ∃ answer, p.test value params = .ok answer) :
    (rule.check value params).Answers := by
  cases rule with
  | pattern regex => exact ⟨_, rfl⟩
  | oneOf allowed => exact ⟨_, rfl⟩
  | predicate p => exact h p rfl

theorem checkRules_answers {route : Route} {params : Params} {rules : List (String × Rule)}
    (h : ∀ name p, (name, Rule.predicate p) ∈ rules →
      ∀ value params, ∃ answer, p.test value params = .ok answer) :
    (route.checkRules params rules).Answers := by
  induction rules with
  | nil => exact ⟨true, rfl⟩
  | cons named rules ih =>
    have hfirst : (route.checkRule named.1 named.2 params).Answers := by
      rw [Route.checkRule]
      split
      · exact ⟨true, rfl⟩
      · refine check_answers ?_
        intro p hp
        have hmem : (named.1, Rule.predicate p) ∈ named :: rules := hp ▸ List.mem_cons_self
        exact h named.1 p hmem _ params
    refine hfirst.bind ?_
    intro first
    split
    · exact ih fun name p hmem => h name p (List.mem_cons_of_mem _ hmem)
    · exact ⟨false, rfl⟩

theorem Untroubled.accepts {r : Router} (hq : r.Untroubled) {route : Route}
    (hroute : route ∈ r.routes) (request : String) : (route.accepts request).Answers := by
  rw [Route.accepts]
  cases route.params? request with
  | none => exact ⟨false, rfl⟩
  | some params => exact checkRules_answers (hq.predicates route hroute)

theorem Untroubled.arguments {r : Router} (hq : r.Untroubled) {route : Route}
    (hroute : route ∈ r.routes) (request : String) :
    ∃ arguments, route.arguments request r.normalizer = .ok arguments := by
  rw [Route.arguments]
  cases route.params? request with
  | none => exact ⟨[], rfl⟩
  | some params =>
    cases hown : route.normalizer with
    | some own => exact hq.normalizers route hroute own hown params
    | none =>
      cases hfallback : r.normalizer with
      | some normalize => exact hq.fallback normalize hfallback params
      | none => exact ⟨params.values, rfl⟩

theorem collect_answers {request : String} {fallback : Option Normalizer} {routes : List Route}
    (haccepts : ∀ route ∈ routes, (route.accepts request).Answers)
    (harguments : ∀ route ∈ routes, ∃ arguments, route.arguments request fallback = .ok arguments)
    (found : Bool) : (collect request fallback found routes).Answers := by
  induction routes generalizing found with
  | nil => exact ⟨[], rfl⟩
  | cons route routes ih =>
    have hrest := ih (fun other hother => haccepts other (List.mem_cons_of_mem _ hother))
      (fun other hother => harguments other (List.mem_cons_of_mem _ hother))
    have hasked : (if !found || route.greedy then route.accepts request
        else pure false).Answers := by
      split
      · exact haccepts route List.mem_cons_self
      · exact ⟨false, rfl⟩
    rw [collect_cons]
    refine hasked.bind ?_
    intro accepted
    cases accepted with
    | false => exact hrest found
    | true =>
      have hgiven : (Traced.ofResult (ε := PredicateCall)
          (route.arguments request fallback)).Answers := harguments route List.mem_cons_self
      exact hgiven.bind fun arguments => (hrest true).bind fun others => ⟨_, rfl⟩

theorem Untroubled.matches? {r : Router} (hq : r.Untroubled) (request : String) :
    (r.matches? request).Answers :=
  collect_answers (fun _ hroute => hq.accepts hroute request)
    (fun _ hroute => hq.arguments hroute request) false

theorem Untroubled.passDue {r : Router} (hq : r.Untroubled) (request : String) :
    Call.Quiet (r.passDue (α := α) request) := by
  intro c hc
  obtain ⟨id, -, hc⟩ := List.mem_flatMap.mp hc
  rw [passDueOf] at hc
  cases hroute : r.route? id with
  | none =>
    rw [hroute] at hc
    exact absurd hc List.not_mem_nil
  | some route =>
    rw [hroute] at hc
    exact (hq.routeListeners route (route?_mem hroute).1).2.due _ c hc

theorem Untroubled.matchDue {r : Router} (hq : r.Untroubled) (extra : List α) (request : String)
    {s : Signal} (hs : s.Quiet) (ms : List (Match × Bool)) :
    Call.Quiet (r.matchDue extra request s ms) := by
  induction ms generalizing s with
  | nil => exact fun c hc => absurd hc List.not_mem_nil
  | cons first ms ih =>
    obtain ⟨m, isFirst⟩ := first
    intro c hc
    rw [Router.matchDue, List.mem_append, List.mem_append] at hc
    rcases hc with hc | hc | hc
    · rw [matchDueOf] at hc
      cases hroute : r.route? m.id with
      | none =>
        rw [hroute] at hc
        exact absurd hc List.not_mem_nil
      | some route =>
        rw [hroute] at hc
        exact (hq.routeListeners route (route?_mem hroute).1).1.due _ c hc
    · exact hs.due _ c hc
    · exact ih hs.spent c hc

/-- With users that never fail, no parse fails. -/
theorem Untroubled.parse {r : Router} (hq : r.Untroubled) (hr : r.Sound) (request : String)
    (extra : List α) : (r.parse request extra).failure = none := by
  obtain ⟨ms, hms⟩ := hq.matches? request
  rcases ms with _ | ⟨m, ms⟩
  · rw [parse_of_no_match hms]
    have hmakes := Signal.makes_dispatch (Event.bypassed · extra request) r.onDefault
    exact hmakes.failure_eq_none_iff.mpr (hq.listeners.2.due _)
  · rw [parse_of_matches hms (List.cons_ne_nil m ms)]
    refine (makes_phases hr hms extra).failure_eq_none_iff.mpr ?_
    intro c hc
    rcases List.mem_append.mp hc with hc | hc
    · exact hq.passDue request c hc
    · exact hq.matchDue extra request hq.listeners.1 _ c hc

/-! ## What is heard -/

theorem mem_answering {request : String} {routes : List Route} {route : Route}
    (h : route ∈ answering request routes) : route ∈ routes := by
  rw [answering] at h
  have hsub := List.dropWhile_sublist (fun route : Route => ! route.fits request) (l := routes)
  cases hdrop : routes.dropWhile fun route => ! route.fits request with
  | nil =>
    rw [hdrop] at h
    exact absurd h List.not_mem_nil
  | cons first later =>
    rw [hdrop] at h hsub
    exact hsub.mem ((List.filter_sublist.cons_cons first).mem h)

theorem events_due (event : String → Event α) (s : Signal) :
    (s.due event).map (·.event) = s.listeners.map fun l => event l.name := by
  rw [Signal.due, List.map_map]
  rfl

theorem events_passDue (r : Router) (request : String) :
    (r.passDue (α := α) request).map (·.event) =
      (r.previous.filterMap r.route?).flatMap fun route =>
        route.onPass.listeners.map fun l => .passed l.name request := by
  rw [passDue, List.map_flatMap]
  induction r.previous with
  | nil => rfl
  | cons id ids ih =>
    rw [List.flatMap_cons, ih, List.filterMap_cons, passDueOf]
    cases r.route? id with
    | none => rfl
    | some route => rw [List.flatMap_cons, events_due]

theorem events_matchDueOf {r : Router} (hr : (r.routes.map (·.id)).Nodup) (extra : List α)
    (request : String) {route : Route} (hroute : route ∈ r.routes) :
    (r.matchDueOf extra (matchOf request r.normalizer route)).map (·.event) =
      route.onMatch.listeners.map fun l =>
        .matched l.name extra (route.given request r.normalizer) := by
  rw [matchDueOf, matchOf, route?_eq_some_of_mem hr hroute]
  exact events_due _ _

/-- Behind the first answer only those listeners of the router are left that are called more than
once, however many answers there have been. -/
theorem events_matchDue_spent {r : Router} (hr : (r.routes.map (·.id)).Nodup) (extra : List α)
    (request : String) (s : Signal) {routes : List Route}
    (hs : s.spent.listeners.map (·.name) = (r.onMatch.listeners.filter (! ·.once)).map (·.name))
    (hroutes : ∀ route ∈ routes, route ∈ r.routes) :
    (r.matchDue extra request s.spent
        (routes.map fun route => (matchOf request r.normalizer route, false))).map (·.event) =
      routes.flatMap (r.heard request extra false) := by
  induction routes generalizing s with
  | nil => rfl
  | cons route routes ih =>
    have htwice : s.spent.listeners.filter (! ·.once) = s.spent.listeners := by
      refine List.filter_eq_self.mpr ?_
      intro l hl
      obtain ⟨old, hold, rfl⟩ := List.mem_map.mp hl
      exact (List.mem_filter.mp hold).2
    have hnext : s.spent.spent.listeners.map (·.name) = s.spent.listeners.map (·.name) := by
      rw [Signal.spent, htwice, List.map_map]
      rfl
    have hrouter : s.spent.listeners.map (fun l => Event.routed l.name extra request route.id
          (route.given request r.normalizer) false) =
        (r.onMatch.listeners.filter (! ·.once)).map fun l => Event.routed l.name extra request
          route.id (route.given request r.normalizer) false := by
      have h := congrArg (List.map fun name => Event.routed name extra request route.id
        (route.given request r.normalizer) false) hs
      rwa [List.map_map, List.map_map] at h
    rw [List.map_cons, matchDue, List.map_append, List.map_append,
      ih s.spent (hnext.trans hs) fun route hroute => hroutes route (List.mem_cons_of_mem _ hroute),
      events_matchDueOf hr extra request (hroutes route List.mem_cons_self), events_due,
      List.flatMap_cons, ← List.append_assoc]
    simp only [matchOf]
    rw [hrouter]
    rfl

theorem events_matchDue {r : Router} (hr : (r.routes.map (·.id)).Nodup) (extra : List α)
    (request : String) {first : Route} {later : List Route}
    (hroutes : ∀ route ∈ first :: later, route ∈ r.routes) :
    (r.matchDue extra request r.onMatch
        (markFirst ((first :: later).map (matchOf request r.normalizer)))).map (·.event) =
      r.heard request extra true first ++ later.flatMap (r.heard request extra false) := by
  have hlater := events_matchDue_spent hr extra request r.onMatch
    (by rw [Signal.spent, List.map_map]; rfl)
    fun route hroute => hroutes route (List.mem_cons_of_mem _ hroute)
  have hall : (r.onMatch.listeners.filter fun l => true || ! l.once) = r.onMatch.listeners :=
    List.filter_eq_self.mpr fun _ _ => rfl
  rw [List.map_cons, markFirst, List.map_map, matchDue, List.map_append, List.map_append,
    Function.comp_def, hlater, events_matchDueOf hr extra request (hroutes first List.mem_cons_self),
    events_due, heard, hall, List.append_assoc]
  rfl

/-! ## What is left -/

theorem spentBy_succ (s : Signal) (n : Nat) : s.spent.spentBy n = s.spentBy (n + 1) := by
  cases n with
  | zero => rfl
  | succ n =>
    have hkept : (s.spent.listeners.filter (! ·.once)) = s.spent.listeners := by
      refine List.filter_eq_self.mpr ?_
      intro l hl
      obtain ⟨old, hold, rfl⟩ := List.mem_map.mp hl
      exact (List.mem_filter.mp hold).2
    rw [Signal.spentBy, hkept, Signal.spent, List.map_map, Signal.spentBy]
    congr 1
    refine List.map_congr_left ?_
    intro l _
    simp only [Function.comp, Listener.called]
    congr 1
    omega

/-- A route that is not there cannot change. -/
theorem modify_of_none {r : Router} {id : RouteId} (h : r.route? id = none)
    (change : Route → Route) : r.modify id change = r := by
  have hsame : (r.routes.map fun route => if route.id == id then change route else route) =
      r.routes := by
    refine (List.map_congr_left fun route hroute => ?_).trans (List.map_id _)
    have hne := List.find?_eq_none.mp h route hroute
    rw [eq_false_of_ne_true hne]
    rfl
  rw [modify, hsame]

/-- Only what becomes of the one route matters. -/
theorem modify_congr {r : Router} (hr : (r.routes.map (·.id)).Nodup) {id : RouteId} {route : Route}
    (h : r.route? id = some route) {change change' : Route → Route}
    (heq : change route = change' route) : r.modify id change = r.modify id change' := by
  rw [modify, modify]
  congr 1
  refine List.map_congr_left ?_
  intro other hother
  split
  · next hid =>
    have hfound := route?_eq_some_of_mem hr hother
    rw [beq_iff_eq.mp hid, h] at hfound
    cases hfound
    exact heq
  · rfl

theorem modifyAll_nil (r : Router) (change : Route → Route) : r.modifyAll [] change = r := by
  have hsame : (r.routes.map fun route => if route.id ∈ ([] : List RouteId) then change route
      else route) = r.routes :=
    (List.map_congr_left fun route _ => if_neg List.not_mem_nil).trans (List.map_id _)
  rw [modifyAll, hsame]

/-- One route after the other, each of them once. -/
theorem modifyAll_modify {change : Route → Route} (hid : ∀ route, (change route).id = route.id)
    {id : RouteId} {ids : List RouteId} (h : id ∉ ids) (r : Router) :
    (r.modify id change).modifyAll ids change = r.modifyAll (id :: ids) change := by
  simp only [modifyAll, modify, List.map_map]
  congr 1
  refine List.map_congr_left ?_
  intro route _
  simp only [Function.comp]
  by_cases heq : route.id = id
  · simp [heq, hid, h]
  · simp [heq]

theorem notifyPassed_state {r : Router} (hr : (r.routes.map (·.id)).Nodup) {request : String}
    {id : RouteId} (h : (notifyPassed (α := α) request id r).failure = none) :
    (notifyPassed (α := α) request id r).state = r.modify id Route.spendPass := by
  rw [notifyPassed_eq] at h ⊢
  cases hroute : r.route? id with
  | none => exact (modify_of_none hroute _).symm
  | some route =>
    rw [hroute] at h
    have hspent := Signal.dispatch_state_of_quiet (Event.passed (α := α) · request)
      (s := route.onPass) h
    refine modify_congr hr hroute ?_
    rw [hspent]
    rfl

theorem forEach_notifyPassed_state {ids : List RouteId} {r : Router}
    (hr : (r.routes.map (·.id)).Nodup) (hids : ids.Nodup) {request : String}
    (h : (Delivery.forEach (notifyPassed (α := α) request) ids r).failure = none) :
    (Delivery.forEach (notifyPassed (α := α) request) ids r).state =
      r.modifyAll ids Route.spendPass := by
  induction ids generalizing r with
  | nil => exact (modifyAll_nil r _).symm
  | cons id ids ih =>
    obtain ⟨hid, hrest⟩ := List.nodup_cons.mp hids
    rw [Delivery.forEach] at h ⊢
    obtain ⟨hfirst, hlater⟩ := Delivery.andThen_failure_eq_none h
    rw [Delivery.andThen_state_of_quiet _ hfirst]
    rw [notifyPassed_state hr hfirst] at hlater ⊢
    rw [ih (ids_modify Route.spendPass Route.spendPass_id r id ▸ hr) hrest hlater,
      modifyAll_modify Route.spendPass_id hid]

theorem notifyMatched_state {r : Router} (hr : (r.routes.map (·.id)).Nodup) {extra : List α}
    {request : String} {m : Match} {isFirst : Bool}
    (h : (notifyMatched extra request (m, isFirst) r).failure = none) :
    (notifyMatched extra request (m, isFirst) r).state =
      { r.modify m.id Route.spendMatch with onMatch := r.onMatch.spent } := by
  rw [notifyMatched_eq] at h ⊢
  obtain ⟨hroute, hrouter⟩ := Delivery.andThen_failure_eq_none h
  have hstate : (notifyRoute extra m r).state = r.modify m.id Route.spendMatch := by
    rw [notifyRoute] at hroute ⊢
    cases hm : r.route? m.id with
    | none => exact (modify_of_none hm _).symm
    | some route =>
      rw [hm] at hroute
      have hspent := Signal.dispatch_state_of_quiet (Event.matched · extra m.arguments)
        (s := route.onMatch) hroute
      refine modify_congr hr hm ?_
      rw [hspent]
      rfl
  rw [Delivery.andThen_state_of_quiet _ hroute]
  rw [hstate] at hrouter ⊢
  have hspent := Signal.dispatch_state_of_quiet
    (Event.routed · extra request m.id m.arguments isFirst)
    (s := (r.modify m.id Route.spendMatch).onMatch) hrouter
  rw [notifyRouter]
  exact congrArg (fun onMatch => { r.modify m.id Route.spendMatch with onMatch }) hspent

theorem forEach_notifyMatched_state {ms : List (Match × Bool)} {r : Router}
    (hr : (r.routes.map (·.id)).Nodup) (hms : (ms.map (·.1.id)).Nodup) {extra : List α}
    {request : String}
    (h : (Delivery.forEach (notifyMatched extra request) ms r).failure = none) :
    (Delivery.forEach (notifyMatched extra request) ms r).state =
      { r.modifyAll (ms.map (·.1.id)) Route.spendMatch with
        onMatch := r.onMatch.spentBy ms.length } := by
  induction ms generalizing r with
  | nil =>
    rw [List.map_nil, modifyAll_nil]
    rfl
  | cons first ms ih =>
    obtain ⟨m, isFirst⟩ := first
    obtain ⟨hm, hrest⟩ := List.nodup_cons.mp hms
    rw [Delivery.forEach] at h ⊢
    obtain ⟨hfirst, hlater⟩ := Delivery.andThen_failure_eq_none h
    rw [Delivery.andThen_state_of_quiet _ hfirst]
    rw [notifyMatched_state hr hfirst] at hlater ⊢
    have hids := ids_modify Route.spendMatch Route.spendMatch_id r m.id
    have hfold := modifyAll_modify Route.spendMatch_id hm r
    rw [ih (hids ▸ hr) hrest hlater, List.map_cons, ← hfold, List.length_cons, ← spentBy_succ]
    rfl

/-! ## The whole parse -/

theorem parse_state {r : Router} (hr : r.Sound) {request : String} {ms : List Match}
    (h : (r.matches? request).result = .ok ms) (hne : ms ≠ []) {extra : List α}
    (hf : (r.parse request extra).failure = none) :
    (r.parse request extra).state =
      { (r.modifyAll r.previous Route.spendPass).modifyAll (ms.map (·.id)) Route.spendMatch with
        previous := ms.map (·.id)
        onMatch := r.onMatch.spentBy ms.length } := by
  rw [parse_of_matches h hne] at hf ⊢
  obtain ⟨hpass, hmatch⟩ := Delivery.andThen_failure_eq_none hf
  have hpassed := forEach_notifyPassed_state hr.ids_nodup hr.previous_nodup hpass
  change (Delivery.andThen _ _).state = _
  rw [Delivery.andThen_state_of_quiet _ hpass]
  rw [passPhase, hpassed] at hmatch ⊢
  have hids : ((r.modifyAll r.previous Route.spendPass).routes.map (·.id)).Nodup := by
    have hkeep : (r.modifyAll r.previous Route.spendPass).routes.map (·.id) =
        r.routes.map (·.id) := by
      simp only [modifyAll, List.map_map]
      refine List.map_congr_left ?_
      intro route _
      simp only [Function.comp]
      split <;> rfl
    exact hkeep ▸ hr.ids_nodup
  have hmarked : (markFirst ms).map (·.1.id) = ms.map (·.id) := by
    have hfst := congrArg (List.map (·.id)) (map_fst_markFirst ms)
    rwa [List.map_map] at hfst
  have hlength : (markFirst ms).length = ms.length := by
    have hfst := congrArg List.length (map_fst_markFirst ms)
    rwa [List.length_map] at hfst
  have hmatched := forEach_notifyMatched_state
    (r := { r.modifyAll r.previous Route.spendPass with previous := ms.map (·.id) })
    hids (hmarked ▸ matches?_nodup hr h) hmatch
  rw [matchPhase, hmatched, hmarked, hlength]
  rfl

/-- A parse without failures has a result. -/
theorem matches?_ok_of_parse {r : Router} {request : String} {extra : List α}
    (h : (r.parse request extra).failure = none) : ∃ ms, (r.matches? request).result = .ok ms := by
  cases hms : (r.matches? request).result with
  | ok ms => exact ⟨ms, rfl⟩
  | error reason =>
    rw [parse_of_failure hms] at h
    cases h

theorem parse_unanswered {r : Router} {request : String} (extra : List α)
    (h : (r.matches? request).result = .ok []) (hf : (r.parse request extra).failure = none) :
    (r.parse request extra).events =
        (r.matches? request).calls.map .predicate ++ r.notifications request extra [] ∧
      (r.parse request extra).state = r.settled [] := by
  rw [parse_of_no_match h extra] at hf ⊢
  have hdispatch : (r.onDefault.dispatch (Event.bypassed · extra request)).failure = none := hf
  have hmakes := Signal.makes_dispatch (Event.bypassed · extra request) r.onDefault
  constructor
  · have hevents := hmakes.events_of_quiet (hmakes.failure_eq_none_iff.mp hdispatch)
    rw [events_due] at hevents
    rw [notifications, ← hevents]
    rfl
  · have hspent := Signal.dispatch_state_of_quiet _ hdispatch
    rw [settled, if_pos rfl, ← hspent]
    rfl

theorem parse_answered {r : Router} (hr : r.Sound) {request : String} (extra : List α)
    {first : Route} {later : List Route} (hanswers : answering request r.routes = first :: later)
    (h : (r.matches? request).result = .ok ((first :: later).map (matchOf request r.normalizer)))
    (hf : (r.parse request extra).failure = none) :
    (r.parse request extra).events =
        (r.matches? request).calls.map .predicate ++
          r.notifications request extra (first :: later) ∧
      (r.parse request extra).state = r.settled (first :: later) := by
  have hne : (first :: later).map (matchOf request r.normalizer) ≠ [] := List.cons_ne_nil _ _
  have hmem : ∀ route ∈ first :: later, route ∈ r.routes := by
    intro route hroute
    exact mem_answering (hanswers ▸ hroute)
  constructor
  · have hmakes := makes_phases hr h extra
    rw [parse_of_matches h hne extra] at hf ⊢
    have hevents := hmakes.events_of_quiet (hmakes.failure_eq_none_iff.mp hf)
    rw [List.map_append, events_passDue, events_matchDue hr.ids_nodup extra request hmem] at hevents
    rw [Delivery.after, notifications, ← hevents]
  · have hids : ((first :: later).map (matchOf request r.normalizer)).map (·.id) =
        (first :: later).map (·.id) := by
      rw [List.map_map]
      rfl
    rw [parse_state hr h hne hf, hids, List.length_map, settled, if_neg (List.cons_ne_nil _ _)]

/-- A parse without failures does what is described above, for every router that can be reached:
it asks the predicates, and then exactly `notifications` are heard, and `settled` is left.  The
routes are consulted by falling priority and then in the order of their registration. -/
theorem parse_of_no_failure {r : Router} (hr : r.Reachable) (request : String) (extra : List α) :
    let d := r.parse request extra
    let answers := answering request r.routes
    r.routes.Pairwise Route.Before ∧
      (r.Untroubled → d.failure = none) ∧
      (d.failure = none →
        d.events = (r.matches? request).calls.map .predicate ++
            r.notifications request extra answers ∧
          d.state = r.settled answers) := by
  intro d answers
  have hs := hr.sound
  refine ⟨hs.order, fun hq => hq.parse hs request extra, ?_⟩
  intro hf
  obtain ⟨ms, hms⟩ := matches?_ok_of_parse hf
  have hanswers : ms = answers.map (matchOf request r.normalizer) := matches?_result hms
  subst hanswers
  rcases hcase : answers with _ | ⟨first, later⟩
  · rw [hcase] at hms
    exact parse_unanswered extra hms hf
  · rw [hcase] at hms
    exact parse_answered hs extra hcase hms hf

/-- Two routes that match everything, of which the second is greedy; the listener of the router
hears of the first of them only. -/
theorem parse_of_no_failure_two :
    let r := (ofOptions {}).run (α := Unit) [
      .add (.regex ⟨"", .empty⟩) 1, .add (.regex ⟨"", .empty⟩) 0,
      .change ⟨0⟩ (.onPass { name := "left" }), .change ⟨1⟩ (.setGreedy true),
      .change ⟨1⟩ (.onMatch { name := "also" }), .onMatch { name := "once", once := true },
      .parse "/" []]
    r.Reachable ∧ (r.parse "/a" [()]).failure = none ∧
      (r.parse "/a" [()]).events =
        [.passed "left" "/a", .matched "also" [()] []] ∧
      (r.parse "/a" [()]).state.previous = [⟨0⟩, ⟨1⟩] := by
  intro r
  have hr : r.Reachable := ⟨Unit, {}, _, rfl⟩
  obtain ⟨-, -, h⟩ := parse_of_no_failure hr "/a" [()]
  have hf : (r.parse "/a" [()]).failure = none := rfl
  obtain ⟨hevents, hstate⟩ := h hf
  exact ⟨hr, hf, hevents, hstate ▸ rfl⟩

end Router

end RouteDispatch
