/-
# Requests that match nothing

A request that no route matches is told to the default listeners of the router,
and that is all it leaves behind.  So it may as well not have come: every later
request is heard as before, and the same result is remembered for it.

Two runs are compared, one with all requests and one with some of those left out
that match nothing when they come (`Thins`).  All along, the two routers agree up
to their default listeners (`withoutDefault`).  What carries this is that only the
dispatch of an unmatched request reads these listeners: any other parse commutes
with taking them away (`parse_withoutDefault`), and an unmatched one changes
nothing else (`parse_state_of_unmatched`).

Nothing is asked of user code here.  Where calls fail, they fail in both runs.
-/
import RouteDispatch.Proofs.Delivery.Seats
import RouteDispatch.Proofs.Router.Run

namespace RouteDispatch

/-- The route says, without a failure, that it does not match the request. -/
def Route.refuses (route : Route) (request : String) : Bool :=
  match (route.accepts request).result with
  | .ok accepted => !accepted
  | .error _ => false

namespace Router

variable {α : Type}

/-- No route matches the request. -/
def unmatched (r : Router) (request : String) : Bool := r.routes.all (·.refuses request)

/-- The router with no default listeners. -/
def withoutDefault (r : Router) : Router := { r with onDefault := {} }

/-- Some requests, less a few that match nothing when they come. -/
inductive Thins : Router → List (Request α) → List (Request α) → Prop
  | nil (r : Router) : Thins r [] []
  | keep {r : Router} {calls kept : List (Request α)} (q : Request α)
      (later : Thins (r.parse q.text q.extra).state calls kept) : Thins r (q :: calls) (q :: kept)
  | drop {r : Router} {calls kept : List (Request α)} (q : Request α)
      (hq : r.unmatched q.text) (later : Thins (r.parse q.text q.extra).state calls kept) :
      Thins r (q :: calls) kept

/-- What is heard of those requests that are not unmatched, each with the result that is remembered
behind it. -/
def heardOf (r : Router) :
    List (Request α) → List (Request α × Delivery (Event α) (List RouteId))
  | [] => []
  | q :: calls =>
    let d := r.parse q.text q.extra
    if r.unmatched q.text then d.state.heardOf calls
    else (q, d.within Router.previous) :: d.state.heardOf calls

/-! ## Which requests are unmatched -/

theorem refuses_iff {route : Route} {request : String} :
    route.refuses request = true ↔ (route.accepts request).result = .ok false := by
  rw [Route.refuses]
  cases (route.accepts request).result with
  | error reason => simp
  | ok accepted => simp

/-- Without a match found, every route is asked. -/
theorem collect_eq_nil_iff {request : String} {fallback : Option Normalizer}
    {routes : List Route} :
    (collect request fallback false routes).result = .ok [] ↔
      routes.all (·.refuses request) = true := by
  induction routes with
  | nil => exact ⟨fun _ => rfl, fun _ => rfl⟩
  | cons route routes ih =>
    rw [collect_cons, List.all_cons, Bool.and_eq_true, refuses_iff]
    constructor
    · intro h
      obtain ⟨accepted, hasked, h⟩ := Traced.bind_ok h
      cases accepted with
      | true =>
        obtain ⟨arguments, -, h⟩ := Traced.bind_ok h
        obtain ⟨others, -, h⟩ := Traced.bind_ok h
        cases h
      | false => exact ⟨hasked, ih.mp h⟩
    · rintro ⟨hasked, hrest⟩
      exact (Traced.bind_result_of_ok _ hasked).trans (ih.mpr hrest)

theorem matches?_eq_nil_iff {r : Router} {request : String} :
    (r.matches? request).result = .ok [] ↔ r.unmatched request = true := collect_eq_nil_iff

/-- No parse changes which requests are unmatched, as none changes what a route asks of them. -/
theorem unmatched_parse (r : Router) (request : String) (extra : List α) (other : String) :
    (r.parse request extra).state.unmatched other = r.unmatched other := by
  have hbare : ∀ s : Router, s.bare.unmatched other = s.unmatched other := by
    intro s
    rw [unmatched, unmatched, bare, List.all_map]
    refine List.all_congr rfl fun route => ?_
    have hsame := Route.accepts_congr (a := route.clearListeners) (b := route) rfl rfl rfl rfl other
    simp only [Function.comp, Route.refuses, hsame]
  rw [← hbare, (parse_frame r request extra).1, hbare]

/-! ## The default listeners in a parse -/

theorem notifyPassed_withoutDefault (request : String) (id : RouteId) (r : Router) :
    notifyPassed (α := α) request id r.withoutDefault =
      (notifyPassed request id r).within withoutDefault := by
  rw [notifyPassed_eq, notifyPassed_eq]
  have hfound : r.withoutDefault.route? id = r.route? id := rfl
  rw [hfound]
  cases r.route? id <;> rfl

theorem notifyMatched_withoutDefault (extra : List α) (request : String) (m : Match × Bool)
    (r : Router) :
    notifyMatched extra request m r.withoutDefault =
      (notifyMatched extra request m r).within withoutDefault := by
  obtain ⟨m, isFirst⟩ := m
  have hroute : notifyRoute extra m r.withoutDefault =
      (notifyRoute extra m r).within withoutDefault := by
    have hfound : r.withoutDefault.route? m.id = r.route? m.id := rfl
    rw [notifyRoute, notifyRoute, hfound]
    cases r.route? m.id <;> rfl
  rw [notifyMatched_eq, notifyMatched_eq, hroute]
  exact Delivery.within_andThen _ _ fun _ => rfl

theorem passPhase_withoutDefault (request : String) (r : Router) :
    passPhase (α := α) request r.withoutDefault =
      (passPhase request r).within withoutDefault := by
  have hrow := Delivery.forEach_map_within (notifyPassed (α := α) request)
    (notifyPassed request) id withoutDefault r.previous
    (fun id _ s => notifyPassed_withoutDefault request id s) r
  rwa [List.map_id] at hrow

theorem matchPhase_withoutDefault (extra : List α) (request : String) (ms : List Match)
    (r : Router) :
    matchPhase extra request ms r.withoutDefault =
      (matchPhase extra request ms r).within withoutDefault := by
  have hrow := Delivery.forEach_map_within (notifyMatched extra request)
    (notifyMatched extra request) id withoutDefault (markFirst ms)
    (fun m _ s => notifyMatched_withoutDefault extra request m s)
    { r with previous := ms.map (·.id) }
  rwa [List.map_id] at hrow

/-- A parse that is not of an unmatched request does not see the default listeners. -/
theorem parse_withoutDefault {r : Router} {request : String} (h : r.unmatched request = false)
    (extra : List α) :
    r.withoutDefault.parse request extra = (r.parse request extra).within withoutDefault := by
  have hsame : r.withoutDefault.matches? request = r.matches? request := rfl
  cases hms : (r.matches? request).result with
  | error reason =>
    rw [parse_of_failure hms, parse_of_failure (hsame ▸ hms), hsame]
    rfl
  | ok ms =>
    have hne : ms ≠ [] := by
      rintro rfl
      rw [matches?_eq_nil_iff.mp hms] at h
      cases h
    rw [parse_of_matches hms hne, parse_of_matches (hsame ▸ hms) hne, hsame,
      passPhase_withoutDefault, Delivery.within_andThen _ withoutDefault fun _ =>
        matchPhase_withoutDefault extra request ms _]
    rfl

/-- An unmatched request changes nothing but the default listeners. -/
theorem parse_state_of_unmatched {r : Router} {request : String}
    (h : r.unmatched request = true) (extra : List α) :
    (r.parse request extra).state.withoutDefault = r.withoutDefault := by
  rw [parse_of_no_match (matches?_eq_nil_iff.mpr h)]
  rfl

/-- Which default listeners there are makes no difference to the other parts of the router. -/
theorem parse_state_withoutDefault (r : Router) (request : String) (extra : List α) :
    (r.withoutDefault.parse request extra).state.withoutDefault =
      (r.parse request extra).state.withoutDefault := by
  cases h : r.unmatched request with
  | true =>
    have h' : r.withoutDefault.unmatched request = true := h
    exact (parse_state_of_unmatched h' extra).trans (parse_state_of_unmatched h extra).symm
  | false =>
    rw [parse_withoutDefault h]
    rfl

/-! ## Runs of requests -/

/-- Routers that agree up to their default listeners stay so, and the same is heard of them. -/
theorem heardOf_congr {r s : Router} (h : s.withoutDefault = r.withoutDefault)
    (calls : List (Request α)) :
    s.heardOf calls = r.heardOf calls ∧
      (s.run (calls.map Request.operation)).withoutDefault =
        (r.run (calls.map Request.operation)).withoutDefault := by
  induction calls generalizing r s with
  | nil => exact ⟨rfl, h⟩
  | cons q calls ih =>
    have hunmatched : s.unmatched q.text = r.unmatched q.text := by
      change s.withoutDefault.unmatched q.text = r.withoutDefault.unmatched q.text
      rw [h]
    have hstate : (s.parse q.text q.extra).state.withoutDefault =
        (r.parse q.text q.extra).state.withoutDefault := by
      rw [← parse_state_withoutDefault s, h, parse_state_withoutDefault]
    obtain ⟨hheard, hrun⟩ := ih hstate
    refine ⟨?_, hrun⟩
    rw [heardOf, heardOf, hunmatched, hheard]
    cases hq : r.unmatched q.text with
    | true => rfl
    | false =>
      have hdelivery : (s.parse q.text q.extra).within previous =
          (r.parse q.text q.extra).within previous := by
        have hparse := parse_withoutDefault hq q.extra
        rw [← h, parse_withoutDefault (hunmatched.trans hq)] at hparse
        have hremembered := congrArg (fun d => d.within previous) hparse
        exact hremembered
      simp only [hdelivery]

/-- Requests that match nothing are invisible to later ones.  Leave out as many of them as you
like: of every request that does match, the same is heard, with the same arguments and in the same
order, and the same result is remembered behind it.  At the end the two routers differ in nothing
but their default listeners. -/
theorem heardOf_of_thins {r : Router} {calls kept : List (Request α)} (h : Thins r calls kept) :
    r.heardOf kept = r.heardOf calls ∧
      (r.run (kept.map Request.operation)).withoutDefault =
        (r.run (calls.map Request.operation)).withoutDefault := by
  induction h with
  | nil r => exact ⟨rfl, rfl⟩
  | keep q later ih =>
    obtain ⟨hheard, hrun⟩ := ih
    refine ⟨?_, hrun⟩
    rw [heardOf, heardOf, hheard]
  | @drop r calls kept q hq later ih =>
    obtain ⟨hheard, hrun⟩ := ih
    -- The router behind the request that is left out is as good as the one before it.
    have hsame := heardOf_congr (parse_state_of_unmatched hq q.extra) kept
    rw [heardOf, if_pos hq]
    exact ⟨hsame.1.symm.trans hheard, hsame.2.symm.trans hrun⟩

/-- One route takes `/` only.  A request for `/b` between two of them is left out. -/
theorem heardOf_of_thins_between :
    let r := (ofOptions {}).run (α := Unit) [
      .add (.regex ⟨"", .empty⟩) 0,
      .change ⟨0⟩ (.addRule "request_" (.predicate ⟨"root", fun value _ => .ok (value = some "/")⟩)),
      .change ⟨0⟩ (.onMatch { name := "one", once := true }),
      .change ⟨0⟩ (.onPass { name := "left" }), .onDefault { name := "lost", once := true }]
    let kept : List (Request Unit) := [⟨"/", []⟩, ⟨"/", [()]⟩]
    let calls : List (Request Unit) := [⟨"/", []⟩, ⟨"/b", []⟩, ⟨"/", [()]⟩]
    Thins r calls kept ∧ r.heardOf kept = r.heardOf calls ∧
      (r.heardOf kept).map (·.2.state) = [[⟨0⟩], [⟨0⟩]] := by
  intro r kept calls
  have hother : (r.parse (α := Unit) "/" []).state.unmatched "/b" = true := by
    rw [unmatched_parse]
    rfl
  have hthins : Thins r calls kept :=
    .keep ⟨"/", []⟩ (.drop ⟨"/b", []⟩ hother (.keep ⟨"/", [()]⟩ (.nil _)))
  obtain ⟨hheard, -⟩ := heardOf_of_thins hthins
  exact ⟨hthins, hheard, rfl⟩

end Router

end RouteDispatch
