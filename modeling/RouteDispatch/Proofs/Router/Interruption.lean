/-
# Parses that a failure cuts short

User code may fail at any call that a parse makes to it.  Which half of the parse
this is in makes all the difference.

* While routes are matched, predicates and normalizers are asked, and nothing is
  changed: a failure there leaves the router as it was, and no listener is called.
* Afterwards listeners are called by the plan.  A failure of one of them ends the
  plan there.  To say how the plan would have gone on, it is compared with
  the parse of the calmed router, which has the same listeners, but none of them
  fails.

What a listener that fails leaves behind is the state of its last call
(`parse_follows`), so no part of a parse can be seen half done.
-/
import RouteDispatch.Proofs.Router.Plan
import RouteDispatch.Proofs.Router.Run

namespace RouteDispatch

theorem Traced.bind_error {ε α β : Type} {t : Traced ε α} {next : α → Traced ε β} {reason : String}
    (h : (t >>= next).result = .error reason) :
    t.result = .error reason ∨ ∃ a, t.result = .ok a ∧ (next a).result = .error reason := by
  change (Traced.bind t next).result = .error reason at h
  rw [Traced.bind] at h
  cases ht : t.result with
  | error failure =>
    rw [ht] at h
    cases h
    exact Or.inl rfl
  | ok a =>
    rw [ht] at h
    exact Or.inr ⟨a, rfl, h⟩

/-! ## Failures while routes are matched -/

/-- User code that this route has asked about a request fails for this reason: a predicate among its
rules, or the normalizer that makes its arguments. -/
inductive Route.Blamed (route : Route) (request : String) (fallback : Option Normalizer)
    (reason : String) : Prop where
  | predicate {params : Params} {name : String} {p : Predicate}
      (hparams : route.params? request = some params) (hrule : (name, .predicate p) ∈ route.rules)
      (hfails : p.test (params.get name) params = .error reason)
  | normalizer {params : Params} {normalize : Normalizer}
      (hparams : route.params? request = some params)
      (hnormalize : (route.normalizer <|> fallback) = some normalize)
      (hfails : normalize params = .error reason)

namespace Route

variable {route : Route} {request reason : String} {params : Params}

theorem checkRule_error {name : String} {rule : Rule}
    (h : (route.checkRule name rule params).result = .error reason) :
    ∃ p, rule = .predicate p ∧ p.test (params.get name) params = .error reason := by
  rw [checkRule] at h
  split at h
  · cases h
  · cases rule with
    | pattern regex => cases h
    | oneOf allowed => cases h
    | predicate p => exact ⟨p, rfl, h⟩

theorem checkRules_error {rules : List (String × Rule)}
    (h : (route.checkRules params rules).result = .error reason) :
    ∃ name p, (name, .predicate p) ∈ rules ∧ p.test (params.get name) params = .error reason := by
  induction rules with
  | nil => cases h
  | cons rule rules ih =>
    obtain ⟨name, rule⟩ := rule
    rw [checkRules] at h
    rcases Traced.bind_error h with h | ⟨answer, -, h⟩
    · obtain ⟨p, rfl, hp⟩ := checkRule_error h
      exact ⟨name, p, List.mem_cons_self, hp⟩
    · cases answer with
      | false => cases h
      | true =>
        obtain ⟨name, p, hmem, hp⟩ := ih h
        exact ⟨name, p, List.mem_cons_of_mem _ hmem, hp⟩

theorem accepts_error (fallback : Option Normalizer)
    (h : (route.accepts request).result = .error reason) :
    route.Blamed request fallback reason := by
  rw [accepts] at h
  cases hparams : route.params? request with
  | none =>
    rw [hparams] at h
    cases h
  | some params =>
    rw [hparams] at h
    obtain ⟨name, p, hmem, hp⟩ := checkRules_error h
    exact .predicate hparams hmem hp

theorem arguments_error {fallback : Option Normalizer}
    (h : route.arguments request fallback = .error reason) :
    route.Blamed request fallback reason := by
  rw [arguments] at h
  cases hparams : route.params? request with
  | none =>
    rw [hparams] at h
    cases h
  | some params =>
    simp only [hparams] at h
    cases hnormalize : (route.normalizer <|> fallback) with
    | none =>
      rw [hnormalize] at h
      cases h
    | some normalize =>
      rw [hnormalize] at h
      exact .normalizer hparams hnormalize h

end Route

/-! ## The calmed router -/

/-- The listener without its failures. -/
def Listener.calmed (l : Listener) : Listener := { l with fails := fun _ => none }

/-- The signal without the failures of its listeners. -/
def Signal.calmed (s : Signal) : Signal := ⟨s.listeners.map Listener.calmed⟩

/-- The route without the failures of its listeners. -/
def Route.calmed (route : Route) : Route :=
  { route with onMatch := route.onMatch.calmed, onPass := route.onPass.calmed }

theorem Route.accepts_calmed (route : Route) (request : String) :
    route.calmed.accepts request = route.accepts request :=
  accepts_congr (a := route.calmed) (b := route) rfl rfl rfl rfl request

theorem Signal.fails_calmed (s : Signal) (place n : Nat) : s.calmed.fails place n = none := by
  rw [Signal.fails, Signal.calmed, List.getElem?_map]
  cases s.listeners[place]? <;> rfl

namespace Router

variable {α : Type}

/-- The router without the failures of its listeners; predicates and normalizers stay as they are. -/
def calmed (r : Router) : Router :=
  { r with
    routes := r.routes.map Route.calmed
    onMatch := r.onMatch.calmed
    onDefault := r.onDefault.calmed }

theorem collect_error {request : String} {fallback : Option Normalizer} {found : Bool}
    {routes : List Route} {reason : String}
    (h : (collect request fallback found routes).result = .error reason) :
    ∃ route ∈ routes, route.Blamed request fallback reason := by
  induction routes generalizing found with
  | nil => cases h
  | cons route routes ih =>
    have hlater : ∀ found, (collect request fallback found routes).result = .error reason →
        ∃ other ∈ route :: routes, other.Blamed request fallback reason := by
      intro found h
      obtain ⟨other, hmem, hother⟩ := ih h
      exact ⟨other, List.mem_cons_of_mem _ hmem, hother⟩
    rw [collect_cons] at h
    rcases Traced.bind_error h with h | ⟨accepted, -, h⟩
    · split at h
      · exact ⟨route, List.mem_cons_self, Route.accepts_error fallback h⟩
      · cases h
    · cases accepted with
      | false => exact hlater found h
      | true =>
        rcases Traced.bind_error h with h | ⟨arguments, -, h⟩
        · exact ⟨route, List.mem_cons_self, Route.arguments_error h⟩
        · rcases Traced.bind_error h with h | ⟨others, -, h⟩
          · exact hlater true h
          · cases h

theorem bare_calmed (r : Router) : r.calmed.bare = r.bare := by
  simp only [bare, calmed, List.map_map]
  rfl

theorem Sound.calmed {r : Router} (hr : r.Sound) : r.calmed.Sound :=
  hr.of_bare (bare_calmed r) hr.previous_nodup hr.previous_fresh

/-- Listeners play no part in matching. -/
theorem matches?_calmed (r : Router) (request : String) :
    r.calmed.matches? request = r.matches? request := by
  have hcollect : ∀ (routes : List Route) (found : Bool),
      collect request r.normalizer found (routes.map Route.calmed) =
        collect request r.normalizer found routes := by
    intro routes
    induction routes with
    | nil => exact fun _ => rfl
    | cons route routes ih =>
      intro found
      rw [List.map_cons, collect_cons, collect_cons, ih, ih, Route.accepts_calmed]
      rfl
  exact hcollect r.routes false

theorem signal_calmed (r : Router) (channel : Channel) :
    r.calmed.signal channel = (r.signal channel).calmed := by
  have hroute : ∀ id, r.calmed.route? id = (r.route? id).map Route.calmed := by
    intro id
    simp only [route?, calmed, List.find?_map]
    rfl
  cases channel with
  | routed => rfl
  | bypassed => rfl
  | passed id =>
    rw [signal, signal, hroute]
    cases r.route? id <;> rfl
  | matched id =>
    rw [signal, signal, hroute]
    cases r.route? id <;> rfl

theorem fails_calmed (r : Router) (seat : Seat) (n : Nat) : r.calmed.fails seat n = none := by
  rw [fails, signal_calmed]
  exact Signal.fails_calmed _ _ _

theorem roll_calmed (r : Router) (channel : Channel) {wanted : Listener → Bool}
    (hwanted : ∀ l, wanted l.calmed = wanted l) (event : String → Event α) :
    r.calmed.roll channel wanted event = r.roll channel wanted event := by
  rw [roll, roll, signal_calmed, Signal.calmed, List.zipIdx_map, List.filter_map, List.map_map]
  rw [List.filter_congr fun p _ => hwanted p.1]
  rfl

/-- The plan is the same whether or not listeners fail. -/
theorem plan_calmed (r : Router) (request : String) (extra : List α) (ms : List Match) :
    r.calmed.plan request extra ms = r.plan request extra ms := by
  have hpass : r.calmed.passPlan (α := α) request = r.passPlan request := by
    rw [passPlan, passPlan]
    congr 1
    funext id
    exact roll_calmed r _ (fun _ => rfl) _
  have hmatch : r.calmed.matchPlan extra request ms = r.matchPlan extra request ms := by
    rw [matchPlan, matchPlan]
    congr 1
    funext m
    rw [matchPlanOf, matchPlanOf, roll_calmed, roll_calmed]
    · exact fun _ => rfl
    · exact fun _ => rfl
  cases ms with
  | nil =>
    rw [plan, plan, roll_calmed]
    exact fun _ => rfl
  | cons m ms =>
    rw [plan_of_ne_nil _ _ _ (List.cons_ne_nil m ms), plan_of_ne_nil _ _ _ (List.cons_ne_nil m ms),
      hpass, hmatch]

/-- With no failure of a listener, the whole plan is heard. -/
theorem parse_calmed {r : Router} (hr : r.Sound) {request : String} {ms : List Match}
    (h : (r.matches? request).result = .ok ms) (extra : List α) :
    (r.calmed.parse request extra).failure = none ∧
      (r.calmed.parse request extra).events =
        (r.matches? request).calls.map .predicate ++
          (r.plan request extra ms).map (·.event) := by
  have hfollows := parse_follows hr.calmed (matches?_calmed r request ▸ h) extra
  rw [plan_calmed, matches?_calmed] at hfollows
  rcases hfollows with ⟨-, hd⟩ | ⟨earlier, last, later, reason, -, -, hlast, -⟩
  · rw [hd]
    exact ⟨rfl, rfl⟩
  · rw [fails_calmed] at hlast
    cases hlast

/-! ## What is left behind -/

theorem signal_behind (r : Router) (calls : List (Notice Seat (Event α)))
    (previous : List RouteId) (channel : Channel) :
    (r.behind calls previous).signal channel =
      (r.signal channel).after fun place => (calls.map (·.seat)).count ⟨channel, place⟩ := by
  refine (signal_after r _ channel).trans ?_
  congr 1
  funext place
  rw [tally_eq, Nat.zero_add]

/-- A failure of a predicate or a normalizer comes before everything else: nothing is changed, and no
listener is called.  A failure of a listener ends the calls that would have been made without
failures, and it is about these calls only: the listeners that they went to have been called, those
of them that are called once are gone, and all others are as they were; nothing else of the router
is touched, and the result is remembered as a whole or not at all. -/
theorem interrupted_parse {r : Router} (hr : r.Reachable) (request : String) (extra : List α) :
    let d := r.parse request extra
    let calm := r.calmed.parse request extra
    let asked := (r.matches? request).calls.map Event.predicate
    (∀ reason, (r.matches? request).result = .error reason →
      (∃ route ∈ r.routes, route.Blamed request r.normalizer reason) ∧
        d = ⟨r, asked, some reason⟩) ∧
    (∀ ms, (r.matches? request).result = .ok ms → ∀ reason, d.failure = some reason →
      ∃ earlier last later,
        r.plan request extra ms = earlier ++ last :: later ∧
        calm.failure = none ∧
        calm.events = asked ++ (earlier ++ last :: later).map (·.event) ∧
        d.events = asked ++ (earlier ++ [last]).map (·.event) ∧
        Unfailing r.fails (fun _ => 0) earlier ∧
        r.fails last.seat ((earlier.map (·.seat)).count last.seat) = some reason ∧
        d.state.bare = r.bare ∧
        (∀ channel, d.state.signal channel = (r.signal channel).after fun place =>
          ((earlier ++ [last]).map (·.seat)).count ⟨channel, place⟩) ∧
        d.state.previous = if last.seat.channel.ofMatch then ms.map (·.id) else r.previous) := by
  intro d calm asked
  refine ⟨?_, ?_⟩
  · intro reason h
    exact ⟨collect_error h, parse_of_failure h extra⟩
  · intro ms h reason hd
    obtain ⟨hcalm, hcalmed⟩ := parse_calmed hr.sound h extra
    rcases parse_follows hr.sound h extra with
      ⟨-, hall⟩ | ⟨earlier, last, later, reason', hplan, hearlier, hlast, hstop⟩
    · have hnone : d.failure = none := congrArg Delivery.failure hall
      rw [hd] at hnone
      cases hnone
    · have hreason : d.failure = some reason' := congrArg Delivery.failure hstop
      obtain rfl : reason = reason' := Option.some.inj (hd.symm.trans hreason)
      rw [tally_eq, Nat.zero_add] at hlast
      rw [hplan] at hcalmed
      have hstate : d.state = _ := congrArg Delivery.state hstop
      refine ⟨earlier, last, later, hplan, hcalm, hcalmed, congrArg Delivery.events hstop, hearlier,
        hlast, ?_, ?_, ?_⟩
      · rw [hstate]
        exact bare_after r _
      · rw [hstate]
        exact signal_behind r _ _
      · rw [hstate]
        rfl

/-- A predicate that fails for one request, and a listener that fails when it is called for the second
time, behind two that are called once. -/
theorem interrupted_parse_once :
    let r := (ofOptions {}).run (α := Unit) [
      .add (.regex ⟨"", .empty⟩) 0,
      .change ⟨0⟩ (.addRule "request_" (.predicate ⟨"careful", fun value _ =>
        if value = some "/bad" then .error "careful" else .ok true⟩)),
      .change ⟨0⟩ (.onPass { name := "left", once := true }),
      .onMatch { name := "tired", fails := fun n => if n = 1 then some "tired" else none },
      .onMatch { name := "last" },
      .parse "/" [],
      .change ⟨0⟩ (.onMatch { name := "entered", once := true })]
    r.Reachable ∧
      (r.matches? "/bad").result = .error "careful" ∧ (r.parse "/bad" [()]).state = r ∧
      (r.matches? "/a").result = .ok [⟨⟨0⟩, []⟩] ∧ (r.parse "/a" [()]).failure = some "tired" ∧
      ∃ earlier last later, r.plan "/a" [()] [⟨⟨0⟩, []⟩] = earlier ++ last :: later ∧
        r.fails last.seat ((earlier.map (·.seat)).count last.seat) = some "tired" ∧
        (r.parse "/a" [()]).events =
          .predicate ⟨"careful", some "/a", ⟨"/a", [], []⟩⟩ ::
            (earlier ++ [last]).map (·.event) := by
  intro r
  have hr : r.Reachable := ⟨Unit, {}, _, rfl⟩
  have hbad : (r.matches? "/bad").result = .error "careful" := rfl
  have hok : (r.matches? "/a").result = .ok [⟨⟨0⟩, []⟩] := rfl
  have hf : (r.parse "/a" [()]).failure = some "tired" := rfl
  obtain ⟨hasked, -⟩ := interrupted_parse hr "/bad" [()]
  obtain ⟨-, hheard⟩ := interrupted_parse hr "/a" [()]
  obtain ⟨earlier, last, later, hplan, -, -, hevents, -, hlast, -⟩ := hheard _ hok _ hf
  have hsame : (r.parse "/bad" [()]).state = r := by rw [(hasked _ hbad).2]
  exact ⟨hr, hbad, hsame, hok, hf, earlier, last, later, hplan, hlast, hevents⟩

end Router

end RouteDispatch
