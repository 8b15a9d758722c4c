/-
# The rules of a route as a map

A route keeps its rules in a list, in the order in which their names first came.  What
that list amounts to is a map: no name comes twice in it, and under a name stands the
rule that was last given for it (`rule?_addRules`).  Both hold of every route of every
router that can be reached (`Router.Reachable.namesOnce`), and they are all that a route
accepts by (`Route.NamesOnce.accepts_iff`): the matcher matches the request, and each of those last
rules is met, in whatever order they are asked.

That the order does not matter takes predicates that answer.  One that fails cuts the
check short, and then it does matter which rules were asked before.
-/
import RouteDispatch.Proofs.Router.Dispatch
import RouteDispatch.Proofs.Text.Named

namespace RouteDispatch

/-- A call by which a route is given rules. -/
inductive RuleCall where
  | addRule (name : String) (rule : Rule)
  | addRules (rules : List (String × Rule))

/-- The rules that some calls give, in order. -/
def RuleCall.given (calls : List RuleCall) : List (String × Rule) :=
  calls.flatMap fun
    | addRule name rule => [(name, rule)]
    | addRules rules => rules

namespace Route

/-- The route once these calls were made. -/
def calledAll (route : Route) (calls : List RuleCall) : Route :=
  calls.foldl (fun route => fun
    | .addRule name rule => route.addRule name rule
    | .addRules rules => route.addRules rules) route

/-- It does not matter how many rules are given at a time. -/
theorem calledAll_eq (route : Route) (calls : List RuleCall) :
    route.calledAll calls = route.addRules (RuleCall.given calls) := by
  induction calls generalizing route with
  | nil => rfl
  | cons call calls ih =>
    rw [RuleCall.given, List.flatMap_cons, addRules, List.foldl_append]
    cases call with
    | addRule name rule => exact ih (route.addRule name rule)
    | addRules rules => exact ih (route.addRules rules)

/-! ## One rule more -/

theorem lookup_putRule (name : String) (rule : Rule) (rules : List (String × Rule))
    (other : String) :
    (putRule name rule rules).lookup other =
      if other = name then some rule else rules.lookup other := by
  induction rules with
  | nil => exact lookup_cons_eq (name, rule) [] other
  | cons first rules ih =>
    rw [putRule]
    split
    · next hfirst =>
      rw [lookup_cons_eq, lookup_cons_eq, hfirst]
      split <;> rfl
    · next hfirst =>
      rw [lookup_cons_eq, lookup_cons_eq, ih]
      split
      · next hother => rw [if_neg (hother ▸ hfirst)]
      · rfl

theorem name_of_mem_putRule {name : String} {rule : Rule} {rules : List (String × Rule)}
    {other : String} (h : other ∈ (putRule name rule rules).map (·.1)) :
    other = name ∨ other ∈ rules.map (·.1) := by
  induction rules with
  | nil => exact Or.inl (List.mem_singleton.mp h)
  | cons first rules ih =>
    rw [putRule] at h
    split at h
    · exact (List.mem_cons.mp h).imp_right (List.mem_cons_of_mem _)
    · rcases List.mem_cons.mp h with rfl | h
      · exact Or.inr List.mem_cons_self
      · exact (ih h).imp_right (List.mem_cons_of_mem _)

theorem nodup_putRule (name : String) (rule : Rule) {rules : List (String × Rule)}
    (h : (rules.map (·.1)).Nodup) : ((putRule name rule rules).map (·.1)).Nodup := by
  induction rules with
  | nil => exact List.nodup_cons.mpr ⟨List.not_mem_nil, List.nodup_nil⟩
  | cons first rules ih =>
    obtain ⟨hfirst, hrules⟩ := List.nodup_cons.mp h
    rw [putRule]
    split
    · next hname => exact List.nodup_cons.mpr ⟨hname ▸ hfirst, hrules⟩
    · next hname =>
      refine List.nodup_cons.mpr ⟨?_, ih hrules⟩
      intro hmem
      exact (name_of_mem_putRule hmem).elim hname hfirst

/-! ## All rules of some calls -/

/-- No name comes twice among the rules. -/
def NamesOnce (route : Route) : Prop := (route.rules.map (·.1)).Nodup

theorem NamesOnce.addRule {route : Route} (h : route.NamesOnce) (name : String) (rule : Rule) :
    (route.addRule name rule).NamesOnce := nodup_putRule name rule h

theorem NamesOnce.addRules {route : Route} (h : route.NamesOnce) (rules : List (String × Rule)) :
    (route.addRules rules).NamesOnce := by
  induction rules generalizing route with
  | nil => exact h
  | cons rule rules ih => exact ih (h.addRule rule.1 rule.2)

/-- Of the rules that are added, the last one of a name counts; without one, the rule that the
route had before. -/
theorem rule?_addRules (route : Route) (rules : List (String × Rule)) (name : String) :
    (route.addRules rules).rule? name = (lastNamed? rules name).or (route.rule? name) := by
  induction rules generalizing route with
  | nil => rfl
  | cons rule rules ih =>
    have hfirst : (route.addRule rule.1 rule.2).rule? name =
        (if name = rule.1 then some rule.2 else none).or (route.rule? name) := by
      rw [rule?, addRule, lookup_putRule]
      split <;> rfl
    have hrest := ih (route.addRule rule.1 rule.2)
    rw [hfirst, ← Option.or_assoc, ← lastNamed?_cons] at hrest
    exact hrest

/-- Nothing but the rules is changed by adding rules. -/
theorem addRules_frame (route : Route) (rules : List (String × Rule)) :
    route.addRules rules = { route with rules := (route.addRules rules).rules } := by
  induction rules generalizing route with
  | nil => rfl
  | cons rule rules ih => exact ih (route.addRule rule.1 rule.2)

/-- Every rule of the route is one that it had before, or one that is added. -/
theorem NamesOnce.mem_addRules {route : Route} (h : route.NamesOnce) {rules : List (String × Rule)}
    {named : String × Rule} (hmem : named ∈ (route.addRules rules).rules) :
    named ∈ route.rules ++ rules := by
  have hfound : (route.addRules rules).rule? named.1 = some named.2 :=
    (mem_iff_lookup (h.addRules rules)).mp hmem
  rw [rule?_addRules, Option.or_eq_some_iff] at hfound
  rcases hfound with hlast | ⟨-, hold⟩
  · exact List.mem_append_right _ (mem_of_lastNamed? hlast)
  · exact List.mem_append_left _ ((mem_iff_lookup h).mpr hold)

/-! ## What is accepted -/

/-- The rule concerns an optional part that is absent or empty, or else the value passes it. -/
def Meets (route : Route) (params : Params) (name : String) (rule : Rule) : Prop :=
  name ∈ route.optionalParamIds ∧ (params.get name = none ∨ params.get name = some "") ∨
    (rule.check (params.get name) params).result = .ok true

theorem admits_iff (rule : Rule) (value : Option String) (params : Params) :
    rule.admits value params = true ↔ (rule.check value params).result = .ok true := by
  cases rule with
  | pattern regex => exact (Except.ok.injEq _ _).symm ▸ Iff.rfl
  | oneOf allowed => exact (Except.ok.injEq _ _).symm ▸ Iff.rfl
  | predicate p =>
    show ((p.test value params).toOption == some true) = true ↔ p.test value params = .ok true
    cases p.test value params with
    | ok answer => simp [Except.toOption]
    | error reason => simp [Except.toOption]

theorem all_isEmpty_iff {value : Option String} :
    value.all (·.isEmpty) = true ↔ value = none ∨ value = some "" := by
  cases value with
  | none => simp
  | some value => simp [String.isEmpty_iff]

theorem satisfies_iff (route : Route) (params : Params) (name : String) (rule : Rule) :
    route.satisfies params (name, rule) = true ↔ route.Meets params name rule := by
  rw [satisfies, Meets, Bool.or_eq_true, Bool.and_eq_true, all_isEmpty_iff, admits_iff,
    List.contains_iff_mem]
  exact or_congr_left and_comm

/-- If predicates answer, there is an answer, and it is given by the rules that are found under
their names. -/
theorem NamesOnce.accepts_iff {route : Route} (honce : route.NamesOnce)
    (hanswer : ∀ name p, (name, Rule.predicate p) ∈ route.rules →
      ∀ value params, ∃ answer, p.test value params = .ok answer) (request : String) :
    ∃ accepted, (route.accepts request).result = .ok accepted ∧
      (accepted = true ↔ ∃ params, route.params? request = some params ∧
        ∀ name rule, route.rule? name = some rule → route.Meets params name rule) := by
  have hanswers : (route.accepts request).Answers := by
    rw [accepts]
    cases route.params? request with
    | none => exact ⟨false, rfl⟩
    | some params => exact Router.checkRules_answers hanswer
  obtain ⟨accepted, haccepted⟩ := hanswers
  refine ⟨accepted, haccepted, ?_⟩
  rw [Router.accepts_result haccepted, fits]
  cases route.params? request with
  | none => simp
  | some params =>
    simp only [Option.some.injEq, exists_eq_left', List.all_eq_true, Prod.forall, satisfies_iff]
    refine forall₂_congr fun name rule => ?_
    rw [rule?, ← mem_iff_lookup honce]

/-- By which rules a route accepts once rules are added. -/
theorem NamesOnce.accepts_addRules {route : Route} (honce : route.NamesOnce)
    {rules : List (String × Rule)}
    (hanswer : ∀ name p, (name, Rule.predicate p) ∈ route.rules ++ rules →
      ∀ value params, ∃ answer, p.test value params = .ok answer) (request : String) :
    ∃ accepted, ((route.addRules rules).accepts request).result = .ok accepted ∧
      (accepted = true ↔ ∃ params, route.params? request = some params ∧
        ∀ name rule, (lastNamed? rules name).or (route.rule? name) = some rule →
          route.Meets params name rule) := by
  obtain ⟨accepted, haccepted, hiff⟩ := (honce.addRules rules).accepts_iff
    (fun name p hp => hanswer name p (honce.mem_addRules hp)) request
  refine ⟨accepted, haccepted, ?_⟩
  have hparams : (route.addRules rules).params? request = route.params? request := by
    rw [addRules_frame]
    rfl
  have hmeets : (route.addRules rules).Meets = route.Meets := by
    rw [addRules_frame]
    rfl
  simpa only [rule?_addRules, hparams, hmeets] using hiff

end Route

/-! ## Every route of every router -/

namespace Router

variable {α : Type}

/-- No route has two rules of one name. -/
def NamesOnce (r : Router) : Prop := ∀ route ∈ r.routes, route.NamesOnce

theorem NamesOnce.modify {r : Router} (h : r.NamesOnce) {change : Route → Route}
    (hchange : ∀ route : Route, route.NamesOnce → (change route).NamesOnce) (id : RouteId) :
    (r.modify id change).NamesOnce := by
  intro route hroute
  obtain ⟨old, hold, rfl⟩ := List.mem_map.mp hroute
  split
  · exact hchange old (h old hold)
  · exact h old hold

theorem NamesOnce.add {r : Router} (h : r.NamesOnce) (pattern : Pattern) (priority : Int) :
    (r.add pattern priority).2.NamesOnce := by
  intro route hroute
  rcases mem_place.mp hroute with rfl | hold
  · exact List.nodup_nil
  · exact h route hold

theorem NamesOnce.of_bare {r s : Router} (h : r.NamesOnce) (hbare : s.bare = r.bare) :
    s.NamesOnce := by
  intro route hroute
  have hmem : route.clearListeners ∈ s.bare.routes := List.mem_map_of_mem hroute
  rw [hbare] at hmem
  obtain ⟨old, hold, heq⟩ := List.mem_map.mp hmem
  have hcleared : old.clearListeners.rules = route.clearListeners.rules := congrArg Route.rules heq
  have hrules : old.rules = route.rules := hcleared
  rw [Route.NamesOnce, ← hrules]
  exact h old hold

theorem namesOnce_change (c : RouteChange) {route : Route} (h : route.NamesOnce) :
    (c.apply route).NamesOnce := by
  cases c with
  | addRule name rule => exact h.addRule name rule
  | _ => exact h

theorem perform_namesOnce {r : Router} (h : r.NamesOnce) (op : Operation α) :
    (r.perform op).state.NamesOnce := by
  cases op with
  | add pattern priority => exact h.add pattern priority
  | apply table engine =>
    refine apply_induct (fun entry rules s hs => ?_) table engine h
    rw [register_eq]
    refine (hs.add _ _).modify (fun route hroute => ?_) _
    have hgreedy : { route with greedy := entry.greedy }.NamesOnce := hroute
    exact hgreedy.addRules rules
  | remove id => exact fun route hroute => h route (List.mem_filter.mp hroute).1
  | removeAll => exact fun route hroute => absurd hroute List.not_mem_nil
  | change id c => exact h.modify (fun _ => namesOnce_change c) id
  | parse request extra => exact h.of_bare (parse_frame r request extra).1
  | _ => exact h

theorem Reachable.namesOnce {r : Router} (h : r.Reachable) : r.NamesOnce := by
  obtain ⟨α, options, ops, rfl⟩ := h
  have hrun : ∀ s : Router, s.NamesOnce → (s.run ops).NamesOnce := by
    induction ops with
    | nil => exact fun s hs => hs
    | cons op ops ih => exact fun s hs => ih _ (perform_namesOnce hs op)
  exact hrun _ fun route hroute => absurd hroute List.not_mem_nil

/-- What is left of the rules that a route is given, in whatever calls and however often, is the
last one of each name.  By these it accepts requests, so two ways of giving them make no
difference. -/
theorem accepts_by_last_rules {r : Router} (hr : r.Reachable) {route : Route}
    (hroute : route ∈ r.routes) {first second : List RuleCall}
    (hlast : ∀ name, lastNamed? (RuleCall.given first) name =
      lastNamed? (RuleCall.given second) name)
    (hanswer : ∀ name p, (name, Rule.predicate p) ∈
        route.rules ++ (RuleCall.given first ++ RuleCall.given second) →
      ∀ value params, ∃ answer, p.test value params = .ok answer) :
    let last := fun name => (lastNamed? (RuleCall.given first) name).or (route.rule? name)
    (∀ name, (route.calledAll first).rule? name = last name ∧
        (route.calledAll second).rule? name = last name) ∧
      ((route.calledAll first).rules.map (·.1)).Nodup ∧
      ((route.calledAll second).rules.map (·.1)).Nodup ∧
      ∀ request, ∃ accepted, ((route.calledAll first).accepts request).result = .ok accepted ∧
        ((route.calledAll second).accepts request).result = .ok accepted ∧
        (accepted = true ↔ ∃ params, route.params? request = some params ∧
          ∀ name rule, last name = some rule → route.Meets params name rule) := by
  intro last
  have honce := hr.namesOnce route hroute
  have hsecond : ∀ name, (lastNamed? (RuleCall.given second) name).or (route.rule? name) =
      last name := fun name => congrArg (·.or (route.rule? name)) (hlast name).symm
  rw [Route.calledAll_eq, Route.calledAll_eq]
  refine ⟨fun name => ⟨route.rule?_addRules _ name, (route.rule?_addRules _ name).trans
    (hsecond name)⟩, honce.addRules _, honce.addRules _, fun request => ?_⟩
  obtain ⟨accepted, hfirst, hiff⟩ := honce.accepts_addRules (fun name p hp => hanswer name p
    (List.append_assoc _ _ _ ▸ List.mem_append_left _ hp)) request
  obtain ⟨accepted', hother, hiff'⟩ := honce.accepts_addRules (fun name p hp => hanswer name p
    (List.mem_append.mpr ((List.mem_append.mp hp).imp_right (List.mem_append_right _)))) request
  simp only [hsecond] at hiff'
  have hsame : accepted' = accepted := Bool.eq_iff_iff.mpr (hiff'.trans hiff.symm)
  exact ⟨accepted, hfirst, hsame ▸ hother, hiff⟩

/-- A predicate that is content with every value. -/
def anything : Predicate := ⟨"anything", fun _ _ => .ok true⟩

/-- A route for pages, which has a rule already. -/
def pageRoute : Route :=
  (Route.ofPattern ⟨0⟩ (.template "/:page:") 0 .loose).addRule "request_" (.oneOf ["/", "/2"])

theorem accepts_by_last_rules_page :
    let r := (ofOptions {}).run ([.add (.template "/:page:") 0,
      .change ⟨0⟩ (.addRule "request_" (.oneOf ["/", "/2"]))] : List (Operation Unit))
    let first := [.addRule "page" (.oneOf ["1"]), .addRule "0" (.predicate anything),
      .addRules [("page", .oneOf ["2"])]]
    let second := [RuleCall.addRules [("page", .oneOf ["2"]), ("0", .predicate anything)]]
    r.Reachable ∧ pageRoute ∈ r.routes ∧
      (∀ name, lastNamed? (RuleCall.given first) name = lastNamed? (RuleCall.given second) name) ∧
      (∀ name p, (name, Rule.predicate p) ∈
          pageRoute.rules ++ (RuleCall.given first ++ RuleCall.given second) →
        ∀ value params, ∃ answer, p.test value params = .ok answer) ∧
      (pageRoute.calledAll first).rule? "page" = some (.oneOf ["2"]) ∧
      (pageRoute.calledAll second).rule? "request_" = some (.oneOf ["/", "/2"]) ∧
      ∀ request, ((pageRoute.calledAll first).accepts request).result =
        ((pageRoute.calledAll second).accepts request).result := by
  intro r first second
  have hr : r.Reachable := ⟨Unit, {}, _, rfl⟩
  have hroute : pageRoute ∈ r.routes := List.mem_cons_self
  have hlast : ∀ name, lastNamed? (RuleCall.given first) name =
      lastNamed? (RuleCall.given second) name := by
    intro name
    by_cases hpage : name = "page"
    · subst hpage
      rfl
    · by_cases hzero : name = "0"
      · subst hzero
        rfl
      · simp [first, second, RuleCall.given, lastNamed?_cons, hpage, hzero]
  have hanswer : ∀ name p, (name, Rule.predicate p) ∈
      pageRoute.rules ++ (RuleCall.given first ++ RuleCall.given second) →
        ∀ value params, ∃ answer, p.test value params = .ok answer := by
    intro name p hp
    have hrules : pageRoute.rules = [("request_", .oneOf ["/", "/2"])] := rfl
    have hnamed : name = "0" ∧ p = anything := by
      rw [hrules] at hp
      simpa [first, second, RuleCall.given] using hp
    exact fun _ _ => ⟨true, hnamed.2 ▸ rfl⟩
  obtain ⟨hrules, -, -, haccepts⟩ := accepts_by_last_rules hr hroute hlast hanswer
  refine ⟨hr, hroute, hlast, hanswer, (hrules "page").1, (hrules "request_").2, fun request => ?_⟩
  obtain ⟨accepted, hfirst, hsecond, -⟩ := haccepts request
  rw [hfirst, hsecond]

end Router

end RouteDispatch
