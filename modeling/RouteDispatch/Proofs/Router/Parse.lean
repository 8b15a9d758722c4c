/-
# What a parse is due to call, and what it leaves as it was

A parse has two phases once something matched: the routes of the last result
are told that they are passed, and then the routes of the new one, each
followed by the router, are told of their match.  `passDue` and `matchDue` list
the calls of the two phases before the first of them is made; a parse makes them
up to the first that fails (`makes_passPhase`, `makes_matchPhase`).

Both lists are read off the router before the parse.  This is where the invariant
is needed: as no route is in a result twice, a phase never comes back to a route
whose listeners it has shortened already.
-/
import RouteDispatch.Proofs.Delivery.Calls
import RouteDispatch.Proofs.Router.Store

namespace RouteDispatch

namespace Traced

variable {ε α β : Type}

theorem bind_ok {t : Traced ε α} {next : α → Traced ε β} {b : β}
    (h : (t >>= next).result = .ok b) : ∃ a, t.result = .ok a ∧ (next a).result = .ok b := by
  change (Traced.bind t next).result = .ok b at h
  rw [Traced.bind] at h
  cases ht : t.result with
  | error failure => simp [ht] at h
  | ok a =>
    rw [ht] at h
    exact ⟨a, rfl, h⟩

theorem bind_result_of_ok {t : Traced ε α} (next : α → Traced ε β) {a : α}
    (h : t.result = .ok a) : (t >>= next).result = (next a).result := by
  change (Traced.bind t next).result = _
  rw [Traced.bind, h]

/-- No failure cuts the computation short. -/
def Answers (t : Traced ε α) : Prop := ∃ a, t.result = .ok a

theorem Answers.bind {t : Traced ε α} {next : α → Traced ε β} (h : t.Answers)
    (hnext : ∀ a, (next a).Answers) : (t >>= next).Answers := by
  obtain ⟨a, ha⟩ := h
  obtain ⟨b, hb⟩ := hnext a
  exact ⟨b, (bind_result_of_ok next ha).trans hb⟩

end Traced

namespace Route

/-- The route with these listeners for being passed. -/
def putPass (onPass : Signal) (route : Route) : Route := { route with onPass }

/-- The route with these listeners for a match. -/
def putMatch (onMatch : Signal) (route : Route) : Route := { route with onMatch }

theorem checkRules_congr {a b : Route} (h : a.optionalParamIds = b.optionalParamIds)
    (params : Params) (rules : List (String × Rule)) :
    a.checkRules params rules = b.checkRules params rules := by
  induction rules with
  | nil => rfl
  | cons rule rules ih => rw [checkRules, checkRules, ih, checkRule, checkRule, h]

/-- Neither its number nor its listeners play a part in what a route accepts. -/
theorem accepts_congr {a b : Route} (hmatcher : a.matcher = b.matcher)
    (hids : a.paramIds = b.paramIds) (hoptional : a.optionalParamIds = b.optionalParamIds)
    (hrules : a.rules = b.rules) (request : String) : a.accepts request = b.accepts request := by
  have hparams : a.params? request = b.params? request := by
    rw [params?, params?, hmatcher, hids]
  rw [accepts, accepts, hparams, hrules]
  cases b.params? request with
  | none => rfl
  | some params => exact checkRules_congr hoptional params b.rules

end Route

namespace Router

variable {α : Type}

/-! ## The matches of a request -/

/-- A route is asked for, and if it accepts the request its arguments and the matches behind it are
added to the result. -/
theorem collect_cons (request : String) (fallback : Option Normalizer) (found : Bool)
    (route : Route) (routes : List Route) :
    collect request fallback found (route :: routes) =
      (if !found || route.greedy then route.accepts request else pure false) >>= fun accepted =>
        if accepted then
          Traced.ofResult (route.arguments request fallback) >>= fun arguments =>
            collect request fallback true routes >>= fun others =>
              pure (⟨route.id, arguments⟩ :: others)
        else collect request fallback found routes := by
  rw [collect]
  split <;> rfl

/-- The matches come from the routes in consult order, each from a route of its own. -/
theorem collect_ids {request : String} {fallback : Option Normalizer} {found : Bool}
    {routes : List Route} {ms : List Match}
    (h : (collect request fallback found routes).result = .ok ms) :
    (ms.map (·.id)).Sublist (routes.map (·.id)) := by
  induction routes generalizing found ms with
  | nil =>
    cases h
    exact List.Sublist.refl _
  | cons route routes ih =>
    rw [collect_cons] at h
    obtain ⟨accepted, -, h⟩ := Traced.bind_ok h
    cases accepted with
    | false => exact (ih h).cons _
    | true =>
      obtain ⟨arguments, -, h⟩ := Traced.bind_ok h
      obtain ⟨others, hothers, h⟩ := Traced.bind_ok h
      cases h
      exact (ih hothers).cons_cons _

theorem matches?_nodup {r : Router} (hr : r.Sound) {request : String} {ms : List Match}
    (h : (r.matches? request).result = .ok ms) : (ms.map (·.id)).Nodup :=
  hr.ids_nodup.sublist (collect_ids h)

/-! ## The phases -/

/-- The routes of the last result are told that they are passed. -/
def passPhase (request : String) (r : Router) : Delivery (Event α) Router :=
  Delivery.forEach (notifyPassed request) r.previous r

/-- The result is remembered, and then all are told of the matches. -/
def matchPhase (extra : List α) (request : String) (ms : List Match) (r : Router) :
    Delivery (Event α) Router :=
  Delivery.forEach (notifyMatched extra request) (markFirst ms)
    { r with previous := ms.map (·.id) }

theorem parse_of_failure {r : Router} {request : String} {reason : String}
    (h : (r.matches? request).result = .error reason) (extra : List α) :
    r.parse request extra =
      ⟨r, (r.matches? request).calls.map .predicate, some reason⟩ := by
  simp [parse, h, Delivery.after]

theorem parse_of_no_match {r : Router} {request : String}
    (h : (r.matches? request).result = .ok []) (extra : List α) :
    r.parse request extra =
      (notifyBypassed extra request r).after ((r.matches? request).calls.map .predicate) := by
  simp [parse, h]

theorem parse_of_matches {r : Router} {request : String} {ms : List Match}
    (h : (r.matches? request).result = .ok ms) (hne : ms ≠ []) (extra : List α) :
    r.parse request extra =
      ((passPhase request r).andThen (matchPhase extra request ms)).after
        ((r.matches? request).calls.map .predicate) := by
  obtain ⟨m, ms, rfl⟩ := List.exists_cons_of_ne_nil hne
  simp only [parse, h]
  rfl

/-! ## The calls that are due -/

/-- The calls to the listeners of a route that is passed; a route that was removed has none. -/
def passDueOf (r : Router) (request : String) (id : RouteId) : List (Call (Event α)) :=
  match r.route? id with
  | none => []
  | some route => route.onPass.due (Event.passed · request)

/-- The calls of the first phase. -/
def passDue (r : Router) (request : String) : List (Call (Event α)) :=
  r.previous.flatMap (r.passDueOf request)

/-- The calls to the listeners of a route that matched. -/
def matchDueOf (r : Router) (extra : List α) (m : Match) : List (Call (Event α)) :=
  match r.route? m.id with
  | none => []
  | some route => route.onMatch.due (Event.matched · extra m.arguments)

/-- The calls of the second phase.  The listeners of the router are called for every match, those
that are called once for the first of them. -/
def matchDue (r : Router) (extra : List α) (request : String) :
    Signal → List (Match × Bool) → List (Call (Event α))
  | _, [] => []
  | onMatch, (m, isFirst) :: ms =>
    r.matchDueOf extra m ++
      (onMatch.due (Event.routed · extra request m.id m.arguments isFirst) ++
        r.matchDue extra request onMatch.spent ms)

/-! ### Single notifications -/

theorem notifyPassed_eq (request : String) (id : RouteId) (r : Router) :
    notifyPassed (α := α) request id r =
      match r.route? id with
      | none => .done r
      | some route =>
        (route.onPass.dispatch (Event.passed · request)).within fun onPass =>
          r.modify id (Route.putPass onPass) := rfl

theorem makes_notifyPassed (request : String) (id : RouteId) (r : Router) :
    (notifyPassed (α := α) request id r).Makes (r.passDueOf request id) := by
  rw [notifyPassed_eq, passDueOf]
  cases r.route? id with
  | none => exact Delivery.makes_done r
  | some route => exact (Signal.makes_dispatch _ _).within _

/-- Other routes do not see that one is passed. -/
theorem route?_notifyPassed_of_ne (request : String) {id other : RouteId} (h : other ≠ id)
    (r : Router) : (notifyPassed (α := α) request id r).state.route? other = r.route? other := by
  rw [notifyPassed_eq]
  cases r.route? id with
  | none => rfl
  | some route => exact route?_modify_of_ne (Route.putPass _) (fun _ => rfl) r h

/-- What a match of one route is told to that route, before the router hears of it. -/
def notifyRoute (extra : List α) (m : Match) (r : Router) : Delivery (Event α) Router :=
  match r.route? m.id with
  | none => .done r
  | some route =>
    (route.onMatch.dispatch (Event.matched · extra m.arguments)).within fun onMatch =>
      r.modify m.id (Route.putMatch onMatch)

/-- What a match is told to the router. -/
def notifyRouter (extra : List α) (request : String) (m : Match) (isFirst : Bool) (r : Router) :
    Delivery (Event α) Router :=
  (r.onMatch.dispatch (Event.routed · extra request m.id m.arguments isFirst)).within fun onMatch =>
    { r with onMatch }

theorem notifyMatched_eq (extra : List α) (request : String) (m : Match) (isFirst : Bool)
    (r : Router) :
    notifyMatched extra request (m, isFirst) r =
      (notifyRoute extra m r).andThen (notifyRouter extra request m isFirst) := rfl

theorem makes_notifyRoute (extra : List α) (m : Match) (r : Router) :
    (notifyRoute extra m r).Makes (r.matchDueOf extra m) := by
  rw [notifyRoute, matchDueOf]
  cases r.route? m.id with
  | none => exact Delivery.makes_done r
  | some route => exact (Signal.makes_dispatch _ _).within _

theorem notifyRoute_onMatch (extra : List α) (m : Match) (r : Router) :
    (notifyRoute extra m r).state.onMatch = r.onMatch := by
  rw [notifyRoute]
  cases r.route? m.id <;> rfl

theorem makes_notifyMatched (extra : List α) (request : String) (m : Match) (isFirst : Bool)
    (r : Router) :
    (notifyMatched extra request (m, isFirst) r).Makes
      (r.matchDueOf extra m ++
        r.onMatch.due (Event.routed · extra request m.id m.arguments isFirst)) := by
  rw [notifyMatched_eq]
  refine (makes_notifyRoute extra m r).andThen ?_
  intro _
  rw [notifyRouter, notifyRoute_onMatch]
  exact (Signal.makes_dispatch _ _).within _

theorem route?_notifyMatched_of_ne (extra : List α) (request : String) (m : Match)
    (isFirst : Bool) {other : RouteId} (h : other ≠ m.id) (r : Router) :
    (notifyMatched extra request (m, isFirst) r).state.route? other = r.route? other := by
  have hroute : (notifyRoute extra m r).state.route? other = r.route? other := by
    rw [notifyRoute]
    cases r.route? m.id with
    | none => rfl
    | some route => exact route?_modify_of_ne (Route.putMatch _) (fun _ => rfl) r h
  rw [notifyMatched_eq]
  cases hf : (notifyRoute extra m r).failure with
  | some reason => rw [Delivery.andThen_of_failure _ (by simp [hf]), hroute]
  | none =>
    rw [Delivery.andThen_state_of_quiet _ hf]
    exact hroute

theorem notifyMatched_onMatch (extra : List α) (request : String) (m : Match) (isFirst : Bool)
    {r : Router} (h : (notifyMatched extra request (m, isFirst) r).failure = none) :
    (notifyMatched extra request (m, isFirst) r).state.onMatch = r.onMatch.spent := by
  rw [notifyMatched_eq] at h ⊢
  cases hf : (notifyRoute extra m r).failure with
  | some reason =>
    rw [Delivery.andThen_of_failure _ (by simp [hf]), hf] at h
    cases h
  | none =>
    simp only [Delivery.andThen, hf] at h
    rw [Delivery.andThen_state_of_quiet _ hf]
    exact (Signal.dispatch_state_of_quiet _ h).trans
      (congrArg Signal.spent (notifyRoute_onMatch extra m r))

/-! ### Whole phases -/

theorem makes_passPhase {r : Router} (hr : r.previous.Nodup) (request : String) :
    (passPhase (α := α) request r).Makes (r.passDue request) := by
  -- Routes that are still to be told have all the listeners they had.
  let Untold (ids : List RouteId) (s : Router) : Prop :=
    ids.Nodup ∧ ∀ id ∈ ids, s.route? id = r.route? id
  refine Delivery.makes_forEach (P := Untold) ?_ r.previous ⟨hr, fun _ _ => rfl⟩
  rintro id ids s ⟨hnodup, hsame⟩
  obtain ⟨hid, hids⟩ := List.nodup_cons.mp hnodup
  refine ⟨?_, fun _ => ⟨hids, fun other hother => ?_⟩⟩
  · have hdue : r.passDueOf (α := α) request id = s.passDueOf request id := by
      rw [passDueOf, passDueOf, hsame id List.mem_cons_self]
    exact hdue ▸ makes_notifyPassed request id s
  · have hne : other ≠ id := fun heq => hid (heq ▸ hother)
    rw [route?_notifyPassed_of_ne request hne]
    exact hsame other (List.mem_cons_of_mem _ hother)

/-- The second phase from any state in which the routes of the matches have the listeners that
they have in `r`. -/
theorem makes_forEach_notifyMatched (r : Router) (extra : List α) (request : String)
    (ms : List (Match × Bool)) (s : Router) (hnodup : (ms.map (·.1.id)).Nodup)
    (hsame : ∀ m ∈ ms, (s.route? m.1.id).map (·.onMatch) = (r.route? m.1.id).map (·.onMatch)) :
    (Delivery.forEach (notifyMatched extra request) ms s).Makes
      (r.matchDue extra request s.onMatch ms) := by
  induction ms generalizing s with
  | nil => exact Delivery.makes_done s
  | cons first ms ih =>
    obtain ⟨m, isFirst⟩ := first
    obtain ⟨hm, hms⟩ := List.nodup_cons.mp hnodup
    have hdue : s.matchDueOf extra m = r.matchDueOf extra m := by
      have h := hsame (m, isFirst) List.mem_cons_self
      rw [matchDueOf, matchDueOf]
      revert h
      cases s.route? m.id <;> cases r.route? m.id <;> simp
      intro h
      rw [h]
    rw [Delivery.forEach, matchDue, ← List.append_assoc, ← hdue]
    refine (makes_notifyMatched extra request m isFirst s).andThen ?_
    intro hf
    have hnext := ih (notifyMatched extra request (m, isFirst) s).state hms fun other hother => ?_
    · rwa [notifyMatched_onMatch extra request m isFirst hf] at hnext
    · have hne : other.1.id ≠ m.id := fun heq =>
        hm (List.mem_map.mpr ⟨other, hother, heq⟩)
      rw [route?_notifyMatched_of_ne extra request m isFirst hne]
      exact hsame other (List.mem_cons_of_mem _ hother)

theorem map_fst_markFirst (ms : List Match) : (markFirst ms).map (·.1) = ms := by
  cases ms with
  | nil => rfl
  | cons m ms => simp [markFirst, Function.comp_def]

theorem map_id_markFirst (ms : List Match) :
    (markFirst ms).map (·.1.id) = ms.map (·.id) := by
  have h := congrArg (List.map (·.id)) (map_fst_markFirst ms)
  rwa [List.map_map] at h

theorem makes_matchPhase {ms : List Match} (hnodup : (ms.map (·.id)).Nodup) (r s : Router)
    (extra : List α) (request : String)
    (hsame : ∀ id, (s.route? id).map (·.onMatch) = (r.route? id).map (·.onMatch)) :
    (matchPhase extra request ms s).Makes (r.matchDue extra request s.onMatch (markFirst ms)) := by
  exact makes_forEach_notifyMatched r extra request (markFirst ms)
    { s with previous := ms.map (·.id) } ((map_id_markFirst ms).symm ▸ hnodup) fun m _ =>
      hsame m.1.id

/-! ## What stays as it was -/

theorem notifyPassed_frame (request : String) (id : RouteId) (r : Router) :
    let s := (notifyPassed (α := α) request id r).state
    s.bare = r.bare ∧ s.previous = r.previous ∧ s.onMatch = r.onMatch ∧
      s.onDefault = r.onDefault := by
  rw [notifyPassed_eq]
  cases r.route? id with
  | none => exact ⟨rfl, rfl, rfl, rfl⟩
  | some route => exact ⟨bare_modify (Route.putPass _) (fun _ => rfl) r id, rfl, rfl, rfl⟩

/-- Being passed does not concern the listeners for a match. -/
theorem notifyPassed_route?_onMatch (request : String) (id other : RouteId) (r : Router) :
    ((notifyPassed (α := α) request id r).state.route? other).map (·.onMatch) =
      (r.route? other).map (·.onMatch) := by
  rw [notifyPassed_eq]
  cases r.route? id with
  | none => rfl
  | some route =>
    refine (congrArg _ (route?_modify (Route.putPass _) (fun _ => rfl) r id other)).trans ?_
    rw [Option.map_map]
    congr 1
    funext route
    simp only [Function.comp]
    split <;> rfl

theorem notifyMatched_frame (extra : List α) (request : String) (m : Match × Bool) (r : Router) :
    let s := (notifyMatched extra request m r).state
    s.bare = r.bare ∧ s.previous = r.previous ∧ s.onDefault = r.onDefault := by
  obtain ⟨m, isFirst⟩ := m
  have hroute : (notifyRoute extra m r).state.bare = r.bare ∧
      (notifyRoute extra m r).state.previous = r.previous ∧
      (notifyRoute extra m r).state.onDefault = r.onDefault := by
    rw [notifyRoute]
    cases r.route? m.id with
    | none => exact ⟨rfl, rfl, rfl⟩
    | some route => exact ⟨bare_modify (Route.putMatch _) (fun _ => rfl) r m.id, rfl, rfl⟩
  rw [notifyMatched_eq]
  cases hf : (notifyRoute extra m r).failure with
  | some reason => rwa [Delivery.andThen_of_failure _ (by simp [hf])]
  | none =>
    rw [Delivery.andThen_state_of_quiet _ hf]
    exact hroute

theorem passPhase_frame (request : String) (r : Router) :
    let s := (passPhase (α := α) request r).state
    s.bare = r.bare ∧ s.previous = r.previous ∧ s.onMatch = r.onMatch ∧
      s.onDefault = r.onDefault := by
  refine Delivery.forEach_state_induct (P := fun s : Router => s.bare = r.bare ∧
    s.previous = r.previous ∧ s.onMatch = r.onMatch ∧ s.onDefault = r.onDefault) ?_ _
    ⟨rfl, rfl, rfl, rfl⟩
  rintro id s ⟨hbare, hprevious, hmatch, hdefault⟩
  obtain ⟨hb, hp, hm, hd⟩ := notifyPassed_frame (α := α) request id s
  exact ⟨hb.trans hbare, hp.trans hprevious, hm.trans hmatch, hd.trans hdefault⟩

theorem passPhase_route?_onMatch (request : String) (r : Router) (id : RouteId) :
    ((passPhase (α := α) request r).state.route? id).map (·.onMatch) =
      (r.route? id).map (·.onMatch) := by
  refine Delivery.forEach_state_induct (P := fun s : Router =>
    (s.route? id).map (·.onMatch) = (r.route? id).map (·.onMatch)) ?_ _ rfl
  intro other s hs
  exact (notifyPassed_route?_onMatch request other id s).trans hs

theorem matchPhase_frame (extra : List α) (request : String) (ms : List Match) (r : Router) :
    let s := (matchPhase extra request ms r).state
    s.bare = r.bare ∧ s.previous = ms.map (·.id) ∧ s.onDefault = r.onDefault := by
  refine Delivery.forEach_state_induct (P := fun s : Router => s.bare = r.bare ∧
    s.previous = ms.map (·.id) ∧ s.onDefault = r.onDefault) ?_ _ ⟨rfl, rfl, rfl⟩
  rintro m s ⟨hbare, hprevious, hdefault⟩
  obtain ⟨hb, hp, hd⟩ := notifyMatched_frame extra request m s
  exact ⟨hb.trans hbare, hp.trans hprevious, hd.trans hdefault⟩

/-- The calls of a parse that matches something. -/
theorem makes_phases {r : Router} (hr : r.Sound) {request : String} {ms : List Match}
    (h : (r.matches? request).result = .ok ms) (extra : List α) :
    ((passPhase request r).andThen (matchPhase extra request ms)).Makes
      (r.passDue request ++ r.matchDue extra request r.onMatch (markFirst ms)) := by
  refine (makes_passPhase hr.previous_nodup request).andThen ?_
  intro _
  have hmatch := makes_matchPhase (matches?_nodup hr h) r (passPhase (α := α) request r).state
    extra request fun id => passPhase_route?_onMatch request r id
  rwa [(passPhase_frame request r).2.2.1] at hmatch

/-- What a parse remembers: the new result, once the routes of the last one have been told without
a failure that they are passed. -/
def remembers (r : Router) (α : Type) (request : String) : List RouteId :=
  match (r.matches? request).result with
  | .ok (m :: ms) =>
    if (passPhase (α := α) request r).failure = none then (m :: ms).map (·.id) else r.previous
  | _ => r.previous

/-- A parse changes listeners and the last result, and nothing else. -/
theorem parse_frame (r : Router) (request : String) (extra : List α) :
    let s := (r.parse request extra).state
    s.bare = r.bare ∧ s.previous = r.remembers α request := by
  rw [remembers]
  cases h : (r.matches? request).result with
  | error reason =>
    rw [parse_of_failure h]
    exact ⟨rfl, rfl⟩
  | ok ms =>
    cases ms with
    | nil =>
      rw [parse_of_no_match h]
      exact ⟨rfl, rfl⟩
    | cons m ms =>
      rw [parse_of_matches h (List.cons_ne_nil m ms)]
      obtain ⟨hb, hp, -, -⟩ := passPhase_frame (α := α) request r
      simp only [Delivery.after]
      cases hf : (passPhase (α := α) request r).failure with
      | some reason =>
        rw [Delivery.andThen_of_failure _ (by simp [hf])]
        exact ⟨hb, by simpa using hp⟩
      | none =>
        rw [Delivery.andThen_state_of_quiet _ hf]
        obtain ⟨hb', hp', -⟩ := matchPhase_frame extra request (m :: ms)
          (passPhase (α := α) request r).state
        exact ⟨hb'.trans hb, by simpa using hp'⟩

/-- What is remembered behind a parse: the old result or the new one. -/
theorem remembers_cases (r : Router) (α : Type) (request : String) :
    r.remembers α request = r.previous ∨
      ∃ ms, (r.matches? request).result = .ok ms ∧ r.remembers α request = ms.map (·.id) := by
  rw [remembers]
  split
  · next m ms h =>
    split
    · exact Or.inr ⟨m :: ms, h, rfl⟩
    · exact Or.inl rfl
  · exact Or.inl rfl

theorem Sound.parse {r : Router} (h : r.Sound) (request : String) (extra : List α) :
    (r.parse request extra).state.Sound := by
  obtain ⟨hbare, hprevious⟩ := parse_frame r request extra
  rcases remembers_cases r α request with hold | ⟨ms, hms, hnew⟩
  · rw [hold] at hprevious
    exact h.of_bare hbare (hprevious ▸ h.previous_nodup) (hprevious ▸ h.previous_fresh)
  · rw [hnew] at hprevious
    refine h.of_bare hbare (hprevious ▸ matches?_nodup h hms) ?_
    rw [hprevious]
    intro id hid
    obtain ⟨route, hroute, rfl⟩ := List.mem_map.mp ((collect_ids hms).mem hid)
    exact h.fresh route hroute

end Router

end RouteDispatch
