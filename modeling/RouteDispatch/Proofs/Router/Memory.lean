/-
# What a router remembers

The last result of a router, said of whole runs.  Any call to user code may fail
anywhere in the run; a parse that is cut short so leaves what it had done, and
the run goes on.

`previous_run` is the history of the last result: the latest step that settled it
decides (`Step.settles`).  A parse settles it if something matched and no
listener failed while those of the last result were told that they are passed;
what happens later in this parse plays no part.

The theorem at the end, `memory_of_run`, adds who hears of being passed.  That no
route hears it in the place of another one is a matter of numbers: they are never
given twice, so the number of a remembered route either belongs to this route or
to none (`run_route?`).
-/
import RouteDispatch.Proofs.Router.Run

namespace RouteDispatch

/-- The event is that a route was passed. -/
def Event.isPassed {α : Type} : Event α → Bool
  | passed _ _ => true
  | _ => false

namespace Router

variable {α : Type}

/-! ## The history of the last result -/

/-- No listener fails when the routes of the last result are told that they are passed. -/
def passesQuietly (r : Router) : Bool :=
  (r.previous.filterMap r.route?).all fun route =>
    route.onPass.listeners.all fun l => (l.fails l.calls).isNone

/-- The result of a request, if it is not empty and the routes of the last one have all been told
that they are passed. -/
def completed (r : Router) (request : String) : Option (List RouteId) :=
  match (r.matches? request).result with
  | .ok (m :: ms) => if r.passesQuietly then some ((m :: ms).map (·.id)) else none
  | _ => none

/-- The last result that a step settles, if it settles one. -/
def settles : Router × Operation α → Option (List RouteId)
  | (_, .removeAll) => some []
  | (r, .parse request _) => r.completed request
  | _ => none

/-- The last result that some steps leave behind: the one that the latest of them settled. -/
def lastSettled (steps : List (Router × Operation α)) : List RouteId :=
  (steps.reverse.findSome? settles).getD []

theorem quiet_passDue_iff (r : Router) (request : String) :
    Call.failure? (r.passDue (α := α) request) = none ↔ r.passesQuietly = true := by
  rw [Call.failure?_eq_none_iff, passesQuietly, List.all_eq_true]
  constructor
  · intro h route hroute
    obtain ⟨id, hid, hfound⟩ := List.mem_filterMap.mp hroute
    refine List.all_eq_true.mpr ?_
    intro l hl
    have hdue : Listener.due (Event.passed (α := α) · request) l ∈ r.passDue request := by
      refine List.mem_flatMap.mpr ⟨id, hid, ?_⟩
      rw [passDueOf, hfound]
      exact List.mem_map_of_mem hl
    exact Option.isNone_iff_eq_none.mpr (h _ hdue)
  · intro h c hc
    obtain ⟨id, hid, hc⟩ := List.mem_flatMap.mp hc
    rw [passDueOf] at hc
    cases hfound : r.route? id with
    | none =>
      rw [hfound] at hc
      exact absurd hc List.not_mem_nil
    | some route =>
      rw [hfound] at hc
      obtain ⟨l, hl, rfl⟩ := List.mem_map.mp hc
      have hroute := h route (List.mem_filterMap.mpr ⟨id, hid, hfound⟩)
      exact Option.isNone_iff_eq_none.mp (List.all_eq_true.mp hroute l hl)

theorem remembers_eq {r : Router} (hr : r.Sound) (request : String) :
    r.remembers α request = (r.completed request).getD r.previous := by
  have hquiet := quiet_passDue_iff (α := α) r request
  rw [← (makes_passPhase hr.previous_nodup request).failure] at hquiet
  rw [remembers, completed]
  rcases (r.matches? request).result with _ | _ | ⟨m, ms⟩
  · rfl
  · rfl
  · by_cases hf : (passPhase (α := α) request r).failure = none
    · simp only [if_pos hf, if_pos (hquiet.mp hf)]
      rfl
    · simp only [if_neg hf, if_neg fun hq => hf (hquiet.mpr hq)]
      rfl

/-- What one step does to the last result. -/
theorem perform_previous {r : Router} (hr : r.Sound) (op : Operation α) :
    (r.perform op).state.previous = (settles (r, op)).getD r.previous := by
  cases op with
  | apply table engine =>
    exact apply_induct (P := fun s => s.previous = r.previous) (fun _ _ _ hs => hs) table engine rfl
  | parse request extra =>
    exact (parse_frame r request extra).2.trans (remembers_eq hr request)
  | _ => rfl

theorem previous_run {r : Router} (hr : r.Sound) (ops : List (Operation α)) :
    (r.run ops).previous = ((r.history ops).reverse.findSome? settles).getD r.previous := by
  induction ops generalizing r with
  | nil => rfl
  | cons op ops ih =>
    have hstep := perform_previous hr op
    have hrest := ih (perform_sound hr op)
    rw [history, List.reverse_cons, List.findSome?_append, List.findSome?_singleton]
    rw [hstep] at hrest
    refine hrest.trans ?_
    cases ((r.perform op).state.history ops).reverse.findSome? settles <;> rfl

/-- Where a last result comes from: it is empty, or it was there before the run, or a parse of the
run settled it. -/
theorem previous_origin {r : Router} (hr : r.Sound) (ops : List (Operation α)) :
    (r.run ops).previous = [] ∨ (r.run ops).previous = r.previous ∨
      ∃ before request extra after, ops = before ++ .parse request extra :: after ∧
        (r.run before).completed request = some (r.run ops).previous := by
  induction ops generalizing r with
  | nil => exact Or.inr (Or.inl rfl)
  | cons op ops ih =>
    have hstep := perform_previous hr op
    rcases ih (perform_sound hr op) with hnil | hsame | ⟨before, request, extra, after, hops, hdone⟩
    · exact Or.inl hnil
    · have hrun : (r.run (op :: ops)).previous = (settles (r, op)).getD r.previous :=
        hsame.trans hstep
      cases hsettles : settles (r, op) with
      | none =>
        rw [hsettles] at hrun
        exact Or.inr (Or.inl hrun)
      | some ids =>
        rw [hsettles] at hrun
        cases op with
        | removeAll =>
          cases hsettles
          exact Or.inl hrun
        | parse request extra =>
          refine Or.inr (Or.inr ⟨[], request, extra, ops, rfl, ?_⟩)
          rw [hrun]
          exact hsettles
        | _ => cases hsettles
    · refine Or.inr (Or.inr ⟨op :: before, request, extra, after, ?_, hdone⟩)
      rw [hops]
      rfl

/-! ## Who is passed -/

theorem completed_matches {r : Router} {request : String} {ids : List RouteId}
    (h : r.completed request = some ids) :
    ∃ ms, (r.matches? request).result = .ok ms ∧ ids = ms.map (·.id) := by
  rw [completed] at h
  split at h
  · next m ms hms =>
    split at h
    · cases h
      exact ⟨m :: ms, hms, rfl⟩
    · cases h
  · cases h

theorem run_nextId_le (r : Router) (ops : List (Operation α)) : r.nextId ≤ (r.run ops).nextId := by
  induction ops generalizing r with
  | nil => exact Nat.le_refl _
  | cons op ops ih => exact Nat.le_trans (perform_nextId_le r op) (ih _)

/-- A remembered route that is still there has been there ever since the parse that remembered
it. -/
theorem previous_route? {r : Router} (hr : r.Sound) (hnew : r.previous = [])
    {ops : List (Operation α)} {id : RouteId} (hid : id ∈ (r.run ops).previous) {route : Route}
    (hroute : (r.run ops).route? id = some route) :
    ∃ before request extra after, ops = before ++ .parse request extra :: after ∧
      (r.run before).completed request = some (r.run ops).previous ∧
      ∀ through, before <+: through → through <+: ops →
        ((r.run through).route? id).map Route.asRegistered = some route.asRegistered := by
  rcases previous_origin hr ops with hnil | hsame | ⟨before, request, extra, after, hops, hdone⟩
  · rw [hnil] at hid
    exact absurd hid List.not_mem_nil
  · rw [hsame, hnew] at hid
    exact absurd hid List.not_mem_nil
  · refine ⟨before, request, extra, after, hops, hdone, ?_⟩
    rintro through ⟨since, rfl⟩ ⟨rest, hrest⟩
    obtain ⟨ms, hms, hids⟩ := completed_matches hdone
    have hlt : id.index < (r.run before).nextId := by
      rw [hids] at hid
      obtain ⟨old, hold, rfl⟩ := List.mem_map.mp ((collect_ids hms).mem hid)
      exact (run_sound hr before).fresh old hold
    have hlt' : id.index < (r.run (before ++ since)).nextId := by
      rw [run_append]
      exact Nat.lt_of_lt_of_le hlt (run_nextId_le _ since)
    rw [← hrest, run_append] at hroute
    obtain ⟨old, hold, heq⟩ := run_route? hlt' rest route hroute
    rw [hold, Option.map_some, heq]

theorem isPassed_matchDue {r : Router} {extra : List α} {request : String} {s : Signal}
    {ms : List (Match × Bool)} {c : Call (Event α)} (h : c ∈ r.matchDue extra request s ms) :
    c.event.isPassed = false := by
  induction ms generalizing s with
  | nil => exact absurd h List.not_mem_nil
  | cons first ms ih =>
    obtain ⟨m, isFirst⟩ := first
    rw [matchDue, List.mem_append, List.mem_append] at h
    rcases h with h | h | h
    · rw [matchDueOf] at h
      cases hroute : r.route? m.id with
      | none =>
        rw [hroute] at h
        exact absurd h List.not_mem_nil
      | some route =>
        rw [hroute] at h
        obtain ⟨l, -, rfl⟩ := List.mem_map.mp h
        rfl
    · obtain ⟨l, -, rfl⟩ := List.mem_map.mp h
      rfl
    · exact ih h

/-- With something matched, the remembered routes that are still there are told first, up to the
first listener that fails, and nobody is told later. -/
theorem passed_first {r : Router} (hr : r.Sound) {request : String} {ms : List Match}
    (h : (r.matches? request).result = .ok ms) (hne : ms ≠ []) (extra : List α) :
    let d := r.parse request extra
    ∃ others,
      d.events = (r.matches? request).calls.map .predicate ++
        ((Call.made (r.passDue request)).map (·.event) ++ others) ∧
      (∀ e ∈ others, e.isPassed = false) ∧
      (Call.failure? (r.passDue (α := α) request) ≠ none →
        others = [] ∧ d.failure = Call.failure? (r.passDue (α := α) request)) := by
  intro d
  have hmakes := makes_phases hr h extra
  have hd : d = _ := parse_of_matches h hne extra
  refine ⟨(if (Call.failure? (r.passDue (α := α) request)).isSome then []
    else Call.made (r.matchDue extra request r.onMatch (markFirst ms))).map (·.event), ?_, ?_, ?_⟩
  · rw [hd, Delivery.after, hmakes.events, Call.made_append, List.map_append]
  · intro e he
    obtain ⟨c, hc, rfl⟩ := List.mem_map.mp he
    split at hc
    · exact absurd hc List.not_mem_nil
    · exact isPassed_matchDue ((Call.made_prefix _).mem hc)
  · intro hf
    obtain ⟨reason, hreason⟩ := Option.ne_none_iff_exists'.mp hf
    refine ⟨by simp [hreason], ?_⟩
    rw [hd, Delivery.after, hmakes.failure, Call.failure?_append, hreason]
    rfl

/-! ## Whole runs -/

/-- The last result after any run of a new router is the one settled last; it names each route
once, and only numbers that were given out.  A parse that matches something tells those of it that
are still there, and each of these is the very route that the result was about. -/
theorem memory_of_run (options : RouterOptions) (ops : List (Operation α)) :
    let new := ofOptions options
    let r := new.run ops
    r.previous = lastSettled (new.history ops) ∧
      r.previous.Nodup ∧
      (∀ id ∈ r.previous, id.index < r.nextId) ∧
      (∀ request ms, (r.matches? request).result = .ok ms → ms ≠ [] → ∀ extra : List α,
        let d := r.parse request extra
        ∃ others,
          d.events = (r.matches? request).calls.map .predicate ++
            ((Call.made (r.passDue request)).map (·.event) ++ others) ∧
          (∀ e ∈ others, e.isPassed = false) ∧
          (Call.failure? (r.passDue (α := α) request) ≠ none →
            others = [] ∧ d.failure = Call.failure? (r.passDue (α := α) request))) ∧
      (∀ id ∈ r.previous, ∀ route, r.route? id = some route →
        ∃ before request extra after, ops = before ++ .parse request extra :: after ∧
          (new.run before).completed request = some r.previous ∧
          ∀ through, before <+: through → through <+: ops →
            ((new.run through).route? id).map Route.asRegistered = some route.asRegistered) := by
  intro new r
  have hnew : new.Sound := sound_ofOptions options
  have hr : r.Sound := run_sound hnew ops
  refine ⟨previous_run hnew ops, hr.previous_nodup, hr.previous_fresh, ?_, ?_⟩
  · intro request ms hms hne extra
    exact passed_first hr hms hne extra
  · intro id hid route hroute
    exact previous_route? hnew rfl hid hroute

end Router

end RouteDispatch
