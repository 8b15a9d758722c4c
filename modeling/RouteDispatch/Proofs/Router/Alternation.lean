/-
# Matched, passed, matched

In a run without failures the dispatches on a route take turns: it is matched, then
passed, then matched again, for as long as it is registered, and a parse that matches
it twice in a row passes it in between.

The dispatches of a step are read off the router before it.  A parse that
matches something has those of the last result passed that are still there, and
then the routes of the new one are matched.  That listeners hear of these and of no
others is `placesOn_plan`: the plan calls the lists of exactly these routes.

The invariant is that the last result tells whose turn it is.  A registered route
that is in it was matched last, and one that is not was passed last or never
matched (`due`).  A route that was removed while it was remembered is the one
exception, and it has no turn any more (`Gone`).
-/
import RouteDispatch.Proofs.Router.Plan
import RouteDispatch.Proofs.Router.Run

namespace RouteDispatch

/-- What can be dispatched on a route. -/
inductive Dispatch where
  | matched
  | passed
deriving DecidableEq

namespace Dispatch

/-- Whose turn it is next. -/
def other : Dispatch → Dispatch
  | matched => passed
  | passed => matched

/-- The listeners that hear of it. -/
def channel (id : RouteId) : Dispatch → Channel
  | matched => .matched id
  | passed => .passed id

/-- The two kinds take turns, and this one comes first. -/
def Alternate : Dispatch → List Dispatch → Prop
  | _, [] => True
  | next, d :: ds => d = next ∧ Alternate next.other ds

end Dispatch

namespace Router

variable {α : Type}

/-! ## Dispatches -/

/-- The dispatches of a request with these matches. -/
def dispatchesOf (r : Router) : List Match → List (RouteId × Dispatch)
  | [] => []
  | ms =>
    (r.previous.filter fun id => (r.route? id).isSome).map (·, .passed) ++
      (ms.map (·.id)).map (·, .matched)

/-- The dispatches of a step, in order. -/
def dispatches : Router × Operation α → List (RouteId × Dispatch)
  | (r, .parse request _) =>
    match (r.matches? request).result with
    | .ok ms => r.dispatchesOf ms
    | .error _ => []
  | _ => []

/-- Those on one route. -/
def onRoute (id : RouteId) (ds : List (RouteId × Dispatch)) : List Dispatch :=
  (ds.filter (·.1 = id)).map (·.2)

/-- The dispatches of some steps on one route. -/
def dispatchesOn (id : RouteId) (steps : List (Router × Operation α)) : List Dispatch :=
  onRoute id (steps.flatMap dispatches)

/-- What is dispatched next on a route that is registered or will be. -/
def due (r : Router) (id : RouteId) : Dispatch := if id ∈ r.previous then .passed else .matched

/-- The route was registered and is not any more. -/
def Gone (r : Router) (id : RouteId) : Prop := id.index < r.nextId ∧ r.route? id = none

theorem onRoute_append (id : RouteId) (first second : List (RouteId × Dispatch)) :
    onRoute id (first ++ second) = onRoute id first ++ onRoute id second := by
  rw [onRoute, List.filter_append, List.map_append]
  rfl

/-- What only one member of a list without repetitions gives. -/
theorem flatMap_ite_of_nodup {β : Type} {ids : List RouteId} (h : ids.Nodup) (id : RouteId)
    (given : List β) :
    (ids.flatMap fun other => if other = id then given else []) = if id ∈ ids then given else [] := by
  induction ids with
  | nil => rfl
  | cons first ids ih =>
    obtain ⟨hfirst, hids⟩ := List.nodup_cons.mp h
    rw [List.flatMap_cons, ih hids]
    by_cases heq : first = id
    · subst heq
      simp [hfirst]
    · simp [heq, Ne.symm heq]

theorem onRoute_map (d : Dispatch) (id : RouteId) {ids : List RouteId} (h : ids.Nodup) :
    onRoute id (ids.map (·, d)) = if id ∈ ids then [d] else [] := by
  rw [← flatMap_ite_of_nodup h]
  clear h
  induction ids with
  | nil => rfl
  | cons first ids ih =>
    rw [List.flatMap_cons, ← ih]
    by_cases heq : first = id <;> simp [onRoute, heq]

/-- At most one dispatch of each kind. -/
theorem onRoute_dispatchesOf {r : Router} (hr : r.Sound) {ms : List Match} (hne : ms ≠ [])
    (hms : (ms.map (·.id)).Nodup) (id : RouteId) :
    onRoute id (r.dispatchesOf ms) =
      (if id ∈ r.previous ∧ (r.route? id).isSome then [.passed] else []) ++
        if id ∈ ms.map (·.id) then [.matched] else [] := by
  obtain ⟨m, ms, rfl⟩ := List.exists_cons_of_ne_nil hne
  rw [dispatchesOf, onRoute_append, onRoute_map _ _ (hr.previous_nodup.filter _), onRoute_map _ _ hms]
  · simp only [List.mem_filter]
  · exact List.cons_ne_nil m ms

theorem onRoute_sublist {r : Router} (hr : r.Sound) (op : Operation α) (id : RouteId) :
    (onRoute id (dispatches (r, op))).Sublist [.passed, .matched] := by
  cases op with
  | parse request extra =>
    rw [dispatches]
    cases h : (r.matches? request).result with
    | error reason => exact List.nil_sublist _
    | ok ms =>
      by_cases hne : ms = []
      · rw [hne]
        exact List.nil_sublist _
      · simp only
        rw [onRoute_dispatchesOf hr hne (matches?_nodup hr h)]
        have hone : ∀ (p : Prop) [Decidable p] (d : Dispatch),
            (if p then [d] else []).Sublist [d] := by
          intro p _ d
          split
          · exact List.Sublist.refl _
          · exact List.nil_sublist _
        exact (hone _ .passed).append (hone _ .matched)
  | _ => exact List.nil_sublist _

/-! ## Listeners hear of the dispatches -/

/-- The places that are called in a list, in order. -/
def placesOn (channel : Channel) (calls : List (Notice Seat (Event α))) : List Nat :=
  (calls.filter (·.seat.channel = channel)).map (·.seat.place)

theorem placesOn_append (channel : Channel) (first second : List (Notice Seat (Event α))) :
    placesOn channel (first ++ second) = placesOn channel first ++ placesOn channel second := by
  rw [placesOn, List.filter_append, List.map_append]
  rfl

theorem placesOn_flatMap {β : Type} (channel : Channel) (bs : List β)
    (f : β → List (Notice Seat (Event α))) :
    placesOn channel (bs.flatMap f) = bs.flatMap fun b => placesOn channel (f b) := by
  induction bs with
  | nil => rfl
  | cons b bs ih => rw [List.flatMap_cons, List.flatMap_cons, placesOn_append, ih]

theorem placesOn_eq_nil {channel : Channel} {calls : List (Notice Seat (Event α))}
    (h : ∀ n ∈ calls, n.seat.channel ≠ channel) : placesOn channel calls = [] := by
  rw [placesOn, List.filter_eq_nil_iff.mpr]
  · rfl
  · intro n hn
    simpa using h n hn

theorem placesOn_roll_of_ne (r : Router) {channel other : Channel} (h : other ≠ channel)
    (wanted : Listener → Bool) (event : String → Event α) :
    placesOn channel (r.roll other wanted event) = [] :=
  placesOn_eq_nil fun _ hn => channel_of_mem_roll hn ▸ h

/-- A list that is called as a whole is called in order. -/
theorem placesOn_roll_self (r : Router) (channel : Channel) (event : String → Event α) :
    placesOn channel (r.roll channel (fun _ => true) event) =
      List.range (r.signal channel).size := by
  rw [placesOn, List.filter_eq_self.mpr]
  · rw [roll, List.map_map, List.filter_eq_self.mpr fun _ _ => rfl]
    exact (List.zipIdx_map_snd 0 _).trans List.range_eq_range'.symm
  · intro n hn
    simpa using channel_of_mem_roll hn

theorem placesOn_passPlan {r : Router} (hr : r.previous.Nodup) (request : String) (id : RouteId) :
    placesOn (.passed id) (r.passPlan (α := α) request) =
      if id ∈ r.previous then List.range (r.signal (.passed id)).size else [] := by
  rw [passPlan, placesOn_flatMap, ← flatMap_ite_of_nodup hr]
  congr 1
  funext other
  split
  · next h => rw [h, placesOn_roll_self]
  · next h => exact placesOn_roll_of_ne r (by simpa using h) _ _

theorem placesOn_matchPlan (r : Router) (extra : List α) (request : String) {ms : List Match}
    (h : (ms.map (·.id)).Nodup) (id : RouteId) :
    placesOn (.matched id) (r.matchPlan extra request ms) =
      if id ∈ ms.map (·.id) then List.range (r.signal (.matched id)).size else [] := by
  rw [matchPlan, placesOn_flatMap, ← flatMap_ite_of_nodup h, ← map_id_markFirst, List.flatMap_map]
  congr 1
  funext m
  have hrouted : Channel.routed ≠ .matched id := by simp
  rw [matchPlanOf, placesOn_append, placesOn_roll_of_ne r hrouted, List.append_nil]
  split
  · next h => rw [← h, placesOn_roll_self]
  · next h => exact placesOn_roll_of_ne r (by simpa using h) _ _

theorem passed_mem_dispatchesOf {r : Router} {ms : List Match} (hne : ms ≠ []) {id : RouteId} :
    (id, Dispatch.passed) ∈ r.dispatchesOf ms ↔ id ∈ r.previous ∧ (r.route? id).isSome := by
  obtain ⟨m, ms, rfl⟩ := List.exists_cons_of_ne_nil hne
  simp [dispatchesOf]

theorem matched_mem_dispatchesOf {r : Router} {ms : List Match} (hne : ms ≠ []) {id : RouteId} :
    (id, Dispatch.matched) ∈ r.dispatchesOf ms ↔ id ∈ ms.map (·.id) := by
  obtain ⟨m, ms, rfl⟩ := List.exists_cons_of_ne_nil hne
  simp [dispatchesOf]

/-- Each dispatch calls the listeners of its list, every one and in order; lists without a dispatch are
not called. -/
theorem placesOn_plan {r : Router} (hr : r.Sound) (request : String) (extra : List α)
    {ms : List Match} (h : (ms.map (·.id)).Nodup) (id : RouteId) (d : Dispatch) :
    placesOn (d.channel id) (r.plan request extra ms) =
      if (id, d) ∈ r.dispatchesOf ms then List.range (r.signal (d.channel id)).size else [] := by
  by_cases hne : ms = []
  · subst hne
    have hbypassed : Channel.bypassed ≠ d.channel id := by cases d <;> simp [Dispatch.channel]
    have hnone : (id, d) ∉ r.dispatchesOf [] := List.not_mem_nil
    rw [if_neg hnone, plan]
    exact placesOn_roll_of_ne r hbypassed _ _
  · rw [plan_of_ne_nil r request extra hne, placesOn_append]
    cases d with
    | matched =>
      have hpass : placesOn (.matched id) (r.passPlan (α := α) request) = [] := by
        refine placesOn_eq_nil fun n hn hchannel => ?_
        have hphase := channel_of_mem_passPlan hn
        rw [hchannel] at hphase
        cases hphase
      simp only [Dispatch.channel, hpass, placesOn_matchPlan r extra request h id,
        matched_mem_dispatchesOf hne, List.nil_append]
    | passed =>
      have hmatch : placesOn (.passed id) (r.matchPlan extra request ms) = [] := by
        refine placesOn_eq_nil fun n hn hchannel => ?_
        have hphase := channel_of_mem_matchPlan hn
        rw [hchannel] at hphase
        cases hphase
      simp only [Dispatch.channel, hmatch, placesOn_passPlan hr.previous_nodup request id,
        passed_mem_dispatchesOf hne, List.append_nil]
      cases hroute : r.route? id with
      | some route => simp
      | none =>
        -- A route that is gone has no listeners.
        have hnone : r.signal (.passed id) = {} := by rw [signal, hroute]; rfl
        simp [hnone, Signal.size]

/-! ## Routes that are gone -/

theorem Gone.perform {r : Router} {id : RouteId} (h : r.Gone id) (op : Operation α) :
    (r.perform op).state.Gone id := by
  refine ⟨Nat.lt_of_lt_of_le h.1 (perform_nextId_le r op), ?_⟩
  cases hroute : (r.perform op).state.route? id with
  | none => rfl
  | some route =>
    obtain ⟨old, hold, -⟩ := perform_route? h.1 op route hroute
    rw [h.2] at hold
    cases hold

/-- The matches are registered. -/
theorem not_mem_matches_of_gone {r : Router} (hr : r.Sound) {id : RouteId} (h : r.Gone id)
    {request : String} {ms : List Match} (hms : (r.matches? request).result = .ok ms) :
    id ∉ ms.map (·.id) := by
  intro hid
  obtain ⟨route, hroute, rfl⟩ := List.mem_map.mp ((collect_ids hms).mem hid)
  have hfound := route?_eq_some_of_mem hr.ids_nodup hroute
  rw [h.2] at hfound
  cases hfound

theorem Gone.dispatches {r : Router} (hr : r.Sound) {id : RouteId} (h : r.Gone id)
    (op : Operation α) : onRoute id (dispatches (r, op)) = [] := by
  cases op with
  | parse request extra =>
    rw [Router.dispatches]
    cases hms : (r.matches? request).result with
    | error reason => rfl
    | ok ms =>
      by_cases hne : ms = []
      · rw [hne]
        rfl
      · simp only
        rw [onRoute_dispatchesOf hr hne (matches?_nodup hr hms),
          if_neg (not_mem_matches_of_gone hr h hms), h.2]
        simp
  | _ => rfl

theorem dispatchesOn_cons (id : RouteId) (step : Router × Operation α)
    (steps : List (Router × Operation α)) :
    dispatchesOn id (step :: steps) = onRoute id (dispatches step) ++ dispatchesOn id steps := by
  rw [dispatchesOn, List.flatMap_cons, onRoute_append]
  rfl

/-- Nothing is dispatched on a route that is gone. -/
theorem Gone.history {r : Router} (hr : r.Sound) {id : RouteId} (h : r.Gone id)
    (ops : List (Operation α)) : dispatchesOn id (r.history ops) = [] := by
  induction ops generalizing r with
  | nil => rfl
  | cons op ops ih =>
    rw [Router.history, dispatchesOn_cons, h.dispatches hr op, ih (perform_sound hr op) (h.perform op)]
    rfl

theorem gone_of_remove {r : Router} {id : RouteId} (h : id.index < r.nextId) :
    (r.remove id).2.Gone id := by
  refine ⟨h, List.find?_eq_none.mpr ?_⟩
  intro route hroute
  simpa using (List.mem_filter.mp hroute).2

theorem gone_of_removeAll {r : Router} {id : RouteId} (h : id.index < r.nextId) :
    r.removeAll.Gone id := ⟨h, rfl⟩

/-! ## Taking turns -/

/-- With no failure, the new result is remembered. -/
theorem previous_of_quiet {r : Router} (hr : r.Sound) {request : String} {ms : List Match}
    (h : (r.matches? request).result = .ok ms) (extra : List α)
    (hf : (r.parse request extra).failure = none) :
    (r.parse request extra).state.previous =
      if ms.isEmpty then r.previous else ms.map (·.id) := by
  rcases parse_follows hr h extra with ⟨-, hd⟩ | ⟨earlier, last, later, reason, -, -, -, hd⟩
  · rw [hd]
    rfl
  · rw [hd] at hf
    cases hf

/-- A parse that matches something: a route is passed if it was in the last result, and matched if
it is in the new one. -/
theorem alternate_round {was now : Prop} [Decidable was] [Decidable now] {rest : List Dispatch}
    (h : Dispatch.Alternate (if now then .passed else .matched) rest) :
    Dispatch.Alternate (if was then .passed else .matched)
      ((if was then [.passed] else []) ++ (if now then [.matched] else []) ++ rest) := by
  by_cases hwas : was <;> by_cases hnow : now <;>
    simp only [hwas, hnow, if_true, if_false, List.nil_append, List.append_nil,
      List.cons_append] at h ⊢
  · exact ⟨rfl, rfl, h⟩
  · exact ⟨rfl, h⟩
  · exact ⟨rfl, h⟩
  · exact h

theorem alternate_parse {r : Router} (hr : r.Sound) {request : String} {extra : List α}
    (hf : (r.parse request extra).failure = none) {id : RouteId} (hgone : ¬ r.Gone id)
    {rest : List Dispatch}
    (h : Dispatch.Alternate ((r.parse request extra).state.due id) rest) :
    Dispatch.Alternate (r.due id)
      (onRoute id (dispatches (r, .parse request extra)) ++ rest) := by
  rw [dispatches]
  cases hms : (r.matches? request).result with
  | error reason =>
    rw [parse_of_failure hms] at hf
    cases hf
  | ok ms =>
    have hprevious := previous_of_quiet hr hms extra hf
    by_cases hne : ms = []
    · subst hne
      rw [due, hprevious] at h
      exact h
    · have hregistered : (id ∈ r.previous ∧ (r.route? id).isSome) ↔ id ∈ r.previous := by
        refine ⟨And.left, fun hid => ⟨hid, ?_⟩⟩
        cases hroute : r.route? id with
        | none => exact absurd ⟨hr.previous_fresh id hid, hroute⟩ hgone
        | some route => rfl
      rw [if_neg (by simpa using hne)] at hprevious
      rw [due, hprevious] at h
      simp only [onRoute_dispatchesOf hr hne (matches?_nodup hr hms), hregistered]
      exact alternate_round h

/-- What one step does to the turns of a route. -/
theorem alternate_step {r : Router} (hr : r.Sound) {op : Operation α}
    (hf : (r.perform op).failure = none) {id : RouteId} {rest : List Dispatch}
    (h : Dispatch.Alternate ((r.perform op).state.due id) rest)
    (hrest : (r.perform op).state.Gone id → rest = []) :
    Dispatch.Alternate (r.due id) (onRoute id (dispatches (r, op)) ++ rest) := by
  by_cases hgone : r.Gone id
  · rw [hgone.dispatches hr op, hrest (hgone.perform op)]
    trivial
  · cases op with
    | parse request extra => exact alternate_parse hr hf hgone h
    | removeAll =>
      by_cases hlt : id.index < r.nextId
      · rw [hrest (gone_of_removeAll hlt)]
        trivial
      · have hnot : id ∉ r.previous := fun hid => hlt (hr.previous_fresh id hid)
        rw [due, if_neg hnot]
        exact h
    | apply table engine =>
      have hprevious :
          (r.perform (.apply table engine : Operation α)).state.previous = r.previous :=
        apply_induct (P := fun s => s.previous = r.previous) (fun _ _ _ hs => hs) table engine rfl
      rw [due, hprevious] at h
      exact h
    | _ => exact h

/-- The steps of a run in which nothing fails. -/
def QuietRun (r : Router) (ops : List (Operation α)) : Prop :=
  ∀ step ∈ r.history ops, (step.1.perform step.2).failure = none

theorem alternate_history {r : Router} (hr : r.Sound) {ops : List (Operation α)}
    (hquiet : r.QuietRun ops) (id : RouteId) :
    Dispatch.Alternate (r.due id) (dispatchesOn id (r.history ops)) := by
  induction ops generalizing r with
  | nil => trivial
  | cons op ops ih =>
    have hs := perform_sound hr op
    rw [history, dispatchesOn_cons]
    refine alternate_step hr (hquiet _ List.mem_cons_self) ?_ fun hgone => hgone.history hs ops
    exact ih hs fun step hstep => hquiet step (List.mem_cons_of_mem _ hstep)

/-! ## Whole runs -/

/-- In any run of a new router without failures, the dispatches on a route take turns, from a match
on; a step has at most one of each kind, the pass before the match; and there is none once the
route was removed.  What the listeners of a parse hear are its dispatches, each of them in order. -/
theorem alternation_of_run (options : RouterOptions) (ops : List (Operation α))
    (hquiet : (ofOptions options).QuietRun ops) :
    let new := ofOptions options
    (∀ id, Dispatch.Alternate .matched (dispatchesOn id (new.history ops))) ∧
      (∀ step ∈ new.history ops, ∀ id,
        (onRoute id (dispatches step)).Sublist [.passed, .matched]) ∧
      (∀ before op after id, ops = before ++ op :: after → op = .remove id ∨ op = .removeAll →
        id.index < (new.run before).nextId →
        dispatchesOn id ((new.run (before ++ [op])).history after) = []) ∧
      (∀ before request extra after, ops = before ++ .parse request extra :: after →
        let r := new.run before
        ∃ ms, (r.matches? request).result = .ok ms ∧
          (r.parse request extra).events = (r.matches? request).calls.map .predicate ++
            (r.plan request extra ms).map (·.event) ∧
          ∀ id d, placesOn (d.channel id) (r.plan request extra ms) =
            if (id, d) ∈ dispatches (r, .parse request extra) then
              List.range (r.signal (d.channel id)).size
            else []) := by
  intro new
  have hnew : new.Sound := sound_ofOptions options
  refine ⟨fun id => alternate_history hnew hquiet id, ?_, ?_, ?_⟩
  · intro step hstep id
    exact onRoute_sublist (sound_of_mem_history hnew hstep) step.2 id
  · intro before op after id _ hop hlt
    refine Gone.history (run_sound hnew _) ?_ after
    rw [run_append]
    rcases hop with rfl | rfl
    · exact gone_of_remove hlt
    · exact gone_of_removeAll hlt
  · intro before request extra after hops r
    have hr : r.Sound := run_sound hnew before
    have hf : (r.parse request extra).failure = none := hquiet _ (mem_history hops)
    cases hms : (r.matches? request).result with
    | error reason =>
      rw [parse_of_failure hms] at hf
      cases hf
    | ok ms =>
      refine ⟨ms, rfl, ?_, ?_⟩
      · rcases parse_follows hr hms extra with ⟨-, hd⟩ | ⟨earlier, last, later, reason, -, -, -, hd⟩
        · rw [hd]
        · rw [hd] at hf
          cases hf
      · intro id d
        rw [placesOn_plan hr request extra (matches?_nodup hr hms), dispatches, hms]

/-- A greedy route behind another one; the first is removed while it is remembered. -/
theorem alternation_of_run_two :
    let ops : List (Operation Unit) := [
      .add (.regex ⟨"", .empty⟩) 1, .add (.regex ⟨"", .empty⟩) 0, .change ⟨1⟩ (.setGreedy true),
      .parse "/a" [], .parse "/b" [()], .remove ⟨0⟩, .parse "/c" []]
    (ofOptions {}).QuietRun ops ∧
      dispatchesOn ⟨0⟩ ((ofOptions {}).history ops) = [.matched, .passed, .matched] ∧
      Dispatch.Alternate .matched (dispatchesOn ⟨1⟩ ((ofOptions {}).history ops)) := by
  intro ops
  have hquiet : (ofOptions {}).QuietRun ops := by
    have hall : ((ofOptions {}).history ops).all
        (fun step => (step.1.perform step.2).failure.isNone) = true := rfl
    exact fun step hstep => Option.isNone_iff_eq_none.mp (List.all_eq_true.mp hall step hstep)
  exact ⟨hquiet, rfl, (alternation_of_run {} ops hquiet).1 ⟨1⟩⟩

end Router

end RouteDispatch
