/-
# Runs of operations on a router

`Operation` lists everything that the owner of a router can do with it, and
`run` does a list of such things in order.  A parse that fails half-way leaves
the state it had reached, and the run goes on from there.

What user code remembers from call to call is covered as well.  A listener says
of each of its calls whether that one fails; a predicate or a normalizer that
comes to answer otherwise is one that was replaced by another
(`RouteChange.addRule`, `RouteChange.setNormalizer`, `Operation.turn`).

The step lemmas are `perform_sound`, which keeps the invariant, and
`perform_route?`, which says that a number once given out belongs to the same
route for as long as it belongs to any.
-/
import RouteDispatch.Proofs.Router.Parse
import RouteDispatch.RouteTable

namespace RouteDispatch

/-- A change that is made to a route through its router. -/
inductive RouteChange where
  | addRule (name : String) (rule : Rule)
  | setGreedy (greedy : Bool)
  | setNormalizer (normalizer : Normalizer)
  | onMatch (l : Listener)
  | onPass (l : Listener)
  | clearListeners

/-- The route once it is changed. -/
def RouteChange.apply : RouteChange → Route → Route
  | addRule name rule, route => route.addRule name rule
  | setGreedy greedy, route => { route with greedy }
  | setNormalizer normalizer, route => { route with normalizer := some normalizer }
  | onMatch l, route => { route with onMatch := route.onMatch.add l }
  | onPass l, route => { route with onPass := route.onPass.add l }
  | clearListeners, route => route.clearListeners

/-- What can be done with a router whose requests come with extra arguments of type `α`. -/
inductive Operation (α : Type) where
  | add (pattern : Pattern) (priority : Int)
  | apply (table : RouteTable) (engine : Regex.Engine)
  | remove (id : RouteId)
  | removeAll
  | change (id : RouteId) (c : RouteChange)
  | onMatch (l : Listener)
  | onDefault (l : Listener)
  | clearListeners
  /-- The normalizer of the router comes to answer otherwise. -/
  | turn (normalizer : Option Normalizer)
  | parse (request : String) (extra : List α)

/-- A request with the extra arguments that come with it. -/
structure Request (α : Type) where
  text : String
  extra : List α := []

/-- The operation that dispatches a request. -/
def Request.operation {α : Type} (q : Request α) : Operation α := .parse q.text q.extra

/-- The route as it was when it was registered. -/
def Route.asRegistered (route : Route) : Route :=
  { route with rules := [], greedy := false, normalizer := none, onMatch := {}, onPass := {} }

namespace Router

variable {α : Type}

/-- Does one thing. -/
def perform (r : Router) : Operation α → Delivery (Event α) Router
  | .add pattern priority => .done (r.add pattern priority).2
  | .apply table engine =>
    .done (match table.apply r engine with
      | .ok (_, r) => r
      | .error _ => r)
  | .remove id => .done (r.remove id).2
  | .removeAll => .done r.removeAll
  | .change id c => .done (r.modify id c.apply)
  | .onMatch l => .done { r with onMatch := r.onMatch.add l }
  | .onDefault l => .done { r with onDefault := r.onDefault.add l }
  | .clearListeners => .done r.clearListeners
  | .turn normalizer => .done { r with normalizer }
  | .parse request extra => r.parse request extra

/-- The router after a run. -/
def run (r : Router) (ops : List (Operation α)) : Router :=
  ops.foldl (fun r op => (r.perform op).state) r

/-- The steps of a run, each with the router before it. -/
def history (r : Router) : List (Operation α) → List (Router × Operation α)
  | [] => []
  | op :: ops => (r, op) :: history (r.perform op).state ops

/-- The deliveries of some requests, dispatched one after the other. -/
def deliveries (r : Router) : List (Request α) → List (Delivery (Event α) Router)
  | [] => []
  | q :: calls =>
    let d := r.parse q.text q.extra
    d :: d.state.deliveries calls

/-- The router can be reached from a new one. -/
def Reachable (r : Router) : Prop :=
  ∃ (α : Type) (options : RouterOptions) (ops : List (Operation α)), r = (ofOptions options).run ops

theorem run_append (r : Router) (first second : List (Operation α)) :
    r.run (first ++ second) = (r.run first).run second := List.foldl_append

theorem history_append (r : Router) (first second : List (Operation α)) :
    r.history (first ++ second) = r.history first ++ (r.run first).history second := by
  induction first generalizing r with
  | nil => rfl
  | cons op first ih => exact congrArg ((r, op) :: ·) (ih _)

theorem mem_history {r : Router} {ops before after : List (Operation α)} {op : Operation α}
    (h : ops = before ++ op :: after) : (r.run before, op) ∈ r.history ops := by
  rw [h, history_append]
  exact List.mem_append_right _ List.mem_cons_self

/-! ## Tables -/

theorem modify_asRegistered_of_frame {change : Route → Route}
    (h : ∀ route, (change route).asRegistered = route.asRegistered) (route : Route) :
    (change route).id = route.id ∧ (change route).priority = route.priority := by
  have hid := congrArg Route.id (h route)
  have hpriority := congrArg Route.priority (h route)
  exact ⟨hid, hpriority⟩

theorem addRules_asRegistered (rules : List (String × Rule)) (route : Route) :
    (route.addRules rules).asRegistered = route.asRegistered := by
  rw [Route.addRules]
  induction rules generalizing route with
  | nil => rfl
  | cons rule rules ih =>
    rw [List.foldl_cons, ih]
    rfl

/-- What an entry of a table makes of the route that is registered for it. -/
def entryChange (entry : RouteEntry) (rules : List (String × Rule)) (route : Route) : Route :=
  { route with greedy := entry.greedy }.addRules rules

theorem entryChange_asRegistered (entry : RouteEntry) (rules : List (String × Rule))
    (route : Route) : (entryChange entry rules route).asRegistered = route.asRegistered := by
  rw [entryChange, addRules_asRegistered]
  rfl

theorem register_eq (entry : RouteEntry) (rules : List (String × Rule)) (r : Router) :
    entry.register rules r =
      ((r.add (.template entry.pattern) entry.priority).1,
        (r.add (.template entry.pattern) entry.priority).2.modify
          (r.add (.template entry.pattern) entry.priority).1 (entryChange entry rules)) := rfl

theorem apply_cases (table : RouteTable) (engine : Regex.Engine) (r : Router) :
    (∃ e, table.apply r engine = .error e) ∨
      ∃ entries, table.apply r engine = .ok (RouteTable.registerAll entries r) := by
  rw [RouteTable.apply]
  cases table.routes.mapM fun entry => do
      return (entry, ← entry.compileRules engine) with
  | error e => exact Or.inl ⟨e, rfl⟩
  | ok entries => exact Or.inr ⟨entries, rfl⟩

/-- What registering an entry keeps, applying a table keeps. -/
theorem apply_induct {P : Router → Prop}
    (step : ∀ entry rules r, P r → P (RouteEntry.register entry rules r).2) (table : RouteTable)
    (engine : Regex.Engine) {r : Router} (h : P r) :
    P (r.perform (.apply table engine : Operation α)).state := by
  have hall : ∀ entries, P (RouteTable.registerAll entries r).2 := by
    intro entries
    induction entries generalizing r with
    | nil => exact h
    | cons first entries ih => exact ih (step first.1 first.2 r h)
  simp only [perform, Delivery.done]
  rcases apply_cases table engine r with ⟨e, he⟩ | ⟨entries, hentries⟩
  · rw [he]
    exact h
  · rw [hentries]
    exact hall entries

/-! ## The invariant along a run -/

theorem change_asRegistered (c : RouteChange) (route : Route) :
    (c.apply route).asRegistered = route.asRegistered := by
  cases c <;> rfl

theorem Sound.modify_of_frame {r : Router} (h : r.Sound) {change : Route → Route}
    (hframe : ∀ route, (change route).asRegistered = route.asRegistered) (id : RouteId) :
    (r.modify id change).Sound :=
  h.modify (fun route => (modify_asRegistered_of_frame hframe route).1)
    (fun route => (modify_asRegistered_of_frame hframe route).2) id

theorem Sound.register {r : Router} (h : r.Sound) (entry : RouteEntry)
    (rules : List (String × Rule)) : (entry.register rules r).2.Sound := by
  rw [register_eq]
  exact (h.add _ _).modify_of_frame (entryChange_asRegistered entry rules) _

theorem perform_sound {r : Router} (h : r.Sound) (op : Operation α) : (r.perform op).state.Sound := by
  cases op with
  | add pattern priority => exact h.add pattern priority
  | apply table engine =>
    exact apply_induct (fun entry rules r h => h.register entry rules) table engine h
  | remove id => exact h.remove id
  | removeAll => exact h.removeAll
  | change id c => exact h.modify_of_frame (change_asRegistered c) id
  | onMatch l => exact ⟨h.order, h.ids_nodup, h.fresh, h.previous_nodup, h.previous_fresh⟩
  | onDefault l => exact ⟨h.order, h.ids_nodup, h.fresh, h.previous_nodup, h.previous_fresh⟩
  | clearListeners => exact ⟨h.order, h.ids_nodup, h.fresh, h.previous_nodup, h.previous_fresh⟩
  | turn normalizer => exact ⟨h.order, h.ids_nodup, h.fresh, h.previous_nodup, h.previous_fresh⟩
  | parse request extra => exact h.parse request extra

theorem run_sound {r : Router} (h : r.Sound) (ops : List (Operation α)) : (r.run ops).Sound := by
  induction ops generalizing r with
  | nil => exact h
  | cons op ops ih => exact ih (perform_sound h op)

theorem sound_of_mem_history {r : Router} (hr : r.Sound) {ops : List (Operation α)}
    {step : Router × Operation α} (h : step ∈ r.history ops) : step.1.Sound := by
  induction ops generalizing r with
  | nil => cases h
  | cons op ops ih =>
    rcases List.mem_cons.mp h with rfl | h
    · exact hr
    · exact ih (perform_sound hr op) h

theorem Reachable.sound {r : Router} (h : r.Reachable) : r.Sound := by
  obtain ⟨α, options, ops, rfl⟩ := h
  exact run_sound (sound_ofOptions options) ops

/-! ## Whose a number is -/

theorem route?_add_of_lt {r : Router} {id : RouteId} (h : id.index < r.nextId) (pattern : Pattern)
    (priority : Int) : (r.add pattern priority).2.route? id = r.route? id := by
  have hne : (⟨r.nextId⟩ : RouteId) ≠ id := fun heq => by
    rw [← heq] at h
    exact Nat.lt_irrefl _ h
  simp only [add, route?, place, List.find?_append]
  rw [List.find?_cons_of_neg (by simpa [Route.ofPattern] using hne), ← List.find?_append,
    List.takeWhile_append_dropWhile]

/-- The number has a route in `s` only if it has one in `r`, and then it is the same one, however
it was changed. -/
def Inherits (r s : Router) (id : RouteId) : Prop :=
  ∀ route, s.route? id = some route →
    ∃ old, r.route? id = some old ∧ old.asRegistered = route.asRegistered

theorem Inherits.refl (r : Router) (id : RouteId) : Inherits r r id :=
  fun route h => ⟨route, h, rfl⟩

theorem Inherits.of_route?_eq {r s : Router} {id : RouteId} (h : s.route? id = r.route? id) :
    Inherits r s id := fun route hroute => ⟨route, h ▸ hroute, rfl⟩

theorem Inherits.trans {r s t : Router} {id : RouteId} (hrs : Inherits r s id)
    (hst : Inherits s t id) : Inherits r t id := by
  intro route hroute
  obtain ⟨mid, hmid, heq⟩ := hst route hroute
  obtain ⟨old, hold, heq'⟩ := hrs mid hmid
  exact ⟨old, hold, heq'.trans heq⟩

theorem inherits_modify {change : Route → Route}
    (hframe : ∀ route, (change route).asRegistered = route.asRegistered) (r : Router)
    (id other : RouteId) : Inherits r (r.modify id change) other := by
  intro route hroute
  rw [route?_modify change (fun route => (modify_asRegistered_of_frame hframe route).1)] at hroute
  obtain ⟨old, hold, heq⟩ := Option.map_eq_some_iff.mp hroute
  refine ⟨old, hold, ?_⟩
  rw [← heq]
  split
  · exact (hframe old).symm
  · rfl

theorem inherits_of_bare {r s : Router} (h : s.bare = r.bare) (id : RouteId) : Inherits r s id := by
  have hfind : ∀ t : Router, t.bare.route? id = (t.route? id).map Route.clearListeners := by
    intro t
    simp only [bare, route?, List.find?_map]
    rfl
  intro route hroute
  have hmap : (r.route? id).map Route.clearListeners = some route.clearListeners := by
    rw [← hfind r, ← h, hfind s, hroute]
    rfl
  obtain ⟨old, hold, heq⟩ := Option.map_eq_some_iff.mp hmap
  have hregistered := congrArg Route.asRegistered heq
  exact ⟨old, hold, hregistered⟩

theorem perform_nextId_le (r : Router) (op : Operation α) :
    r.nextId ≤ (r.perform op).state.nextId := by
  cases op with
  | apply table engine =>
    refine apply_induct (P := fun s => r.nextId ≤ s.nextId) (fun _ _ s hs => ?_) table engine
      (Nat.le_refl _)
    exact Nat.le_succ_of_le hs
  | add pattern priority => exact Nat.le_succ _
  | parse request extra =>
    have hbare := (parse_frame r request extra).1
    exact Nat.le_of_eq (congrArg Router.nextId hbare).symm
  | _ => exact Nat.le_refl _

/-- Whatever is done, a number that was given out belongs to no other route than before. -/
theorem perform_route? {r : Router} {id : RouteId} (h : id.index < r.nextId) (op : Operation α) :
    Inherits r (r.perform op).state id := by
  cases op with
  | add pattern priority => exact .of_route?_eq (route?_add_of_lt h pattern priority)
  | apply table engine =>
    refine (apply_induct (P := fun s => id.index < s.nextId ∧ Inherits r s id) ?_ table engine
      ⟨h, .refl r id⟩).2
    rintro entry rules s ⟨hlt, hs⟩
    rw [register_eq]
    refine ⟨Nat.lt_succ_of_lt hlt, hs.trans ?_⟩
    exact (Inherits.of_route?_eq (route?_add_of_lt hlt _ _)).trans
      (inherits_modify (entryChange_asRegistered entry rules) _ _ id)
  | remove other =>
    intro route hroute
    have hmem := List.mem_of_find?_eq_some hroute
    have hne : route.id ≠ other := by simpa using (List.mem_filter.mp hmem).2
    have hid : route.id = id := (route?_mem hroute).2
    refine ⟨route, ?_, rfl⟩
    simp only [perform, Delivery.done, remove, route?, List.find?_filter] at hroute
    rw [route?, ← hroute]
    congr 1
    funext candidate
    by_cases hc : candidate.id = id
    · simp [hc, ← hid, hne]
    · simp [hc]
  | removeAll =>
    intro route hroute
    cases hroute
  | change other c => exact inherits_modify (change_asRegistered c) r other id
  | onMatch l => exact .of_route?_eq rfl
  | onDefault l => exact .of_route?_eq rfl
  | clearListeners => exact .of_route?_eq rfl
  | turn normalizer => exact .of_route?_eq rfl
  | parse request extra => exact inherits_of_bare (parse_frame r request extra).1 id

theorem run_route? {r : Router} {id : RouteId} (h : id.index < r.nextId)
    (ops : List (Operation α)) : Inherits r (r.run ops) id := by
  induction ops generalizing r with
  | nil => exact .refl r id
  | cons op ops ih =>
    exact (perform_route? h op).trans (ih (Nat.lt_of_lt_of_le h (perform_nextId_le r op)))

end Router

end RouteDispatch
