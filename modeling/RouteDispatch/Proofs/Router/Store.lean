/-
# The routes of a router

What the operations do to the list of routes, seen through `route?` and
through the order in which routes are consulted.

`Router.Sound` is the invariant of this list and of the last result: the routes
stand in consult order, every number is given to one route only, and all
numbers, those of the last result included, are below the next one.

Listeners play no part in it.  `Router.bare` is a router without listeners and
without a last result; an operation that keeps it keeps the invariant of the
routes.
-/
import RouteDispatch.Router

namespace RouteDispatch

/-- The first route is consulted before the second: its priority is higher, or it was registered
earlier with the same priority. -/
def Route.Before (a b : Route) : Prop :=
  b.priority < a.priority ∨ b.priority = a.priority ∧ a.id.index < b.id.index

namespace Router

/-- What every reachable router satisfies. -/
structure Sound (r : Router) : Prop where
  order : r.routes.Pairwise Route.Before
  ids_nodup : (r.routes.map (·.id)).Nodup
  fresh : ∀ route ∈ r.routes, route.id.index < r.nextId
  previous_nodup : r.previous.Nodup
  previous_fresh : ∀ id ∈ r.previous, id.index < r.nextId

/-- The router without its listeners and its last result. -/
def bare (r : Router) : Router :=
  { r with
    routes := r.routes.map Route.clearListeners
    previous := []
    onMatch := {}
    onDefault := {} }

/-! ## Looking a route up -/

theorem route?_mem {r : Router} {id : RouteId} {route : Route} (h : r.route? id = some route) :
    route ∈ r.routes ∧ route.id = id := by
  refine ⟨List.mem_of_find?_eq_some h, ?_⟩
  have hid := List.find?_some h
  simpa using hid

/-- Where numbers are given once, a route is found under its own. -/
theorem route?_eq_some_of_mem {r : Router} (h : (r.routes.map (·.id)).Nodup) {route : Route}
    (hmem : route ∈ r.routes) : r.route? route.id = some route := by
  rw [route?]
  induction hr : r.routes generalizing r with
  | nil => exact absurd (hr ▸ hmem) List.not_mem_nil
  | cons first rest ih =>
    rw [hr, List.map_cons, List.nodup_cons] at h
    rw [hr] at hmem
    rcases List.mem_cons.mp hmem with rfl | hrest
    · exact List.find?_cons_of_pos (by simp)
    · have hne : first.id ≠ route.id := fun heq =>
        h.1 (heq ▸ List.mem_map_of_mem hrest)
      rw [List.find?_cons_of_neg (by simpa using hne)]
      exact ih (r := { r with routes := rest }) h.2 hrest rfl

/-! ## Changing a route -/

section
variable (change : Route → Route) (hid : ∀ route, (change route).id = route.id)
include hid

theorem route?_modify (r : Router) (id other : RouteId) :
    (r.modify id change).route? other =
      (r.route? other).map fun route => if other = id then change route else route := by
  have hp : (fun route : Route => (if route.id == id then change route else route).id == other) =
      fun route => route.id == other := by
    funext route
    split <;> simp [hid]
  simp only [route?, modify, List.find?_map, Function.comp_def, hp]
  cases hf : r.routes.find? (·.id == other) with
  | none => rfl
  | some route =>
    have hother : route.id = other := by simpa using List.find?_some hf
    simp [hother]

theorem route?_modify_of_ne (r : Router) {id other : RouteId} (h : other ≠ id) :
    (r.modify id change).route? other = r.route? other := by
  rw [route?_modify change hid]
  simp [h]

theorem ids_modify (r : Router) (id : RouteId) :
    (r.modify id change).routes.map (·.id) = r.routes.map (·.id) := by
  simp only [modify, List.map_map]
  refine List.map_congr_left ?_
  intro route _
  simp only [Function.comp]
  split
  · exact hid route
  · rfl

end

/-- A change that concerns listeners alone. -/
theorem bare_modify (change : Route → Route)
    (h : ∀ route, (change route).clearListeners = route.clearListeners) (r : Router) (id : RouteId) :
    (r.modify id change).bare = r.bare := by
  have hroutes : (r.modify id change).routes.map Route.clearListeners =
      r.routes.map Route.clearListeners := by
    simp only [modify, List.map_map]
    refine List.map_congr_left ?_
    intro route _
    simp only [Function.comp]
    split
    · exact h route
    · rfl
  simp only [bare, hroutes]
  rfl

/-! ## Registering a route -/

theorem place_perm (route : Route) (routes : List Route) :
    (place route routes).Perm (route :: routes) := by
  have hsplit := List.takeWhile_append_dropWhile
    (p := fun other : Route => decide (route.priority ≤ other.priority)) (l := routes)
  rw [place]
  refine List.perm_middle.trans ?_
  rw [hsplit]

theorem mem_place {route other : Route} {routes : List Route} :
    other ∈ place route routes ↔ other = route ∨ other ∈ routes :=
  (place_perm route routes).mem_iff.trans List.mem_cons

/-- In consult order, the routes behind the first of lower priority are of lower priority too. -/
theorem lower_of_mem_dropWhile {bound : Int} {routes : List Route}
    (h : routes.Pairwise Route.Before) {route : Route}
    (hmem : route ∈ routes.dropWhile fun other => decide (bound ≤ other.priority)) :
    route.priority < bound := by
  induction routes with
  | nil => exact absurd hmem List.not_mem_nil
  | cons first rest ih =>
    obtain ⟨hfirst, hrest⟩ := List.pairwise_cons.mp h
    by_cases hb : bound ≤ first.priority
    · rw [List.dropWhile_cons_of_pos (by simpa using hb)] at hmem
      exact ih hrest hmem
    · rw [List.dropWhile_cons_of_neg (by simpa using hb)] at hmem
      rcases List.mem_cons.mp hmem with rfl | hmem
      · omega
      · rcases hfirst route hmem with hlt | ⟨heq, -⟩ <;> omega

/-- A new route gets its place in consult order. -/
theorem place_order {route : Route} {routes : List Route} (h : routes.Pairwise Route.Before)
    (hnew : ∀ other ∈ routes, other.id.index < route.id.index) :
    (place route routes).Pairwise Route.Before := by
  rw [place]
  refine List.pairwise_append.mpr ⟨?_, List.pairwise_cons.mpr ⟨?_, ?_⟩, ?_⟩
  · exact h.sublist (List.takeWhile_sublist _)
  · exact fun other hother => Or.inl (lower_of_mem_dropWhile h hother)
  · exact h.sublist (List.dropWhile_sublist _)
  · intro ahead hahead other hother
    have hle : route.priority ≤ ahead.priority := by
      simpa using List.all_eq_true.mp List.all_takeWhile ahead hahead
    rcases List.mem_cons.mp hother with rfl | hother
    · have hlt := hnew ahead ((List.takeWhile_sublist _).mem hahead)
      rcases Int.lt_or_eq_of_le hle with hlt' | heq
      · exact Or.inl hlt'
      · exact Or.inr ⟨heq, hlt⟩
    · have hlow := lower_of_mem_dropWhile h hother
      exact Or.inl (Int.lt_of_lt_of_le hlow hle)

/-! ## The invariant -/

theorem sound_ofOptions (options : RouterOptions) : (ofOptions options).Sound where
  order := List.Pairwise.nil
  ids_nodup := List.nodup_nil
  fresh := fun _ h => absurd h List.not_mem_nil
  previous_nodup := List.nodup_nil
  previous_fresh := fun _ h => absurd h List.not_mem_nil

/-- The invariant asks nothing of listeners. -/
theorem Sound.of_bare {r s : Router} (h : r.Sound) (hbare : s.bare = r.bare)
    (hnodup : s.previous.Nodup) (hfresh : ∀ id ∈ s.previous, id.index < r.nextId) : s.Sound := by
  have hroutes : s.routes.map Route.clearListeners = r.routes.map Route.clearListeners :=
    congrArg Router.routes hbare
  have hnext : s.bare.nextId = r.bare.nextId := congrArg Router.nextId hbare
  have hids : s.routes.map (·.id) = r.routes.map (·.id) := by
    have := congrArg (List.map (·.id)) hroutes
    rwa [List.map_map, List.map_map] at this
  refine ⟨?_, hids ▸ h.ids_nodup, ?_, hnodup, fun id hid => hnext ▸ hfresh id hid⟩
  · have hr : (r.routes.map Route.clearListeners).Pairwise Route.Before :=
      List.pairwise_map.mpr h.order
    rw [← hroutes] at hr
    exact (List.pairwise_map (f := Route.clearListeners)).mp hr
  · intro route hroute
    have hmem : route.id ∈ r.routes.map (·.id) := hids ▸ List.mem_map_of_mem hroute
    obtain ⟨old, hold, heq⟩ := List.mem_map.mp hmem
    have hlt : route.id.index < r.bare.nextId := heq ▸ h.fresh old hold
    rwa [← hnext] at hlt

theorem Sound.add {r : Router} (h : r.Sound) (pattern : Pattern) (priority : Int) :
    (r.add pattern priority).2.Sound := by
  have hmem : ∀ {other}, other ∈ (r.add pattern priority).2.routes →
      other.id = ⟨r.nextId⟩ ∨ other ∈ r.routes := by
    intro other hother
    rcases mem_place.mp hother with rfl | hother
    · exact Or.inl rfl
    · exact Or.inr hother
  refine ⟨place_order h.order h.fresh, ?_, ?_, h.previous_nodup, ?_⟩
  · refine ((place_perm _ _).map _).nodup_iff.mpr (List.nodup_cons.mpr ⟨?_, h.ids_nodup⟩)
    intro hin
    obtain ⟨old, hold, heq⟩ := List.mem_map.mp hin
    have hlt := h.fresh old hold
    rw [heq] at hlt
    exact absurd hlt (Nat.lt_irrefl _)
  · intro other hother
    rcases hmem hother with heq | hother
    · rw [heq]
      exact Nat.lt_succ_self _
    · exact Nat.lt_succ_of_lt (h.fresh other hother)
  · exact fun id hid => Nat.lt_succ_of_lt (h.previous_fresh id hid)

theorem Sound.remove {r : Router} (h : r.Sound) (id : RouteId) : (r.remove id).2.Sound where
  order := h.order.sublist List.filter_sublist
  ids_nodup := h.ids_nodup.sublist (List.filter_sublist.map _)
  fresh := fun route hroute => h.fresh route (List.mem_filter.mp hroute).1
  previous_nodup := h.previous_nodup
  previous_fresh := h.previous_fresh

theorem Sound.removeAll {r : Router} (_ : r.Sound) : r.removeAll.Sound where
  order := List.Pairwise.nil
  ids_nodup := List.nodup_nil
  fresh := fun _ h => absurd h List.not_mem_nil
  previous_nodup := List.nodup_nil
  previous_fresh := fun _ h => absurd h List.not_mem_nil

/-- A change to a route that leaves its number and priority alone. -/
theorem Sound.modify {r : Router} (h : r.Sound) {change : Route → Route}
    (hid : ∀ route, (change route).id = route.id)
    (hpriority : ∀ route, (change route).priority = route.priority) (id : RouteId) :
    (r.modify id change).Sound where
  order := by
    refine List.pairwise_map.mpr (h.order.imp fun {a b} hab => ?_)
    have hkeep : ∀ route : Route, (if route.id == id then change route else route).id = route.id ∧
        (if route.id == id then change route else route).priority = route.priority := by
      intro route
      split
      · exact ⟨hid route, hpriority route⟩
      · exact ⟨rfl, rfl⟩
    obtain ⟨ha, ha'⟩ := hkeep a
    obtain ⟨hb, hb'⟩ := hkeep b
    rwa [Route.Before, ha, ha', hb, hb']
  ids_nodup := by
    rw [ids_modify change hid]
    exact h.ids_nodup
  fresh := by
    intro route hroute
    have hmem : route.id ∈ (r.modify id change).routes.map (·.id) := List.mem_map_of_mem hroute
    rw [ids_modify change hid] at hmem
    obtain ⟨old, hold, heq⟩ := List.mem_map.mp hmem
    exact heq ▸ h.fresh old hold
  previous_nodup := h.previous_nodup
  previous_fresh := h.previous_fresh

end Router

end RouteDispatch
