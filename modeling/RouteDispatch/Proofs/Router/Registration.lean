/-
# The order in which routes are registered

Routes of different priority may be registered in any order.  A router is filled
from a list of specifications, each with all that is set on its route.  If the
list is reordered, and those of one priority keep their order among themselves,
the router that comes out is the same but for the numbers of its routes
(`fill_eq_rename`), and so it does the same with every request.

The routes of a filled router are those it had and one for each specification.
They stand in consult order, which leaves no choice: two lists in consult order
with the same routes are the same list.  All that is to show of the renaming is
that it respects consult order among the routes there are (`rename_before`).  Of
routes with one priority this is what is asked of the reordering.
-/
import RouteDispatch.Proofs.Router.Renaming
import Mathlib.Data.List.FinRange

namespace RouteDispatch

/-- What a route is to be. -/
structure RouteSpec where
  pattern : Pattern
  priority : Int
  greedy : Bool := false
  rules : List (String × Rule) := []
  normalizer : Option Normalizer := none
  onMatch : List Listener := []
  onPass : List Listener := []

namespace RouteSpec

variable {α : Type}

/-- What is set on the route once it is registered. -/
def changes (spec : RouteSpec) : List RouteChange :=
  .setGreedy spec.greedy :: spec.rules.map (fun rule => .addRule rule.1 rule.2) ++
    spec.normalizer.toList.map .setNormalizer ++ spec.onMatch.map .onMatch ++
    spec.onPass.map .onPass

/-- Registers the route, which gets this number, and sets on it what it is to have. -/
def steps (spec : RouteSpec) (id : RouteId) : List (Operation α) :=
  .add spec.pattern spec.priority :: spec.changes.map (.change id)

/-- The route with this number. -/
def route (spec : RouteSpec) (mode : SlashMode) (id : RouteId) : Route :=
  spec.changes.foldl (fun route c => c.apply route)
    (Route.ofPattern id spec.pattern spec.priority mode)

/-- The specifications in another order; the one in place `π i` comes to place `i`. -/
def reorder (specs : List RouteSpec) (π : Equiv.Perm (Fin specs.length)) : List RouteSpec :=
  List.ofFn fun i => specs[π i]

/-- Specifications of one priority keep their order. -/
def KeepsOrder (specs : List RouteSpec) (π : Equiv.Perm (Fin specs.length)) : Prop :=
  ∀ i j, i < j → specs[π i].priority = specs[π j].priority → π i < π j

/-! ## The route of a specification -/

theorem apply_rename (σ : RouteId → RouteId) (c : RouteChange) (route : Route) :
    c.apply (route.rename σ) = (c.apply route).rename σ := by
  cases c <;> rfl

theorem route_rename (σ : RouteId → RouteId) (spec : RouteSpec) (mode : SlashMode) (id : RouteId) :
    (spec.route mode id).rename σ = spec.route mode (σ id) := by
  rw [route, route]
  exact (List.foldl_hom (Route.rename σ) fun route c => apply_rename σ c route).symm

theorem foldl_apply_asRegistered (changes : List RouteChange) (route : Route) :
    (changes.foldl (fun route c => c.apply route) route).asRegistered = route.asRegistered := by
  induction changes generalizing route with
  | nil => rfl
  | cons c changes ih => exact (ih _).trans (Router.change_asRegistered c route)

theorem route_id (spec : RouteSpec) (mode : SlashMode) (id : RouteId) :
    (spec.route mode id).id = id :=
  (Router.modify_asRegistered_of_frame (foldl_apply_asRegistered spec.changes) _).1

theorem route_priority (spec : RouteSpec) (mode : SlashMode) (id : RouteId) :
    (spec.route mode id).priority = spec.priority :=
  (Router.modify_asRegistered_of_frame (foldl_apply_asRegistered spec.changes) _).2

end RouteSpec

namespace Router

variable {α : Type}

/-- Registers the routes of these specifications, one after the other. -/
def fill (r : Router) (specs : List RouteSpec) : Router :=
  r.run (α := Unit) ((specs.zipIdx r.nextId).flatMap fun p => p.1.steps ⟨p.2⟩)

/-- The router with the route of a specification. -/
def enroll (r : Router) (spec : RouteSpec) : Router :=
  { r with
    nextId := r.nextId + 1
    routes := place (spec.route r.slashMode ⟨r.nextId⟩) r.routes }

/-- The new number of a route, if those from `base` on were given in another order. -/
def renumber (base : Nat) {n : Nat} (π : Equiv.Perm (Fin n)) (id : RouteId) : RouteId :=
  if h : base ≤ id.index ∧ id.index - base < n then ⟨base + π ⟨id.index - base, h.2⟩⟩ else id

/-! ## Filling a router -/

/-- A route can be changed before it is put in its place as well as afterwards. -/
theorem map_place {route : Route} {change : Route → Route}
    (hchange : (change route).priority = route.priority) {routes : List Route}
    (hnew : ∀ other ∈ routes, other.id ≠ route.id) :
    (place route routes).map (fun other => if other.id == route.id then change other else other) =
      place (change route) routes := by
  have hothers : ∀ part : List Route, part.Sublist routes →
      part.map (fun other => if other.id == route.id then change other else other) = part := by
    intro part hpart
    refine (List.map_congr_left fun other hother => ?_).trans (List.map_id part)
    simp [hnew other (hpart.mem hother)]
  rw [place, place, hchange, List.map_append, List.map_cons, hothers _ (List.takeWhile_sublist _),
    hothers _ (List.dropWhile_sublist _)]
  simp

theorem run_steps {r : Router} (hr : r.Sound) (spec : RouteSpec) :
    r.run (α := α) (spec.steps ⟨r.nextId⟩) = r.enroll spec := by
  have hchanges : ∀ (changes : List RouteChange) (route : Route), route.id = ⟨r.nextId⟩ →
      ({ r with nextId := r.nextId + 1, routes := place route r.routes } : Router).run (α := α)
          (changes.map (.change ⟨r.nextId⟩)) =
        { r with
          nextId := r.nextId + 1
          routes := place (changes.foldl (fun route c => c.apply route) route) r.routes } := by
    intro changes
    induction changes with
    | nil => exact fun _ _ => rfl
    | cons c changes ih =>
      intro route hid
      obtain ⟨hkeep, hpriority⟩ := modify_asRegistered_of_frame (change_asRegistered c) route
      have hnew : ∀ other ∈ r.routes, other.id ≠ route.id := by
        intro other hother heq
        have hlt := hr.fresh other hother
        rw [heq, hid] at hlt
        exact Nat.lt_irrefl _ hlt
      have hplace := map_place hpriority hnew
      rw [hid] at hplace
      rw [List.map_cons, run, List.foldl_cons, ← run]
      simp only [perform, Delivery.done, modify, hplace]
      exact ih _ (hkeep.trans hid)
  exact hchanges spec.changes _ rfl

theorem Sound.enroll {r : Router} (hr : r.Sound) (spec : RouteSpec) : (r.enroll spec).Sound := by
  rw [← run_steps (α := Unit) hr]
  exact run_sound hr _

theorem fill_cons {r : Router} (hr : r.Sound) (spec : RouteSpec) (specs : List RouteSpec) :
    r.fill (spec :: specs) = (r.enroll spec).fill specs := by
  rw [fill, List.zipIdx_cons, List.flatMap_cons, run_append, run_steps hr]
  rfl

theorem Sound.fill {r : Router} (hr : r.Sound) (specs : List RouteSpec) : (r.fill specs).Sound :=
  run_sound hr _

/-- Filling a router adds one route for each specification. -/
theorem fill_routes {r : Router} (hr : r.Sound) (specs : List RouteSpec) :
    (r.fill specs).routes.Perm
      (r.routes ++ List.ofFn fun i : Fin specs.length => specs[i].route r.slashMode ⟨r.nextId + i⟩) := by
  induction specs generalizing r with
  | nil => simp [fill, run]
  | cons spec specs ih =>
    rw [fill_cons hr]
    refine (ih (hr.enroll spec)).trans ?_
    have hrest : (fun i : Fin specs.length =>
          specs[i].route r.slashMode ⟨(r.enroll spec).nextId + i⟩) =
        fun i : Fin specs.length =>
          (spec :: specs)[i.succ].route r.slashMode ⟨r.nextId + i.succ⟩ := by
      funext i
      have hnext : (r.enroll spec).nextId + i = r.nextId + i.succ := by
        rw [enroll, Fin.val_succ, Nat.add_assoc, Nat.add_comm 1]
      rw [hnext]
      rfl
    have hsplit := List.ofFn_succ (f := fun i : Fin (spec :: specs).length =>
      (spec :: specs)[i].route r.slashMode ⟨r.nextId + i⟩)
    rw [hsplit, ← hrest]
    exact ((place_perm _ r.routes).append_right _).trans List.perm_middle.symm

/-- Filling a router changes its routes only, and the number of the next one. -/
theorem fill_frame {r : Router} (hr : r.Sound) (specs : List RouteSpec) :
    r.fill specs =
      { r with nextId := r.nextId + specs.length, routes := (r.fill specs).routes } := by
  induction specs generalizing r with
  | nil => rfl
  | cons spec specs ih =>
    rw [fill_cons hr, List.length_cons, Nat.add_comm specs.length, ← Nat.add_assoc]
    exact ih (hr.enroll spec)

/-! ## Other numbers -/

section
variable {base n : Nat} (π : Equiv.Perm (Fin n))

theorem renumber_of_lt {id : RouteId} (h : id.index < base) : renumber base π id = id := by
  rw [renumber, dif_neg (by omega)]

theorem renumber_add (i : Fin n) : renumber base π ⟨base + i⟩ = ⟨base + π i⟩ := by
  have hi : base ≤ base + i.val ∧ base + i.val - base < n := by omega
  have hfin : (⟨base + i.val - base, hi.2⟩ : Fin n) = i :=
    Fin.ext (Nat.add_sub_cancel_left base i)
  rw [renumber, dif_pos hi, hfin]

theorem renumber_injective : Function.Injective (renumber base π) := by
  refine Function.LeftInverse.injective (g := renumber base π.symm) ?_
  intro id
  by_cases h : base ≤ id.index ∧ id.index - base < n
  · obtain ⟨i, hi⟩ : ∃ i : Fin n, id = ⟨base + i⟩ :=
      ⟨⟨id.index - base, h.2⟩, congrArg RouteId.mk (Nat.add_sub_of_le h.1).symm⟩
    rw [hi, renumber_add, renumber_add, Equiv.symm_apply_apply]
  · have hsame : ∀ τ : Equiv.Perm (Fin n), renumber base τ id = id := fun τ => dif_neg h
    rw [hsame, hsame]

end

/-! ## The order of registration -/

section
variable {r : Router} {specs : List RouteSpec} (π : Equiv.Perm (Fin specs.length))

/-- The specification in place `i` of the new order gets the number that it has in the old one. -/
theorem rename_route (mode : SlashMode) (base : Nat) (i : Fin specs.length) :
    (specs[π i].route mode ⟨base + i⟩).rename (renumber base π) =
      specs[π i].route mode ⟨base + π i⟩ := by
  rw [RouteSpec.route_rename, renumber_add]

theorem reorder_routes (mode : SlashMode) (base : Nat) :
    (List.ofFn fun i : Fin (RouteSpec.reorder specs π).length =>
        (RouteSpec.reorder specs π)[i].route mode ⟨base + i⟩) =
      List.ofFn fun i : Fin specs.length => specs[π i].route mode ⟨base + i⟩ := by
  refine List.ext_getElem ?_ ?_
  · simp [RouteSpec.reorder]
  · intro i hi hi'
    simp [RouteSpec.reorder]

/-- The routes of a router that is filled in the new order. -/
theorem fill_reorder_routes (hr : r.Sound) :
    (r.fill (RouteSpec.reorder specs π)).routes.Perm
      (r.routes ++
        List.ofFn fun i : Fin specs.length => specs[π i].route r.slashMode ⟨r.nextId + i⟩) := by
  rw [← reorder_routes]
  exact fill_routes hr _

theorem mem_fill_reorder (hr : r.Sound) {route : Route}
    (h : route ∈ (r.fill (RouteSpec.reorder specs π)).routes) :
    route ∈ r.routes ∨
      ∃ i : Fin specs.length, route = specs[π i].route r.slashMode ⟨r.nextId + i⟩ := by
  rcases List.mem_append.mp ((fill_reorder_routes π hr).mem_iff.mp h) with hold | hnew
  · exact Or.inl hold
  · obtain ⟨i, hi⟩ := List.mem_ofFn.mp hnew
    exact Or.inr ⟨i, hi.symm⟩

theorem rename_old (hr : r.Sound) {route : Route} (h : route ∈ r.routes) :
    route.rename (renumber r.nextId π) = route := by
  rw [Route.rename, renumber_of_lt π (hr.fresh route h)]

/-- The renaming respects consult order. -/
theorem rename_before (hr : r.Sound) (hπ : RouteSpec.KeepsOrder specs π) {a b : Route}
    (ha : a ∈ (r.fill (RouteSpec.reorder specs π)).routes)
    (hb : b ∈ (r.fill (RouteSpec.reorder specs π)).routes) (h : a.Before b) :
    (a.rename (renumber r.nextId π)).Before (b.rename (renumber r.nextId π)) := by
  rcases mem_fill_reorder π hr ha with ha | ⟨i, rfl⟩ <;>
    rcases mem_fill_reorder π hr hb with hb | ⟨j, rfl⟩
  · rwa [rename_old π hr ha, rename_old π hr hb]
  · rw [rename_old π hr ha, rename_route]
    have hlt := hr.fresh a ha
    simp only [Route.Before, RouteSpec.route_id, RouteSpec.route_priority] at h ⊢
    omega
  · rw [rename_old π hr hb, rename_route]
    have hlt := hr.fresh b hb
    simp only [Route.Before, RouteSpec.route_id, RouteSpec.route_priority] at h ⊢
    omega
  · rw [rename_route, rename_route]
    simp only [Route.Before, RouteSpec.route_id, RouteSpec.route_priority] at h ⊢
    rcases h with hlt | ⟨heq, hlt⟩
    · exact Or.inl hlt
    · have hij : i < j := Fin.lt_def.mpr (by omega)
      have hkept : π i < π j := hπ i j hij heq.symm
      exact Or.inr ⟨heq, Nat.add_lt_add_left hkept _⟩

/-- A router that is filled in the new order has the same routes in the same order, under other
numbers. -/
theorem fill_eq_rename (hr : r.Sound) (hπ : RouteSpec.KeepsOrder specs π) :
    r.fill specs = (r.fill (RouteSpec.reorder specs π)).rename (renumber r.nextId π) := by
  have hroutes : (r.fill specs).routes =
      (r.fill (RouteSpec.reorder specs π)).routes.map (Route.rename (renumber r.nextId π)) := by
    refine List.Perm.eq_of_pairwise ?_ (hr.fill specs).order ?_ ?_
    · intro a b _ _ hab hba
      rw [Route.Before] at hab hba
      omega
    · refine List.pairwise_map.mpr ((hr.fill _).order.imp_of_mem ?_)
      exact fun ha hb => rename_before π hr hπ ha hb
    · refine (fill_routes hr specs).trans (List.Perm.trans ?_ ((fill_reorder_routes π hr).map _).symm)
      rw [List.map_append, List.map_ofFn]
      have hold : r.routes.map (Route.rename (renumber r.nextId π)) = r.routes :=
        (List.map_congr_left fun route h => rename_old π hr h).trans (List.map_id _)
      have hnew : Route.rename (renumber r.nextId π) ∘
            (fun i : Fin specs.length => specs[π i].route r.slashMode ⟨r.nextId + i⟩) =
          (fun i : Fin specs.length => specs[i].route r.slashMode ⟨r.nextId + i⟩) ∘ π :=
        funext fun i => rename_route π r.slashMode r.nextId i
      rw [hold, hnew]
      exact (Equiv.Perm.ofFn_comp_perm π _).symm.append_left _
  have hprevious : r.previous.map (renumber r.nextId π) = r.previous :=
    (List.map_congr_left fun id h => renumber_of_lt π (hr.previous_fresh id h)).trans (List.map_id _)
  have hlength : (RouteSpec.reorder specs π).length = specs.length := by simp [RouteSpec.reorder]
  rw [fill_frame hr specs, fill_frame hr (RouteSpec.reorder specs π), hlength, hroutes, rename,
    hprevious]

end

/-- Only within a priority does the order of registration matter.  Let a router be filled with the
same specifications in two orders that agree on those of one priority.  Then every sequence of
requests is delivered alike: the same calls are made in the same order, the same is told of each
match and remembered behind each request, but for the numbers of the new routes. -/
theorem deliveries_of_reorder {r : Router} (hr : r.Reachable) {specs : List RouteSpec}
    {π : Equiv.Perm (Fin specs.length)} (hπ : RouteSpec.KeepsOrder specs π)
    (calls : List (Request α)) :
    let σ := renumber r.nextId π
    (r.fill specs).deliveries calls =
        ((r.fill (RouteSpec.reorder specs π)).deliveries calls).map (renamed σ) ∧
      (∀ i : Fin specs.length, σ ⟨r.nextId + i⟩ = ⟨r.nextId + π i⟩) ∧
      ∀ id : RouteId, id.index < r.nextId → σ id = id := by
  intro σ
  refine ⟨?_, renumber_add π, fun id h => renumber_of_lt π h⟩
  rw [fill_eq_rename π hr.sound hπ]
  exact deliveries_rename (renumber_injective π) _ calls

/-- A greedy route of low priority is registered second, or first. -/
theorem deliveries_of_reorder_swap :
    let specs : List RouteSpec := [
      { pattern := .regex ⟨"", .empty⟩, priority := 1, onMatch := [{ name := "first" }] },
      { pattern := .regex ⟨"", .empty⟩, priority := 0, greedy := true },
      { pattern := .regex ⟨"", .empty⟩, priority := 1 }]
    let π : Equiv.Perm (Fin specs.length) := Equiv.swap 0 1
    let r := ofOptions {}
    let calls : List (Request Unit) := [⟨"/", [()]⟩]
    RouteSpec.KeepsOrder specs π ∧
      (r.fill specs).deliveries calls =
        ((r.fill (RouteSpec.reorder specs π)).deliveries calls).map (renamed (renumber 0 π)) ∧
      (r.fill specs).routes.map (·.id) = [⟨0⟩, ⟨2⟩, ⟨1⟩] := by
  intro specs π r calls
  have hr : r.Reachable := ⟨Unit, {}, [], rfl⟩
  have hπ : RouteSpec.KeepsOrder specs π := by
    rw [RouteSpec.KeepsOrder]
    decide
  exact ⟨hπ, (deliveries_of_reorder hr hπ calls).1, rfl⟩

end Router

end RouteDispatch
