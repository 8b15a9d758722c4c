/-
# Which routes are registered, and in which order they are consulted

`Ledger` is a plain record of what was registered: every new route is written
behind the others, and one that is removed is struck out.  It is kept beside a run
from the operations alone, and never looks at the router.

The routes of a router are those of its ledger in stable order of falling
priority (`consulted_eq_mergeSort`).  The place that a new route gets is found in
the list as it stands, so this rests on the invariant `Sound`: only where the
routes are in consult order already is the first place of lower priority the right
one.

The numbers that are handed out in a run are counted up from zero
(`handed_run`), whatever was removed in the meantime.
-/
import RouteDispatch.Proofs.Router.Run

namespace RouteDispatch

/-! ## Stable order -/

/-- Elements that a stable sort could leave either way stay in the order that they had. -/
theorem pairwise_mergeSort_stable {β : Type} (le : β → β → Bool) {R : β → β → Prop}
    (trans : ∀ a b c, le a b = true → le b c = true → le a c = true)
    (total : ∀ a b, (le a b || le b a) = true) {l : List β} (h : l.Pairwise R) :
    (l.mergeSort le).Pairwise fun a b => le a b = true ∧ (le b a = true → R a b) := by
  rw [← List.mergeSort_zipIdx]
  -- The sort of the elements with their places, which are all different.
  have hsorted := List.pairwise_mergeSort (List.zipIdxLE_trans trans) (List.zipIdxLE_total total)
    l.zipIdx
  have hplaces : (l.zipIdx.mergeSort (List.zipIdxLE le)).Pairwise fun p q => p.2 ≠ q.2 := by
    have hnodup : (l.zipIdx.map Prod.snd).Nodup := by
      rw [List.zipIdx_map_snd]
      exact List.nodup_range'
    have hperm := (List.mergeSort_perm l.zipIdx (List.zipIdxLE le)).map Prod.snd
    exact List.pairwise_map.mp (hperm.nodup_iff.mpr hnodup)
  refine List.pairwise_map.mpr ((hsorted.and hplaces).imp_of_mem ?_)
  rintro ⟨a, i⟩ ⟨b, j⟩ ha hb ⟨hle, hne⟩
  have hai : l[i]? = some a := List.mem_zipIdx_iff_getElem?.mp (List.mem_mergeSort.mp ha)
  have hbj : l[j]? = some b := List.mem_zipIdx_iff_getElem?.mp (List.mem_mergeSort.mp hb)
  simp only [List.zipIdxLE] at hle
  split at hle
  · next hab =>
    refine ⟨hab, fun hba => ?_⟩
    have hij : i ≤ j := by simpa [hba] using hle
    obtain ⟨hi, hla⟩ := List.getElem?_eq_some_iff.mp hai
    obtain ⟨hj, hlb⟩ := List.getElem?_eq_some_iff.mp hbj
    have hR := List.pairwise_iff_getElem.mp h i j hi hj (Nat.lt_of_le_of_ne hij hne)
    rwa [hla, hlb] at hR
  · cases hle

/-! ## The ledger -/

/-- All rules of the table compile. -/
def RouteTable.compiles (table : RouteTable) (engine : Regex.Engine) : Bool :=
  table.routes.all fun entry => (entry.compileRules engine).isOk

/-- What is registered, in the order of the registration and as it was then, and how many routes
ever were. -/
structure Ledger where
  routes : List Route := []
  given : Nat := 0

namespace Ledger

variable {α : Type}

/-- Writes a new route behind the others. -/
def enter (mode : SlashMode) (ledger : Ledger) (pattern : Pattern) (priority : Int) : Ledger :=
  ⟨ledger.routes ++ [Route.ofPattern ⟨ledger.given⟩ pattern priority mode], ledger.given + 1⟩

/-- What an operation does to the ledger of a router with this slash mode. -/
def record (mode : SlashMode) (ledger : Ledger) : Operation α → Ledger
  | .add pattern priority => ledger.enter mode pattern priority
  | .apply table engine =>
    if table.compiles engine then
      table.routes.foldl
        (fun ledger entry => ledger.enter mode (.template entry.pattern) entry.priority) ledger
    else ledger
  | .remove id => { ledger with routes := ledger.routes.filter (·.id != id) }
  | .removeAll => { ledger with routes := [] }
  | _ => ledger

/-- The ledger of a run of a new router. -/
def ofRun (mode : SlashMode) (ops : List (Operation α)) : Ledger := ops.foldl (record mode) {}

end Ledger

namespace Router

variable {α : Type}

/-- The routes as they are stored, the one that is consulted last coming first. -/
def stored (r : Router) : List Route := r.routes.reverse

/-- The numbers that a step hands out. -/
def handed : Router × Operation α → List RouteId
  | (r, .add pattern priority) => [(r.add pattern priority).1]
  | (r, .apply table engine) =>
    match table.apply r engine with
    | .ok (ids, _) => ids
    | .error _ => []
  | _ => []

/-! ## Tables -/

theorem mapM_compileRules (engine : Regex.Engine) (entries : List RouteEntry) :
    (∃ e, (entries.mapM fun entry => do return (entry, ← entry.compileRules engine) :
        Except InvalidRule (List (RouteEntry × List (String × Rule)))) = .error e ∧
      entries.all (fun entry => (entry.compileRules engine).isOk) = false) ∨
    (∃ compiled, (entries.mapM fun entry => do return (entry, ← entry.compileRules engine) :
        Except InvalidRule (List (RouteEntry × List (String × Rule)))) = .ok compiled ∧
      entries.all (fun entry => (entry.compileRules engine).isOk) = true ∧
      compiled.map (·.1) = entries) := by
  induction entries with
  | nil => exact Or.inr ⟨[], rfl, rfl, rfl⟩
  | cons entry entries ih =>
    rw [List.mapM_cons, List.all_cons]
    cases hrules : entry.compileRules engine with
    | error e => exact Or.inl ⟨e, rfl, rfl⟩
    | ok rules =>
      rcases ih with ⟨e, he, hall⟩ | ⟨compiled, hcompiled, hall, hentries⟩
      · refine Or.inl ⟨e, ?_, hall⟩
        rw [he]
        rfl
      · refine Or.inr ⟨(entry, rules) :: compiled, ?_, hall, congrArg (entry :: ·) hentries⟩
        rw [hcompiled]
        rfl

/-- A table is applied if all its rules compile, and then every entry of it is registered. -/
theorem apply_eq (table : RouteTable) (engine : Regex.Engine) (r : Router) :
    (∃ e, table.apply r engine = .error e ∧ table.compiles engine = false) ∨
      ∃ compiled, table.apply r engine = .ok (RouteTable.registerAll compiled r) ∧
        table.compiles engine = true ∧ compiled.map (·.1) = table.routes := by
  rcases mapM_compileRules engine table.routes with ⟨e, he, hall⟩ | ⟨compiled, hcompiled, hall, hentries⟩
  · refine Or.inl ⟨e, ?_, hall⟩
    rw [RouteTable.apply, he]
    rfl
  · refine Or.inr ⟨compiled, ?_, hall, hentries⟩
    rw [RouteTable.apply, hcompiled]
    rfl

/-! ## The ledger and the router -/

/-- The ledger is that of the router. -/
structure KeptBy (mode : SlashMode) (ledger : Ledger) (r : Router) : Prop where
  slashMode : r.slashMode = mode
  given : ledger.given = r.nextId
  routes : (r.routes.map Route.asRegistered).Perm ledger.routes
  order : ledger.routes.Pairwise fun a b => a.id.index < b.id.index
  fresh : ∀ route ∈ ledger.routes, route.id.index < ledger.given

theorem KeptBy.of_eq {mode : SlashMode} {ledger : Ledger} {r s : Router}
    (h : KeptBy mode ledger r) (hmode : s.slashMode = r.slashMode) (hnext : s.nextId = r.nextId)
    (hroutes : s.routes.map Route.asRegistered = r.routes.map Route.asRegistered) :
    KeptBy mode ledger s :=
  ⟨hmode.trans h.slashMode, h.given.trans hnext.symm, hroutes ▸ h.routes, h.order, h.fresh⟩

theorem map_asRegistered_modify {change : Route → Route}
    (hframe : ∀ route, (change route).asRegistered = route.asRegistered) (r : Router)
    (id : RouteId) :
    (r.modify id change).routes.map Route.asRegistered = r.routes.map Route.asRegistered := by
  simp only [modify, List.map_map]
  refine List.map_congr_left ?_
  intro route _
  simp only [Function.comp]
  split
  · exact hframe route
  · rfl

theorem map_asRegistered_of_bare {r s : Router} (h : s.bare = r.bare) :
    s.routes.map Route.asRegistered = r.routes.map Route.asRegistered := by
  have hroutes := congrArg (fun t : Router => t.routes.map Route.asRegistered) h
  simp only [bare, List.map_map] at hroutes
  exact hroutes

theorem KeptBy.enter {mode : SlashMode} {ledger : Ledger} {r : Router} (h : KeptBy mode ledger r)
    (pattern : Pattern) (priority : Int) :
    KeptBy mode (ledger.enter mode pattern priority) (r.add pattern priority).2 where
  slashMode := h.slashMode
  given := congrArg (· + 1) h.given
  routes := by
    have hnew : Route.ofPattern ⟨ledger.given⟩ pattern priority mode =
        (Route.ofPattern ⟨r.nextId⟩ pattern priority r.slashMode).asRegistered := by
      rw [h.given, h.slashMode]
      rfl
    rw [Ledger.enter, hnew]
    refine ((place_perm _ r.routes).map Route.asRegistered).trans ?_
    exact (h.routes.cons _).trans (List.perm_append_singleton _ _).symm
  order := by
    refine List.pairwise_append.mpr ⟨h.order, List.pairwise_singleton _ _, ?_⟩
    intro old hold new hnew
    rw [List.mem_singleton.mp hnew]
    exact h.fresh old hold
  fresh := by
    intro route hroute
    rcases List.mem_append.mp hroute with hold | hnew
    · exact Nat.lt_succ_of_lt (h.fresh route hold)
    · rw [List.mem_singleton.mp hnew]
      exact Nat.lt_succ_self _

theorem KeptBy.register {mode : SlashMode} {ledger : Ledger} {r : Router}
    (h : KeptBy mode ledger r) (entry : RouteEntry) (rules : List (String × Rule)) :
    KeptBy mode (ledger.enter mode (.template entry.pattern) entry.priority)
      (entry.register rules r).2 := by
  rw [register_eq]
  exact (h.enter _ _).of_eq rfl rfl
    (map_asRegistered_modify (entryChange_asRegistered entry rules) _ _)

theorem KeptBy.registerAll {mode : SlashMode} {ledger : Ledger} {r : Router}
    (h : KeptBy mode ledger r) (compiled : List (RouteEntry × List (String × Rule))) :
    KeptBy mode
      ((compiled.map (·.1)).foldl
        (fun ledger entry => ledger.enter mode (.template entry.pattern) entry.priority) ledger)
      (RouteTable.registerAll compiled r).2 := by
  induction compiled generalizing ledger r with
  | nil => exact h
  | cons first compiled ih => exact ih (h.register first.1 first.2)

theorem KeptBy.perform {mode : SlashMode} {ledger : Ledger} {r : Router} (h : KeptBy mode ledger r)
    (op : Operation α) : KeptBy mode (ledger.record mode op) (r.perform op).state := by
  cases op with
  | add pattern priority => exact h.enter pattern priority
  | apply table engine =>
    simp only [Router.perform, Delivery.done, Ledger.record]
    rcases apply_eq table engine r with ⟨e, he, hcompiles⟩ | ⟨compiled, hok, hcompiles, hentries⟩
    · rw [he, hcompiles]
      exact h
    · rw [hok, hcompiles, if_pos rfl, ← hentries]
      exact h.registerAll compiled
  | remove id =>
    refine ⟨h.slashMode, h.given, ?_, h.order.sublist List.filter_sublist, ?_⟩
    · have hfilter : (r.routes.filter (·.id != id)).map Route.asRegistered =
          (r.routes.map Route.asRegistered).filter (·.id != id) := by
        rw [List.filter_map]
        rfl
      simp only [Router.perform, Delivery.done, remove, Ledger.record]
      rw [hfilter]
      exact h.routes.filter _
    · exact fun route hroute => h.fresh route (List.mem_filter.mp hroute).1
  | removeAll =>
    exact ⟨h.slashMode, h.given, List.Perm.nil, List.Pairwise.nil,
      fun _ hroute => absurd hroute List.not_mem_nil⟩
  | change id c => exact h.of_eq rfl rfl (map_asRegistered_modify (change_asRegistered c) r id)
  | onMatch l => exact h.of_eq rfl rfl rfl
  | onDefault l => exact h.of_eq rfl rfl rfl
  | clearListeners => exact h.of_eq rfl rfl rfl
  | turn normalizer => exact h.of_eq rfl rfl rfl
  | parse request extra =>
    have hbare := (parse_frame r request extra).1
    have hmode := congrArg Router.slashMode hbare
    have hnext := congrArg Router.nextId hbare
    exact h.of_eq hmode hnext (map_asRegistered_of_bare hbare)

theorem KeptBy.run {mode : SlashMode} {ledger : Ledger} {r : Router} (h : KeptBy mode ledger r)
    (ops : List (Operation α)) : KeptBy mode (ops.foldl (Ledger.record mode) ledger) (r.run ops) := by
  induction ops generalizing ledger r with
  | nil => exact h
  | cons op ops ih => exact ih (h.perform op)

theorem keptBy_ofRun (options : RouterOptions) (ops : List (Operation α)) :
    KeptBy (options.slashMode.getD .loose) (Ledger.ofRun (options.slashMode.getD .loose) ops)
      ((ofOptions options).run ops) := by
  have hnew : KeptBy (options.slashMode.getD .loose) {} (ofOptions options) :=
    ⟨rfl, rfl, List.Perm.nil, List.Pairwise.nil, fun _ hroute => absurd hroute List.not_mem_nil⟩
  exact hnew.run ops

/-! ## The consult order -/

/-- The first route has at least the priority of the second. -/
def atLeast (a b : Route) : Bool := decide (b.priority ≤ a.priority)

/-- The routes stand in stable order of falling priority. -/
theorem consulted_eq_mergeSort {mode : SlashMode} {ledger : Ledger} {r : Router} (hr : r.Sound)
    (h : KeptBy mode ledger r) :
    r.routes.map Route.asRegistered = ledger.routes.mergeSort atLeast := by
  have hsorted : (ledger.routes.mergeSort atLeast).Pairwise Route.Before := by
    have hstable := pairwise_mergeSort_stable atLeast ?_ ?_ h.order
    · refine hstable.imp ?_
      rintro a b ⟨hab, hba⟩
      simp only [atLeast, decide_eq_true_eq] at hab hba
      rcases Int.lt_or_eq_of_le hab with hlt | heq
      · exact Or.inl hlt
      · exact Or.inr ⟨heq, hba (Int.le_of_eq heq.symm)⟩
    · simp only [atLeast, decide_eq_true_eq]
      intro a b c hab hbc
      exact Int.le_trans hbc hab
    · simp only [atLeast, Bool.or_eq_true, decide_eq_true_eq]
      intro a b
      exact Int.le_total b.priority a.priority
  refine List.Perm.eq_of_pairwise ?_ (List.pairwise_map.mpr hr.order) hsorted
    (h.routes.trans (List.mergeSort_perm _ _).symm)
  intro a b _ _ hab hba
  rw [Route.Before] at hab hba
  omega

/-! ## Removing -/

theorem remove_of_none {r : Router} {id : RouteId} (h : r.route? id = none) :
    r.remove id = (none, r) := by
  have hall : r.routes.filter (·.id != id) = r.routes := by
    refine List.filter_eq_self.mpr fun route hroute => ?_
    simpa using List.find?_eq_none.mp h route hroute
  rw [remove, h, hall]

/-- The one route with the number is taken out of its place. -/
theorem remove_of_some {r : Router} (hr : (r.routes.map (·.id)).Nodup) {id : RouteId}
    {route : Route} (h : r.route? id = some route) :
    route.id = id ∧ ∃ front back, r.routes = front ++ route :: back ∧
      r.remove id = (some route, { r with routes := front ++ back }) := by
  obtain ⟨hmem, hid⟩ := route?_mem h
  obtain ⟨front, back, hsplit⟩ := List.append_of_mem hmem
  refine ⟨hid, front, back, hsplit, ?_⟩
  have hapart : ((route :: (front ++ back)).map (·.id)).Nodup := by
    refine (List.Perm.map _ ?_).nodup_iff.mp hr
    rw [hsplit]
    exact List.perm_middle
  obtain ⟨hnot, -⟩ := List.nodup_cons.mp hapart
  have hrest : ∀ part : List Route, part ⊆ front ++ back → part.filter (·.id != id) = part := by
    intro part hpart
    refine List.filter_eq_self.mpr fun other hother => ?_
    have hne : other.id ≠ id := fun heq =>
      hnot (List.mem_map.mpr ⟨other, hpart hother, heq.trans hid.symm⟩)
    simpa using hne
  rw [remove, h, hsplit, List.filter_append, List.filter_cons_of_neg (by simp [hid]),
    hrest front (List.subset_append_left _ _), hrest back (List.subset_append_right _ _)]

/-! ## The numbers that are handed out -/

theorem registerAll_ids (compiled : List (RouteEntry × List (String × Rule))) (r : Router) :
    (RouteTable.registerAll compiled r).1 =
        (List.range' r.nextId compiled.length).map RouteId.mk ∧
      (RouteTable.registerAll compiled r).2.nextId = r.nextId + compiled.length := by
  induction compiled generalizing r with
  | nil => exact ⟨rfl, rfl⟩
  | cons first compiled ih =>
    obtain ⟨hids, hnext⟩ := ih (first.1.register first.2 r).2
    have hstep : (first.1.register first.2 r).2.nextId = r.nextId + 1 := rfl
    rw [hstep] at hids hnext
    refine ⟨?_, ?_⟩
    · rw [List.length_cons, List.range'_succ, List.map_cons, ← hids]
      rfl
    · rw [List.length_cons, Nat.add_comm compiled.length, ← Nat.add_assoc, ← hnext]
      rfl

/-- A step hands out the next numbers, as many as the count of numbers moves on. -/
theorem handed_perform (r : Router) (op : Operation α) :
    ∃ count, (r.perform op).state.nextId = r.nextId + count ∧
      handed (r, op) = (List.range' r.nextId count).map RouteId.mk := by
  cases op with
  | add pattern priority => exact ⟨1, rfl, rfl⟩
  | apply table engine =>
    simp only [perform, Delivery.done, handed]
    rcases apply_eq table engine r with ⟨e, he, -⟩ | ⟨compiled, hok, -, -⟩
    · rw [he]
      exact ⟨0, rfl, rfl⟩
    · rw [hok]
      obtain ⟨hids, hnext⟩ := registerAll_ids compiled r
      exact ⟨compiled.length, hnext, hids⟩
  | parse request extra =>
    have hbare := (parse_frame r request extra).1
    have hnext := congrArg Router.nextId hbare
    exact ⟨0, hnext, rfl⟩
  | _ => exact ⟨0, rfl, rfl⟩

theorem handed_run (r : Router) (ops : List (Operation α)) :
    ∃ count, (r.run ops).nextId = r.nextId + count ∧
      (r.history ops).flatMap handed = (List.range' r.nextId count).map RouteId.mk := by
  induction ops generalizing r with
  | nil => exact ⟨0, rfl, rfl⟩
  | cons op ops ih =>
    obtain ⟨first, hfirst, hids⟩ := handed_perform r op
    obtain ⟨count, hcount, hrest⟩ := ih (r.perform op).state
    rw [hfirst] at hcount hrest
    refine ⟨first + count, ?_, ?_⟩
    · rw [← Nat.add_assoc]
      exact hcount
    · rw [history, List.flatMap_cons, hids, hrest, ← List.map_append, List.range'_append_1]

/-! ## Whole runs -/

/-- After any run of a new router its routes are those of the ledger, consulted by falling priority
and in the order of their registration.  No number is given twice, and a route that is removed
leaves all others where they are. -/
theorem store_of_run (options : RouterOptions) (ops : List (Operation α)) :
    let new := ofOptions options
    let r := new.run ops
    let ledger := Ledger.ofRun (options.slashMode.getD .loose) ops
    r.routes.map Route.asRegistered = ledger.routes.mergeSort atLeast ∧
      r.stored.Pairwise (fun a b => a.priority < b.priority ∨
        a.priority = b.priority ∧ b.id.index < a.id.index) ∧
      (r.routes.map (·.id)).Nodup ∧
      (∀ route ∈ r.routes, route.id.index < r.nextId) ∧
      (new.history ops).flatMap handed = (List.range r.nextId).map RouteId.mk ∧
      (∀ id, r.route? id = none → r.remove id = (none, r)) ∧
      ∀ id route, r.route? id = some route → route.id = id ∧
        ∃ front back, r.routes = front ++ route :: back ∧
          r.remove id = (some route, { r with routes := front ++ back }) := by
  intro new r ledger
  have hr : r.Sound := run_sound (sound_ofOptions options) ops
  refine ⟨consulted_eq_mergeSort hr (keptBy_ofRun options ops), ?_, hr.ids_nodup, hr.fresh, ?_,
    fun id h => remove_of_none h, fun id route h => remove_of_some hr.ids_nodup h⟩
  · exact List.pairwise_reverse.mpr hr.order
  · obtain ⟨count, hcount, hids⟩ := handed_run new ops
    have hzero : new.nextId = 0 := rfl
    rw [hzero, Nat.zero_add] at hcount
    rw [hzero, ← List.range_eq_range'] at hids
    rw [hids, hcount]

end Router

end RouteDispatch
