/-
# Who is called in a whole run

Listeners can be alike, so what a signal has been through is told by numbers: each
listener gets one when it is registered, and a roster keeps the number beside the
listener.  It also keeps who was ever registered and which calls were made.  All
this is bookkeeping; without it, the roster is the signal and what was heard of it
(`run_eq`).

In every run the state of a listener tells how often its number was called, and the
numbers increase along the roster (`Roster.Sound`).  So one that is to be called once
is as new while it is there, and its first call is its last.  One that is to be
called more often stays until the signal is cleared (`Roster.Holds`).
-/
import Mathlib.Data.List.Nodup
import RouteDispatch.Proofs.Delivery.Loop
import RouteDispatch.Proofs.Delivery.Seats

namespace RouteDispatch.Signal

variable {ε : Type}

/-! ## Runs -/

/-- What can be done with a signal. -/
inductive Operation (ε : Type) where
  | add (l : Listener)
  | addOnce (l : Listener)
  | dispatch (event : String → ε)
  | clear

/-- The operation, with the calls that it makes. -/
def Operation.perform : Operation ε → Signal → Delivery ε Signal
  | .add l, s => .done (s.add { l with once := false })
  | .addOnce l, s => .done (s.add { l with once := true })
  | .dispatch event, s => s.dispatch event
  | .clear, s => .done s.clear

/-- The listener that the operation registers. -/
def Operation.registers? : Operation ε → Option Listener
  | .add l => some { l with once := false }
  | .addOnce l => some { l with once := true }
  | .dispatch _ | .clear => none

/-- The signal after another operation, and all that was heard of its listeners. -/
def advance (before : Signal × List ε) (op : Operation ε) : Signal × List ε :=
  ((op.perform before.1).state, before.2 ++ (op.perform before.1).events)

/-- A new signal after these operations.  A failure ends the dispatch in which it happens, and
nothing else. -/
def run (ops : List (Operation ε)) : Signal × List ε := ops.foldl advance ({}, [])

/-- A listener with its number. -/
structure Member where
  number : Nat
  listener : Listener

/-- The member after another call. -/
def Member.called (m : Member) : Member := { m with listener := m.listener.called }

/-- The listeners that are there, all that were ever registered, of which the number of one is the
place, and the calls that were made, in order. -/
structure Roster (ε : Type) where
  members : List Member := []
  registered : List Listener := []
  log : List (Notice Nat ε) := []

namespace Roster

/-- The signal of these members. -/
def signal (r : Roster ε) : Signal := ⟨r.members.map (·.listener)⟩

/-- The members that a dispatch calls. -/
def called (r : Roster ε) : List Member := r.members.take (r.signal.breakPlace + 1)

/-- Those that it does not come to. -/
def uncalled (r : Roster ε) : List Member := r.members.drop (r.signal.breakPlace + 1)

/-- How often the listener of this number was called. -/
def calls (r : Roster ε) (number : Nat) : Nat := (r.log.map (·.seat)).count number

/-- Puts a listener behind all others. -/
def enter (r : Roster ε) (l : Listener) : Roster ε :=
  { r with members := r.members ++ [⟨r.registered.length, l⟩], registered := r.registered ++ [l] }

/-- The roster after an operation. -/
def perform (r : Roster ε) : Operation ε → Roster ε
  | .add l => r.enter { l with once := false }
  | .addOnce l => r.enter { l with once := true }
  | .dispatch event =>
    { r with
      members := (r.called.filter (! ·.listener.once)).map Member.called ++ r.uncalled
      log := r.log ++ r.called.map fun m => ⟨m.number, event m.listener.name⟩ }
  | .clear => { r with members := [] }

/-- The roster of a new signal after these operations. -/
def run (ops : List (Operation ε)) : Roster ε := ops.foldl perform {}

/-! ## Without the numbers -/

theorem called_append_uncalled (r : Roster ε) : r.called ++ r.uncalled = r.members :=
  List.take_append_drop _ _

theorem signal_called (r : Roster ε) : r.signal.called = r.called.map (·.listener) :=
  List.map_take.symm

theorem signal_uncalled (r : Roster ε) : r.signal.uncalled = r.uncalled.map (·.listener) :=
  List.map_drop.symm

/-- Every operation does with the signal what it does with the roster. -/
theorem perform_eq (r : Roster ε) (op : Operation ε) :
    (op.perform r.signal).state = (r.perform op).signal ∧
      (r.perform op).log.map (·.event) = r.log.map (·.event) ++ (op.perform r.signal).events := by
  have henter : ∀ l, r.signal.add l = (r.enter l).signal := by
    intro l
    rw [Signal.add, signal, signal, enter, List.map_append]
    rfl
  cases op with
  | add l => exact ⟨henter _, (List.append_nil _).symm⟩
  | addOnce l => exact ⟨henter _, (List.append_nil _).symm⟩
  | clear => exact ⟨rfl, (List.append_nil _).symm⟩
  | dispatch event =>
    rw [Operation.perform, dispatch_eq, signal_called, signal_uncalled]
    refine ⟨?_, ?_⟩
    · simp only [kept, signal, perform, List.map_append, List.filter_map, List.map_map]
      rfl
    · simp only [perform, List.map_append, List.map_map]
      rfl

theorem run_eq (ops : List (Operation ε)) :
    Signal.run ops = ((run ops).signal, (run ops).log.map (·.event)) := by
  let shown : Roster ε → Signal × List ε := fun r => (r.signal, r.log.map (·.event))
  have hstep : ∀ r op, advance (shown r) op = shown (r.perform op) := by
    intro r op
    obtain ⟨hstate, hheard⟩ := perform_eq r op
    simp only [shown, advance, hstate, hheard]
  have hmirror : ops.foldl advance (shown {}) = shown (ops.foldl perform {}) :=
    List.foldl_hom shown hstep
  exact hmirror

theorem run_append (first second : List (Operation ε)) :
    run (first ++ second) = second.foldl perform (run first) := List.foldl_append

theorem registered_run (ops : List (Operation ε)) :
    (run ops).registered = ops.filterMap Operation.registers? := by
  have hall : ∀ r : Roster ε,
      (ops.foldl perform r).registered = r.registered ++ ops.filterMap Operation.registers? := by
    induction ops with
    | nil => exact fun r => (List.append_nil _).symm
    | cons op ops ih =>
      intro r
      rw [List.foldl_cons, ih]
      cases op with
      | add l => exact List.append_assoc _ [_] _
      | addOnce l => exact List.append_assoc _ [_] _
      | dispatch event => rfl
      | clear => rfl
  exact hall {}

/-! ## What the numbers tell -/

/-- The numbers increase, and the state of each listener is that in which it was registered, but for
the calls that were made to its number. -/
structure Sound (r : Roster ε) : Prop where
  order : (r.members.map (·.number)).Pairwise (· < ·)
  traced : ∀ m ∈ r.members, ∃ l, r.registered[m.number]? = some l ∧
    l.after (r.calls m.number) = some m.listener
  known : ∀ n ∈ r.log, n.seat < r.registered.length
  once : ∀ (number : Nat) (l : Listener), r.registered[number]? = some l → l.once = true →
    r.calls number ≤ 1

theorem sound_empty : ({} : Roster ε).Sound where
  order := List.Pairwise.nil
  traced _ hm := absurd hm List.not_mem_nil
  known _ hn := absurd hn List.not_mem_nil
  once := by
    intro number l hl
    cases hl

section
variable {r : Roster ε}

theorem Sound.number_lt (h : r.Sound) {m : Member} (hm : m ∈ r.members) :
    m.number < r.registered.length := by
  obtain ⟨l, hl, -⟩ := h.traced m hm
  exact (List.getElem?_eq_some_iff.mp hl).1

/-- Nobody was called before being registered. -/
theorem Sound.calls_new (h : r.Sound) {number : Nat} (hnew : r.registered.length ≤ number) :
    r.calls number = 0 := by
  refine List.count_eq_zero_of_not_mem ?_
  intro hmem
  obtain ⟨n, hn, rfl⟩ := List.mem_map.mp hmem
  exact Nat.not_lt.mpr hnew (h.known n hn)

theorem Sound.enter (h : r.Sound) (l : Listener) : (r.enter l).Sound where
  order := by
    rw [Roster.enter, List.map_append]
    refine List.pairwise_append.mpr ⟨h.order, List.pairwise_singleton _ _, ?_⟩
    intro number hnumber other hother
    obtain ⟨m, hm, rfl⟩ := List.mem_map.mp hnumber
    rw [List.mem_singleton.mp hother]
    exact h.number_lt hm
  traced := by
    intro m hm
    rcases List.mem_append.mp hm with hold | hnew
    · obtain ⟨first, hfirst, hafter⟩ := h.traced m hold
      refine ⟨first, ?_, hafter⟩
      rw [Roster.enter, List.getElem?_append_left (h.number_lt hold)]
      exact hfirst
    · rw [List.mem_singleton.mp hnew]
      refine ⟨l, List.getElem?_concat_length, ?_⟩
      have hcalls : (r.enter l).calls r.registered.length = 0 := h.calls_new (Nat.le_refl _)
      rw [hcalls]
      exact l.after_zero
  known := by
    intro n hn
    rw [Roster.enter, List.length_append]
    exact Nat.lt_add_right _ (h.known n hn)
  once := by
    intro number first hfirst honce
    by_cases hold : number < r.registered.length
    · rw [Roster.enter, List.getElem?_append_left hold] at hfirst
      exact h.once number first hfirst honce
    · have hcalls : (r.enter l).calls number = 0 := h.calls_new (Nat.le_of_not_lt hold)
      rw [hcalls]
      exact Nat.zero_le 1

/-! ### A dispatch -/

theorem calls_dispatch (r : Roster ε) (event : String → ε) (number : Nat) :
    (r.perform (.dispatch event)).calls number =
      r.calls number + (r.called.map (·.number)).count number := by
  rw [calls, perform, List.map_append, List.count_append, List.map_map]
  rfl

theorem Sound.order_called (h : r.Sound) :
    ((r.called.map (·.number)) ++ (r.uncalled.map (·.number))).Pairwise (· < ·) := by
  rw [← List.map_append, called_append_uncalled]
  exact h.order

/-- A dispatch calls each of those that it calls once. -/
theorem Sound.nodup_called (h : r.Sound) : (r.called.map (·.number)).Nodup :=
  (List.pairwise_append.mp h.order_called).1.imp Nat.ne_of_lt

theorem Sound.calls_called (h : r.Sound) (event : String → ε) {m : Member} (hm : m ∈ r.called) :
    (r.perform (.dispatch event)).calls m.number = r.calls m.number + 1 := by
  have hmem : m.number ∈ r.called.map (·.number) := List.mem_map_of_mem hm
  rw [calls_dispatch, List.count_eq_one_of_mem h.nodup_called hmem]

theorem Sound.calls_uncalled (h : r.Sound) (event : String → ε) {m : Member}
    (hm : m ∈ r.uncalled) : (r.perform (.dispatch event)).calls m.number = r.calls m.number := by
  have hnot : m.number ∉ r.called.map (·.number) := by
    intro hmem
    have hlater := (List.pairwise_append.mp h.order_called).2.2
    exact Nat.lt_irrefl _ (hlater m.number hmem m.number (List.mem_map_of_mem hm))
  rw [calls_dispatch, List.count_eq_zero_of_not_mem hnot, Nat.add_zero]

theorem mem_of_mem_called {m : Member} (hm : m ∈ r.called) : m ∈ r.members :=
  List.mem_of_mem_take hm

/-- One that is to be called once has not been called while it is there. -/
theorem Sound.calls_once (h : r.Sound) {m : Member} (hm : m ∈ r.members) {l : Listener}
    (hl : r.registered[m.number]? = some l) (honce : l.once = true) : r.calls m.number = 0 := by
  obtain ⟨first, hfirst, hafter⟩ := h.traced m hm
  obtain rfl : l = first := Option.some.inj (hl.symm.trans hfirst)
  by_contra hcalls
  rw [Listener.after, if_pos (by simp [honce, hcalls])] at hafter
  cases hafter

theorem Sound.dispatch (h : r.Sound) (event : String → ε) :
    (r.perform (.dispatch event)).Sound where
  order := by
    have hsub : List.Sublist ((r.perform (.dispatch event)).members.map (·.number))
        (r.called.map (·.number) ++ r.uncalled.map (·.number)) := by
      rw [perform, List.map_append, List.map_map]
      refine List.Sublist.append ?_ (List.Sublist.refl _)
      exact List.filter_sublist.map Member.number
    exact h.order_called.sublist hsub
  traced := by
    intro m hm
    rcases List.mem_append.mp hm with hcalled | huncalled
    · obtain ⟨before, hbefore, rfl⟩ := List.mem_map.mp hcalled
      obtain ⟨hin, hstays⟩ := List.mem_filter.mp hbefore
      obtain ⟨l, hl, hafter⟩ := h.traced before (mem_of_mem_called hin)
      refine ⟨l, hl, ?_⟩
      have hcalls := h.calls_called event hin
      rw [Member.called, hcalls]
      exact Listener.after_succ hafter (by simpa using hstays)
    · obtain ⟨l, hl, hafter⟩ := h.traced m (List.mem_of_mem_drop huncalled)
      refine ⟨l, hl, ?_⟩
      rw [h.calls_uncalled event huncalled]
      exact hafter
  known := by
    intro n hn
    rcases List.mem_append.mp hn with hold | hnew
    · exact h.known n hold
    · obtain ⟨m, hm, rfl⟩ := List.mem_map.mp hnew
      exact h.number_lt (mem_of_mem_called hm)
  once := by
    intro number l hl honce
    by_cases hcalled : number ∈ r.called.map (·.number)
    · obtain ⟨m, hm, rfl⟩ := List.mem_map.mp hcalled
      have hfirst : (r.perform (.dispatch event)).calls m.number = 1 := by
        rw [h.calls_called event hm, h.calls_once (mem_of_mem_called hm) hl honce]
      exact Nat.le_of_eq hfirst
    · rw [calls_dispatch, List.count_eq_zero_of_not_mem hcalled]
      exact h.once number l hl honce

theorem Sound.perform (h : r.Sound) (op : Operation ε) : (r.perform op).Sound := by
  cases op with
  | add l => exact h.enter _
  | addOnce l => exact h.enter _
  | dispatch event => exact h.dispatch event
  | clear => exact ⟨List.Pairwise.nil, fun _ hm => absurd hm List.not_mem_nil, h.known, h.once⟩

end

/-! ### Listeners that stay -/

/-- The listener of this number is there, and a call to it leaves it there. -/
def Holds (r : Roster ε) (number : Nat) : Prop :=
  ∃ m ∈ r.members, m.number = number ∧ m.listener.once = false

section
variable {r : Roster ε}

theorem Holds.perform {number : Nat} (h : r.Holds number) {op : Operation ε} (hop : op ≠ .clear) :
    (r.perform op).Holds number := by
  obtain ⟨m, hm, hnumber, hstays⟩ := h
  have henter : ∀ l, (r.enter l).Holds number :=
    fun l => ⟨m, List.mem_append_left _ hm, hnumber, hstays⟩
  cases op with
  | add l => exact henter _
  | addOnce l => exact henter _
  | clear => exact (hop rfl).elim
  | dispatch event =>
    rw [← called_append_uncalled] at hm
    rcases List.mem_append.mp hm with hcalled | huncalled
    · have hkept : m ∈ r.called.filter (! ·.listener.once) :=
        List.mem_filter.mpr ⟨hcalled, by simp [hstays]⟩
      exact ⟨m.called, List.mem_append_left _ (List.mem_map_of_mem hkept), hnumber, hstays⟩
    · exact ⟨m, List.mem_append_right _ huncalled, hnumber, hstays⟩

theorem Holds.foldl {number : Nat} (h : r.Holds number) {ops : List (Operation ε)}
    (hops : .clear ∉ ops) : (ops.foldl Roster.perform r).Holds number := by
  induction ops generalizing r with
  | nil => exact h
  | cons op ops ih =>
    have hop : op ≠ .clear := fun heq => hops (heq ▸ List.mem_cons_self)
    exact ih (h.perform hop) fun hmem => hops (List.mem_cons_of_mem _ hmem)

end

/-- One that is to be called more often is there until the signal is cleared. -/
theorem holds_run (before : List (Operation ε)) (l : Listener) {between : List (Operation ε)}
    (h : .clear ∉ between) :
    (run (before ++ .add l :: between)).Holds (before.filterMap Operation.registers?).length := by
  rw [run_append, List.foldl_cons, ← registered_run]
  refine Holds.foldl ?_ h
  exact ⟨⟨_, { l with once := false }⟩, List.mem_append_right _ (List.mem_singleton_self _), rfl,
    rfl⟩

/-! ## Every dispatch of a run -/

/-- What a dispatch does with the members: it calls them in order, each of them once, up to the
first whose call fails.  It leaves those of them that are to be called more often, and all that it
does not come to. -/
structure Exact (r : Roster ε) (event : String → ε) : Prop where
  split : r.called ++ r.uncalled = r.members
  nodup : (r.called.map (·.number)).Nodup
  heard : (r.signal.dispatch event).events = r.called.map (event ·.listener.name)
  left : (r.signal.dispatch event).state.listeners =
    (r.called.filter (! ·.listener.once)).map (·.listener.called) ++ r.uncalled.map (·.listener)
  ended : ((r.signal.dispatch event).failure = none ∧ r.uncalled = [] ∧
      ∀ m ∈ r.called, m.listener.breaks = false) ∨
    ∃ earlier last reason, r.called = earlier ++ [last] ∧
      (r.signal.dispatch event).failure = some reason ∧
      last.listener.fails last.listener.calls = some reason ∧
      ∀ m ∈ earlier, m.listener.breaks = false
  looped : Walk.loop event ⟨r.signal.listeners, 0⟩ =
    some ((r.signal.dispatch event).within Signal.listeners)

theorem Sound.exact {r : Roster ε} (h : r.Sound) (event : String → ε) : r.Exact event where
  split := r.called_append_uncalled
  nodup := h.nodup_called
  heard := by
    rw [dispatch_eq, signal_called, List.map_map]
    rfl
  left := by
    rw [dispatch_eq, signal_called, signal_uncalled]
    simp only [kept, List.filter_map, List.map_map]
    rfl
  ended := by
    rcases r.signal.dispatch_cases event with ⟨hnone, hall, hquiet⟩ |
      ⟨earlier, last, reason, hcalled, hfailure, hlast, hquiet⟩
    · rw [signal_uncalled] at hall
      rw [signal_called] at hquiet
      refine Or.inl ⟨hnone, List.map_eq_nil_iff.mp hall, ?_⟩
      exact fun m hm => hquiet m.listener (List.mem_map_of_mem hm)
    · rw [signal_called] at hcalled
      obtain ⟨front, back, hsplit, rfl, hback⟩ := List.map_eq_append_iff.mp hcalled
      obtain ⟨m, rfl, rfl⟩ := List.map_eq_singleton_iff.mp hback
      refine Or.inr ⟨front, m, reason, hsplit, hfailure, hlast, ?_⟩
      exact fun n hn => hquiet n.listener (List.mem_map_of_mem hn)
  looped := walk_eq event r.signal

/-- Whoever a dispatch does not come to is behind one whose call fails. -/
theorem Sound.called_or_cut {r : Roster ε} (h : r.Sound) {m : Member} (hm : m ∈ r.members) :
    m ∈ r.called ∨ ∃ b ∈ r.called, b.number < m.number ∧ b.listener.breaks = true := by
  rw [← called_append_uncalled] at hm
  rcases List.mem_append.mp hm with hcalled | huncalled
  · exact Or.inl hcalled
  · right
    rcases r.signal.dispatch_cases id with ⟨-, hall, -⟩ |
      ⟨earlier, last, reason, hcalled, -, hlast, -⟩
    · rw [signal_uncalled, List.map_eq_nil_iff] at hall
      rw [hall] at huncalled
      cases huncalled
    · have hmem : last ∈ r.called.map (·.listener) := by
        rw [← signal_called, hcalled]
        exact List.mem_append_right _ (List.mem_singleton_self last)
      obtain ⟨b, hb, rfl⟩ := List.mem_map.mp hmem
      have hbreaks : b.listener.breaks = true := by rw [Listener.breaks, hlast]; rfl
      have hlater := (List.pairwise_append.mp h.order_called).2.2
      exact ⟨b, hb, hlater _ (List.mem_map_of_mem hb) _ (List.mem_map_of_mem huncalled), hbreaks⟩

theorem sound_run (ops : List (Operation ε)) : (run ops).Sound :=
  List.foldlRecOn ops perform sound_empty fun _ h op _ => h.perform op

end Roster

open Roster

/-- In every run of a signal, each dispatch is exact.  So a listener that is to be called once is
called at most once in the whole run, and another one by every dispatch between its registration
and the next clearing in which no call before its own fails. -/
theorem deliveries_of_run (ops : List (Operation ε)) :
    let r := Roster.run ops
    Signal.run ops = (r.signal, r.log.map (·.event)) ∧
      r.registered = ops.filterMap Operation.registers? ∧
      (r.members.map (·.number)).Pairwise (· < ·) ∧
      (∀ m ∈ r.members, ∃ l, r.registered[m.number]? = some l ∧
        l.after (r.calls m.number) = some m.listener) ∧
      (∀ event, r.Exact event) ∧
      (∀ (number : Nat) (l : Listener), r.registered[number]? = some l → l.once = true →
        r.calls number ≤ 1) ∧
      ∀ before l between, ops = before ++ .add l :: between → .clear ∉ between →
        ∃ m ∈ r.members, m.number = (before.filterMap Operation.registers?).length ∧
          m.listener.once = false ∧
          (m ∈ r.called ∨ ∃ b ∈ r.called, b.number < m.number ∧ b.listener.breaks = true) := by
  intro r
  have hsound : r.Sound := sound_run ops
  refine ⟨run_eq ops, registered_run ops, hsound.order, hsound.traced, hsound.exact, hsound.once,
    ?_⟩
  rintro before l between rfl hclear
  obtain ⟨m, hm, hnumber, hstays⟩ := holds_run before l hclear
  exact ⟨m, hm, hnumber, hstays, hsound.called_or_cut hm⟩

/-- A listener that is to be called once, one whose first call fails, and another one that is to be
called once, which the first dispatch does not come to. -/
def interrupted : List (Operation String) :=
  [.addOnce { name := "first" },
    .add { name := "second", fails := fun n => if n = 0 then some "broken" else none },
    .addOnce { name := "third" }, .dispatch id]

theorem deliveries_of_interrupted :
    (Signal.run interrupted).2 = ["first", "second"] ∧
      (Signal.run (interrupted ++ [.dispatch id])).2 = ["first", "second", "second", "third"] ∧
      (Roster.run (interrupted ++ [.dispatch id])).calls 0 ≤ 1 ∧
      (Roster.run interrupted).Exact (id : String → String) ∧
      ∃ m ∈ (Roster.run interrupted).members, m.number = 1 ∧ m.listener.once = false ∧
        (m ∈ (Roster.run interrupted).called ∨
          ∃ b ∈ (Roster.run interrupted).called,
            b.number < m.number ∧ b.listener.breaks = true) := by
  obtain ⟨-, -, -, -, hexact, -, hstays⟩ := deliveries_of_run interrupted
  obtain ⟨-, -, -, -, -, honce, -⟩ := deliveries_of_run (interrupted ++ [.dispatch id])
  refine ⟨by decide, by decide, honce 0 { name := "first", once := true } rfl rfl, hexact id, ?_⟩
  exact hstays [.addOnce { name := "first" }] _ [.addOnce { name := "third" }, .dispatch id] rfl
    (by simp)

end RouteDispatch.Signal
