/-
# Deliveries, one call after the other

A delivery to listeners is a row of single calls.  Each of them is to a seat, the
place that a listener had before the delivery began, and all that a delivery
changes is how often every seat has been called.  So the state behind any part of
a delivery is a function of these counts, also where a call fails and the
rest of the row is not made (`calls_cases`).

For a signal this is `dispatch_after`: a dispatch from the state that some
counts describe makes the calls that are left, and comes to the state that the
new counts describe.
-/
import RouteDispatch.Proofs.Delivery.Calls

namespace RouteDispatch

namespace Delivery

variable {ε σ τ α β : Type}

/-! ## Rows of deliveries -/

theorem andThen_assoc (d : Delivery ε σ) (f g : σ → Delivery ε σ) :
    (d.andThen f).andThen g = d.andThen fun s => (f s).andThen g := by
  cases hd : d.failure with
  | some reason => simp [andThen, hd]
  | none => cases hf : (f d.state).failure <;> simp [andThen, hd, hf]

/-- Only what is done from the state that was reached matters. -/
theorem andThen_congr {d : Delivery ε σ} {f g : σ → Delivery ε σ}
    (h : d.failure = none → f d.state = g d.state) : d.andThen f = d.andThen g := by
  cases hd : d.failure with
  | some reason => simp [andThen, hd]
  | none => simp [andThen, hd, h hd]

theorem within_andThen (d : Delivery ε σ) (put : σ → τ) {f : τ → Delivery ε τ}
    {g : σ → Delivery ε σ} (h : d.failure = none → f (put d.state) = (g d.state).within put) :
    (d.within put).andThen f = (d.andThen g).within put := by
  cases hd : d.failure with
  | some reason => simp [andThen, within, hd]
  | none => simp [andThen, within, hd, h hd]

theorem forEach_append (deliver : α → σ → Delivery ε σ) (first second : List α) (s : σ) :
    forEach deliver (first ++ second) s =
      (forEach deliver first s).andThen (forEach deliver second) := by
  induction first generalizing s with
  | nil => rfl
  | cons a first ih =>
    rw [List.cons_append, forEach, forEach, andThen_assoc]
    exact andThen_congr fun _ => ih _

/-- A row of deliveries that is mirrored in a larger state. -/
theorem forEach_map_within (deliver : α → σ → Delivery ε σ) (deliver' : β → τ → Delivery ε τ)
    (name : α → β) (put : σ → τ) (as : List α)
    (h : ∀ a ∈ as, ∀ s, deliver' (name a) (put s) = (deliver a s).within put) (s : σ) :
    forEach deliver' (as.map name) (put s) = (forEach deliver as s).within put := by
  induction as generalizing s with
  | nil => rfl
  | cons a as ih =>
    rw [List.map_cons, forEach, forEach, h a List.mem_cons_self]
    exact within_andThen _ put fun _ => ih (fun b hb => h b (List.mem_cons_of_mem _ hb)) _

/-- Deliveries each of which is a row in a smaller state make one row.  The invariant relates what
is still to be delivered to the state before it. -/
theorem forEach_flatMap_within (deliver : α → τ → Delivery ε τ) (call : β → σ → Delivery ε σ)
    (plan : α → List β) (put : σ → τ) {P : List α → σ → Prop}
    (step : ∀ a as s, P (a :: as) s →
      deliver a (put s) = (forEach call (plan a) s).within put ∧
        ((forEach call (plan a) s).failure = none → P as (forEach call (plan a) s).state))
    (as : List α) {s : σ} (h : P as s) :
    forEach deliver as (put s) = (forEach call (as.flatMap plan) s).within put := by
  induction as generalizing s with
  | nil => rfl
  | cons a as ih =>
    obtain ⟨hfirst, hnext⟩ := step a as s h
    rw [forEach, hfirst, List.flatMap_cons, forEach_append]
    exact within_andThen _ put fun hf => ih (hnext hf)

end Delivery

/-! ## Single calls -/

/-- A call that is due to a seat, and what is reported of it. -/
structure Notice (κ ε : Type) where
  seat : κ
  event : ε

section
variable {κ ε : Type} [DecidableEq κ]

/-- One more call to a seat. -/
def bump (counts : κ → Nat) (seat : κ) : κ → Nat :=
  fun other => if other = seat then counts seat + 1 else counts other

/-- How often each seat has been called once these notices are given as well. -/
def tally (counts : κ → Nat) (notices : List (Notice κ ε)) : κ → Nat :=
  notices.foldl (fun counts n => bump counts n.seat) counts

/-- Makes a call, which may fail; `fails seat n` says so of the call that has `n` others to its seat
before it. -/
def call (fails : κ → Nat → Option String) (n : Notice κ ε) (counts : κ → Nat) :
    Delivery ε (κ → Nat) :=
  ⟨bump counts n.seat, [n.event], fails n.seat (counts n.seat)⟩

theorem bump_self (counts : κ → Nat) (seat : κ) : bump counts seat seat = counts seat + 1 :=
  if_pos rfl

theorem bump_of_ne (counts : κ → Nat) {seat other : κ} (h : other ≠ seat) :
    bump counts seat other = counts other := if_neg h

theorem tally_append (counts : κ → Nat) (first second : List (Notice κ ε)) :
    tally counts (first ++ second) = tally (tally counts first) second := List.foldl_append

theorem tally_eq (counts : κ → Nat) (notices : List (Notice κ ε)) (seat : κ) :
    tally counts notices seat = counts seat + (notices.map (·.seat)).count seat := by
  induction notices generalizing counts with
  | nil => rfl
  | cons n notices ih =>
    refine (ih (bump counts n.seat)).trans ?_
    rw [List.map_cons, List.count_cons]
    by_cases h : seat = n.seat
    · rw [h, bump_self, beq_self_eq_true, if_pos rfl]
      omega
    · rw [bump_of_ne _ h, if_neg (by simpa using Ne.symm h)]
      omega

/-- Seats to which no call is due are not called. -/
theorem tally_of_not_mem (counts : κ → Nat) {notices : List (Notice κ ε)} {seat : κ}
    (h : ∀ n ∈ notices, n.seat ≠ seat) : tally counts notices seat = counts seat := by
  have hnot : seat ∉ notices.map (·.seat) := by
    intro hmem
    obtain ⟨n, hn, heq⟩ := List.mem_map.mp hmem
    exact h n hn heq
  rw [tally_eq, List.count_eq_zero_of_not_mem hnot, Nat.add_zero]

theorem le_tally (counts : κ → Nat) (notices : List (Notice κ ε)) (seat : κ) :
    counts seat ≤ tally counts notices seat := by
  rw [tally_eq]
  exact Nat.le_add_right _ _

/-- None of these calls fails, with so many made to each seat before them. -/
def Unfailing (fails : κ → Nat → Option String) : (κ → Nat) → List (Notice κ ε) → Prop
  | _, [] => True
  | counts, n :: notices =>
    fails n.seat (counts n.seat) = none ∧ Unfailing fails (bump counts n.seat) notices

theorem Unfailing.append {fails : κ → Nat → Option String} {counts : κ → Nat}
    {first second : List (Notice κ ε)} (hfirst : Unfailing fails counts first)
    (hsecond : Unfailing fails (tally counts first) second) :
    Unfailing fails counts (first ++ second) := by
  induction first generalizing counts with
  | nil => exact hsecond
  | cons n first ih => exact ⟨hfirst.1, ih hfirst.2 hsecond⟩

/-- Either all calls are made, or those up to the first that fails. -/
theorem calls_cases (fails : κ → Nat → Option String) (notices : List (Notice κ ε))
    (counts : κ → Nat) :
    let d := Delivery.forEach (call fails) notices counts
    (d.failure = none ∧ d.events = notices.map (·.event) ∧ d.state = tally counts notices ∧
        Unfailing fails counts notices) ∨
      ∃ earlier last later reason, notices = earlier ++ last :: later ∧
        d.failure = some reason ∧ d.events = (earlier ++ [last]).map (·.event) ∧
        d.state = tally counts (earlier ++ [last]) ∧
        fails last.seat (tally counts earlier last.seat) = some reason ∧
        Unfailing fails counts earlier := by
  intro d
  induction notices generalizing counts with
  | nil => exact Or.inl ⟨rfl, rfl, rfl, trivial⟩
  | cons n notices ih =>
    cases hn : fails n.seat (counts n.seat) with
    | some reason =>
      refine Or.inr ⟨[], n, notices, reason, rfl, ?_, ?_, ?_, hn, trivial⟩
      · simp [d, Delivery.forEach, Delivery.andThen, call, hn]
      · simp [d, Delivery.forEach, Delivery.andThen, call, hn]
      · simp [d, Delivery.forEach, Delivery.andThen, call, hn, tally]
    | none =>
      have hd : d = ⟨(Delivery.forEach (call fails) notices (bump counts n.seat)).state,
          n.event :: (Delivery.forEach (call fails) notices (bump counts n.seat)).events,
          (Delivery.forEach (call fails) notices (bump counts n.seat)).failure⟩ := by
        simp [d, Delivery.forEach, Delivery.andThen, call, hn]
      rw [hd]
      rcases ih (bump counts n.seat) with ⟨hf, he, hs, hall⟩ |
        ⟨earlier, last, later, reason, hsplit, hf, he, hs, hlast, hearlier⟩
      · exact Or.inl ⟨hf, congrArg (n.event :: ·) he, hs, hn, hall⟩
      · exact Or.inr ⟨n :: earlier, last, later, reason, congrArg (n :: ·) hsplit, hf,
          congrArg (n.event :: ·) he, hs, hlast, hn, hearlier⟩

theorem calls_state_of_quiet {fails : κ → Nat → Option String} {notices : List (Notice κ ε)}
    {counts : κ → Nat} (h : (Delivery.forEach (call fails) notices counts).failure = none) :
    (Delivery.forEach (call fails) notices counts).state = tally counts notices := by
  rcases calls_cases fails notices counts with ⟨-, -, hs, -⟩ | ⟨-, -, -, reason, -, hf, -⟩
  · exact hs
  · rw [h] at hf
    cases hf

end

/-! ## Signals -/

/-- The listener after this many more calls, if it is still there. -/
def Listener.after (l : Listener) (n : Nat) : Option Listener :=
  if l.once && n != 0 then none else some { l with calls := l.calls + n }

theorem Listener.after_zero (l : Listener) : l.after 0 = some l := by simp [after]

/-- One that is still there after some calls, and stays, is there after another one. -/
theorem Listener.after_succ {l later : Listener} {n : Nat} (h : l.after n = some later)
    (hstays : later.once = false) : l.after (n + 1) = some later.called := by
  rw [after] at h
  split at h
  · cases h
  · cases h
    rw [after, if_neg (by simpa using hstays)]
    rfl

namespace Signal

variable {ε : Type}

/-- What is left of listeners once each of them was called so often, the first of them having this
place. -/
def left (start : Nat) (ls : List Listener) (counts : Nat → Nat) : List Listener :=
  (ls.zipIdx start).filterMap fun p => p.1.after (counts p.2)

/-- The calls to those listeners that are left. -/
def noticesFrom (start : Nat) (ls : List Listener) (counts : Nat → Nat) (event : String → ε) :
    List (Notice Nat ε) :=
  ((ls.zipIdx start).filter fun p => (p.1.after (counts p.2)).isSome).map fun p =>
    ⟨p.2, event p.1.name⟩

/-- The signal after its listeners have been called so often, each of them being named by the place
that it has now. -/
def after (s : Signal) (counts : Nat → Nat) : Signal := ⟨left 0 s.listeners counts⟩

/-- The calls of a dispatch, with these calls made already. -/
def notices (s : Signal) (counts : Nat → Nat) (event : String → ε) : List (Notice Nat ε) :=
  noticesFrom 0 s.listeners counts event

/-- Why a call to a place fails, if it does, with this many calls to it made already. -/
def fails (s : Signal) (place n : Nat) : Option String :=
  s.listeners[place]?.bind fun l => l.fails (l.calls + n)

theorem after_zero (s : Signal) : s.after (fun _ => 0) = s := by
  have hall : left 0 s.listeners (fun _ => 0) = s.listeners := by
    simp only [left, Listener.after_zero]
    rw [List.filterMap_eq_map', List.zipIdx_map_fst]
  rw [after, hall]

/-! ### A dispatch as a row of calls -/

/-- The counts, but this one for one place. -/
def putCount (place n : Nat) (counts : Nat → Nat) : Nat → Nat :=
  fun other => if other = place then n else counts other

theorem putCount_self (place : Nat) (counts : Nat → Nat) :
    putCount place (counts place) counts = counts := by
  funext other
  rw [putCount]
  split
  · next h => rw [h]
  · rfl

theorem left_cons (start : Nat) (l : Listener) (ls : List Listener) (counts : Nat → Nat) :
    left start (l :: ls) counts =
      (l.after (counts start)).toList ++ left (start + 1) ls counts := by
  rw [left, List.zipIdx_cons, List.filterMap_cons]
  simp only
  cases l.after (counts start) <;> rfl

/-- Earlier places do not count. -/
theorem left_putCount {place start : Nat} (h : place < start) (n : Nat) (ls : List Listener)
    (counts : Nat → Nat) : left start ls (putCount place n counts) = left start ls counts := by
  induction ls generalizing start with
  | nil => rfl
  | cons l ls ih =>
    have hfirst : putCount place n counts start = counts start := if_neg (Nat.ne_of_gt h)
    rw [left_cons, left_cons, hfirst, ih (Nat.lt_succ_of_lt h)]

/-- What is left, by how often the first of the listeners was called. -/
theorem left_cons_putCount (start n : Nat) (l : Listener) (ls : List Listener)
    (counts : Nat → Nat) :
    left start (l :: ls) (putCount start n counts) =
      (l.after n).toList ++ left (start + 1) ls counts := by
  have hfirst : putCount start n counts start = n := if_pos rfl
  rw [left_cons, hfirst, left_putCount (Nat.lt_succ_self start)]

theorem noticesFrom_cons (start : Nat) (l : Listener) (ls : List Listener) (counts : Nat → Nat)
    (event : String → ε) :
    noticesFrom start (l :: ls) counts event =
      (if (l.after (counts start)).isSome then [⟨start, event l.name⟩] else []) ++
        noticesFrom (start + 1) ls counts event := by
  rw [noticesFrom, List.zipIdx_cons, List.filter_cons]
  simp only
  split <;> rfl

theorem seat_of_mem_noticesFrom {start : Nat} {ls : List Listener} {counts : Nat → Nat}
    {event : String → ε} {n : Notice Nat ε} (h : n ∈ noticesFrom start ls counts event) :
    start ≤ n.seat := by
  obtain ⟨p, hp, rfl⟩ := List.mem_map.mp h
  exact List.le_snd_of_mem_zipIdx (List.mem_filter.mp hp).1

/-- Calls to other places do not depend on how often this one was called. -/
theorem calls_putCount (fails : Nat → Nat → Option String) {notices : List (Notice Nat ε)}
    {place : Nat} (h : ∀ m ∈ notices, m.seat ≠ place) (n : Nat) (counts : Nat → Nat) :
    Delivery.forEach (call fails) notices (putCount place n counts) =
      (Delivery.forEach (call fails) notices counts).within (putCount place n) := by
  have hmirror := Delivery.forEach_map_within (call fails) (call fails) id
    (putCount place n) notices ?_ counts
  · rwa [List.map_id] at hmirror
  · intro m hm counts
    have hcount : putCount place n counts m.seat = counts m.seat := if_neg (h m hm)
    have hbump : bump (putCount place n counts) m.seat = putCount place n (bump counts m.seat) := by
      funext other
      simp only [bump, putCount]
      by_cases ho : other = place
      · subst ho
        rw [if_pos rfl, if_neg (Ne.symm (h m hm)), if_pos rfl]
      · rw [if_neg ho, if_neg ho, if_neg (h m hm)]
    simp only [id, call, Delivery.within, hcount, hbump]

/-- The listeners that are left are called in order, one call after the other. -/
theorem callAll_left (event : String → ε) {fails : Nat → Nat → Option String}
    (ls : List Listener) (start : Nat)
    (hfails : ∀ p ∈ ls.zipIdx start, ∀ n, fails p.2 n = p.1.fails (p.1.calls + n))
    (counts : Nat → Nat) :
    callAll event (left start ls counts) =
      (Delivery.forEach (call fails) (noticesFrom start ls counts event) counts).within
        (left start ls) := by
  induction ls generalizing start counts with
  | nil => rfl
  | cons l ls ih =>
    have hrest := ih (start + 1) (fun p hp => hfails p (List.mem_cons_of_mem _ hp)) counts
    have hlater : ∀ m ∈ noticesFrom (start + 1) ls counts event, m.seat ≠ start :=
      fun m hm => Nat.ne_of_gt (seat_of_mem_noticesFrom hm)
    have hcalls := fun n => calls_putCount fails hlater n counts
    rw [left_cons, noticesFrom_cons]
    cases hl : l.after (counts start) with
    | none =>
      -- The listener is gone, and stays so.
      have hgone := hcalls (counts start)
      rw [putCount_self] at hgone
      simp only [Option.toList_none, List.nil_append, Option.isSome_none, Bool.false_eq_true,
        if_false]
      rw [hrest, hgone]
      simp only [Delivery.within, left_cons_putCount, hl, Option.toList_none, List.nil_append,
        left_putCount (Nat.lt_succ_self start)]
    | some l' =>
      have hl' : l' = { l with calls := l.calls + counts start } := by
        rw [Listener.after] at hl
        split at hl
        · cases hl
        · exact (Option.some.inj hl).symm
      have hkept : ∀ rest, (if l'.once then rest else l'.called :: rest) =
          (l.after (counts start + 1)).toList ++ rest := by
        intro rest
        subst hl'
        cases ho : l.once <;> simp [Listener.after, ho, Listener.called, Nat.add_assoc]
      have hfirst : fails start (counts start) = l'.fails l'.calls := by
        rw [hl']
        exact hfails (l, start) (by simp) (counts start)
      have hname : l'.name = l.name := by rw [hl']
      have hbump : bump counts start = putCount start (counts start + 1) counts := rfl
      have hlast := hcalls (counts start + 1)
      rw [← hbump] at hlast
      simp only [Option.toList_some, List.singleton_append, Option.isSome_some, if_true,
        Delivery.forEach, callAll, hkept, hname, call, hfirst, hrest]
      cases hf : l'.fails l'.calls with
      | some reason => simp [Delivery.andThen, Delivery.within, hbump, left_cons_putCount]
      | none =>
        simp [Delivery.andThen, Delivery.within, Delivery.after, hlast, left_cons_putCount]

/-- A dispatch goes through the listeners that are left, one call after the other. -/
theorem dispatch_after (event : String → ε) (s : Signal) (counts : Nat → Nat) :
    (s.after counts).dispatch event =
      (Delivery.forEach (call s.fails) (s.notices counts event) counts).within s.after := by
  have hfails : ∀ p ∈ s.listeners.zipIdx 0, ∀ n, s.fails p.2 n = p.1.fails (p.1.calls + n) := by
    rintro ⟨l, place⟩ hp n
    have hfound : s.listeners[place]? = some l := List.mem_zipIdx_iff_getElem?.mp hp
    rw [fails, hfound]
    rfl
  rw [dispatch, after, callAll_left event s.listeners 0 hfails counts]
  rfl

end Signal

end RouteDispatch
