/-
# Calls that are due, and calls that are made

A delivery goes through a list of calls that is fixed before the first of them
is made: what happens to a call never adds another one.  `Delivery.Makes d calls`
says that `calls` is that list for `d`.  Then all of them are made up to the
first that fails, and its failure is the failure of the delivery.

The list of calls that are due is the reference for everything that is said
about what listeners hear: with no failure it is heard as a whole
(`Makes.events_of_quiet`), and otherwise a part from its start is.
-/
import RouteDispatch.Signal

namespace RouteDispatch

/-- A call that is due: what is reported of it, and why it fails, if it does. -/
structure Call (ε : Type) where
  event : ε
  failure : Option String

namespace Call

variable {ε : Type}

/-- The calls that are made: all up to the first that fails. -/
def made : List (Call ε) → List (Call ε)
  | [] => []
  | c :: cs => c :: if c.failure.isSome then [] else made cs

/-- The failure of the first call that fails. -/
def failure? (calls : List (Call ε)) : Option String := calls.findSome? (·.failure)

/-- No call fails. -/
def Quiet (calls : List (Call ε)) : Prop := ∀ c ∈ calls, c.failure = none

theorem made_prefix (calls : List (Call ε)) : made calls <+: calls := by
  induction calls with
  | nil => exact List.prefix_refl _
  | cons c cs ih =>
    rw [made, List.cons_prefix_cons]
    refine ⟨rfl, ?_⟩
    split
    · exact List.nil_prefix
    · exact ih

theorem failure?_eq_none_iff {calls : List (Call ε)} : failure? calls = none ↔ Quiet calls :=
  List.findSome?_eq_none_iff

theorem made_of_quiet {calls : List (Call ε)} (h : Quiet calls) : made calls = calls := by
  induction calls with
  | nil => rfl
  | cons c cs ih =>
    have hc : c.failure = none := h c List.mem_cons_self
    rw [made, hc, ih fun d hd => h d (List.mem_cons_of_mem _ hd)]
    rfl

theorem failure?_append (first second : List (Call ε)) :
    failure? (first ++ second) = (failure? first).or (failure? second) := by
  rw [failure?, List.findSome?_append]
  rfl

/-- Calls behind one that fails are not made. -/
theorem made_append (first second : List (Call ε)) :
    made (first ++ second) =
      made first ++ if (failure? first).isSome then [] else made second := by
  induction first with
  | nil => rfl
  | cons c cs ih =>
    cases hc : c.failure with
    | some reason => simp [made, failure?, hc]
    | none =>
      simp only [failure?] at ih
      simp [made, failure?, hc, ih]

end Call

namespace Delivery

variable {ε σ τ α : Type}

/-- These calls are due in a delivery, and it makes them up to the first that fails. -/
structure Makes (d : Delivery ε σ) (calls : List (Call ε)) : Prop where
  events : d.events = (Call.made calls).map (·.event)
  failure : d.failure = Call.failure? calls

theorem makes_done (s : σ) : (done s : Delivery ε σ).Makes [] := ⟨rfl, rfl⟩

section
variable {d : Delivery ε σ} {calls : List (Call ε)}

theorem Makes.within (h : d.Makes calls) (put : σ → τ) : (d.within put).Makes calls :=
  ⟨h.events, h.failure⟩

theorem Makes.failure_eq_none_iff (h : d.Makes calls) : d.failure = none ↔ Call.Quiet calls := by
  rw [h.failure]
  exact Call.failure?_eq_none_iff

/-- All that is due is heard if nothing fails. -/
theorem Makes.events_of_quiet (h : d.Makes calls) (hq : Call.Quiet calls) :
    d.events = calls.map (·.event) := by
  rw [h.events, Call.made_of_quiet hq]

/-- What is due behind a delivery is due if nothing failed in it. -/
theorem Makes.andThen {next : σ → Delivery ε σ} {further : List (Call ε)} (h : d.Makes calls)
    (hnext : d.failure = none → (next d.state).Makes further) :
    (d.andThen next).Makes (calls ++ further) := by
  have hcalls := h.failure
  cases hd : d.failure with
  | some reason =>
    rw [hd] at hcalls
    rw [Delivery.andThen, hd]
    refine ⟨?_, ?_⟩
    · rw [h.events, Call.made_append, ← hcalls]
      simp
    · rw [hd, Call.failure?_append, ← hcalls]
      rfl
  | none =>
    rw [hd] at hcalls
    have hn := hnext hd
    rw [Delivery.andThen, hd]
    refine ⟨?_, ?_⟩
    · simp [h.events, hn.events, Call.made_append, ← hcalls]
    · rw [Call.failure?_append, ← hcalls]
      exact hn.failure

end

/-- Where a failure ended a delivery, nothing follows. -/
theorem andThen_of_failure {d : Delivery ε σ} (next : σ → Delivery ε σ) (h : d.failure ≠ none) :
    d.andThen next = d := by
  obtain ⟨reason, hreason⟩ := Option.ne_none_iff_exists'.mp h
  rw [andThen, hreason]

/-- Nothing failed on the whole if nothing failed on either side. -/
theorem andThen_failure_eq_none {d : Delivery ε σ} {next : σ → Delivery ε σ}
    (h : (d.andThen next).failure = none) : d.failure = none ∧ (next d.state).failure = none := by
  rw [andThen] at h
  cases hd : d.failure with
  | some reason =>
    rw [hd] at h
    exact absurd (hd ▸ h) (by simp)
  | none =>
    rw [hd] at h
    exact ⟨rfl, h⟩

theorem andThen_state_of_quiet {d : Delivery ε σ} (next : σ → Delivery ε σ)
    (h : d.failure = none) : (d.andThen next).state = (next d.state).state := by
  rw [andThen, h]

/-- What one delivery keeps, a row of them keeps. -/
theorem forEach_state_induct {deliver : α → σ → Delivery ε σ} {P : σ → Prop}
    (step : ∀ a s, P s → P (deliver a s).state) (as : List α) {s : σ} (h : P s) :
    P (forEach deliver as s).state := by
  induction as generalizing s with
  | nil => exact h
  | cons a as ih =>
    rw [forEach]
    cases hf : (deliver a s).failure with
    | some reason =>
      rw [andThen_of_failure _ (by simp [hf])]
      exact step a s h
    | none =>
      rw [andThen_state_of_quiet _ hf]
      exact ih (step a s h)

/-- The calls due in a row of deliveries.  The invariant relates what is still to be delivered to
the state before it; it says which calls the next delivery is due. -/
theorem makes_forEach {deliver : α → σ → Delivery ε σ} {due : α → List (Call ε)}
    {P : List α → σ → Prop}
    (step : ∀ a as s, P (a :: as) s →
      (deliver a s).Makes (due a) ∧ ((deliver a s).failure = none → P as (deliver a s).state))
    (as : List α) {s : σ} (h : P as s) : (forEach deliver as s).Makes (as.flatMap due) := by
  induction as generalizing s with
  | nil => exact makes_done s
  | cons a as ih =>
    obtain ⟨hmakes, hnext⟩ := step a as s h
    exact hmakes.andThen fun hf => ih (hnext hf)

end Delivery

/-! ## Signals -/

namespace Listener

variable {ε : Type}

/-- The next call to a listener. -/
def due (event : String → ε) (l : Listener) : Call ε := ⟨event l.name, l.fails l.calls⟩

end Listener

namespace Signal

variable {ε : Type}

/-- The calls of a dispatch, one for each listener. -/
def due (event : String → ε) (s : Signal) : List (Call ε) := s.listeners.map (Listener.due event)

/-- The signal once each listener was called: those to be called once are gone. -/
def spent (s : Signal) : Signal := ⟨(s.listeners.filter (! ·.once)).map Listener.called⟩

theorem makes_callAll (event : String → ε) (ls : List Listener) :
    (callAll event ls).Makes (ls.map (Listener.due event)) := by
  induction ls with
  | nil => exact ⟨rfl, rfl⟩
  | cons l ls ih =>
    cases hl : l.fails l.calls with
    | some reason =>
      refine ⟨?_, ?_⟩ <;> simp [callAll, Listener.due, Call.made, Call.failure?, hl]
    | none =>
      have hfailure := ih.failure
      rw [Call.failure?] at hfailure
      refine ⟨?_, ?_⟩
      · simp [callAll, Listener.due, Call.made, hl, Delivery.after, Delivery.within, ih.events]
      · simp [callAll, Listener.due, Call.failure?, hl, Delivery.after, Delivery.within,
          hfailure]

theorem makes_dispatch (event : String → ε) (s : Signal) : (s.dispatch event).Makes (s.due event) :=
  (makes_callAll event s.listeners).within Signal.mk

theorem callAll_state_of_quiet (event : String → ε) {ls : List Listener}
    (h : (callAll event ls).failure = none) :
    (callAll event ls).state = (ls.filter (! ·.once)).map Listener.called := by
  induction ls with
  | nil => rfl
  | cons l ls ih =>
    cases hl : l.fails l.calls with
    | some reason => simp [callAll, hl] at h
    | none =>
      have hrest : (callAll event ls).failure = none := by
        simpa [callAll, hl, Delivery.after, Delivery.within] using h
      cases ho : l.once <;> simp [callAll, hl, ho, Delivery.after, Delivery.within, ih hrest]

/-- A dispatch in which nothing fails calls every listener. -/
theorem dispatch_state_of_quiet (event : String → ε) {s : Signal}
    (h : (s.dispatch event).failure = none) : (s.dispatch event).state = s.spent := by
  have hcalls : (callAll event s.listeners).failure = none := h
  rw [dispatch, spent, ← callAll_state_of_quiet event hcalls]
  rfl

end Signal

end RouteDispatch
