/-
# The loop of a dispatch

A dispatch goes through the listeners by index.  One that is to be called once is
taken out before its call, so those behind it move up and the index stays where it
is; another one stays where it is, and the index moves on.  Either way there is
one listener less to come (`Walk.remaining_step`), so the loop ends, and it is at
an index that there is whenever it looks at a listener (`walk_eq`).

Whatever the loop has behind it are listeners that stay, already called.  From
there the whole dispatch can be read off the place of the first listener whose
call fails (`dispatch_eq`).
-/
import RouteDispatch.Proofs.Delivery.Calls

namespace RouteDispatch

namespace Listener

/-- The next call to the listener fails. -/
def breaks (l : Listener) : Bool := (l.fails l.calls).isSome

/-- What a call leaves of the listener. -/
def remains (l : Listener) : List Listener := if l.once then [] else [l.called]

theorem remains_append (l : Listener) (rest : List Listener) :
    l.remains ++ rest = if l.once then rest else l.called :: rest := by
  rw [remains]
  split <;> rfl

end Listener

namespace Signal

variable {ε : Type}

/-! ## The loop -/

/-- Where the loop is: the listeners that there are now, and the index of the next one. -/
structure Walk where
  listeners : List Listener
  index : Nat

namespace Walk

/-- The loop once the listener at the index has been dealt with. -/
def step (w : Walk) (l : Listener) : Walk :=
  if l.once then ⟨w.listeners.eraseIdx w.index, w.index⟩
  else ⟨w.listeners.set w.index l.called, w.index + 1⟩

/-- How many listeners are still to come. -/
def remaining (w : Walk) : Nat := w.listeners.length - w.index

theorem remaining_step {w : Walk} (h : w.index < w.listeners.length) (l : Listener) :
    (w.step l).remaining + 1 = w.remaining := by
  rw [step]
  split
  · simp only [remaining, List.length_eraseIdx_of_lt h]
    omega
  · simp only [remaining, List.length_set]
    omega

/-- Goes on with the loop to its end.  There is no result where it looks at a listener by an index
that is out of range. -/
def loop (event : String → ε) (w : Walk) : Option (Delivery ε (List Listener)) :=
  if _h : w.index < w.listeners.length then
    match w.listeners[w.index]? with
    | none => none
    | some l =>
      match l.fails l.calls with
      | some failure => some ⟨(w.step l).listeners, [event l.name], some failure⟩
      | none => (loop event (w.step l)).map (·.after [event l.name])
  else some (.done w.listeners)
termination_by w.remaining
decreasing_by
  have hstep := remaining_step _h l
  omega

/-- Behind the index are listeners that stay. -/
theorem loop_eq (event : String → ε) (rest front : List Listener) :
    loop event ⟨front ++ rest, front.length⟩ =
      some ((callAll event rest).within (front ++ ·)) := by
  induction rest generalizing front with
  | nil =>
    rw [loop, dif_neg (by simp)]
    rfl
  | cons l rest ih =>
    have hindex : front.length < (front ++ l :: rest).length := by
      rw [List.length_append, List.length_cons]
      omega
    have hnext : (front ++ l :: rest)[front.length]? = some l := by
      rw [List.getElem?_append_right (Nat.le_refl _), Nat.sub_self]
      rfl
    have hstep : step ⟨front ++ l :: rest, front.length⟩ l =
        ⟨(front ++ l.remains) ++ rest, (front ++ l.remains).length⟩ := by
      rw [step, Listener.remains]
      split
      · rw [List.eraseIdx_append_of_length_le (Nat.le_refl _), Nat.sub_self, List.append_nil]
        rfl
      · rw [List.set_append_right _ _ (Nat.le_refl _), Nat.sub_self, List.append_assoc,
          List.length_append]
        rfl
    rw [loop, dif_pos hindex]
    simp only [hnext, hstep, callAll, ← Listener.remains_append]
    cases l.fails l.calls with
    | some failure => simp only [Delivery.within, List.append_assoc]
    | none =>
      simp only
      rw [ih]
      simp only [Option.map_some, Delivery.within, Delivery.after, List.append_assoc]

end Walk

/-- The loop over all listeners comes to its end, and does what a dispatch does. -/
theorem walk_eq (event : String → ε) (s : Signal) :
    Walk.loop event ⟨s.listeners, 0⟩ = some ((s.dispatch event).within Signal.listeners) :=
  Walk.loop_eq event s.listeners []

/-! ## What a dispatch does -/

/-- The place of the first listener whose call fails; where none does, the place behind all. -/
def breakPlace (s : Signal) : Nat := s.listeners.findIdx Listener.breaks

/-- The listeners that stay after a call to each. -/
def kept (ls : List Listener) : List Listener := (ls.filter (! ·.once)).map Listener.called

theorem kept_cons (l : Listener) (ls : List Listener) : kept (l :: ls) = l.remains ++ kept ls := by
  rw [Listener.remains, kept, List.filter_cons]
  cases l.once <;> rfl

theorem callAll_eq (event : String → ε) (ls : List Listener) :
    callAll event ls =
      ⟨kept (ls.take (ls.findIdx Listener.breaks + 1)) ++
          ls.drop (ls.findIdx Listener.breaks + 1),
        (ls.take (ls.findIdx Listener.breaks + 1)).map (event ·.name),
        ls[ls.findIdx Listener.breaks]?.bind fun l => l.fails l.calls⟩ := by
  induction ls with
  | nil => rfl
  | cons l ls ih =>
    simp only [callAll, ← Listener.remains_append]
    cases hl : l.fails l.calls with
    | some failure =>
      have hplace : (l :: ls).findIdx Listener.breaks = 0 := by
        rw [List.findIdx_cons, Listener.breaks, hl]
        rfl
      rw [hplace, List.take_succ_cons, List.take_zero, kept_cons]
      simp [kept, hl]
    | none =>
      have hplace : (l :: ls).findIdx Listener.breaks = ls.findIdx Listener.breaks + 1 := by
        rw [List.findIdx_cons, Listener.breaks, hl]
        rfl
      rw [hplace, List.take_succ_cons, kept_cons, ih]
      simp [Delivery.within, Delivery.after]

/-- The listeners that a dispatch calls. -/
def called (s : Signal) : List Listener := s.listeners.take (s.breakPlace + 1)

/-- Those that it does not come to. -/
def uncalled (s : Signal) : List Listener := s.listeners.drop (s.breakPlace + 1)

theorem dispatch_eq (event : String → ε) (s : Signal) :
    s.dispatch event =
      ⟨⟨kept s.called ++ s.uncalled⟩, s.called.map (event ·.name),
        s.listeners[s.breakPlace]?.bind fun l => l.fails l.calls⟩ := by
  rw [dispatch, callAll_eq]
  rfl

theorem called_append_uncalled (s : Signal) : s.called ++ s.uncalled = s.listeners :=
  List.take_append_drop _ _

/-- Either all listeners are called and none of the calls fails, or the call to the last one called
is the first that fails. -/
theorem dispatch_cases (event : String → ε) (s : Signal) :
    ((s.dispatch event).failure = none ∧ s.uncalled = [] ∧ ∀ l ∈ s.called, l.breaks = false) ∨
      ∃ earlier last reason, s.called = earlier ++ [last] ∧
        (s.dispatch event).failure = some reason ∧ last.fails last.calls = some reason ∧
        ∀ l ∈ earlier, l.breaks = false := by
  have hearlier : ∀ l ∈ s.listeners.take s.breakPlace, l.breaks = false := by
    intro l hl
    obtain ⟨place, hplace, rfl⟩ := List.mem_take_iff_getElem.mp hl
    exact List.not_of_lt_findIdx (Nat.lt_of_lt_of_le hplace (Nat.min_le_left _ _))
  rw [dispatch_eq]
  by_cases hplace : s.breakPlace < s.listeners.length
  · right
    have hbreaks : s.listeners[s.breakPlace].breaks = true := List.findIdx_getElem
    obtain ⟨reason, hreason⟩ := Option.isSome_iff_exists.mp hbreaks
    refine ⟨s.listeners.take s.breakPlace, s.listeners[s.breakPlace], reason, ?_, ?_, hreason,
      hearlier⟩
    · exact (List.take_append_getElem hplace).symm
    · simp only [List.getElem?_eq_getElem hplace]
      exact hreason
  · left
    have hall : s.listeners.length ≤ s.breakPlace := Nat.le_of_not_lt hplace
    refine ⟨?_, ?_, ?_⟩
    · simp only [List.getElem?_eq_none hall]
      rfl
    · exact List.drop_of_length_le (Nat.le_succ_of_le hall)
    · intro l hl
      refine hearlier l ?_
      rw [List.take_of_length_le hall]
      exact List.mem_of_mem_take hl

end Signal

end RouteDispatch
