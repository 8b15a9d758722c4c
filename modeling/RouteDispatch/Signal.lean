/-
Lists of listeners for one kind of notification.

A dispatch calls the listeners in the order in which they were added. One that
is to be called once leaves the list before its call, so it is gone whatever
happens then. A call that fails ends the dispatch, and the listeners behind are not
called.
-/
import RouteDispatch.Delivery
import RouteDispatch.Text.Quoted

namespace RouteDispatch

/-- A listener. Its calls are counted from zero, and each of them may fail. -/
structure Listener where
  name : String
  /-- Why the call of this number fails, if it does. -/
  fails : Nat → Option String := fun _ => none
  /-- How many times it was called. -/
  calls : Nat := 0
  once : Bool := false

/-- The listener after another call. -/
def Listener.called (l : Listener) : Listener := { l with calls := l.calls + 1 }

/-- The listeners for one kind of notification, in the order in which they were added. -/
structure Signal where
  listeners : List Listener := []

namespace Signal

/-- Adds a listener behind all others. -/
def add (s : Signal) (l : Listener) : Signal := ⟨s.listeners ++ [l]⟩

/-- Drops all listeners. -/
def clear (_ : Signal) : Signal := {}

/-- The number of listeners. -/
def size (s : Signal) : Nat := s.listeners.length

/-- There are no listeners. -/
def isEmpty (s : Signal) : Bool := s.listeners.isEmpty

/-- Calls the listeners in order, up to the first that fails. What is left are those that are called
more than once, and all that were not called. -/
def callAll {ε : Type} (event : String → ε) : List Listener → Delivery ε (List Listener)
  | [] => .done []
  | l :: rest =>
    let kept := fun rest => if l.once then rest else l.called :: rest
    match l.fails l.calls with
    | some failure => ⟨kept rest, [event l.name], some failure⟩
    | none => ((callAll event rest).within kept).after [event l.name]

/-- Notifies all listeners; `event` says what is reported of the call to a listener. -/
def dispatch {ε : Type} (s : Signal) (event : String → ε) : Delivery ε Signal :=
  (callAll event s.listeners).within Signal.mk

/-- The signal on one line. -/
def shown (s : Signal) : String := Text.shownRecord "Signal" [("listeners", toString s.size)]

end Signal

end RouteDispatch
