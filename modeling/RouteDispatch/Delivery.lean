/-
Calls to what the user of a router supplies, any of which may fail.

`Traced` is a computation that only asks: it leaves nothing behind but the
list of the calls it made. `Delivery` also changes something; a failure ends it
with the changes made so far.
-/
namespace RouteDispatch

/-- A computation with the calls it made, and its value or the failure that cut it short. -/
structure Traced (ε α : Type) where
  calls : List ε
  result : Except String α

namespace Traced

variable {ε α β : Type}

/-- A value, and no call. -/
protected def pure (a : α) : Traced ε α := ⟨[], .ok a⟩

/-- Goes on with the value, unless there was a failure. -/
protected def bind (t : Traced ε α) (next : α → Traced ε β) : Traced ε β :=
  match t.result with
  | .ok a => ⟨t.calls ++ (next a).calls, (next a).result⟩
  | .error failure => ⟨t.calls, .error failure⟩

instance : Monad (Traced ε) where
  pure := Traced.pure
  bind := Traced.bind

/-- A single call, with what came of it. -/
def call (event : ε) (result : Except String α) : Traced ε α := ⟨[event], result⟩

/-- A result without a call to speak of. -/
def ofResult (result : Except String α) : Traced ε α := ⟨[], result⟩

end Traced

/-- The state after some calls, the calls in order, and the failure that ended them early, if one
did. -/
structure Delivery (ε σ : Type) where
  state : σ
  events : List ε
  failure : Option String

namespace Delivery

variable {ε σ τ α : Type}

/-- Nothing is called. -/
def done (s : σ) : Delivery ε σ := ⟨s, [], none⟩

/-- Goes on from the state, unless there was a failure. -/
def andThen (d : Delivery ε σ) (next : σ → Delivery ε σ) : Delivery ε σ :=
  match d.failure with
  | some _ => d
  | none =>
    let n := next d.state
    ⟨n.state, d.events ++ n.events, n.failure⟩

/-- One delivery for each member of a list, in order. -/
def forEach (deliver : α → σ → Delivery ε σ) : List α → σ → Delivery ε σ
  | [], s => done s
  | a :: as, s => (deliver a s).andThen (forEach deliver as)

/-- Puts the state into a larger one. -/
def within (d : Delivery ε σ) (put : σ → τ) : Delivery ε τ := ⟨put d.state, d.events, d.failure⟩

/-- Has other events come before. -/
def after (d : Delivery ε σ) (events : List ε) : Delivery ε σ :=
  { d with events := events ++ d.events }

end Delivery

end RouteDispatch
