/-
What a regular expression matches, and in which order of preference.

`Expr.ways` lists every way to match an expression from a place in a text, the
preferred ways first; each way says where it ends and which groups it passed.
A search takes the first way from the leftmost place that has one.

The list is the meaning of an expression and is not how a search runs: it can
be exponentially long.
-/
import RouteDispatch.Regex.Expr

namespace RouteDispatch.Regex

/-- A place in a text: the characters before it, nearest first, and those after it. -/
structure Cursor where
  before : List Char
  after : List Char
deriving DecidableEq

namespace Cursor

/-- The start of a text. -/
def start (text : List Char) : Cursor := ⟨[], text⟩

/-- The places of a text from this one on. -/
def onward : Cursor → List Cursor
  | ⟨before, []⟩ => [⟨before, []⟩]
  | ⟨before, c :: after⟩ => ⟨before, c :: after⟩ :: onward ⟨c :: before, after⟩
termination_by c => c.after.length

/-- How many characters are left. A place of a given text is known by this number. -/
def left (c : Cursor) : Nat := c.after.length

end Cursor

/-- A group is entered or left, with this many characters still to come. -/
structure Mark where
  group : Nat
  opens : Bool
  left : Nat
deriving DecidableEq

/-- The groups entered and left, in the order of the text. -/
abbrev Trail := List Mark

/-- A way to match: where it ends, and its trail. -/
abbrev Way := Cursor × Trail

/-- Goes on from where a way ends. -/
def Way.andThen (w : Way) (next : Cursor → List Way) : List Way :=
  (next w.1).map fun (d, trail) => (d, w.2 ++ trail)

/-- All ways of the first kind, each gone on with in all ways of the second. -/
def inTurn (first next : Cursor → List Way) (c : Cursor) : List Way :=
  (first c).flatMap (Way.andThen · next)

/-- Stays in place. -/
def stay (c : Cursor) : List Way := [(c, [])]

/-- Goes on or stays, preferring to go on if `greedy`. -/
def orStay (greedy : Bool) (go : Cursor → List Way) (c : Cursor) : List Way :=
  if greedy then go c ++ stay c else stay c ++ go c

/-- Exactly `n` times in a row. -/
def exactly (step : Cursor → List Way) : Nat → Cursor → List Way
  | 0 => stay
  | n + 1 => inTurn step (exactly step n)

/-- At most `n` times in a row. -/
def atMost (greedy : Bool) (step : Cursor → List Way) : Nat → Cursor → List Way
  | 0 => stay
  | n + 1 => orStay greedy (inTurn step (atMost greedy step n))

/-- Any number of times in a row, each of which must take a character. The number of characters
left bounds the rounds. -/
def rounds (greedy : Bool) (step : Cursor → List Way) : Nat → Cursor → List Way
  | 0 => stay
  | n + 1 => orStay greedy fun c =>
      (step c).flatMap fun w =>
        if w.1.left < c.left then w.andThen (rounds greedy step n) else []

/-- At least once in a row. Only the first round may match the empty text, and then it is the
last one. -/
def onceOrMore (greedy : Bool) (step : Cursor → List Way) (c : Cursor) : List Way :=
  (step c).flatMap fun w =>
    if w.1.left < c.left then w.andThen (rounds greedy step w.1.left) else [w]

/-- `least` to `most` times in a row. -/
def repeated (greedy : Bool) (step : Cursor → List Way) : Nat → Option Nat → Cursor → List Way
  | least, some most => inTurn (exactly step least) (atMost greedy step (most - least))
  | 0, none => orStay greedy (onceOrMore greedy step)
  | least + 1, none => inTurn (exactly step least) (onceOrMore greedy step)

/-- All ways to match an expression from a place, the preferred ones first. -/
def Expr.ways : Expr → Cursor → List Way
  | .empty, c => stay c
  | .char cls, ⟨before, after⟩ =>
    match after with
    | [] => []
    | x :: rest => if cls.contains x then stay ⟨x :: before, rest⟩ else []
  | .edge e, c => if e.holds c.before.head? c.after.head? then stay c else []
  | .seq a b, c => inTurn a.ways b.ways c
  | .alt a b, c => a.ways c ++ b.ways c
  | .rep least most greedy e, c => repeated greedy e.ways least most c
  | .group none e, c => e.ways c
  | .group (some n) e, c =>
    (e.ways c).map fun (d, trail) => (d, ⟨n, true, c.left⟩ :: (trail ++ [⟨n, false, d.left⟩]))

/-- The trail of the preferred match: the first way from the leftmost place that has one. -/
def Expr.firstWay (e : Expr) (text : List Char) : Option Trail :=
  (Cursor.start text).onward.findSome? fun c => (e.ways c).head?.map (·.2)

end RouteDispatch.Regex
