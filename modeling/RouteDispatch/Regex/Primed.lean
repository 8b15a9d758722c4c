/-
Searching from right to left.

A primed expression remembers, at each character class, what the match comes
to if that class takes the character just before the current place. Moving the
place one character to the left needs one pass over the tree, so a search
takes time proportional to the length of the text times the size of the tree,
whatever the expression.
-/
import RouteDispatch.Regex.Preferred

namespace RouteDispatch.Regex

/-- An expression whose repetitions are written out, with an outcome at every class: that of
going on behind the class from one place further right. -/
inductive Primed where
  | empty
  | char (cls : CharClass) (taken : Outcome)
  | edge (e : Edge)
  | seq (a b : Primed)
  | alt (a b : Primed)
  /-- Once or more. -/
  | more (greedy : Bool) (e : Primed)
  | group (index : Nat) (e : Primed)

/-- A place in a text, as far as the tree asks: its neighbours, and how much is left. -/
structure Spot where
  prev : Option Char
  next : Option Char
  left : Nat

namespace Primed

/-- `n` copies in a row. -/
def copies (n : Nat) (e : Primed) : Primed :=
  if n = 0 then empty
  else if n = 1 then e
  else seq (copies (n / 2) e) (copies (n - n / 2) e)
termination_by n

/-- Once or not at all, preferring once if `greedy`. -/
def option (greedy : Bool) (e : Primed) : Primed :=
  if greedy then alt e empty else alt empty e

/-- Up to `n` copies in a row. -/
def options (greedy : Bool) (e : Primed) : Nat → Primed
  | 0 => empty
  | n + 1 => option greedy (seq e (options greedy e n))

/-- The tree at the end of the text, where no class has taken anything. -/
def ofExpr : Expr → Primed
  | .empty => empty
  | .char cls => char cls none
  | .edge e => edge e
  | .seq a b => seq (ofExpr a) (ofExpr b)
  | .alt a b => alt (ofExpr a) (ofExpr b)
  | .rep least (some most) greedy e =>
    seq (copies least (ofExpr e)) (options greedy (ofExpr e) (most - least))
  | .rep 0 none greedy e => option greedy (more greedy (ofExpr e))
  | .rep (least + 1) none greedy e =>
    seq (copies least (ofExpr e)) (more greedy (ofExpr e))
  | .group none e => ofExpr e
  | .group (some n) e => group n (ofExpr e)

/-- The outcome of matching the tree at a spot and then going on with outcome `k`. -/
def outcome (s : Spot) : Primed → Outcome → Outcome
  | empty, k => k
  | char cls taken, _ =>
    match s.next with
    | some c => if cls.contains c then taken else none
    | none => none
  | edge e, k => if e.holds s.prev s.next then k else none
  | seq a b, k => a.outcome s (b.outcome s k)
  | alt a b, k => a.outcome s k <|> b.outcome s k
  | more _ e, k => e.outcome s k
  | group n e, k =>
    (e.outcome s (k.map (⟨n, false, s.left⟩ :: ·))).map (⟨n, true, s.left⟩ :: ·)

/-- The tree one character further left, and its outcome at this spot, when going on behind it
has outcome `k`. -/
def retreat (s : Spot) : Primed → Outcome → Primed × Outcome
  | empty, k => (empty, k)
  | char cls taken, k => (char cls k, (char cls taken).outcome s k)
  | edge e, k => (edge e, (edge e).outcome s k)
  | seq a b, k =>
    let (b, k) := b.retreat s k
    let (a, k) := a.retreat s k
    (seq a b, k)
  | alt a b, k =>
    let (a, ka) := a.retreat s k
    let (b, kb) := b.retreat s k
    (alt a b, ka <|> kb)
  | more greedy e, k =>
    let again := prefer greedy (e.outcome s none) k
    (more greedy (e.retreat s again).1, e.outcome s k)
  | group n e, k =>
    let (e, k) := e.retreat s (k.map (⟨n, false, s.left⟩ :: ·))
    (group n e, k.map (⟨n, true, s.left⟩ :: ·))

/-- Goes through the places of a text from one on to its start, keeping the outcome of the
leftmost place that has one. The text lies before the place, nearest character first. -/
def sweep (e : Primed) (next : Option Char) (left : Nat) (best : Outcome) :
    List Char → Outcome
  | [] =>
    (e.retreat ⟨none, next, left⟩ (some [])).2 <|> best
  | c :: before =>
    let (e, here) := e.retreat ⟨some c, next, left⟩ (some [])
    sweep e (some c) (left + 1) (here <|> best) before

end Primed

/-- The trail of the preferred match. -/
def Expr.search (e : Expr) (text : List Char) : Option Trail :=
  (Primed.ofExpr e).sweep none 0 none text.reverse

end RouteDispatch.Regex
