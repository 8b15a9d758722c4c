/-
Regular expressions as trees.

Besides the tree itself this file has the counts that limit what is accepted:
the number of groups, the depth of nesting, and the weight of the automaton
that a tree stands for.
-/
import RouteDispatch.CharClass
import RouteDispatch.Unicode.Category

namespace RouteDispatch.Regex

/-- Conditions on the place between two characters. -/
inductive Edge where
  | textStart
  | textEnd
  | lineStart
  | lineEnd
  | wordBoundary
  | notWordBoundary
  | wordStart
  | wordEnd
  | wordStartHalf
  | wordEndHalf

/-- There is a word character here. -/
def isWord : Option Char → Bool
  | some c => Unicode.word.contains c
  | none => false

/-- The condition holds between these neighbours; a missing one is the end of the text. -/
def Edge.holds : Edge → Option Char → Option Char → Bool
  | textStart, prev, _ => prev.isNone
  | textEnd, _, next => next.isNone
  | lineStart, prev, _ => prev.isNone || prev == some '\n'
  | lineEnd, _, next => next.isNone || next == some '\n'
  | wordBoundary, prev, next => isWord prev != isWord next
  | notWordBoundary, prev, next => isWord prev == isWord next
  | wordStart, prev, next => !isWord prev && isWord next
  | wordEnd, prev, next => isWord prev && !isWord next
  | wordStartHalf, prev, _ => !isWord prev
  | wordEndHalf, _, next => !isWord next

/-- Regular expressions. -/
inductive Expr where
  /-- Matches between any two characters. -/
  | empty
  /-- One character of a class. -/
  | char (cls : CharClass)
  | edge (e : Edge)
  | seq (a b : Expr)
  /-- The first branch is preferred. -/
  | alt (a b : Expr)
  /-- `least` to `most` times in a row, preferring more (`greedy`) or fewer; without `most`,
  any number from `least` on. -/
  | rep (least : Nat) (most : Option Nat) (greedy : Bool) (e : Expr)
  /-- Brackets; those with a number remember what they matched. -/
  | group (index : Option Nat) (e : Expr)

namespace Expr

/-- The first `n` of the listed expressions in a row, and the rest of the list. Both halves of a
row have the same length up to one, so a long row is still a shallow tree. -/
def rowOf (n : Nat) (es : List Expr) : Expr × List Expr :=
  if n = 0 then (empty, es)
  else if n = 1 then
    match es with
    | [] => (empty, [])
    | e :: rest => (e, rest)
  else
    let (left, es) := rowOf (n / 2) es
    let (right, es) := rowOf (n - n / 2) es
    (seq left right, es)
termination_by n

/-- The expressions in a row. -/
def row (es : List Expr) : Expr := (rowOf es.length es).1

/-- The expressions as alternatives, the earlier ones preferred. -/
def choice : List Expr → Expr
  | [] => empty
  | [e] => e
  | e :: rest => alt e (choice rest)

/-- The expression holds no character, so all it can match is the empty text. -/
def isBlank : Expr → Bool
  | empty | edge _ => true
  | char _ => false
  | seq a b | alt a b => a.isBlank && b.isBlank
  | rep _ _ _ e | group _ e => e.isBlank

/-- A repetition without needless copies: no copy of a tree that may not occur, one of a tree
that matches only the empty text. -/
def times (least : Nat) (most : Option Nat) (greedy : Bool) (e : Expr) : Expr :=
  let (least, most) :=
    if e.isBlank then (min least 1, some (min (most.getD 1) 1)) else (least, most)
  if most = some 0 then empty
  else if least = 1 ∧ most = some 1 then e
  else rep least most greedy e

/-- The highest number of a group. -/
def groupCount : Expr → Nat
  | empty | char _ | edge _ => 0
  | seq a b | alt a b => max a.groupCount b.groupCount
  | rep _ _ _ e => e.groupCount
  | group index e => max (index.getD 0) e.groupCount

/-- What an enclosing tree is, as far as its depth is concerned: a row inside a row is the same
row, and a choice inside a choice is the same choice. -/
inductive Setting where
  | row
  | choice
  | other
deriving DecidableEq

/-- How many trees lie around the innermost leaf, inside such a tree. -/
def depthWithin : Setting → Expr → Nat
  | _, empty | _, char _ | _, edge _ => 0
  | s, seq a b =>
    (if s = .row then 0 else 1) + max (depthWithin .row a) (depthWithin .row b)
  | s, alt a b =>
    (if s = .choice then 0 else 1) + max (depthWithin .choice a) (depthWithin .choice b)
  | _, rep _ _ _ e | _, group _ e => 1 + depthWithin .other e

/-- How many trees lie around the innermost leaf. -/
def depth (e : Expr) : Nat := e.depthWithin .other

end Expr

/-- The number of ranges a class is written with. -/
def spanCount : CharClass → Nat
  | .spans table => table.length
  | .alternating table => table.foldl (fun n (lo, hi) => n + (hi - lo) / 2 + 1) 0
  | .union a b | .inter a b => spanCount a + spanCount b
  | .compl a => spanCount a + 1
  | .anyCase a => 2 * spanCount a

/-- The class may hold characters of more than one byte. -/
def isWide : CharClass → Bool
  | .spans table | .alternating table => table.any fun (_, hi) => 0x80 ≤ hi
  | .union a b => isWide a || isWide b
  | .inter a b => isWide a && isWide b
  | .compl _ => true
  | .anyCase a => isWide a

/-- Bytes taken by the states for one character of a class. -/
def classWeight (cls : CharClass) : Nat :=
  64 + 16 * spanCount cls + (if isWide cls then 800 else 0)

/-- Bytes taken by the automaton of an expression, whose repetitions are written out. -/
def Expr.weight : Expr → Nat
  | empty | edge _ => 32
  | char (.spans [(lo, hi)]) => if lo = hi then 32 * (Char.ofNat lo).utf8Size else
      classWeight (.spans [(lo, hi)])
  | char cls => classWeight cls
  | seq a b => a.weight + b.weight
  | alt a b => 40 + a.weight + b.weight
  | rep least most _ e =>
    match most with
    | some most => least * e.weight + (most - least) * (40 + e.weight)
    | none => max least 1 * e.weight + 80
  | group (some _) e => 64 + e.weight
  | group none e => e.weight

/-- The most nesting an expression may have. -/
def depthLimit : Nat := 250

/-- The most bytes an automaton may take: ten mebibytes. -/
def weightLimit : Nat := 10 * 1024 * 1024

end RouteDispatch.Regex
