/-
Sets of characters, as the patterns of a regular expression write them.

A class is kept the way it was built, and membership is read off by the
Boolean operations; no list of ranges is ever complemented or merged.
-/
import RouteDispatch.Unicode.CaseFold

namespace RouteDispatch

/-- A set of characters. -/
inductive CharClass where
  /-- The characters within one of the inclusive ranges. -/
  | spans (table : List (Nat × Nat))
  /-- Every second character of one of the inclusive ranges, from its first on. -/
  | alternating (table : List (Nat × Nat))
  | union (a b : CharClass)
  | inter (a b : CharClass)
  | compl (a : CharClass)
  /-- All characters that equal a member up to case. -/
  | anyCase (a : CharClass)

namespace CharClass

/-- Membership. -/
def contains : CharClass → Char → Bool
  | spans table, c => table.any fun (lo, hi) => lo ≤ c.toNat && c.toNat ≤ hi
  | alternating table, c =>
    table.any fun (lo, hi) => lo ≤ c.toNat && c.toNat ≤ hi && (c.toNat - lo) % 2 == 0
  | union a b, c => a.contains c || b.contains c
  | inter a b, c => a.contains c && b.contains c
  | compl a, c => !a.contains c
  | anyCase a, c => (Unicode.caseVariants c).any a.contains

/-- No character. -/
def none : CharClass := spans []

/-- Every character. -/
def all : CharClass := compl none

/-- One character. -/
def single (c : Char) : CharClass := spans [(c.toNat, c.toNat)]

/-- The characters from `lo` to `hi`, both included. -/
def range (lo hi : Char) : CharClass := spans [(lo.toNat, hi.toNat)]

/-- The members of `a` that are not in `b`. -/
def diff (a b : CharClass) : CharClass := inter a (compl b)

/-- The members of exactly one of the two. -/
def symmDiff (a b : CharClass) : CharClass := union (diff a b) (diff b a)

/-! ## Membership, one lemma per way of building a class -/

@[simp] theorem contains_none (c : Char) : none.contains c = false := rfl

@[simp] theorem contains_all (c : Char) : all.contains c = true := rfl

theorem contains_single (a c : Char) : (single a).contains c = decide (c = a) := by
  simp only [single, contains, List.any_cons, List.any_nil, Bool.or_false]
  rw [Bool.eq_iff_iff]
  simp only [Bool.and_eq_true, decide_eq_true_eq]
  constructor
  · intro h
    exact Char.toNat_inj.mp (Nat.le_antisymm h.2 h.1)
  · rintro rfl
    exact ⟨Nat.le_refl _, Nat.le_refl _⟩

@[simp] theorem contains_union (a b : CharClass) (c : Char) :
    (union a b).contains c = (a.contains c || b.contains c) := rfl

@[simp] theorem contains_compl (a : CharClass) (c : Char) :
    (compl a).contains c = !a.contains c := rfl

end CharClass

end RouteDispatch
