/-
# Rows of expressions

A row is kept as a balanced tree, which nothing that is said about it should
depend on.  Its ways are those of its members in turn (`ways_row`), its groups are
theirs (`groupCount_row`), it takes no less room (`sum_weight_le_row`), and it lies
one tree deeper than they do (`depth_row_le`).
-/
import Mathlib.Algebra.GroupWithZero.Nat
import RouteDispatch.Regex.Search

namespace RouteDispatch.Regex

/-- Steps one after the other. -/
def inAll (steps : List (Cursor → List Way)) : Cursor → List Way := steps.foldr inTurn stay

theorem inAll_append (first second : List (Cursor → List Way)) :
    inAll (first ++ second) = inTurn (inAll first) (inAll second) := by
  induction first with
  | nil => exact stay_inTurn.symm
  | cons step first ih =>
    show inTurn step (inAll (first ++ second)) = inTurn (inTurn step (inAll first)) (inAll second)
    rw [ih, inTurn_assoc]

theorem inAll_singleton (step : Cursor → List Way) : inAll [step] = step := inTurn_stay

theorem foldr_max (counts : List Nat) (n : Nat) :
    counts.foldr max n = max (counts.foldr max 0) n := by
  induction counts with
  | nil => exact (Nat.zero_max n).symm
  | cons m counts ih => rw [List.foldr_cons, List.foldr_cons, ih, Nat.max_assoc]

namespace Expr

/-- The first half of a row, and what is left for the second one. -/
theorem rowOf_spec (n : Nat) (es : List Expr) (h : n ≤ es.length) :
    (rowOf n es).1.ways = inAll ((es.take n).map ways) ∧
      (rowOf n es).1.groupCount = ((es.take n).map groupCount).foldr max 0 ∧
      (rowOf n es).2 = es.drop n := by
  induction n using Nat.strongRecOn generalizing es with
  | ind n ih =>
    rw [rowOf.eq_def]
    by_cases h0 : n = 0
    · subst h0
      exact ⟨rfl, rfl, rfl⟩
    rw [if_neg h0]
    by_cases h1 : n = 1
    · subst h1
      rw [if_pos rfl]
      obtain ⟨e, rest, rfl⟩ := List.exists_cons_of_ne_nil (List.length_pos_iff.mp h)
      exact ⟨(inAll_singleton e.ways).symm, (Nat.max_zero _).symm, rfl⟩
    rw [if_neg h1]
    obtain ⟨hleft, hleft', hrest⟩ := ih (n / 2) (by omega) es (by omega)
    obtain ⟨hright, hright', hrest'⟩ := ih (n - n / 2) (by omega) (es.drop (n / 2))
      (by rw [List.length_drop]; omega)
    have htake : es.take n = es.take (n / 2) ++ (es.drop (n / 2)).take (n - n / 2) := by
      rw [← List.take_add]
      congr 1
      omega
    simp only [hrest]
    refine ⟨?_, ?_, ?_⟩
    · funext c
      rw [ways, hleft, hright, htake, List.map_append, inAll_append]
    · rw [groupCount, hleft', hright', htake, List.map_append, List.foldr_append]
      exact (foldr_max _ _).symm
    · rw [hrest', List.drop_drop]
      congr 1
      omega

theorem ways_row (es : List Expr) : (row es).ways = inAll (es.map ways) := by
  obtain ⟨hways, -, -⟩ := rowOf_spec es.length es (Nat.le_refl _)
  rw [row, hways, List.take_length]

theorem groupCount_row (es : List Expr) :
    (row es).groupCount = (es.map groupCount).foldr max 0 := by
  obtain ⟨-, hcount, -⟩ := rowOf_spec es.length es (Nat.le_refl _)
  rw [row, hcount, List.take_length]

/-- A row takes no less room than its expressions. -/
theorem sum_weight_le_rowOf (n : Nat) (es : List Expr) (h : n ≤ es.length) :
    ((es.take n).map weight).sum ≤ (rowOf n es).1.weight := by
  induction n using Nat.strongRecOn generalizing es with
  | ind n ih =>
    by_cases hsmall : n ≤ 1
    · rcases es with _ | ⟨e, es⟩
      · rw [List.take_nil]
        exact Nat.zero_le _
      · rw [rowOf.eq_def]
        obtain rfl | rfl : n = 0 ∨ n = 1 := by omega
        · exact Nat.zero_le _
        · exact Nat.le_of_eq (Nat.add_zero _)
    · obtain ⟨-, -, hrest⟩ := rowOf_spec (n / 2) es (by omega)
      have hleft := ih (n / 2) (by omega) es (by omega)
      have hright := ih (n - n / 2) (by omega) (es.drop (n / 2)) (by rw [List.length_drop]; omega)
      have htake : es.take n = es.take (n / 2) ++ (es.drop (n / 2)).take (n - n / 2) := by
        rw [← List.take_add]
        congr 1
        omega
      have hrow : (rowOf n es).1 =
          seq (rowOf (n / 2) es).1 (rowOf (n - n / 2) (es.drop (n / 2))).1 := by
        rw [rowOf.eq_def, if_neg (by omega), if_neg (by omega)]
        simp only [hrest]
      rw [hrow, htake, List.map_append, List.sum_append]
      exact Nat.add_le_add hleft hright

theorem sum_weight_le_row (es : List Expr) : (es.map weight).sum ≤ (row es).weight := by
  have hsum := sum_weight_le_rowOf es.length es (Nat.le_refl _)
  rwa [List.take_length] at hsum

/-- A tree lies at most one deeper by itself than it does in a row. -/
theorem depth_le_depthWithin (e : Expr) : e.depth ≤ e.depthWithin .row + 1 := by
  cases e with
  | seq a b =>
    rw [depth, depthWithin, depthWithin, if_neg nofun, if_pos rfl]
    omega
  | _ => simp [depth, depthWithin]

theorem depthWithin_rowOf {k : Nat} (n : Nat) (es : List Expr)
    (h : ∀ e ∈ es, e.depthWithin .row ≤ k) :
    (rowOf n es).1.depthWithin .row ≤ k ∧ ∀ e ∈ (rowOf n es).2, e.depthWithin .row ≤ k := by
  fun_induction rowOf n es with
  | case1 es => exact ⟨Nat.zero_le _, h⟩
  | case2 => exact ⟨Nat.zero_le _, h⟩
  | case3 e rest =>
    obtain ⟨hfirst, hrest⟩ := List.forall_mem_cons.mp h
    exact ⟨hfirst, hrest⟩
  | case4 n es _ _ left rest hleft right others hright ihleft ihright =>
    obtain ⟨hfirst, hrest⟩ := ihleft h
    rw [hleft] at hfirst hrest
    obtain ⟨hsecond, hothers⟩ := ihright hrest
    rw [hright] at hsecond hothers
    refine ⟨?_, hothers⟩
    simp only [depthWithin, if_pos, Nat.zero_add]
    exact Nat.max_le.mpr ⟨hfirst, hsecond⟩

theorem depth_row_le {k : Nat} {es : List Expr} (h : ∀ e ∈ es, e.depthWithin .row ≤ k) :
    (row es).depth ≤ k + 1 := by
  have hrow := (depthWithin_rowOf es.length es h).1
  exact Nat.le_trans (depth_le_depthWithin _) (Nat.succ_le_succ hrow)

theorem rowOf_one (e : Expr) (rest : List Expr) : rowOf 1 (e :: rest) = (e, rest) := by
  rw [rowOf.eq_def]
  rfl

theorem row_singleton (e : Expr) : row [e] = e := by
  rw [row, List.length_singleton, rowOf_one]

theorem row_pair (a b : Expr) : row [a, b] = seq a b := by
  rw [row, List.length_cons, List.length_singleton, rowOf.eq_def]
  show Expr.seq (rowOf 1 [a, b]).1 (rowOf 1 (rowOf 1 [a, b]).2).1 = seq a b
  rw [rowOf_one, rowOf_one]

end Expr

end RouteDispatch.Regex
