/-
# Texts joined by slashes

A path is a row of texts with slashes between them, or before each (`steps`).  If the
texts have no slash themselves, they are what the path falls apart into.

How long such a row is can also be read off the path without taking it apart: it has
as many stretches without a slash as there are texts, if none of them is empty
(`stretches_steps`), and when two paths are put together there is no stretch more
than both have (`stretches_append_le`).
-/
import Mathlib.Data.List.Basic

namespace RouteDispatch.Text

/-! ## Slashes between texts -/

theorem intercalate_cons (part next : List Char) (parts : List (List Char)) :
    ['/'].intercalate (part :: next :: parts) = part ++ '/' :: ['/'].intercalate (next :: parts) := by
  rw [List.intercalate_cons_cons, List.append_assoc]
  rfl

/-- No part of a text between slashes has one. -/
theorem not_mem_of_mem_splitOn {s part : List Char} (h : part ∈ s.splitOn '/') : '/' ∉ part := by
  induction s generalizing part with
  | nil =>
    rw [List.splitOn_nil] at h
    rw [List.mem_singleton.mp h]
    exact List.not_mem_nil
  | cons c s ih =>
    rw [List.splitOn_cons_eq_if_modifyHead] at h
    obtain ⟨first, later, hsplit⟩ := List.exists_cons_of_ne_nil (List.splitOn_ne_nil '/' s)
    rw [hsplit] at h ih
    split at h
    · rcases List.mem_cons.mp h with rfl | h
      · exact List.not_mem_nil
      · exact ih h
    · next hc =>
      rcases List.mem_cons.mp h with rfl | h
      · refine fun hmem => (List.mem_cons.mp hmem).elim (fun heq => hc ?_) (ih List.mem_cons_self)
        rw [← heq]
        rfl
      · exact ih (List.mem_cons_of_mem _ h)

theorem intercalate_ne_nil {part : List Char} (h : part ≠ []) (later : List (List Char)) :
    ['/'].intercalate (part :: later) ≠ [] := by
  cases later with
  | nil => rwa [List.intercalate_singleton]
  | cons next later =>
    rw [intercalate_cons]
    exact List.append_ne_nil_of_left_ne_nil h _

/-- Parts that are not empty and have no slash make a text that neither begins nor ends with one. -/
theorem ends_intercalate {parts : List (List Char)} (hne : ∀ part ∈ parts, part ≠ [])
    (hslash : ∀ part ∈ parts, '/' ∉ part) :
    (['/'].intercalate parts).head? ≠ some '/' ∧ (['/'].intercalate parts).getLast? ≠ some '/' := by
  induction parts with
  | nil => exact ⟨nofun, nofun⟩
  | cons part parts ih =>
    obtain ⟨hpart, hne⟩ := List.forall_mem_cons.mp hne
    obtain ⟨hmem, hslash⟩ := List.forall_mem_cons.mp hslash
    have hhead : part.head? ≠ some '/' := fun h => hmem (List.mem_of_head? h)
    have hlast : part.getLast? ≠ some '/' := fun h => hmem (List.mem_of_getLast? h)
    cases parts with
    | nil =>
      rw [List.intercalate_singleton]
      exact ⟨hhead, hlast⟩
    | cons next parts =>
      have hbehind := intercalate_ne_nil (hne next List.mem_cons_self) parts
      rw [intercalate_cons, List.head?_append_of_ne_nil _ hpart]
      refine ⟨hhead, ?_⟩
      rw [← List.singleton_append, ← List.append_assoc, List.getLast?_append_of_ne_nil _ hbehind]
      exact (ih hne hslash).2

/-! ## Slashes before texts -/

/-- Texts with a slash before each. -/
def steps (xs : List (List Char)) : List Char := xs.flatMap ('/' :: ·)

theorem steps_cons (x : List Char) (xs : List (List Char)) :
    steps (x :: xs) = '/' :: (x ++ steps xs) := rfl

theorem steps_append (xs ys : List (List Char)) : steps (xs ++ ys) = steps xs ++ steps ys :=
  List.flatMap_append

theorem steps_append_cases (xs : List (List Char)) {rest : List Char}
    (hrest : rest = [] ∨ ∃ u, rest = '/' :: u) :
    steps xs ++ rest = [] ∨ ∃ u, steps xs ++ rest = '/' :: u := by
  cases xs with
  | nil => exact hrest
  | cons x xs => exact Or.inr ⟨x ++ steps xs ++ rest, rfl⟩

theorem intercalate_slash (x : List Char) (xs : List (List Char)) :
    ['/'].intercalate (x :: xs) = x ++ steps xs := by
  induction xs generalizing x with
  | nil => exact List.intercalate_singleton.trans (List.append_nil x).symm
  | cons y xs ih =>
    rw [List.intercalate_cons_cons, ih, List.append_assoc]
    rfl

theorem intercalate_append {xs : List (List Char)} (h : xs ≠ []) (ys : List (List Char)) :
    ['/'].intercalate (xs ++ ys) = ['/'].intercalate xs ++ steps ys := by
  obtain ⟨x, xs, rfl⟩ := List.exists_cons_of_ne_nil h
  rw [List.cons_append, intercalate_slash, intercalate_slash, steps_append, List.append_assoc]

theorem count_steps {xs : List (List Char)} (hslash : ∀ x ∈ xs, '/' ∉ x) :
    (steps xs).count '/' = xs.length := by
  induction xs with
  | nil => rfl
  | cons x xs ih =>
    obtain ⟨hx, hslash⟩ := List.forall_mem_cons.mp hslash
    rw [steps_cons, List.count_cons_self, List.count_append, List.count_eq_zero.mpr hx, ih hslash,
      Nat.zero_add, List.length_cons]

/-! ## Stretches -/

/-- How many stretches without a slash a text has, if it goes on inside of one or not. -/
def stretchesFrom : (inside : Bool) → List Char → Nat
  | _, [] => 0
  | inside, c :: s =>
    if c = '/' then stretchesFrom false s else (if inside then 0 else 1) + stretchesFrom true s

/-- How many stretches without a slash a text has. -/
def stretches (s : List Char) : Nat := stretchesFrom false s

theorem stretchesFrom_le (inside : Bool) (s : List Char) : stretchesFrom inside s ≤ stretches s := by
  cases s with
  | nil => exact Nat.le_refl 0
  | cons c s =>
    rw [stretches, stretchesFrom, stretchesFrom]
    split
    · exact Nat.le_refl _
    · refine Nat.add_le_add_right ?_ _
      cases inside <;> decide

theorem stretchesFrom_append_le (inside : Bool) (s u : List Char) :
    stretchesFrom inside (s ++ u) ≤ stretchesFrom inside s + stretches u := by
  induction s generalizing inside with
  | nil => exact Nat.le_trans (stretchesFrom_le inside u) (Nat.le_add_left _ _)
  | cons c s ih =>
    rw [List.cons_append, stretchesFrom, stretchesFrom]
    split
    · exact ih false
    · rw [Nat.add_assoc]
      exact Nat.add_le_add_left (ih true) _

theorem stretches_append_le (s u : List Char) : stretches (s ++ u) ≤ stretches s + stretches u :=
  stretchesFrom_append_le false s u

/-- Inside of a stretch, what has no slash does not count. -/
theorem stretchesFrom_inside {s : List Char} (h : '/' ∉ s) (u : List Char) :
    stretchesFrom true (s ++ u) = stretchesFrom true u := by
  induction s with
  | nil => rfl
  | cons c s ih =>
    obtain ⟨hc, hs⟩ := not_or.mp (mt List.mem_cons.mpr h)
    rw [List.cons_append, stretchesFrom, if_neg (Ne.symm hc), ih hs]
    exact Nat.zero_add _

theorem stretches_of_not_mem {s : List Char} (h : '/' ∉ s) (hne : s ≠ []) (u : List Char) :
    stretches (s ++ u) = 1 + stretchesFrom true u := by
  obtain ⟨c, s, rfl⟩ := List.exists_cons_of_ne_nil hne
  obtain ⟨hc, hs⟩ := not_or.mp (mt List.mem_cons.mpr h)
  rw [stretches, List.cons_append, stretchesFrom, if_neg (Ne.symm hc), stretchesFrom_inside hs]
  rfl

theorem stretchesFrom_steps (inside : Bool) {xs : List (List Char)} (hne : ∀ x ∈ xs, x ≠ [])
    (hslash : ∀ x ∈ xs, '/' ∉ x) : stretchesFrom inside (steps xs) = xs.length := by
  induction xs generalizing inside with
  | nil => rfl
  | cons x xs ih =>
    obtain ⟨hx, hne⟩ := List.forall_mem_cons.mp hne
    obtain ⟨hmem, hslash⟩ := List.forall_mem_cons.mp hslash
    rw [steps_cons, stretchesFrom, if_pos rfl]
    show stretches (x ++ steps xs) = xs.length + 1
    rw [stretches_of_not_mem hmem hx, ih true hne hslash, Nat.add_comm]

theorem stretches_steps {xs : List (List Char)} (hne : ∀ x ∈ xs, x ≠ [])
    (hslash : ∀ x ∈ xs, '/' ∉ x) : stretches (steps xs) = xs.length :=
  stretchesFrom_steps false hne hslash

end RouteDispatch.Text
