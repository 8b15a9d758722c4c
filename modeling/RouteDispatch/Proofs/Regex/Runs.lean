/-
# Repetitions of a single class

The ways of a greedy repetition of a class are the prefixes of the text that lie
in the class, the longest first (`runs`).  No two of them have the same length, so
their order is the order of their lengths (`runs_sorted`).
-/
import RouteDispatch.Proofs.Regex.Rows

namespace RouteDispatch.Regex

/-- The place behind a text that is taken. -/
def Cursor.skip (c : Cursor) (u : List Char) : Cursor :=
  ⟨u.reverse ++ c.before, c.after.drop u.length⟩

theorem Cursor.skip_skip (c : Cursor) (u v : List Char) : (c.skip u).skip v = c.skip (u ++ v) := by
  rw [skip, skip, skip, List.reverse_append, List.append_assoc, List.drop_drop, List.length_append]

theorem Cursor.left_skip (c : Cursor) (u : List Char) : (c.skip u).left = c.left - u.length :=
  List.length_drop

mutual

/-- The prefixes of a text that lie in a set and are not empty, the longest first. -/
def runs1 (p : Char → Bool) : List Char → List (List Char)
  | [] => []
  | x :: s => if p x then (runs p s).map (x :: ·) else []

/-- The prefixes of a text that lie in a set, the longest first. -/
def runs (p : Char → Bool) : List Char → List (List Char)
  | [] => [[]]
  | x :: s => (if p x then (runs p s).map (x :: ·) else []) ++ [[]]

end

theorem runs_eq (p : Char → Bool) (s : List Char) : runs p s = runs1 p s ++ [[]] := by
  cases s <;> simp [runs, runs1]

theorem mem_runs {p : Char → Bool} {s u : List Char} :
    u ∈ runs p s ↔ u <+: s ∧ ∀ c ∈ u, p c = true := by
  induction s generalizing u with
  | nil =>
    rw [runs, List.mem_singleton, List.prefix_nil]
    constructor
    · rintro rfl
      exact ⟨rfl, fun c hc => absurd hc List.not_mem_nil⟩
    · exact fun h => h.1
  | cons x s ih =>
    rw [runs, List.mem_append, List.mem_singleton]
    constructor
    · rintro (hu | rfl)
      · split at hu
        · next hx =>
          obtain ⟨v, hv, rfl⟩ := List.mem_map.mp hu
          obtain ⟨hpre, hall⟩ := ih.mp hv
          refine ⟨List.cons_prefix_cons.mpr ⟨rfl, hpre⟩, ?_⟩
          intro c hc
          rcases List.mem_cons.mp hc with rfl | hc
          · exact hx
          · exact hall c hc
        · exact absurd hu List.not_mem_nil
      · exact ⟨List.nil_prefix, fun c hc => absurd hc List.not_mem_nil⟩
    · rintro ⟨hpre, hall⟩
      rcases u with _ | ⟨y, u⟩
      · exact Or.inr rfl
      · obtain ⟨hyx, htail⟩ := List.cons_prefix_cons.mp hpre
        rw [← hyx, if_pos (hall y List.mem_cons_self)]
        refine Or.inl (List.mem_map_of_mem (ih.mpr ⟨htail, ?_⟩))
        intro c hc
        exact hall c (List.mem_cons_of_mem _ hc)

theorem mem_runs1 {p : Char → Bool} {s u : List Char} :
    u ∈ runs1 p s ↔ u ≠ [] ∧ u <+: s ∧ ∀ c ∈ u, p c = true := by
  have hne : ∀ v ∈ runs1 p s, v ≠ [] := by
    intro v hv
    cases s with
    | nil => exact absurd hv List.not_mem_nil
    | cons x s =>
      rw [runs1] at hv
      split at hv
      · obtain ⟨w, -, rfl⟩ := List.mem_map.mp hv
        exact List.cons_ne_nil _ _
      · exact absurd hv List.not_mem_nil
  have hmem := mem_runs (p := p) (s := s) (u := u)
  rw [runs_eq, List.mem_append, List.mem_singleton] at hmem
  constructor
  · exact fun hu => ⟨hne u hu, hmem.mp (Or.inl hu)⟩
  · rintro ⟨hu, hrest⟩
    exact (hmem.mpr hrest).resolve_right hu

theorem runs_sorted (p : Char → Bool) (s : List Char) :
    (runs p s).Pairwise fun u v => v.length < u.length := by
  induction s with
  | nil => exact List.pairwise_singleton _ _
  | cons x s ih =>
    rw [runs]
    split
    · refine List.pairwise_append.mpr ⟨?_, List.pairwise_singleton _ _, ?_⟩
      · exact List.pairwise_map.mpr (ih.imp fun h => Nat.succ_lt_succ h)
      · intro u hu v hv
        obtain ⟨w, -, rfl⟩ := List.mem_map.mp hu
        rw [List.mem_singleton.mp hv]
        exact Nat.succ_pos _
    · exact List.pairwise_singleton _ _

theorem runs1_sorted (p : Char → Bool) (s : List Char) :
    (runs1 p s).Pairwise fun u v => v.length < u.length := by
  have h := runs_sorted p s
  rw [runs_eq] at h
  exact (List.pairwise_append.mp h).1

/-! ## Ways of repetitions -/

theorem ways_char (cls : CharClass) (before : List Char) (x : Char) (after : List Char) :
    (Expr.char cls).ways ⟨before, x :: after⟩ =
      if cls.contains x then [(⟨x :: before, after⟩, [])] else [] := rfl

theorem rounds_char (cls : CharClass) (n : Nat) (c : Cursor) (h : c.left ≤ n) :
    rounds true (Expr.char cls).ways n c =
      (runs cls.contains c.after).map fun u => (c.skip u, []) := by
  induction n generalizing c with
  | zero =>
    obtain ⟨before, after⟩ := c
    obtain rfl : after = [] := List.length_eq_zero_iff.mp (Nat.le_zero.mp h)
    rfl
  | succ n ih =>
    obtain ⟨before, after⟩ := c
    rw [rounds, orStay, if_pos rfl]
    cases after with
    | nil => rfl
    | cons x after =>
      rw [ways_char, runs, List.map_append]
      congr 1
      split
      · have hleft : (⟨x :: before, after⟩ : Cursor).left ≤ n := Nat.le_of_succ_le_succ h
        have hlt : (⟨x :: before, after⟩ : Cursor).left < (⟨before, x :: after⟩ : Cursor).left :=
          Nat.lt_succ_self _
        rw [List.flatMap_singleton, if_pos hlt, Way.andThen, ih _ hleft, List.map_map, List.map_map]
        refine List.map_congr_left ?_
        intro u _
        simp [Cursor.skip]
      · rfl

theorem onceOrMore_char (cls : CharClass) (c : Cursor) :
    onceOrMore true (Expr.char cls).ways c =
      (runs1 cls.contains c.after).map fun u => (c.skip u, []) := by
  obtain ⟨before, after⟩ := c
  rw [onceOrMore]
  cases after with
  | nil => rfl
  | cons x after =>
    rw [ways_char, runs1]
    split
    · have hlt : (⟨x :: before, after⟩ : Cursor).left < (⟨before, x :: after⟩ : Cursor).left :=
        Nat.lt_succ_self _
      rw [List.flatMap_singleton, if_pos hlt, Way.andThen, rounds_char _ _ _ (Nat.le_refl _),
        List.map_map, List.map_map]
      refine List.map_congr_left ?_
      intro u _
      simp [Cursor.skip]
    · rfl

theorem ways_some (cls : CharClass) (c : Cursor) :
    (Expr.rep 1 none true (.char cls)).ways c =
      (runs1 cls.contains c.after).map fun u => (c.skip u, []) := by
  show inTurn stay (onceOrMore true (Expr.char cls).ways) c = _
  rw [stay_inTurn, onceOrMore_char]

theorem ways_many (cls : CharClass) (c : Cursor) :
    (Expr.rep 0 none true (.char cls)).ways c =
      (runs cls.contains c.after).map fun u => (c.skip u, []) := by
  show onceOrMore true (Expr.char cls).ways c ++ stay c = _
  rw [onceOrMore_char, runs_eq, List.map_append]
  rfl

/-- Once or not at all. -/
theorem ways_optional (e : Expr) (c : Cursor) :
    (Expr.rep 0 (some 1) true e).ways c = e.ways c ++ stay c := by
  show inTurn stay (orStay true (inTurn e.ways stay)) c = _
  rw [stay_inTurn, inTurn_stay]
  rfl

theorem ways_group (n : Nat) (e : Expr) (c : Cursor) :
    (Expr.group (some n) e).ways c = (e.ways c).map fun w =>
      (w.1, ⟨n, true, c.left⟩ :: (w.2 ++ [⟨n, false, w.1.left⟩])) := rfl

/-- Going on behind a fixed character, where it stands. -/
theorem inTurn_single_of_head (step : Cursor → List Way) {c : Cursor} {x : Char}
    {after : List Char} (h : c.after = x :: after) :
    inTurn (Expr.char (.single x)).ways step c = step (c.skip [x]) := by
  obtain ⟨before, rest⟩ := c
  obtain rfl : rest = x :: after := h
  have hx : (CharClass.single x).contains x = true := by
    rw [CharClass.contains_single]
    exact decide_eq_true rfl
  rw [inTurn, ways_char, if_pos hx, List.flatMap_singleton, Way.andThen]
  exact (List.map_congr_left fun w _ => rfl).trans (List.map_id _)

theorem inTurn_single_of_not_head (step : Cursor → List Way) {c : Cursor} {x : Char}
    (h : c.after.head? ≠ some x) : inTurn (Expr.char (.single x)).ways step c = [] := by
  obtain ⟨before, after⟩ := c
  cases after with
  | nil => rfl
  | cons y after =>
    have hy : ¬ (CharClass.single x).contains y = true := by
      rw [CharClass.contains_single, decide_eq_true_eq]
      exact fun heq => h (congrArg some heq)
    rw [inTurn, ways_char, if_neg hy]
    rfl

/-- A fixed character stands there, and the match goes on behind it, or nothing is found. -/
theorem inTurn_single_cases (step : Cursor → List Way) (x : Char) (c : Cursor) :
    (c.after = x :: (c.skip [x]).after ∧
        inTurn (Expr.char (.single x)).ways step c = step (c.skip [x])) ∨
      ((∀ s, c.after ≠ x :: s) ∧ inTurn (Expr.char (.single x)).ways step c = []) := by
  by_cases hx : c.after.head? = some x
  · obtain ⟨after, hafter⟩ := List.head?_eq_some_iff.mp hx
    refine Or.inl ⟨?_, inTurn_single_of_head step hafter⟩
    rw [Cursor.skip, hafter]
    rfl
  · refine Or.inr ⟨?_, inTurn_single_of_not_head step hx⟩
    intro s hs
    exact hx (congrArg List.head? hs)

end RouteDispatch.Regex
