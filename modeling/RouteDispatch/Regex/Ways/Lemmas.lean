/-
Laws of ways: none leads back to the left, rows of ways may be bracketed
anyhow, and a repetition needs no more rounds than there are characters left.
-/
import RouteDispatch.Regex.Ways

namespace RouteDispatch.Regex

/-! ## Ways never lead back -/

/-- All ways end where they began, or further right. -/
def Advances (step : Cursor → List Way) : Prop :=
  ∀ c, ∀ w ∈ step c, w.1 = c ∨ w.1.left < c.left

section
variable {step first second : Cursor → List Way}

theorem advances_stay : Advances stay :=
  fun _ _ hw => Or.inl (congrArg Prod.fst (List.mem_singleton.mp hw))

theorem Advances.left_le (h : Advances step) {c : Cursor} {w : Way} (hw : w ∈ step c) :
    w.1.left ≤ c.left := by
  rcases h c w hw with h | h
  · exact h ▸ Nat.le_refl _
  · exact Nat.le_of_lt h

theorem mem_andThen {w v : Way} : v ∈ w.andThen step ↔ ∃ u ∈ step w.1, (u.1, w.2 ++ u.2) = v :=
  List.mem_map

theorem Advances.inTurn (ha : Advances first) (hb : Advances second) :
    Advances (inTurn first second) := by
  intro c w hw
  obtain ⟨u, hu, hw⟩ := List.mem_flatMap.mp hw
  obtain ⟨v, hv, rfl⟩ := mem_andThen.mp hw
  rcases hb _ v hv with h | h
  · rw [h]; exact ha c u hu
  · exact Or.inr (Nat.lt_of_lt_of_le h (ha.left_le hu))

theorem Advances.orStay (greedy : Bool) (h : Advances step) : Advances (orStay greedy step) := by
  intro c w hw
  have hw : w ∈ step c ∨ w ∈ stay c := by
    cases greedy <;> simpa [Regex.orStay, or_comm] using hw
  rcases hw with hw | hw
  · exact h c w hw
  · exact advances_stay c w hw

theorem advances_rounds (greedy : Bool) (n : Nat) : Advances (rounds greedy step n) := by
  induction n with
  | zero => exact advances_stay
  | succ n ih =>
    refine Advances.orStay greedy fun c _ hw => ?_
    obtain ⟨u, hu, hw⟩ := List.mem_flatMap.mp hw
    split at hw
    · next hlt =>
      obtain ⟨v, hv, rfl⟩ := mem_andThen.mp hw
      have hle := ih.left_le hv
      exact Or.inr (Nat.lt_of_le_of_lt hle hlt)
    · exact absurd hw List.not_mem_nil

theorem advances_onceOrMore (greedy : Bool) (h : Advances step) :
    Advances (onceOrMore greedy step) := by
  intro c w hw
  obtain ⟨u, hu, hw⟩ := List.mem_flatMap.mp hw
  split at hw
  · next hlt =>
    obtain ⟨v, hv, rfl⟩ := mem_andThen.mp hw
    have hle := (advances_rounds greedy _).left_le hv
    exact Or.inr (Nat.lt_of_le_of_lt hle hlt)
  · rw [List.mem_singleton.mp hw]; exact h c u hu

/-! ## Rows of ways -/

theorem andThen_stay (w : Way) : w.andThen stay = [w] := by
  simp [Way.andThen, stay]

theorem inTurn_stay : inTurn step stay = step := by
  funext c
  simp [inTurn, andThen_stay]

theorem stay_inTurn : inTurn stay step = step := by
  funext c
  simp [inTurn, stay, Way.andThen]

theorem andThen_inTurn (w : Way) :
    w.andThen (inTurn first second) = (w.andThen first).flatMap (Way.andThen · second) := by
  simp [Way.andThen, inTurn, List.map_flatMap, List.flatMap_map, Function.comp_def]

theorem inTurn_assoc (third : Cursor → List Way) :
    inTurn (inTurn first second) third = inTurn first (inTurn second third) := by
  funext c
  simp only [inTurn, List.flatMap_assoc, ← andThen_inTurn]

theorem exactly_add (m n : Nat) :
    exactly step (m + n) = inTurn (exactly step m) (exactly step n) := by
  induction m with
  | zero => rw [Nat.zero_add, exactly, stay_inTurn]
  | succ m ih => rw [Nat.succ_add, exactly, exactly, ih, inTurn_assoc]

/-- More rounds than there are characters left make no difference. -/
theorem rounds_eq_of_le (greedy : Bool) {n : Nat} {c : Cursor} (h : c.left ≤ n) :
    rounds greedy step n c = rounds greedy step c.left c := by
  suffices ∀ m n, ∀ c : Cursor, c.left ≤ m → c.left ≤ n →
      rounds greedy step m c = rounds greedy step n c from this _ _ c h (Nat.le_refl _)
  intro m
  induction m with
  | zero =>
    intro n c hm _
    cases n with
    | zero => rfl
    | succ n =>
      cases greedy <;> simp [rounds, orStay, stay, Nat.le_zero.mp hm]
  | succ m ih =>
    intro n c hm hn
    cases n with
    | zero =>
      cases greedy <;> simp [rounds, orStay, stay, Nat.le_zero.mp hn]
    | succ n =>
      have hgo : ((step c).flatMap fun w =>
            if w.1.left < c.left then w.andThen (rounds greedy step m) else []) =
          (step c).flatMap fun w =>
            if w.1.left < c.left then w.andThen (rounds greedy step n) else [] := by
        congr 1
        funext w
        split
        · next hlt => rw [Way.andThen, Way.andThen, ih n w.1 (by omega) (by omega)]
        · rfl
      simp only [rounds, orStay, hgo]

end

end RouteDispatch.Regex
