/-
A search finds the preferred match.

The outcomes in a primed tree are those of going on from one place further
right. Both operations at a place keep to that: `outcome` gives what the tree
comes to there, and `retreat` gives this and the tree with the outcomes of that
place. A sweep over a text therefore takes the first way from the leftmost place
that has one, which is what `Expr.firstWay` asks for.
-/
import RouteDispatch.Regex.Primed
import RouteDispatch.Regex.Ways.Lemmas

namespace RouteDispatch.Regex

/-! ## Outcomes of going on from a place -/

section
variable {step : Cursor → List Way} {next : Cursor → Outcome} {c : Cursor}

/-- The outcome behind ways that take a character, and another one behind those that do not. -/
def behind (c : Cursor) (next : Cursor → Outcome) (k : Outcome) (d : Cursor) : Outcome :=
  if d.left < c.left then next d else k

theorem behind_self (k : Outcome) : behind c next k c = k := if_neg (Nat.lt_irrefl _)

theorem Advances.preferred_behind (h : Advances step) :
    preferred step (behind c next (next c)) c = preferred step next c := by
  refine preferred_congr fun w hw => ?_
  rcases h c w hw with hc | hlt
  · rw [hc, behind_self]
  · exact if_pos hlt

theorem Advances.preferred_behind_of_lt (h : Advances step) {d : Cursor} (hd : d.left < c.left)
    (k : Outcome) : preferred step (behind c next k) d = preferred step next d :=
  preferred_congr fun _ hw => if_pos (Nat.lt_of_le_of_lt (h.left_le hw) hd)

/-- What comes of going around again, as often as it takes. -/
def again (greedy : Bool) (step : Cursor → List Way) (next : Cursor → Outcome) (d : Cursor) :
    Outcome :=
  preferred (rounds greedy step d.left) next d

/-- The first round of a repetition may take nothing, and then the repetition is over. -/
theorem preferred_onceOrMore (greedy : Bool) (k : Outcome) :
    preferred (onceOrMore greedy step) (behind c next k) c =
      preferred step (behind c (again greedy step next) k) c := by
  rw [preferred, onceOrMore, findSome?_flatMap]
  refine findSome?_congr fun w _ => ?_
  by_cases hlt : w.1.left < c.left
  · rw [if_pos hlt, findSome?_andThen, (advances_rounds greedy _).preferred_behind_of_lt hlt]
    simp only [behind, if_pos hlt, again]
  · rw [if_neg hlt, List.findSome?_singleton, behind, behind, if_neg hlt, if_neg hlt]

/-- A further round must take something. -/
theorem again_eq (greedy : Bool) :
    again greedy step next c =
      prefer greedy (preferred step (behind c (again greedy step next) none) c) (next c) := by
  have hnone : c.left = 0 → preferred step (behind c (again greedy step next) none) c = none := by
    intro hc
    simp [preferred, behind, hc]
  rw [again]
  cases hn : c.left with
  | zero =>
    rw [hnone hn, rounds, preferred_stay]
    cases greedy <;> simp [prefer]
  | succ n =>
    rw [rounds, preferred_orStay]
    congr 1
    rw [preferred, findSome?_flatMap]
    refine findSome?_congr fun w _ => ?_
    by_cases hlt : w.1.left < c.left
    · rw [if_pos hlt, findSome?_andThen, behind, if_pos hlt, again]
      congr 1
      rw [preferred, preferred, rounds_eq_of_le greedy (by omega)]
    · rw [if_neg hlt, behind, if_neg hlt]
      rfl

end

/-! ## Primed trees -/

namespace Cursor

/-- The place one character further right. -/
def next? : Cursor → Option Cursor
  | ⟨_, []⟩ => none
  | ⟨before, x :: after⟩ => some ⟨x :: before, after⟩

/-- The places of a text up to one. -/
def upTo : (before after : List Char) → List Cursor
  | [], after => [⟨[], after⟩]
  | x :: before, after => upTo before (x :: after) ++ [⟨x :: before, after⟩]

/-- What a tree asks of a place. -/
def spot (c : Cursor) : Spot := ⟨c.before.head?, c.after.head?, c.left⟩

end Cursor

namespace Primed

/-- All ways to match a tree from a place; its outcomes play no part in them. -/
def ways : Primed → Cursor → List Way
  | empty => stay
  | char cls _ => (Expr.char cls).ways
  | edge e => (Expr.edge e).ways
  | seq a b => inTurn a.ways b.ways
  | alt a b => fun c => a.ways c ++ b.ways c
  | more greedy e => onceOrMore greedy e.ways
  | group n e => fun c =>
    (e.ways c).map fun (d, trail) => (d, ⟨n, true, c.left⟩ :: (trail ++ [⟨n, false, d.left⟩]))

/-- A match that is over. -/
def ended (_ : Cursor) : Outcome := some []

/-- The outcome of going on behind a group that is left. -/
def leaving (n : Nat) (next : Cursor → Outcome) (d : Cursor) : Outcome :=
  (next d).map (⟨n, false, d.left⟩ :: ·)

/-- The tree with the outcomes at a place, if there is one, when the match goes on behind the
tree as `next` says. -/
def prime : Primed → (next : Cursor → Outcome) → Option Cursor → Primed
  | empty, _, _ => empty
  | char cls _, next, d => char cls (d.bind next)
  | edge e, _, _ => edge e
  | seq a b, next, d => seq (a.prime (preferred b.ways next) d) (b.prime next d)
  | alt a b, next, d => alt (a.prime next d) (b.prime next d)
  | more greedy e, next, d => more greedy (e.prime (again greedy e.ways next) d)
  | group n e, next, d => group n (e.prime (leaving n next) d)

theorem advances_ways (p : Primed) : Advances p.ways := by
  induction p with
  | empty => exact advances_stay
  | char cls _ =>
    rintro ⟨before, after⟩ w hw
    cases after with
    | nil => exact absurd hw List.not_mem_nil
    | cons x rest =>
      simp only [ways, Expr.ways] at hw
      split at hw
      · rw [List.mem_singleton.mp hw]
        exact Or.inr (Nat.lt_succ_self _)
      · exact absurd hw List.not_mem_nil
  | edge e =>
    intro c w hw
    simp only [ways, Expr.ways] at hw
    split at hw
    · exact advances_stay c w hw
    · exact absurd hw List.not_mem_nil
  | seq a b iha ihb => exact iha.inTurn ihb
  | alt a b iha ihb =>
    intro c w hw
    rcases List.mem_append.mp hw with hw | hw
    · exact iha c w hw
    · exact ihb c w hw
  | more greedy e ih => exact advances_onceOrMore greedy ih
  | group n e ih =>
    intro c w hw
    obtain ⟨v, hv, rfl⟩ := List.mem_map.mp hw
    exact ih c v hv

/-- Leaving a group and entering it are noted around its own trail. -/
theorem preferred_group (n : Nat) (e : Primed) (next : Cursor → Outcome) (c : Cursor) :
    preferred (group n e).ways next c =
      (preferred e.ways (leaving n next) c).map (⟨n, true, c.left⟩ :: ·) := by
  simp only [preferred, ways, List.findSome?_map, List.map_findSome?]
  refine findSome?_congr fun w _ => ?_
  cases h : next w.1 <;> simp [Function.comp, leaving, h]

/-- The outcome of a tree at a place, if its own outcomes are those one place further right. -/
theorem outcome_prime (p : Primed) (next : Cursor → Outcome) (c : Cursor) (k : Outcome) :
    (p.prime next c.next?).outcome c.spot k = preferred p.ways (behind c next k) c := by
  induction p generalizing next k with
  | empty => rw [prime, outcome, ways, preferred_stay, behind_self]
  | char cls _ =>
    obtain ⟨before, after⟩ := c
    cases after with
    | nil => rfl
    | cons x rest =>
      have hlt : (⟨x :: before, rest⟩ : Cursor).left < (⟨before, x :: rest⟩ : Cursor).left :=
        Nat.lt_succ_self _
      simp only [prime, outcome, Cursor.spot, List.head?_cons, preferred, ways, Expr.ways]
      split
      · simp [stay, behind, hlt, Cursor.next?]
      · rfl
  | edge e =>
    simp only [prime, outcome, Cursor.spot, preferred, ways, Expr.ways]
    split
    · exact (behind_self k).symm.trans preferred_stay.symm
    · rfl
  | seq a b iha ihb =>
    rw [prime, outcome, ihb, iha, ways, preferred_inTurn]
    refine preferred_congr fun w hw => ?_
    rcases a.advances_ways c w hw with hc | hlt
    · rw [hc, behind_self]
    · rw [behind, if_pos hlt, b.advances_ways.preferred_behind_of_lt hlt]
  | alt a b iha ihb =>
    rw [prime, outcome, iha, ihb]
    exact (preferred_append _ _ rfl).symm
  | more greedy e ih => rw [prime, outcome, ih, ways, preferred_onceOrMore]
  | group n e ih =>
    rw [prime, outcome, ih, preferred_group]
    congr 1
    refine preferred_congr fun w hw => ?_
    rcases e.advances_ways c w hw with hc | hlt
    · rw [hc, behind_self, leaving, behind_self]
      rfl
    · rw [behind, if_pos hlt, leaving, leaving, behind, if_pos hlt]

theorem outcome_prime_self (p : Primed) (next : Cursor → Outcome) (c : Cursor) :
    (p.prime next c.next?).outcome c.spot (next c) = preferred p.ways next c := by
  rw [outcome_prime, p.advances_ways.preferred_behind]

/-- A retreat gives the tree the outcomes at its place. -/
theorem retreat_prime (p : Primed) (next : Cursor → Outcome) (c : Cursor) :
    (p.prime next c.next?).retreat c.spot (next c) =
      (p.prime next (some c), preferred p.ways next c) := by
  induction p generalizing next with
  | empty =>
    rw [prime, retreat, ways, preferred_stay]
    rfl
  | char cls taken =>
    have h := outcome_prime_self (char cls taken) next c
    rw [prime] at h
    rw [prime, retreat, h]
    rfl
  | edge e =>
    have h := outcome_prime_self (edge e) next c
    rw [prime] at h
    rw [prime, retreat, h]
    rfl
  | seq a b iha ihb =>
    simp only [prime, retreat, ihb, iha, ways, preferred_inTurn]
  | alt a b iha ihb =>
    simp only [prime, retreat, ihb, iha]
    exact congrArg _ (preferred_append _ _ rfl).symm
  | more greedy e ih =>
    rw [prime, retreat, outcome_prime, ← again_eq, ih, outcome_prime, ways,
      ← (advances_onceOrMore greedy e.advances_ways).preferred_behind, preferred_onceOrMore]
    rfl
  | group n e ih =>
    have h := ih (leaving n next)
    rw [leaving] at h
    rw [preferred_group]
    simp only [prime, retreat, Cursor.spot] at h ⊢
    rw [h]

/-- A sweep takes the first place that has an outcome, or else the one it was given. -/
theorem sweep_prime (p : Primed) (before after : List Char) (best : Outcome) :
    (p.prime ended (Cursor.next? ⟨before, after⟩)).sweep after.head? after.length best before =
      ((Cursor.upTo before after).findSome? (preferred p.ways ended) <|> best) := by
  induction before generalizing after best with
  | nil =>
    have h := p.retreat_prime ended ⟨[], after⟩
    simp only [Cursor.spot, Cursor.left, ended, List.head?_nil] at h
    rw [sweep, h, Cursor.upTo, List.findSome?_singleton]
  | cons x before ih =>
    have h := p.retreat_prime ended ⟨x :: before, after⟩
    simp only [Cursor.spot, Cursor.left, ended, List.head?_cons] at h
    have hih := ih (x :: after) (preferred p.ways ended ⟨x :: before, after⟩ <|> best)
    simp only [Cursor.next?, List.head?_cons, List.length_cons] at hih
    simp only [sweep, h, hih, Cursor.upTo, List.findSome?_append, List.findSome?_singleton]
    simp [Option.orElse_eq_or, Option.or_assoc]

/-! ## Priming an expression -/

theorem ways_copies (n : Nat) (e : Primed) : (copies n e).ways = exactly e.ways n := by
  fun_induction copies n e with
  | case1 => rfl
  | case2 => exact inTurn_stay.symm
  | case3 n _ _ iha ihb =>
    rw [ways, iha, ihb, ← exactly_add]
    congr 1
    omega

theorem ways_option (greedy : Bool) (e : Primed) :
    (option greedy e).ways = orStay greedy e.ways := by
  cases greedy <;> rfl

theorem ways_options (greedy : Bool) (e : Primed) (n : Nat) :
    (options greedy e n).ways = atMost greedy e.ways n := by
  induction n with
  | zero => rfl
  | succ n ih => rw [options, ways_option, ways, ih, atMost]

/-- Writing out repetitions changes no way. -/
theorem ways_ofExpr (e : Expr) : (ofExpr e).ways = e.ways := by
  induction e with
  | empty => rfl
  | char => rfl
  | edge => rfl
  | seq a b iha ihb =>
    funext c
    rw [ofExpr, ways, iha, ihb, Expr.ways]
  | alt a b iha ihb =>
    funext c
    simp only [ofExpr, ways, iha, ihb, Expr.ways]
  | rep least most greedy e ih =>
    funext c
    rw [Expr.ways]
    cases most with
    | some most => rw [ofExpr, ways, ways_copies, ways_options, ih, repeated]
    | none =>
      cases least with
      | zero => rw [ofExpr, ways_option, ways, ih, repeated]
      | succ least => rw [ofExpr, ways, ways_copies, ways, ih, repeated]
  | group index e ih =>
    funext c
    cases index with
    | none => rw [ofExpr, ih, Expr.ways]
    | some n => simp only [ofExpr, ways, ih, Expr.ways]

/-- No class of the tree has an outcome, as at the end of a text. -/
def Blank (p : Primed) : Prop := ∀ next, p.prime next none = p

theorem blank_copies (n : Nat) {e : Primed} (h : Blank e) : Blank (copies n e) := by
  fun_induction copies n e with
  | case1 => exact fun _ => rfl
  | case2 => exact h
  | case3 n _ _ iha ihb => exact fun next => by rw [prime, iha, ihb]

theorem blank_option (greedy : Bool) {e : Primed} (h : Blank e) : Blank (option greedy e) := by
  cases greedy <;> exact fun next => by simp [option, prime, h next]

theorem blank_options (greedy : Bool) (n : Nat) {e : Primed} (h : Blank e) :
    Blank (options greedy e n) := by
  induction n with
  | zero => exact fun _ => rfl
  | succ n ih => exact blank_option greedy fun next => by rw [prime, h, ih]

theorem blank_ofExpr (e : Expr) : Blank (ofExpr e) := by
  induction e with
  | empty | char | edge => exact fun _ => rfl
  | seq a b iha ihb | alt a b iha ihb => exact fun next => by rw [ofExpr, prime, iha, ihb]
  | rep least most greedy e ih =>
    intro next
    have hmore : Blank (more greedy (ofExpr e)) := fun next => by rw [prime, ih]
    cases most with
    | some most => rw [ofExpr, prime, blank_copies _ ih, blank_options _ _ ih]
    | none =>
      cases least with
      | zero => rw [ofExpr, blank_option _ hmore]
      | succ least => rw [ofExpr, prime, blank_copies _ ih, hmore]
  | group index e ih =>
    cases index with
    | none => rw [ofExpr]; exact ih
    | some n => exact fun next => by rw [ofExpr, prime, ih]

end Primed

/-! ## Searches -/

theorem Cursor.upTo_append_onward (before after : List Char) :
    upTo before after ++ (onward ⟨before, after⟩).tail =
      (start (before.reverse ++ after)).onward := by
  induction before generalizing after with
  | nil =>
    cases after <;> simp [upTo, start, onward]
  | cons x before ih =>
    rw [upTo, List.append_assoc, List.reverse_cons, List.append_assoc, List.singleton_append,
      List.singleton_append, ← ih (x :: after), onward, List.tail_cons]
    cases after <;> simp [onward]

/-- A search finds the first way from the leftmost place that has one. -/
theorem Expr.search_eq_firstWay (e : Expr) (text : List Char) : e.search text = e.firstWay text := by
  have hsweep := (Primed.ofExpr e).sweep_prime text.reverse [] none
  have hplaces := Cursor.upTo_append_onward text.reverse []
  rw [Primed.ways_ofExpr, Cursor.next?, Primed.blank_ofExpr] at hsweep
  simp only [Cursor.onward, List.tail_cons, List.append_nil, List.reverse_reverse] at hplaces
  rw [search, firstWay, ← hplaces]
  simp only [← preferred_done]
  refine hsweep.trans ?_
  rw [Option.orElse_eq_orElse, Option.orElse_eq_or, Option.or_none]
  rfl

end RouteDispatch.Regex
