/-
# What a pass over a text does to its parts

A text is gone through piece by piece, and so is a proof about it.  `Silent rule u rest`
says that nothing which the rule finds begins within `u`, if `rest` stands
behind it; then a pass copies `u`.  What the rule does find at the start of a
text is replaced, and the pass goes on behind it.  With these two steps a pass
over a text of known parts is computed.
-/
import RouteDispatch.Text.Cut

namespace RouteDispatch.Text

variable {α : Type}

/-- Nothing that is found begins within the first text, if the second one follows it. -/
def Silent (rule : Rule α) : (u rest : List Char) → Prop
  | [], _ => True
  | c :: u, rest => rule (c :: (u ++ rest)) = none ∧ Silent rule u rest

theorem Silent.append {rule : Rule α} {u v rest : List Char} (hu : Silent rule u (v ++ rest))
    (hv : Silent rule v rest) : Silent rule (u ++ v) rest := by
  induction u with
  | nil => exact hv
  | cons c u ih =>
    obtain ⟨hc, hu⟩ := hu
    refine ⟨?_, ih hu⟩
    show rule (c :: (u ++ v ++ rest)) = none
    rw [List.append_assoc]
    exact hc

/-- A rule that looks at the first character alone, and at none of these. -/
theorem silent_of_head {rule : Rule α} {u : List Char} (rest : List Char)
    (h : ∀ c ∈ u, ∀ s, rule (c :: s) = none) : Silent rule u rest := by
  induction u with
  | nil => trivial
  | cons c u ih =>
    exact ⟨h c List.mem_cons_self _, ih fun d hd => h d (List.mem_cons_of_mem _ hd)⟩

theorem cut_append_of_silent {rule : Rule α} {u rest : List Char} (h : Silent rule u rest) :
    cut rule (u ++ rest) = u.map .plain ++ cut rule rest := by
  induction u with
  | nil => rfl
  | cons c u ih =>
    obtain ⟨hc, hu⟩ := h
    rw [List.cons_append, cut_cons_of_none hc, ih hu]
    rfl

theorem substitute_append_of_silent {rule : Rule (List Char)} {u rest : List Char}
    (h : Silent rule u rest) : substitute rule (u ++ rest) = u ++ substitute rule rest := by
  rw [substitute, cut_append_of_silent h, List.flatMap_append, substitute]
  congr 1
  induction u with
  | nil => rfl
  | cons c u ih =>
    rw [List.map_cons, List.flatMap_cons, ih h.2]
    rfl

theorem substitute_of_silent {rule : Rule (List Char)} {u : List Char} (h : Silent rule u []) :
    substitute rule u = u := by
  have hall := substitute_append_of_silent h
  rw [List.append_nil] at hall
  rw [hall]
  exact List.append_nil u

theorem substitute_append_of_some {rule : Rule (List Char)} {new u rest : List Char} (hne : u ≠ [])
    (h : rule (u ++ rest) = some (new, u.length)) :
    substitute rule (u ++ rest) = new ++ substitute rule rest := by
  obtain ⟨c, u, rfl⟩ := List.exists_cons_of_ne_nil hne
  rw [substitute, cut_append_of_some h]
  rfl

theorem findAll_append_of_silent {rule : Rule α} {u rest : List Char} (h : Silent rule u rest) :
    findAll rule (u ++ rest) = findAll rule rest := by
  rw [findAll, cut_append_of_silent h, List.filterMap_append, findAll, List.filterMap_map]
  have hnone : u.filterMap (fun _ : Char => (none : Option α)) = [] := by
    induction u with
    | nil => rfl
    | cons c u ih => exact ih h.2
  exact (congrArg (· ++ _) hnone).trans (List.nil_append _)

theorem findAll_of_silent {rule : Rule α} {u : List Char} (h : Silent rule u []) :
    findAll rule u = [] := by
  have hall := findAll_append_of_silent h
  rw [List.append_nil] at hall
  exact hall

theorem findAll_append_of_some {rule : Rule α} {a : α} {u rest : List Char} (hne : u ≠ [])
    (h : rule (u ++ rest) = some (a, u.length)) :
    findAll rule (u ++ rest) = a :: findAll rule rest := by
  obtain ⟨c, u, rfl⟩ := List.exists_cons_of_ne_nil hne
  rw [findAll, cut_append_of_some h]
  rfl

/-! ## Replacing a text -/

theorem swapping_eq_none {old new s : List Char} (h : ¬ old <+: s) : swapping old new s = none :=
  if_neg fun hpre => h (List.isPrefixOf_iff_prefix.mp hpre)

theorem replace_append {old : List Char} (hold : old ≠ []) (new s : List Char) :
    replace old new (old ++ s) = new ++ replace old new s :=
  substitute_append_of_some hold (if_pos (List.isPrefixOf_iff_prefix.mpr (List.prefix_append _ _)))

theorem replace_cons {old : List Char} {c : Char} {s : List Char} (h : ¬ old <+: c :: s)
    (new : List Char) : replace old new (c :: s) = c :: replace old new s :=
  substitute_append_of_silent (u := [c]) ⟨swapping_eq_none h, trivial⟩

theorem replace_of_not_infix {old s : List Char} (h : ¬ old <:+: s) (new : List Char) :
    replace old new s = s := by
  induction s with
  | nil => rfl
  | cons c s ih =>
    rw [replace_cons (fun hpre => h hpre.isInfix),
      ih fun hin => h (hin.trans (List.suffix_cons c s).isInfix)]

/-- With a shorter text in its place, a text that occurs makes what it occurs in shorter. -/
theorem length_replace {old new : List Char} (h : new.length < old.length) (s : List Char) :
    (replace old new s).length ≤ s.length ∧
      (old <:+: s → (replace old new s).length < s.length) := by
  have hold : old ≠ [] := List.ne_nil_of_length_pos (Nat.zero_lt_of_lt h)
  induction hlength : s.length using Nat.strongRecOn generalizing s with
  | ind n ih =>
    subst hlength
    by_cases hpre : old <+: s
    · obtain ⟨rest, rfl⟩ := hpre
      have hrest : (replace old new rest).length ≤ rest.length := by
        refine (ih rest.length ?_ rest rfl).1
        rw [List.length_append]
        omega
      have hlt : (replace old new (old ++ rest)).length < (old ++ rest).length := by
        rw [replace_append hold, List.length_append, List.length_append]
        omega
      exact ⟨Nat.le_of_lt hlt, fun _ => hlt⟩
    · cases s with
      | nil => exact ⟨Nat.le_refl 0, fun hin => absurd (List.eq_nil_of_infix_nil hin) hold⟩
      | cons c s =>
        obtain ⟨hle, hlt⟩ := ih s.length (Nat.lt_succ_self _) s rfl
        rw [replace_cons hpre]
        refine ⟨Nat.succ_le_succ hle, fun hin => Nat.succ_lt_succ (hlt ?_)⟩
        exact (List.infix_cons_iff.mp hin).resolve_left hpre

/-! ## Dropping a text at the start -/

theorem dropRepeated_of_not_prefix {lead s : List Char} (h : ¬ lead <+: s) :
    dropRepeated lead s = s := by
  cases s with
  | nil => rw [dropRepeated]
  | cons c s => rw [dropRepeated, if_neg fun hpre => h (List.isPrefixOf_iff_prefix.mp hpre)]

theorem dropRepeated_append {lead : List Char} (hlead : lead ≠ []) (s : List Char) :
    dropRepeated lead (lead ++ s) = dropRepeated lead s := by
  obtain ⟨c, u, rfl⟩ := List.exists_cons_of_ne_nil hlead
  rw [List.cons_append, dropRepeated, if_pos]
  · simp
  · exact List.isPrefixOf_iff_prefix.mpr (List.prefix_append _ _)

theorem dropRepeated_suffix (lead s : List Char) : dropRepeated lead s <:+ s := by
  induction hlength : s.length using Nat.strongRecOn generalizing s with
  | ind n ih =>
    subst hlength
    cases s with
    | nil =>
      have hnil : dropRepeated lead [] = [] := by rw [dropRepeated]
      exact hnil.symm ▸ List.suffix_refl []
    | cons c s =>
      rw [dropRepeated]
      split
      · have hshorter : (s.drop (lead.length - 1)).length < (c :: s).length := by
          rw [List.length_drop, List.length_cons]
          omega
        have hdropped := ih _ hshorter _ rfl
        exact hdropped.trans ((List.drop_suffix _ s).trans (List.suffix_cons c s))
      · exact List.suffix_refl _

/-! ## A character that no rule takes in -/

/-- Nothing that is found begins with the character, or takes it in where the text ends with it. -/
structure Ignores (rule : Rule α) (c : Char) : Prop where
  head : ∀ s, rule (c :: s) = none
  last : ∀ d s, rule (d :: s ++ [c]) = rule (d :: s)
  fits : ∀ {s a n}, rule s = some (a, n) → n ≤ s.length

theorem Ignores.substitute_cons {rule : Rule (List Char)} {c : Char} (h : Ignores rule c)
    (s : List Char) : substitute rule (c :: s) = c :: substitute rule s :=
  substitute_append_of_silent (u := [c]) ⟨h.head s, trivial⟩

theorem Ignores.cutOnto_concat {rule : Rule α} {c : Char} (h : Ignores rule c) {s : List Char}
    {skip : Nat} (hskip : skip ≤ s.length) :
    cutOnto rule [] skip (s ++ [c]) = cutOnto rule [] skip s ++ [.plain c] := by
  induction s generalizing skip with
  | nil =>
    obtain rfl : skip = 0 := Nat.le_zero.mp hskip
    simp only [List.nil_append, cutOnto, h.head []]
    rfl
  | cons d s ih =>
    cases skip with
    | succ skip => exact ih (Nat.le_of_succ_le_succ hskip)
    | zero =>
      have hlast := h.last d s
      rw [List.cons_append] at hlast
      simp only [List.cons_append, cutOnto, hlast]
      split
      · next a n hfound =>
        -- What is found ends within the text, so the character behind it is still to come.
        have hn : n - 1 ≤ s.length := Nat.sub_le_of_le_add (h.fits hfound)
        rw [cutOnto_eq_append, ih hn, cutOnto_eq_append rule [.found a], List.append_assoc]
      · rw [cutOnto_eq_append, ih (Nat.zero_le _), cutOnto_eq_append rule [.plain d],
          List.append_assoc]

theorem Ignores.substitute_concat {rule : Rule (List Char)} {c : Char} (h : Ignores rule c)
    (s : List Char) : substitute rule (s ++ [c]) = substitute rule s ++ [c] := by
  have hcut := h.cutOnto_concat (Nat.zero_le s.length)
  rw [substitute, cut, hcut, List.flatMap_append]
  rfl

theorem Ignores.map {β : Type} {rule : Rule α} {c : Char} (h : Ignores rule c) (f : α → β) :
    Ignores (fun s => (rule s).map fun (a, n) => (f a, n)) c where
  head s := by simp only [h.head, Option.map_none]
  last d s := by simp only [h.last]
  fits := by
    intro s b n hfound
    obtain ⟨⟨a, m⟩, ha, heq⟩ := Option.map_eq_some_iff.mp hfound
    cases heq
    exact h.fits ha

theorem Ignores.orElse {first second : Rule α} {c : Char} (hfirst : Ignores first c)
    (hsecond : Ignores second c) : Ignores (fun s => first s <|> second s) c where
  head s := by simp [hfirst.head, hsecond.head]
  last d s := by simp only [hfirst.last, hsecond.last]
  fits := by
    intro s a n hfound
    cases hs : first s with
    | some found =>
      simp only [hs] at hfound
      exact hfirst.fits (hs.trans hfound)
    | none =>
      simp only [hs] at hfound
      exact hsecond.fits hfound

theorem isPrefixOf_concat {u : List Char} {c : Char} (h : c ∉ u) (s : List Char) :
    u.isPrefixOf (s ++ [c]) = u.isPrefixOf s := by
  rw [Bool.eq_iff_iff, List.isPrefixOf_iff_prefix, List.isPrefixOf_iff_prefix,
    List.prefix_concat_iff]
  constructor
  · rintro (rfl | hpre)
    · exact absurd (List.mem_append_right s (List.mem_singleton_self c)) h
    · exact hpre
  · exact Or.inr

/-! ## The text up to a stop -/

theorem upTo?_append {stops : Char → Bool} {u rest : List Char} {c : Char}
    (hu : ∀ d ∈ u, stops d = false) (hc : stops c = true) :
    upTo? stops (u ++ c :: rest) = some u := by
  have hany : (u ++ c :: rest).any stops = true := by simp [hc]
  rw [upTo?, if_pos hany]
  congr 1
  induction u with
  | nil => rw [List.nil_append, List.takeWhile_cons_of_neg (by simp [hc])]
  | cons d u ih =>
    have hd := hu d List.mem_cons_self
    have hany' : (u ++ c :: rest).any stops = true := by simp [hc]
    rw [List.cons_append, List.takeWhile_cons_of_pos (by simp [hd]),
      ih (fun e he => hu e (List.mem_cons_of_mem _ he)) hany']

/-- What is before the stop, if there is one. -/
theorem upTo?_eq_some {stops : Char → Bool} {s u : List Char} (h : upTo? stops s = some u) :
    ∃ c rest, s = u ++ c :: rest ∧ stops c = true ∧ ∀ d ∈ u, stops d = false := by
  rw [upTo?] at h
  split at h
  · next hany =>
    cases h
    induction s with
    | nil => simp at hany
    | cons c s ih =>
      by_cases hc : stops c = true
      · refine ⟨c, s, ?_, hc, ?_⟩
        · rw [List.takeWhile_cons_of_neg (by simp [hc])]
          rfl
        · rw [List.takeWhile_cons_of_neg (by simp [hc])]
          exact fun d hd => absurd hd List.not_mem_nil
      · have hany' : s.any stops = true := by simpa [hc] using hany
        obtain ⟨d, rest, hs, hd, hu⟩ := ih hany'
        have hcons : (c :: s).takeWhile (! stops ·) = c :: s.takeWhile (! stops ·) :=
          List.takeWhile_cons_of_pos (by simp [hc])
        refine ⟨d, rest, ?_, hd, ?_⟩
        · rw [hcons, List.cons_append, ← hs]
        · rw [hcons]
          intro e he
          rcases List.mem_cons.mp he with rfl | he
          · exact eq_false_of_ne_true hc
          · exact hu e he
  · cases h

/-- What does not stop a text may stand behind it. -/
theorem upTo?_concat {stops : Char → Bool} {c : Char} (h : stops c = false) (s : List Char) :
    upTo? stops (s ++ [c]) = upTo? stops s := by
  cases hs : upTo? stops s with
  | some u =>
    obtain ⟨d, rest, rfl, hd, hu⟩ := upTo?_eq_some hs
    rw [List.append_assoc]
    exact upTo?_append hu hd
  | none =>
    cases hany : s.any stops with
    | true =>
      rw [upTo?, if_pos hany] at hs
      cases hs
    | false => rw [upTo?, if_neg (by simp [hany, h])]

end RouteDispatch.Text
