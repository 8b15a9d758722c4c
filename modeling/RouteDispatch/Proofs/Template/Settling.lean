/-
# Slashes that are settled

When a template has been filled, every slash that may be missing is still a stand-in.
Those at the end are dropped, and the others become slashes.

Here a filled text is a row of glyphs, in which such a slash is one glyph and every
other character is another one.  As long as the text with its slashes written has no
marker, the passes over the spelled-out text see the glyphs: no stand-in is found
that begins or ends within other text (`not_standIn_before`, `not_standIn_behind`).
-/
import RouteDispatch.Proofs.Template.Filling
import Mathlib.Data.List.Induction

namespace RouteDispatch.Template

open Text

/-- The text of some glyphs, with this text for each slash that may be missing.  A glyph is a
character or, with none, such a slash. -/
def spell (slash : List Char) (gs : List (Option Char)) : List Char :=
  gs.flatMap fun g => g.elim slash ([·])

/-- The glyphs without the slashes that are at the end. -/
def trimmed : List (Option Char) → List (Option Char)
  | [] => []
  | some c :: gs => some c :: trimmed gs
  | none :: gs => if trimmed gs = [] then [] else none :: trimmed gs

theorem spell_some (slash : List Char) (c : Char) (gs : List (Option Char)) :
    spell slash (some c :: gs) = c :: spell slash gs := rfl

theorem spell_append (slash : List Char) (gs hs : List (Option Char)) :
    spell slash (gs ++ hs) = spell slash gs ++ spell slash hs := List.flatMap_append

theorem trimmed_append_replicate (gs : List (Option Char)) :
    ∃ n, gs = trimmed gs ++ List.replicate n none := by
  induction gs with
  | nil => exact ⟨0, rfl⟩
  | cons g gs ih =>
    obtain ⟨n, hn⟩ := ih
    cases g with
    | some c => exact ⟨n, congrArg (some c :: ·) hn⟩
    | none =>
      by_cases h : trimmed gs = []
      · refine ⟨n + 1, ?_⟩
        rw [h, List.nil_append] at hn
        rw [trimmed, if_pos h, hn]
        rfl
      · refine ⟨n, ?_⟩
        rw [trimmed, if_neg h]
        exact congrArg (none :: ·) hn

/-- What is left ends in a character. -/
theorem trimmed_cases (gs : List (Option Char)) :
    trimmed gs = [] ∨ ∃ front c, trimmed gs = front ++ [some c] := by
  induction gs with
  | nil => exact Or.inl rfl
  | cons g gs ih =>
    cases g with
    | some c =>
      refine Or.inr ?_
      rcases ih with h | ⟨front, d, h⟩
      · exact ⟨[], c, by rw [trimmed, h]; rfl⟩
      · exact ⟨some c :: front, d, by rw [trimmed, h]; rfl⟩
    | none =>
      rcases ih with h | ⟨front, d, h⟩
      · exact Or.inl (if_pos h)
      · refine Or.inr ⟨none :: front, d, ?_⟩
        rw [trimmed, if_neg (by simp [h]), h]
        rfl

/-! ## No stand-in begins or ends in other text -/

/-- The stand-in of a slash that may be missing. -/
def slashMark : List Char := Form.standIn .optionalSlash

theorem slashMark_eq : slashMark = ['_', '_', 'R', 'C', '_', 'O', 'S', '_', '_'] := rfl

/-- Up to the first stand-in, glyphs are spelled as they are written. -/
theorem spell_split (gs : List (Option Char)) :
    ∃ s rest, spell slashMark gs = s ++ rest ∧ s <+: spell ['/'] gs ∧ Opens rest := by
  induction gs with
  | nil => exact ⟨[], [], rfl, List.prefix_refl _, Or.inl rfl⟩
  | cons g gs ih =>
    cases g with
    | some c =>
      obtain ⟨s, rest, hsplit, hpre, hrest⟩ := ih
      refine ⟨c :: s, rest, ?_, ?_, hrest⟩
      · rw [spell_some, hsplit]
        rfl
      · rw [spell_some, List.cons_prefix_cons]
        exact ⟨rfl, hpre⟩
    | none =>
      refine ⟨[], spell slashMark (none :: gs), rfl, List.nil_prefix, Or.inr (Or.inr ⟨_, rfl⟩)⟩

theorem not_standIn_before {c : Char} {gs : List (Option Char)}
    (h : Unmarked (spell ['/'] (some c :: gs))) : ¬ slashMark <+: spell slashMark (some c :: gs) := by
  intro hpre
  obtain ⟨s, rest, hsplit, hs, hrest⟩ := spell_split gs
  have hunmarked : Unmarked s := fun hin => h.tail (hin.trans hs.isInfix)
  rw [spell_some, hsplit] at hpre
  have hbehind := (List.cons_prefix_cons.mp hpre).2
  exact marker_free_one hunmarked hrest (by decide) _ hbehind

/-- Down to the last stand-in, glyphs are spelled as they are written. -/
theorem spell_split_end (gs : List (Option Char)) :
    ∃ front run, spell slashMark gs = front ++ run ∧ run <:+ spell ['/'] gs ∧
      (front = [] ∨ ['_', '_'] <:+ front) := by
  induction gs using List.reverseRecOn with
  | nil => exact ⟨[], [], rfl, List.suffix_refl _, Or.inl rfl⟩
  | append_singleton gs g ih =>
    cases g with
    | some c =>
      obtain ⟨front, run, hsplit, hrun, hfront⟩ := ih
      refine ⟨front, run ++ [c], ?_, ?_, hfront⟩
      · rw [spell_append, hsplit, List.append_assoc]
        rfl
      · rw [spell_append]
        exact (List.suffix_append_inj_of_length_eq rfl).mpr ⟨hrun, rfl⟩
    | none =>
      refine ⟨spell slashMark (gs ++ [none]), [], (List.append_nil _).symm, List.nil_suffix,
        Or.inr ?_⟩
      rw [spell_append]
      refine List.IsSuffix.trans ?_ (List.suffix_append _ _)
      exact ⟨['_', '_', 'R', 'C', '_', 'O', 'S'], rfl⟩

/-- Behind a run of text there is nothing, or two underscores.  Text that does not begin with these
cannot begin behind the run. -/
theorem cons_prefix_run {x y : Char} {u run rest : List Char} (hxy : x = '_' → y ≠ '_')
    (hrest : rest = [] ∨ ['_', '_'] <+: rest) (h : x :: y :: u <+: run ++ rest) :
    ∃ more, run = x :: more ∧ y :: u <+: more ++ rest := by
  cases run with
  | nil =>
    rcases hrest with rfl | ⟨v, rfl⟩
    · cases List.prefix_nil.mp h
    · obtain ⟨hx, hbehind⟩ := List.cons_prefix_cons.mp h
      exact absurd (List.cons_prefix_cons.mp hbehind).1 (hxy hx)
  | cons c run =>
    obtain ⟨hx, hbehind⟩ := List.cons_prefix_cons.mp h
    exact ⟨run, congrArg (· :: run) hx.symm, hbehind⟩

/-- No stand-in ends with other text. -/
theorem not_standIn_behind {c : Char} {gs : List (Option Char)}
    (h : Unmarked (spell ['/'] (gs ++ [some c]))) :
    ¬ slashMark <:+ spell slashMark (gs ++ [some c]) := by
  intro hsuffix
  obtain ⟨front, run, hsplit, hrun, hfront⟩ := spell_split_end gs
  have hback : front.reverse = [] ∨ ['_', '_'] <+: front.reverse := by
    rcases hfront with rfl | hfront
    · exact Or.inl rfl
    · exact Or.inr (List.reverse_prefix.mpr hfront)
  -- Read backwards, the stand-in runs through its marker before it can leave the text.
  have hpre : '_' :: '_' :: 'S' :: 'O' :: '_' :: 'C' :: 'R' :: '_' :: ['_'] <+:
      c :: (run.reverse ++ front.reverse) := by
    have hreverse := List.reverse_prefix.mpr hsuffix
    rw [spell_append, hsplit, List.reverse_append, List.reverse_append, slashMark_eq] at hreverse
    exact hreverse
  have hbehind := (List.cons_prefix_cons.mp hpre).2
  obtain ⟨r1, h1, hbehind⟩ := cons_prefix_run (by decide) hback hbehind
  obtain ⟨r2, h2, hbehind⟩ := cons_prefix_run (by decide) hback hbehind
  obtain ⟨r3, h3, hbehind⟩ := cons_prefix_run (by decide) hback hbehind
  obtain ⟨r4, h4, hbehind⟩ := cons_prefix_run (by decide) hback hbehind
  obtain ⟨r5, h5, hbehind⟩ := cons_prefix_run (by decide) hback hbehind
  obtain ⟨r6, h6, -⟩ := cons_prefix_run (by decide) hback hbehind
  have hrow : run = r6.reverse ++ ['R', 'C', '_', 'O', 'S', '_'] := by
    have hreverse := congrArg List.reverse h1
    rw [h2, h3, h4, h5, h6] at hreverse
    simpa using hreverse
  refine h (List.IsInfix.trans ?_ (List.IsInfix.trans hrun.isInfix ?_))
  · rw [hrow]
    exact ⟨r6.reverse, ['O', 'S', '_'], by simp⟩
  · rw [spell_append]
    exact (List.prefix_append _ _).isInfix

/-! ## Settling -/

theorem replace_spell {gs : List (Option Char)} (h : Unmarked (spell ['/'] gs)) :
    replace slashMark ['/'] (spell slashMark gs) = spell ['/'] gs := by
  induction gs with
  | nil => rfl
  | cons g gs ih =>
    cases g with
    | some c =>
      have hbefore := not_standIn_before h
      rw [spell_some] at hbefore
      rw [spell_some, spell_some, replace_cons hbefore, ih h.tail]
    | none =>
      have hne : slashMark ≠ [] := by decide
      have hreplaced := replace_append hne ['/'] (spell slashMark gs)
      rw [ih h.tail] at hreplaced
      exact hreplaced

/-- The passes drop the slashes at the end and write the others. -/
theorem settleSlashes_spell {gs : List (Option Char)} (h : Unmarked (spell ['/'] (trimmed gs))) :
    settleSlashes (spell slashMark gs).reverse = spell ['/'] (trimmed gs) := by
  have hdrop : dropRepeated slashMark.reverse (spell slashMark gs).reverse =
      (spell slashMark (trimmed gs)).reverse := by
    obtain ⟨n, hn⟩ := trimmed_append_replicate gs
    have hend : dropRepeated slashMark.reverse (spell slashMark (trimmed gs)).reverse =
        (spell slashMark (trimmed gs)).reverse := by
      refine dropRepeated_of_not_prefix fun hpre => ?_
      have hsuffix := List.reverse_prefix.mp hpre
      rcases trimmed_cases gs with hnil | ⟨front, c, hfront⟩
      · rw [hnil] at hsuffix
        cases List.suffix_nil.mp hsuffix
      · rw [hfront] at h hsuffix
        exact not_standIn_behind h hsuffix
    have hspent : ∀ n s, dropRepeated slashMark.reverse
        ((spell slashMark (List.replicate n none)).reverse ++ s) =
          dropRepeated slashMark.reverse s := by
      intro n s
      induction n with
      | zero => rfl
      | succ n ih =>
        rw [List.replicate_succ', spell_append, List.reverse_append, List.append_assoc]
        exact (dropRepeated_append (by decide) _).trans ih
    have hall : (spell slashMark gs).reverse =
        (spell slashMark (List.replicate n none)).reverse ++
          (spell slashMark (trimmed gs)).reverse := by
      rw [← List.reverse_append, ← spell_append, ← hn]
    rw [hall, hspent, hend]
  rw [settleSlashes]
  change replace slashMark ['/'] (dropRepeated slashMark.reverse _).reverse = _
  rw [hdrop, List.reverse_reverse, replace_spell h]

end RouteDispatch.Template
