/-
# Filling a template piece by piece

Of an outline nothing is asked but that no delimiter stands in the text between its
parts: stand-ins may stand there, and so may any other text.  This is enough to tell
whether it can be filled in and with which error it fails (`fill_error_iff`).

The result is told piece by piece: text and values stand as they are, and between
two parts of which the second is soft there is a mark in the place of the slash.
Marks at the end are left out and the others are written as slashes.  This needs that
the text and the values make no marker where they meet.  The marks themselves
break one up rather than make one (`unmarked_onto`).
-/
import RouteDispatch.Proofs.Template.Kept

namespace RouteDispatch.Template

/-- Parts with text around them that has no delimiters. -/
structure Outline where
  cells : List Cell
  tail : List Char
  undelimited : Undelimited cells tail

namespace Outline

def text (o : Outline) : List Char := o.cells.flatMap Cell.text ++ o.tail

def parts (o : Outline) : List Part := o.cells.map (·.part)

/-- The text and the values one after the other, with the slashes that stand in the template. -/
def written (given : String → Option String) (o : Outline) : List Char :=
  o.cells.flatMap (fun cell => cell.lead ++ cell.part.filling given) ++ o.tail

/-- The text and the values, with a mark for each slash that may be missing. -/
def glyphs (given : String → Option String) (o : Outline) : List (Option Char) :=
  (itemsFrom none o.cells o.tail).flatMap (Item.glyphs given)

end Outline

/-! ## Marks and markers -/

theorem unmarked_soft {s u : List Char} (hs : Unmarked s) (hu : Unmarked u) :
    Unmarked (s ++ if u = [] then [] else '/' :: u) := by
  split
  · rwa [List.append_nil]
  · exact unmarked_slash.mpr ⟨hs, hu⟩

/-- If the text and the values have no marker, then neither have they with slashes for the marks,
whatever text `s` they stand behind. -/
theorem unmarked_onto (given : String → Option String) (prev : Option Part) {cells : List Cell}
    {tail : List Char} (s : List Char)
    (h : Unmarked
      (s ++ (cells.flatMap (fun cell => cell.lead ++ cell.part.filling given) ++ tail))) :
    Unmarked (s ++ (itemsFrom prev cells tail).foldr (Item.onto given) []) := by
  induction cells generalizing prev s with
  | nil => simpa [itemsFrom, Item.onto] using h
  | cons cell cells ih =>
    simp only [List.flatMap_cons, List.append_assoc] at h
    rw [itemsFrom, List.foldr_append, List.foldr_cons, Item.onto]
    have hplain : Unmarked (s ++ (cell.lead ++ (cell.part.filling given ++
        (itemsFrom (some cell.part) cells tail).foldr (Item.onto given) []))) := by
      have hrest := ih (some cell.part) (s ++ (cell.lead ++ cell.part.filling given))
      simp only [List.append_assoc] at hrest
      exact hrest h
    -- A mark parts the text before it from the value behind it.
    have hbehind : Unmarked (cell.part.filling given ++
        (itemsFrom (some cell.part) cells tail).foldr (Item.onto given) []) := by
      refine ih (some cell.part) _ fun hin => h (hin.trans ?_)
      rw [← List.append_assoc s]
      exact (List.suffix_append _ _).isInfix
    have hbefore : ∀ u, u <+: cell.lead → Unmarked (s ++ u) := by
      rintro u ⟨v, hv⟩ hin
      refine h (hin.trans ?_)
      rw [← hv, List.append_assoc, ← List.append_assoc s]
      exact (List.prefix_append _ _).isInfix
    rw [Cell.separation]
    split
    · cases cell.part.isSoft with
      | true =>
        have hs := hbefore [] List.nil_prefix
        rw [List.append_nil] at hs
        exact unmarked_soft hs hbehind
      | false => exact hplain
    · split
      · have hlead := unmarked_soft (hbefore _ (List.dropLast_prefix cell.lead)) hbehind
        rw [List.append_assoc] at hlead
        exact hlead
      · exact hplain

/-! ## Outcome -/

/-- The outcome of filling is told by the parts and the text one after the other.  It is an error
just if a part cannot be filled in, and the error is that of the first such part.  Else the text
and the values stand in a row, with slashes for the marks that are not at the end; where there are
marks is said by `Cell.separation`. -/
theorem Outline.fill_outcome (o : Outline) (given : String → Option String) :
    (∀ e, fill (.ofList o.text) given = .error e ↔
      o.parts.findSome? (Part.failure? given) = some e) ∧
    (o.parts.findSome? (Part.failure? given) = none →
      ¬ ['R', 'C', '_'] <:+: o.written given →
        fill (.ofList o.text) given = .ok (.ofList (spell ['/'] (trimmed (o.glyphs given))))) := by
  refine ⟨fun e => fill_error_iff o.undelimited, fun hnone hmarker => ?_⟩
  have hfits : ∀ cell ∈ o.cells, cell.part.failure? given = none := by
    rw [Outline.parts, List.findSome?_map, List.findSome?_eq_none_iff] at hnone
    exact hnone
  rw [Outline.glyphs, spell_trimmed_glyphs]
  exact fill_eq_onto o.undelimited hfits (unmarked_onto given none [] hmarker)

/-- The template `news/{topic}/:year:/:month:`. -/
def Outline.news : Outline where
  cells := [
    ⟨"news/".toList, .segment, true, "topic".toList, List.cons_ne_nil _ _, forall_mem_of_all rfl⟩,
    ⟨"/".toList, .segment, false, "year".toList, List.cons_ne_nil _ _, forall_mem_of_all rfl⟩,
    ⟨"/".toList, .segment, false, "month".toList, List.cons_ne_nil _ _, forall_mem_of_all rfl⟩]
  tail := []
  undelimited :=
    { leads := List.forall_mem_cons.mpr ⟨forall_mem_of_all rfl, List.forall_mem_cons.mpr
        ⟨forall_mem_of_all rfl, List.forall_mem_cons.mpr
          ⟨forall_mem_of_all rfl, List.forall_mem_nil _⟩⟩⟩
      tail := List.forall_mem_nil _ }

/-- The slash of a part that is absent is written if a value stands behind it, and else left out. -/
theorem Outline.fill_outcome_news :
    let named := fun value name =>
      if name = "topic" then some "oil" else if name = "month" then value else none
    String.ofList news.text = "news/\x7btopic\x7d/:year:/:month:" ∧
      fill "news/\x7btopic\x7d/:year:/:month:" (fun _ => none) =
        .error (.missingSegment "\x7btopic\x7d") ∧
      fill "news/\x7btopic\x7d/:year:/:month:" (named (some "5/6")) =
        .error (.invalidValue ":month:" "5/6") ∧
      fill "news/\x7btopic\x7d/:year:/:month:" (named (some "5")) = .ok "news/oil//5" ∧
      fill "news/\x7btopic\x7d/:year:/:month:" (named none) = .ok "news/oil" := by
  intro named
  refine ⟨rfl, ((news.fill_outcome _).1 _).mpr rfl, ((news.fill_outcome _).1 _).mpr rfl, ?_, ?_⟩
  · exact (news.fill_outcome (named (some "5"))).2 rfl (marker_of_not_mem (by decide))
  · exact (news.fill_outcome (named none)).2 rfl (marker_of_not_mem (by decide))

end RouteDispatch.Template
