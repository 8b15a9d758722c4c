/-
# Parts joined by slashes

Many templates are parts with a slash between any two of them, behind some text that
may be empty (`Plain.joined`).  Their requests are texts joined in the same way
(`steps`), so the two can be followed side by side: what the required segments of
such a template take is the values, one by one (`gives_segments`).
-/
import RouteDispatch.Proofs.Template.Taking
import RouteDispatch.Proofs.Text.Slashes

namespace RouteDispatch.Template

open Text Regex

/-! ## Joined parts -/

/-- The items of parts, each with a slash before it. -/
def joins (parts : List Part) : List Item :=
  parts.flatMap fun p => [.slash p.isSoft ['/'], .part p]

theorem joins_cons (p : Part) (parts : List Part) :
    joins (p :: parts) = .slash p.isSoft ['/'] :: .part p :: joins parts := rfl

theorem joins_append (parts others : List Part) : joins (parts ++ others) = joins parts ++ joins others :=
  List.flatMap_append

theorem partsOf_joins (parts : List Part) : partsOf (joins parts) = parts := by
  induction parts with
  | nil => rfl
  | cons p parts ih => exact congrArg (p :: ·) ih

theorem itemsFrom_joined (prev : Part) (parts : List Part) :
    itemsFrom (some prev) (parts.map (Cell.mk ['/'])) [] = joins parts ++ [.text []] := by
  induction parts generalizing prev with
  | nil => rfl
  | cons p parts ih =>
    rw [List.map_cons, itemsFrom, ih, Cell.separation, if_pos ⟨rfl, Or.inr rfl⟩]
    rfl

theorem literal_lead {l : List Char} (chars : ∀ c ∈ l, c ≠ '{' ∧ c ≠ '}' ∧ c ≠ ':')
    (unmarked : Unmarked l) (p : Part) : Literal none (l ++ ['/']) (some p) where
  delimiters := List.forall_mem_append.mpr ⟨chars, forall_mem_of_all rfl⟩
  marker := unmarked_slash.mpr ⟨unmarked, unmarked_nil⟩
  head _ hprev := by cases hprev
  last _ _ _ := by
    rw [List.getLast?_concat]
    decide

theorem literal_slash (prev next : Part) : Literal (some prev) ['/'] (some next) where
  delimiters := forall_mem_of_all rfl
  marker := marker_of_not_mem (by decide)
  head _ _ _ := by decide
  last _ _ _ := by decide

theorem literal_end (prev : Part) : Literal (some prev) [] none where
  delimiters := List.forall_mem_nil _
  marker := unmarked_nil
  head _ _ _ := by decide
  last _ hnext := by cases hnext

theorem tidy_joined (prev : Part) (parts : List Part) :
    Tidy (some prev) (parts.map (Cell.mk ['/'])) [] := by
  induction parts generalizing prev with
  | nil => exact literal_end prev
  | cons p parts ih => exact ⟨literal_slash prev p, ih p⟩

/-- Parts joined by slashes, behind some text. -/
def Plain.joined (lead : List Char) (p : Part) (parts : List Part)
    (literal : Literal none lead (some p)) : Plain where
  cells := ⟨lead, p⟩ :: parts.map (Cell.mk ['/'])
  tail := []
  tidy := ⟨literal, tidy_joined p parts⟩

/-- What stands behind joined parts: nothing, and the slash that the mode allows there. -/
def ending (mode : SlashMode) : List Item :=
  .text [] :: if mode = .strict then [] else [.slash true []]

section
variable (lead : List Char) (p : Part) (parts : List Part) (literal : Literal none lead (some p))

theorem text_joined :
    (Plain.joined lead p parts literal).text = lead ++ (p.text ++ steps (parts.map Part.text)) := by
  have hparts : (parts.map (Cell.mk ['/'])).flatMap Cell.text = steps (parts.map Part.text) := by
    rw [steps, List.flatMap_map, List.flatMap_map]
    rfl
  show (lead ++ p.text ++ (parts.map (Cell.mk ['/'])).flatMap Cell.text) ++ [] = _
  rw [hparts, List.append_nil, List.append_assoc]

theorem requestItems_joined (mode : SlashMode) :
    (Plain.joined lead p parts literal).requestItems mode =
      (if mode = .loose then [.slash true []] else []) ++
        ((Cell.mk (leadOf mode lead) p).separation none ++
          .part p :: (joins parts ++ ending mode)) := by
  have hitems : ((Plain.joined lead p parts literal).strip mode).items =
      itemsFrom none (⟨leadOf mode lead, p⟩ :: parts.map (Cell.mk ['/'])) [] := by
    rw [items_strip_cons mode rfl]
    cases mode <;> rfl
  rw [Plain.requestItems, hitems, itemsFrom, itemsFrom_joined, ending]
  simp only [List.append_assoc, List.cons_append, List.nil_append]

end

/-! ## The ends of a request -/

theorem cuts_ending (mode : SlashMode) : ∃ slices, Cuts (ending mode) slices [] := by
  cases mode with
  | loose => exact ⟨[{}, {}], ⟨rfl, Or.inr ⟨rfl, rfl⟩, trivial⟩, rfl⟩
  | strict => exact ⟨[{}], ⟨rfl, trivial⟩, rfl⟩
  | legacy => exact ⟨[{}, {}], ⟨rfl, Or.inr ⟨rfl, rfl⟩, trivial⟩, rfl⟩

theorem cuts_ending_cases {mode : SlashMode} {slices : List Slice} {text : List Char}
    (h : Cuts (ending mode) slices text) : text = [] ∨ text = ['/'] := by
  obtain ⟨s, back, rfl⟩ := h.exists_cons
  obtain ⟨⟨rfl, hback⟩, rfl⟩ := h
  have hslash : Cuts [.slash true []] back (back.flatMap Slice.text) →
      back.flatMap Slice.text = [] ∨ back.flatMap Slice.text = ['/'] :=
    fun hcuts => (cuts_slash.mp hcuts).symm.imp And.right And.right
  cases mode with
  | loose => exact hslash ⟨hback, rfl⟩
  | legacy => exact hslash ⟨hback, rfl⟩
  | strict => exact Or.inl (reads_nil.mp ⟨back, ⟨hback, rfl⟩, rfl⟩).1

theorem partsOf_ending (mode : SlashMode) : partsOf (ending mode) = [] := by
  cases mode <;> rfl

theorem gives_ending (mode : SlashMode) : Gives (ending mode) [] [] := by
  have hgives := gives_absent (cuts_ending mode)
  rwa [partsOf_ending] at hgives

theorem gives_lead {allowed : Prop} [Decidable allowed] {items : List Item} {text edge : List Char}
    {values : List (Option String)} (h : Gives items text values) (hedge : Edge allowed edge)
    (hnil : allowed → edge = [] → text.head? ≠ some '/') :
    Gives ((if allowed then [.slash true []] else []) ++ items) (edge ++ text) values := by
  obtain ⟨slices, hbest, rfl⟩ := h
  obtain ⟨front, hfront, hbest'⟩ := best_swap_lead hbest hedge hnil
  exact ⟨front ++ slices, hbest', valuesOf_lead hfront⟩

/-! ## Required segments -/

/-- A value for each of the parts, such as a segment holds. -/
def Fits (parts : List Part) (xs : List (List Char)) : Prop :=
  xs.length = parts.length ∧ ∀ x ∈ xs, Reach.segment.Admits x

theorem Fits.exists_cons {p : Part} {parts : List Part} {xs : List (List Char)}
    (h : Fits (p :: parts) xs) :
    ∃ x ys, xs = x :: ys ∧ Reach.segment.Admits x ∧ Fits parts ys := by
  obtain ⟨hlength, hxs⟩ := h
  obtain ⟨x, ys, rfl⟩ := List.exists_cons_of_length_eq_add_one hlength
  obtain ⟨hx, hys⟩ := List.forall_mem_cons.mp hxs
  exact ⟨x, ys, rfl, hx, Nat.succ.inj hlength, hys⟩

section
variable {behind : List Item} {rest : List Char} {values : List (Option String)}
  (hrest : rest = [] ∨ ∃ u, rest = '/' :: u) (h : Gives behind rest values)
include hrest h

/-- Required segments take their values one by one. -/
theorem gives_segments {parts : List Part}
    (hparts : ∀ p ∈ parts, p.reach = .segment ∧ p.required = true) {xs : List (List Char)}
    (hxs : Fits parts xs) :
    Gives (joins parts ++ behind) (steps xs ++ rest) (captured xs ++ values) := by
  induction parts generalizing xs with
  | nil =>
    obtain rfl := List.length_eq_zero_iff.mp hxs.1
    exact h
  | cons p parts ih =>
    obtain ⟨x, xs, rfl, hx, hxs⟩ := hxs.exists_cons
    obtain ⟨hp, hparts⟩ := List.forall_mem_cons.mp hparts
    have hsegment := gives_segment hp hx (steps_append_cases xs hrest) (ih hparts hxs)
    have htext : steps (x :: xs) ++ rest = '/' :: (x ++ (steps xs ++ rest)) :=
      congrArg ('/' :: ·) (List.append_assoc x (steps xs) rest)
    rw [joins_cons, isSoft_of_segment hp, htext]
    exact gives_slash ['/'] hsegment

/-- A request begins with the values of the required segments at the start of its template. -/
theorem gives_first_segments (mode : SlashMode) {p : Part} {parts : List Part}
    (hparts : ∀ q ∈ p :: parts, q.reach = .segment ∧ q.required = true) {xs : List (List Char)}
    (hxs : Fits (p :: parts) xs) :
    Gives ((if mode = .loose then [.slash true []] else []) ++
        (.text [] :: .part p :: (joins parts ++ behind))) (['/'].intercalate xs ++ rest)
      (captured xs ++ values) := by
  obtain ⟨x, xs, rfl, hx, hxs⟩ := hxs.exists_cons
  obtain ⟨hp, hparts⟩ := List.forall_mem_cons.mp hparts
  have hlater := gives_segments hrest h hparts hxs
  have hsegment := gives_segment hp hx (steps_append_cases xs hrest) hlater
  have hedge : Edge (mode = .loose) [] := Or.inl rfl
  have hgives := gives_lead (gives_text [] hsegment) hedge fun _ _ => head?_of_admits hx _
  rw [intercalate_slash, List.append_assoc]
  exact hgives

end

theorem literal_nil (p : Part) : Literal none [] (some p) where
  delimiters := List.forall_mem_nil _
  marker := unmarked_nil
  head _ hprev := by cases hprev
  last _ _ _ := by decide

/-- Of a template that begins with required segments the matcher has their values, and in front of
other parts it is enough to know theirs. -/
theorem exists_matcher (mode : SlashMode) {parts : List Part} (hne : parts ≠ [])
    (hparts : ∀ p ∈ parts, p.reach = .segment ∧ p.required = true) (later : List Part) :
    ∃ re, IsMatcher mode (.ofList (['/'].intercalate ((parts ++ later).map Part.text))) re ∧
      ∀ xs rest values, Fits parts xs → (rest = [] ∨ ∃ u, rest = '/' :: u) →
        Gives (joins later ++ ending mode) rest values →
          re.captures? (.ofList (['/'].intercalate xs ++ rest)) = some (captured xs ++ values) := by
  obtain ⟨p, parts, rfl⟩ := List.exists_cons_of_ne_nil hne
  have hsoft := isSoft_of_segment (hparts p List.mem_cons_self)
  let t := Plain.joined [] p (parts ++ later) (literal_nil p)
  have htext : t.text = ['/'].intercalate ((p :: parts ++ later).map Part.text) := by
    rw [List.cons_append, List.map_cons, intercalate_slash]
    exact text_joined [] p (parts ++ later) (literal_nil p)
  have hitems : t.requestItems mode = (if mode = .loose then [.slash true []] else []) ++
      (.text [] :: .part p :: (joins parts ++ (joins later ++ ending mode))) := by
    have hlead : leadOf mode [] = [] := by cases mode <;> rfl
    have hseparation : (Cell.mk [] p).separation none = [.text []] := by
      rw [Cell.separation, hsoft]
      rfl
    refine (requestItems_joined [] p (parts ++ later) (literal_nil p) mode).trans ?_
    rw [hlead, hseparation, joins_append, List.append_assoc]
    rfl
  have htext_ne : t.text ≠ [] := by
    have hfirst : p.text ≠ [] := List.cons_ne_nil _ _
    exact List.append_ne_nil_of_left_ne_nil (List.append_ne_nil_of_left_ne_nil
      (List.append_ne_nil_of_right_ne_nil _ hfirst) _) _
  refine ⟨t.regex mode, htext ▸ Plain.isMatcher_regex mode htext_ne, ?_⟩
  intro xs rest values hxs hrest h
  refine Gives.captures ?_
  rw [hitems]
  exact gives_first_segments hrest h mode hparts hxs

end RouteDispatch.Template
