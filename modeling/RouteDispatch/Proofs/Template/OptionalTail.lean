/-
# Optional tails

Behind some text a template may have any number of optional segments, each with a
slash before it.  They are filled in from the left: the first values go to the first
parts, and the parts that are left over have none (`gives_optionals`).

There are many ways to take such a request apart, as every part may take the slash
behind it and every slash may be missing.  The best one is easy to follow: the
first slash is taken, then every part takes its value and the slash behind it, so
that no later slash is left to be taken.

That a request has too many values for the parts holds for all ways at once: a part
takes no more than one stretch without a slash (`stretches_le`).  There is a matcher
only if there is room for the parts (`not_captures_of_optional_tail`).
-/
import RouteDispatch.Proofs.Template.Room

namespace RouteDispatch.Template

open Text Regex

variable {mode : SlashMode} {p : Part} {parts : List Part} {x : List Char} {xs : List (List Char)}

/-! ## Values from the left -/

/-- Optional parts may take nothing. -/
theorem cuts_optionals_nil (mode : SlashMode)
    (hparts : ∀ p ∈ parts, p.reach = .segment ∧ p.required = false) :
    ∃ slices, Cuts (joins parts ++ ending mode) slices [] := by
  induction parts with
  | nil => exact cuts_ending mode
  | cons p parts ih =>
    obtain ⟨hp, hparts⟩ := List.forall_mem_cons.mp hparts
    obtain ⟨slices, hslices⟩ := ih hparts
    have htakes : p.Takes {} := (Part.takes_optional_iff hp).mpr ⟨[], Or.inl rfl, Or.inl rfl⟩
    have hslash : (Item.slash p.isSoft ['/']).Takes {} := Or.inr ⟨isSoft_of_optional hp.2, rfl⟩
    exact ⟨{} :: {} :: slices, ⟨hslash, htakes, hslices.1⟩, hslices.2⟩

theorem gives_optionals_nil (mode : SlashMode)
    (hparts : ∀ p ∈ parts, p.reach = .segment ∧ p.required = false) :
    Gives (joins parts ++ ending mode) [] (List.replicate parts.length none) := by
  have hgives := gives_absent (cuts_optionals_nil mode hparts)
  rwa [partsOf_append, partsOf_joins, partsOf_ending, List.append_nil, List.map_const'] at hgives

/-- From the first value on, every optional part takes its value and the slash behind it. -/
theorem gives_optionals_cons (mode : SlashMode)
    (hparts : ∀ q ∈ p :: parts, q.reach = .segment ∧ q.required = false)
    (hxs : ∀ v ∈ x :: xs, Reach.segment.Admits v) (hlength : xs.length ≤ parts.length) :
    Gives (.part p :: (joins parts ++ ending mode)) (x ++ steps xs)
      (captured (x :: xs) ++ List.replicate (parts.length - xs.length) none) := by
  induction xs generalizing p parts x with
  | nil =>
    obtain ⟨hp, hparts⟩ := List.forall_mem_cons.mp hparts
    exact gives_optional hp (hxs x List.mem_cons_self) (Or.inl ⟨rfl, rfl⟩)
      (gives_optionals_nil mode hparts)
  | cons y xs ih =>
    obtain ⟨hx, hxs⟩ := List.forall_mem_cons.mp hxs
    obtain ⟨hp, hparts⟩ := List.forall_mem_cons.mp hparts
    cases parts with
    | nil => exact absurd hlength (Nat.not_succ_le_zero _)
    | cons q parts =>
      have hq := hparts q List.mem_cons_self
      have hlater := ih hparts hxs (Nat.le_of_succ_le_succ hlength)
      have hslash := gives_slash_missing ['/'] hlater (head?_of_admits (hxs y List.mem_cons_self) _)
      rw [joins_cons, isSoft_of_optional hq.2, steps_cons]
      rw [show (y :: xs).length = xs.length + 1 from rfl, List.length_cons, Nat.add_sub_add_right]
      exact gives_optional hp hx (Or.inr rfl) hslash

/-- As long as there are values, the optional parts take them from left to right. -/
theorem gives_optionals (mode : SlashMode)
    (hparts : ∀ p ∈ parts, p.reach = .segment ∧ p.required = false)
    (hxs : ∀ x ∈ xs, Reach.segment.Admits x) (hlength : xs.length ≤ parts.length) :
    Gives (joins parts ++ ending mode) (steps xs)
      (captured xs ++ List.replicate (parts.length - xs.length) none) := by
  cases xs with
  | nil => exact gives_optionals_nil mode hparts
  | cons x xs =>
    cases parts with
    | nil => exact absurd hlength (Nat.not_succ_le_zero _)
    | cons p parts =>
      have hgives := gives_optionals_cons mode hparts hxs (Nat.le_of_succ_le_succ hlength)
      have hp := hparts p List.mem_cons_self
      rw [joins_cons, isSoft_of_optional hp.2, steps_cons, List.length_cons, List.length_cons,
        Nat.add_sub_add_right]
      exact gives_slash_taken ['/'] hgives

/-! ## Too many values -/

theorem stretches_of_admits (hx : Reach.segment.Admits x) : stretches x = 1 := by
  have hcount := stretches_of_not_mem hx.not_mem_slash hx.1 []
  rwa [List.append_nil] at hcount

/-- A segment takes no more than one stretch. -/
theorem Part.Takes.stretches_le (hp : p.reach = .segment ∧ p.required = false) {s : Slice}
    (h : p.Takes s) : stretches s.text ≤ 1 := by
  obtain ⟨slash, hslash, hs⟩ := (Part.takes_optional_iff hp).mp h
  have hnone : stretches slash = 0 := by
    rcases hslash with rfl | rfl <;> rfl
  rcases hs with rfl | ⟨v, hv, rfl⟩
  · show stretches slash ≤ 1
    omega
  · have hle := stretches_append_le v slash
    have hone := stretches_of_admits hv
    show stretches (v ++ slash) ≤ 1
    omega

theorem stretches_of_ending {slices : List Slice} {text : List Char}
    (h : Cuts (ending mode) slices text) : stretches text = 0 := by
  rcases cuts_ending_cases h with rfl | rfl <;> rfl

/-- Optional segments take no more stretches than there are of them. -/
theorem stretches_le (hparts : ∀ p ∈ parts, p.reach = .segment ∧ p.required = false)
    {slices : List Slice} {text : List Char} (h : Cuts (joins parts ++ ending mode) slices text) :
    stretches text ≤ parts.length := by
  induction parts generalizing slices text with
  | nil => exact Nat.le_of_eq (stretches_of_ending h)
  | cons p parts ih =>
    obtain ⟨hp, hparts⟩ := List.forall_mem_cons.mp hparts
    -- The slash before the part is no stretch, and the part takes one at most.
    have hpart : ∀ back rest, Cuts (.part p :: (joins parts ++ ending mode)) back rest →
        stretches rest ≤ parts.length + 1 := by
      intro back rest hback
      obtain ⟨s, later, rfl⟩ := hback.exists_cons
      obtain ⟨⟨hs, hlater⟩, rfl⟩ := hback
      have hle := stretches_append_le s.text (later.flatMap Slice.text)
      have hone := Part.Takes.stretches_le hp hs
      have hothers := ih hparts ⟨hlater, rfl⟩
      rw [List.flatMap_cons]
      omega
    rcases cuts_slash_cons h with ⟨back, rest, -, rfl, hback⟩ | ⟨-, back, -, hback⟩
    · exact hpart back rest hback
    · exact hpart back text hback

/-! ## Text before the parts -/

/-- Behind a word, the slash before an optional part may be missing. -/
theorem separation_of_word (hp : p.required = false) {s : List Char} {c : Char}
    (hc : isNameChar c = true) :
    (Cell.mk (s ++ [c] ++ ['/']) p).separation none = [.text (s ++ [c]), .slash true ['/']] := by
  have hends : endsInWordSlash (s ++ [c] ++ ['/']) = true :=
    endsInWordSlash_iff.mpr ⟨s, c, List.append_assoc s [c] ['/'], hc⟩
  have hprev : ∀ q : Prop, ¬ ((none : Option Part).isSome = true ∧ q) := by
    rintro q ⟨hsome, -⟩
    exact absurd hsome (by decide)
  rw [Cell.separation, if_neg (hprev _),
    if_pos (And.intro (isSoft_of_optional hp) hends), List.dropLast_concat]

/-- However a request is taken apart, it has no more values than there are parts for them. -/
theorem length_le_of_cuts (hparts : ∀ p ∈ parts, p.reach = .segment ∧ p.required = false)
    {s edge : List Char} {c : Char} (hc : isNameChar c = true) (hedge : Edge (mode = .loose) edge)
    (hxs : ∀ x ∈ xs, Reach.segment.Admits x) {slices : List Slice}
    (h : Cuts ((if mode = .loose then [.slash true []] else []) ++
      (.text (s ++ [c]) :: (joins parts ++ ending mode))) slices (edge ++ (s ++ [c] ++ steps xs))) :
    xs.length ≤ parts.length := by
  have hword : Reach.segment.Admits [c] :=
    admits_singleton (isNameChar_ne hc rfl) (isNameChar_ne hc rfl)
  obtain ⟨front, back, u, v, -, htext, hfront, hback⟩ := cuts_append h
  obtain ⟨first, back, rfl⟩ := hback.exists_cons
  obtain ⟨⟨rfl, hback⟩, rfl⟩ := hback
  have hedge' := (reads_edge.mp ⟨front, hfront, rfl⟩).1
  -- No cutting shifts the text before the parts, for it ends in a word.
  have hsame : [c] ++ steps xs = [c] ++ back.flatMap Slice.text := by
    refine edge_unique (s := s) hedge hedge' hword hword ?_
    rw [← List.append_assoc s, htext, List.flatMap_cons, ← List.append_assoc s]
    exact congrArg (fun first => u ++ (first ++ _)) (List.append_nil _)
  have hcount := stretches_le hparts ⟨hback, (List.append_cancel_left hsame).symm⟩
  rwa [stretches_steps (fun x hx => (hxs x hx).1) fun x hx => (hxs x hx).not_mem_slash] at hcount

/-! ## Requests -/

/-- Optional segments behind some text have the values of a request from the left, and a request with
more values is not matched. -/
theorem captures_of_optional_tail (mode : SlashMode) {l : List Char}
    (chars : ∀ c ∈ l, c ≠ '{' ∧ c ≠ '}' ∧ c ≠ ':') (unmarked : Unmarked l)
    (word : ∃ c, l.getLast? = some c ∧ isNameChar c = true) {parts : List Part}
    (hne : parts ≠ []) (hparts : ∀ p ∈ parts, p.reach = .segment ∧ p.required = false) :
    ∃ re, IsMatcher mode (.ofList (l ++ steps (parts.map Part.text))) re ∧
      ∀ xs : List (List Char), (∀ x ∈ xs, Reach.segment.Admits x) →
        re.captures? (.ofList (l ++ steps xs)) =
          if xs.length ≤ parts.length then
            some (captured xs ++ List.replicate (parts.length - xs.length) none)
          else none := by
  obtain ⟨p, parts, rfl⟩ := List.exists_cons_of_ne_nil hne
  obtain ⟨c, hlast, hc⟩ := word
  obtain ⟨s, rfl⟩ := List.getLast?_eq_some_iff.mp hlast
  have hp := hparts p List.mem_cons_self
  have hslash : c ≠ '/' := isNameChar_ne hc rfl
  obtain ⟨s', hs'⟩ := leadOf_concat mode hslash s
  let t := Plain.joined (s ++ [c] ++ ['/']) p parts (literal_lead chars unmarked p)
  have htext : t.text = s ++ [c] ++ steps ((p :: parts).map Part.text) := by
    refine (text_joined _ _ _ _).trans ?_
    rw [List.map_cons, steps_cons, List.append_assoc (s ++ [c])]
    rfl
  have hne : t.text ≠ [] := by
    rw [htext]
    simp
  have hitems : t.requestItems mode = (if mode = .loose then [.slash true []] else []) ++
      (.text (s' ++ [c]) :: (joins (p :: parts) ++ ending mode)) := by
    refine (requestItems_joined _ _ _ _ mode).trans ?_
    rw [leadOf_append mode (by simp), hs', separation_of_word hp.2 hc, joins_cons,
      isSoft_of_optional hp.2]
    rfl
  obtain ⟨edge, hedge, hlead, hhead⟩ := leadOf_edge mode (s ++ [c])
  rw [hs'] at hlead
  refine ⟨t.regex mode, htext ▸ Plain.isMatcher_regex mode hne, ?_⟩
  intro xs hxs
  have hrequest : s ++ [c] ++ steps xs = edge ++ (s' ++ [c] ++ steps xs) := by
    rw [hlead, List.append_assoc]
  split
  · next hlength =>
    refine Gives.captures ?_
    rw [hitems, hrequest]
    refine gives_lead (gives_text _ (gives_optionals mode hparts hxs hlength)) hedge ?_
    rintro hmode rfl
    rw [List.head?_append_of_ne_nil _ (by simp), ← List.nil_append (s' ++ [c]), ← hlead]
    exact hhead hmode rfl
  · next hlength =>
    refine captures?_of_not_cuts (t.expr_regex mode) ?_
    intro slices hslices
    rw [hitems, hrequest] at hslices
    exact hlength (length_le_of_cuts hparts hc hedge hxs hslices)

/-- Two optional parts, for the second of which there is no value. -/
theorem captures_of_pageAndSize :
    ∃ re, IsMatcher .loose "/users/:page:/:size:" re ∧
      re.captures? "/users/7" = some [some "7", none] ∧ re.captures? "/users/7/8/9" = none := by
  let page : Part := ⟨.segment, false, "page".toList, by decide, forall_mem_of_all rfl⟩
  let size : Part := ⟨.segment, false, "size".toList, by decide, forall_mem_of_all rfl⟩
  have hchars : ∀ c ∈ "/users".toList, c ≠ '{' ∧ c ≠ '}' ∧ c ≠ ':' := forall_mem_of_all rfl
  have hparts : ∀ p ∈ [page, size], p.reach = .segment ∧ p.required = false :=
    List.forall_mem_cons.mpr ⟨⟨rfl, rfl⟩, List.forall_mem_singleton.mpr ⟨rfl, rfl⟩⟩
  obtain ⟨re, hmatcher, hcaptures⟩ := captures_of_optional_tail .loose hchars
    (marker_of_not_mem (by decide)) ⟨'s', rfl, rfl⟩ (List.cons_ne_nil page [size]) hparts
  have hseven : Reach.segment.Admits ['7'] := admits_singleton (by decide) (by decide)
  have height : Reach.segment.Admits ['8'] := admits_singleton (by decide) (by decide)
  have hnine : Reach.segment.Admits ['9'] := admits_singleton (by decide) (by decide)
  have hshort := hcaptures [['7']] (List.forall_mem_singleton.mpr hseven)
  have hlong := hcaptures [['7'], ['8'], ['9']] (List.forall_mem_cons.mpr ⟨hseven,
    List.forall_mem_cons.mpr ⟨height, List.forall_mem_singleton.mpr hnine⟩⟩)
  exact ⟨re, hmatcher, hshort, hlong⟩

/-- Of fifteen thousand optional parts there is no matcher, not even for a request without values. -/
theorem not_captures_of_optional_tail :
    let a : Part := ⟨.segment, false, ['a'], List.cons_ne_nil _ _, forall_mem_of_all rfl⟩
    ¬ ∃ re, compile .strict (.ofList (['l'] ++ steps ((List.replicate 15000 a).map Part.text))) =
          .ok re ∧
        re.captures? "l" = some (List.replicate 15000 none) := by
  intro a
  rintro ⟨re, hcompile, -⟩
  let later := List.replicate 14999 a
  have htext : ['l'] ++ steps ((List.replicate 15000 a).map Part.text) =
      ['l', '/'] ++ (a.text ++ steps (later.map Part.text)) := rfl
  have hliteral : Literal none ['l', '/'] (some a) :=
    literal_lead (l := ['l']) (forall_mem_of_all rfl) (marker_of_not_mem (by decide)) a
  have hmany : weightLimit < 1000 * (later.length + 1) := by
    rw [List.length_replicate]
    decide
  rw [htext, oversized_of_joined .strict hliteral hmany] at hcompile
  cases hcompile

end RouteDispatch.Template
