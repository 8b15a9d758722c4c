/-
# Optional segments with gaps

Any of the optional segments behind a text may be filled in.  A request is made of any
choice of them: what is absent leaves nothing but the slashes around it, and at the end
not even these (`gapped`).  It is matched again, but the values need not come back to
the segments that they were given to.

An optional segment takes the slash behind it, whether or not it has a value, and the
slash before the next one need not be there.  So an absent segment that is not the
first takes up no room: what stands behind it moves to the left by one (`landed`).  The
values come back as they were given just if no value stands behind an absent one,
where the first segment does not count (`captures_of_gaps`).
-/
import RouteDispatch.Proofs.Template.OptionalTail
import RouteDispatch.Proofs.Template.Outline

namespace RouteDispatch.Template

open Text Regex

/-! ## Where values land -/

/-- The values that come back when these were filled in: of every two neighbours, the second one is
passed over if it is absent. -/
def landed {α : Type} : List (Option α) → List (Option α)
  | [] => []
  | [v] => [v]
  | v :: none :: vs => v :: (landed vs ++ [none])
  | v :: some w :: vs => v :: landed (some w :: vs)

section
variable {α : Type} {vs : List (Option α)}

theorem landed_map {β : Type} (f : α → β) (vs : List (Option α)) :
    landed (vs.map (Option.map f)) = (landed vs).map (Option.map f) := by
  fun_induction landed vs with
  | case1 => rfl
  | case2 v => rfl
  | case3 v vs ih => simp [landed, ih]
  | case4 v w vs ih =>
    rw [List.map_cons, Option.map_some] at ih
    simp [landed, ih]

theorem map_ofList_landed (vs : List (Option String)) :
    (landed (vs.map (Option.map String.toList))).map (Option.map String.ofList) = landed vs := by
  rw [landed_map, List.map_map]
  refine (List.map_congr_left fun v _ => ?_).trans (List.map_id _)
  cases v with
  | none => rfl
  | some v => exact congrArg some String.ofList_toList

theorem landed_replicate (n : Nat) :
    landed (List.replicate n (none : Option α)) = List.replicate n none := by
  induction n using Nat.strongRecOn with
  | ind n ih =>
    rcases n with _ | _ | n
    · rfl
    · rfl
    · rw [List.replicate_succ, List.replicate_succ, landed, ih n (by omega), ← List.replicate_succ',
        List.replicate_succ]

/-- No value lands further to the right. -/
theorem none_of_landed_shift {k : Nat} (hk : 0 < k)
    (h : landed vs ++ List.replicate k none = List.replicate k none ++ vs) :
    ∀ v ∈ vs, v = none := by
  fun_induction landed vs generalizing k with
  | case1 => exact List.forall_mem_nil _
  | case2 v =>
    obtain ⟨k, rfl⟩ := Nat.exists_eq_add_one.mpr hk
    rw [List.replicate_succ, List.cons_append] at h
    exact List.forall_mem_singleton.mpr (List.cons.inj h).1
  | case3 v vs ih =>
    obtain ⟨k, rfl⟩ := Nat.exists_eq_add_one.mpr hk
    rw [List.replicate_succ, List.cons_append, List.cons_append] at h
    obtain ⟨rfl, h⟩ := List.cons.inj h
    have hshift : landed vs ++ List.replicate (k + 2) none = List.replicate (k + 2) none ++ vs := by
      rw [List.append_assoc] at h
      refine (Eq.trans ?_ h).trans ?_
      · rfl
      · simp [List.replicate_succ', List.append_assoc]
    have hvs := ih (Nat.succ_pos _) hshift
    exact List.forall_mem_cons.mpr ⟨rfl, List.forall_mem_cons.mpr ⟨rfl, hvs⟩⟩
  | case4 v w vs ih =>
    obtain ⟨k, rfl⟩ := Nat.exists_eq_add_one.mpr hk
    rw [List.replicate_succ, List.cons_append, List.cons_append] at h
    obtain ⟨rfl, h⟩ := List.cons.inj h
    have hshift : landed (some w :: vs) ++ List.replicate (k + 1) none =
        List.replicate (k + 1) none ++ some w :: vs := by
      refine h.trans ?_
      simp [List.replicate_succ', List.append_assoc]
    exact List.forall_mem_cons.mpr ⟨rfl, ih (Nat.succ_pos _) hshift⟩

/-- Values land where they were just if none of them stands behind an absent one, not counting the
first. -/
theorem landed_eq_self_iff :
    landed vs = vs ↔ vs.tail.Pairwise fun v w => v = none → w = none := by
  fun_induction landed vs with
  | case1 => simp
  | case2 v => simp
  | case3 v vs ih =>
    rw [List.tail_cons, List.pairwise_cons]
    constructor
    · intro h
      have hshift : landed vs ++ List.replicate 1 none = List.replicate 1 none ++ vs :=
        (List.cons.inj h).2
      have hnone := none_of_landed_shift Nat.one_pos hshift
      refine ⟨fun w hw _ => hnone w hw, List.pairwise_of_forall_mem_list ?_⟩
      exact fun _ _ w hw _ => hnone w hw
    · rintro ⟨hnone, -⟩
      have hvs : vs = List.replicate vs.length none :=
        List.eq_replicate_iff.mpr ⟨rfl, fun w hw => hnone w hw rfl⟩
      rw [hvs, landed_replicate, ← List.replicate_succ', List.replicate_succ]
  | case4 v w vs ih =>
    rw [List.tail_cons] at ih
    rw [List.tail_cons, List.pairwise_cons, List.cons.injEq, and_iff_right rfl, ih]
    exact (and_iff_right fun _ _ h => nomatch h).symm

end

/-! ## Filling in -/

/-- Text behind a slash, which is left out if there is no text. -/
def stepTo (u : List Char) : List Char := if u = [] then [] else '/' :: u

/-- Values with slashes between them.  Those at the end are left out. -/
def gapped : List (Option (List Char)) → List Char
  | [] => []
  | v :: vs => v.getD [] ++ stepTo (gapped vs)

theorem stepTo_of_ne {u : List Char} (h : u ≠ []) : stepTo u = '/' :: u := if_neg h

theorem unmarked_gapped {vs : List (Option (List Char))} (h : ∀ v ∈ vs, Unmarked (v.getD [])) :
    Unmarked (gapped vs) := by
  induction vs with
  | nil => exact unmarked_nil
  | cons v vs ih =>
    obtain ⟨hv, hvs⟩ := List.forall_mem_cons.mp h
    exact unmarked_soft hv (ih hvs)

/-- The value that is given to a part. -/
def Part.value (given : String → Option String) (p : Part) : Option (List Char) :=
  (given (.ofList p.label)).map String.toList

theorem foldr_joins {parts : List Part} (hparts : ∀ p ∈ parts, p.required = false)
    (given : String → Option String) :
    (joins parts ++ [Item.text []]).foldr (Item.onto given) [] =
      stepTo (gapped (parts.map (Part.value given))) := by
  induction parts with
  | nil => rfl
  | cons p parts ih =>
    obtain ⟨hp, hparts⟩ := List.forall_mem_cons.mp hparts
    rw [joins_cons, isSoft_of_optional hp, List.cons_append, List.cons_append, List.foldr_cons,
      List.foldr_cons, ih hparts]
    rfl

/-- A value is given to an optional segment, if at all, without slashes. -/
theorem Part.failure?_of_optional {p : Part} (hp : p.required = false)
    {given : String → Option String}
    (h : ∀ v, given (.ofList p.label) = some v → '/' ∉ v.toList) : p.failure? given = none := by
  rw [failure?, hp]
  cases hv : given (.ofList p.label) with
  | none => rfl
  | some v => exact if_neg fun hslash => h v hv hslash.2

theorem text_joined_steps (l : List Char) (p : Part) (parts : List Part)
    (literal : Literal none (l ++ ['/']) (some p)) :
    (Plain.joined (l ++ ['/']) p parts literal).text = l ++ steps ((p :: parts).map Part.text) := by
  rw [text_joined, List.map_cons, steps_cons, List.append_assoc]
  rfl

section
variable {l : List Char} (chars : ∀ c ∈ l, c ≠ '{' ∧ c ≠ '}' ∧ c ≠ ':') (unmarked : Unmarked l)
  (word : ∃ c, l.getLast? = some c ∧ isNameChar c = true) {parts : List Part} (hne : parts ≠ [])
include chars unmarked word hne

/-- Optional segments behind a word are filled in with the slashes between them. -/
theorem fill_gapped (hparts : ∀ p ∈ parts, p.required = false) {given : String → Option String}
    (hgiven : ∀ p ∈ parts, ∀ v, given (.ofList p.label) = some v →
      '/' ∉ v.toList ∧ Unmarked v.toList) :
    fill (.ofList (l ++ steps (parts.map Part.text))) given =
      .ok (.ofList (l ++ stepTo (gapped (parts.map (Part.value given))))) := by
  obtain ⟨p, parts, rfl⟩ := List.exists_cons_of_ne_nil hne
  obtain ⟨c, hlast, hc⟩ := word
  obtain ⟨s, rfl⟩ := List.getLast?_eq_some_iff.mp hlast
  let t := Plain.joined (s ++ [c] ++ ['/']) p parts (literal_lead chars unmarked p)
  have hp := hparts p List.mem_cons_self
  have honto : t.items.foldr (Item.onto given) [] =
      s ++ [c] ++ stepTo (gapped ((p :: parts).map (Part.value given))) := by
    have hitems : t.items = .text (s ++ [c]) :: (joins (p :: parts) ++ [.text []]) := by
      show itemsFrom none (⟨s ++ [c] ++ ['/'], p⟩ :: parts.map (Cell.mk ['/'])) [] = _
      rw [itemsFrom, separation_of_word hp hc, itemsFrom_joined, joins_cons, isSoft_of_optional hp]
      rfl
    rw [hitems, List.foldr_cons, foldr_joins hparts]
    rfl
  have hfits : ∀ cell ∈ t.cells, cell.part.failure? given = none := by
    intro cell hcell
    have hmem : cell.part ∈ p :: parts := by
      have hpart := List.mem_map_of_mem hcell (f := Cell.part)
      simpa [t, Plain.joined] using hpart
    exact Part.failure?_of_optional (hparts _ hmem) fun v hv => (hgiven _ hmem v hv).1
  have hmarker : Unmarked (s ++ [c] ++ stepTo (gapped ((p :: parts).map (Part.value given)))) := by
    refine unmarked_soft unmarked (unmarked_gapped (List.forall_mem_map.mpr fun q hq => ?_))
    rw [Part.value]
    cases hv : given (.ofList q.label) with
    | none => exact unmarked_nil
    | some v => exact (hgiven q hq v hv).2
  rw [← honto] at hmarker ⊢
  rw [← text_joined_steps (s ++ [c]) p parts (literal_lead chars unmarked p)]
  exact fill_eq_onto t.tidy.undelimited hfits hmarker

end

/-! ## Matching -/

section
variable {p : Part} {parts : List Part} {items : List Item} {rest : List Char}
  {values : List (Option String)}

/-- A slash that may be missing is there if any text is behind it. -/
theorem gives_stepTo (written : List Char) (h : Gives items rest values) :
    Gives (.slash true written :: items) (stepTo rest) values := by
  by_cases hnil : rest = []
  · subst hnil
    exact gives_slash_missing written h nofun
  · rw [stepTo_of_ne hnil]
    exact gives_slash_taken written h

/-- An optional segment takes its value, if there is one, and the slash behind it. -/
theorem gives_slot (hp : p.reach = .segment ∧ p.required = false) {v : Option (List Char)}
    (hv : ∀ x, v = some x → Reach.segment.Admits x) (h : Gives items rest values) :
    Gives (.part p :: items) (v.getD [] ++ stepTo rest) (v.map .ofList :: values) := by
  obtain ⟨slash, hslash, hstep⟩ : ∃ slash, (slash = [] ∧ rest = [] ∨ slash = ['/']) ∧
      stepTo rest = slash ++ rest := by
    by_cases hnil : rest = []
    · exact ⟨[], Or.inl ⟨rfl, hnil⟩, by rw [hnil]; rfl⟩
    · exact ⟨['/'], Or.inr rfl, stepTo_of_ne hnil⟩
  rw [hstep]
  cases v with
  | some x => exact gives_optional hp (hv x rfl) hslash h
  | none =>
    have htakes : (Item.part p).Takes { after := slash } :=
      (Part.takes_optional_iff hp).mpr ⟨slash, hslash.imp_left And.left, Or.inl rfl⟩
    refine gives_cons htakes h ?_
    intro s' rest' hs' htext _ hlong
    rw [show (⟨[], none, slash⟩ : Slice).text = slash from rfl] at htext hlong
    obtain ⟨slash', hslash', rfl | ⟨w, hw, rfl⟩⟩ := (Part.takes_optional_iff hp).mp hs'
    · rw [show (⟨[], none, slash'⟩ : Slice).text = slash' from rfl] at htext hlong
      have hsame : slash' = slash := by
        rcases hslash with ⟨rfl, rfl⟩ | rfl
        · exact (List.append_eq_nil_iff.mp htext).1
        · refine hslash'.resolve_left ?_
          rintro rfl
          exact absurd hlong (by simp)
      rw [hsame]
    · -- A value does not begin where there is a slash, or nothing.
      rw [show (⟨[], some w, slash'⟩ : Slice).text = w ++ slash' from rfl, List.append_assoc] at htext
      rcases hslash with ⟨rfl, rfl⟩ | rfl
      · exact absurd (List.append_eq_nil_iff.mp htext).1 hw.1
      · exact absurd (congrArg List.head? htext) (head?_of_admits hw _)

/-- From one optional segment on, values come back where they land, and the segments for which there
are none have none. -/
theorem gives_gapped (mode : SlashMode)
    (hparts : ∀ q ∈ p :: parts, q.reach = .segment ∧ q.required = false)
    {vs : List (Option (List Char))} (hvs : ∀ v ∈ vs, ∀ x, v = some x → Reach.segment.Admits x)
    (hlength : vs.length ≤ parts.length + 1) :
    Gives (.part p :: (joins parts ++ ending mode)) (gapped vs)
      ((landed vs).map (Option.map .ofList) ++
        List.replicate (parts.length + 1 - vs.length) none) := by
  fun_induction landed vs generalizing p parts with
  | case1 =>
    obtain ⟨hp, hparts⟩ := List.forall_mem_cons.mp hparts
    exact gives_slot (v := none) hp nofun (gives_optionals_nil mode hparts)
  | case2 v =>
    obtain ⟨hp, hparts⟩ := List.forall_mem_cons.mp hparts
    exact gives_slot hp (hvs v List.mem_cons_self) (gives_optionals_nil mode hparts)
  | case3 v vs ih =>
    obtain ⟨hp, hparts⟩ := List.forall_mem_cons.mp hparts
    obtain ⟨hv, hvs⟩ := List.forall_mem_cons.mp hvs
    rw [List.length_cons, List.length_cons] at hlength
    obtain ⟨q, parts, rfl⟩ : ∃ q later, parts = q :: later := by
      refine List.exists_cons_of_length_pos ?_
      omega
    rw [List.length_cons] at hlength
    have hlater := ih hparts (List.forall_mem_cons.mp hvs).2 (by omega)
    -- The absent part goes without the slash before the next one, which it takes itself.
    have hslash := gives_stepTo ['/'] hlater
    rw [← isSoft_of_optional (hparts q List.mem_cons_self).2] at hslash
    have hgives := gives_slot hp hv hslash
    rw [show parts.length + 1 - vs.length = parts.length - vs.length + 1 by omega,
      List.replicate_succ] at hgives
    rw [List.length_cons, List.length_cons, List.length_cons, Nat.add_sub_add_right,
      Nat.add_sub_add_right, List.map_cons, List.map_append, List.cons_append, List.append_assoc]
    exact hgives
  | case4 v w vs ih =>
    obtain ⟨hp, hparts⟩ := List.forall_mem_cons.mp hparts
    obtain ⟨hv, hvs⟩ := List.forall_mem_cons.mp hvs
    rw [List.length_cons] at hlength
    obtain ⟨q, parts, rfl⟩ : ∃ q later, parts = q :: later := by
      refine List.exists_cons_of_length_pos ?_
      rw [List.length_cons] at hlength
      omega
    have hw : Reach.segment.Admits w := hvs (some w) List.mem_cons_self w rfl
    have hlater := ih hparts hvs (Nat.le_of_succ_le_succ hlength)
    have hslash := gives_slash_missing ['/'] hlater (head?_of_admits hw _)
    rw [← isSoft_of_optional (hparts q List.mem_cons_self).2] at hslash
    rw [List.length_cons (a := v), List.length_cons (a := q), Nat.add_sub_add_right]
    exact gives_slot hp hv hslash

end

section
variable {l : List Char} (chars : ∀ c ∈ l, c ≠ '{' ∧ c ≠ '}' ∧ c ≠ ':') (unmarked : Unmarked l)
  (word : ∃ c, l.getLast? = some c ∧ isNameChar c = true) {parts : List Part} (hne : parts ≠ [])
include chars unmarked word hne

/-- Behind a word, it is enough to know what the optional parts have. -/
theorem exists_matcher_behind_word (mode : SlashMode) (hparts : ∀ p ∈ parts, p.required = false) :
    ∃ re, IsMatcher mode (.ofList (l ++ steps (parts.map Part.text))) re ∧
      ∀ rest values, Gives (joins parts ++ ending mode) rest values →
        re.captures? (.ofList (l ++ rest)) = some values := by
  obtain ⟨p, parts, rfl⟩ := List.exists_cons_of_ne_nil hne
  obtain ⟨c, hlast, hc⟩ := word
  obtain ⟨s, rfl⟩ := List.getLast?_eq_some_iff.mp hlast
  have hp := hparts p List.mem_cons_self
  obtain ⟨s', hs'⟩ := leadOf_concat mode (isNameChar_ne hc rfl : c ≠ '/') s
  let t := Plain.joined (s ++ [c] ++ ['/']) p parts (literal_lead chars unmarked p)
  have htext := text_joined_steps (s ++ [c]) p parts (literal_lead chars unmarked p)
  have hitems : t.requestItems mode = (if mode = .loose then [.slash true []] else []) ++
      (.text (s' ++ [c]) :: (joins (p :: parts) ++ ending mode)) := by
    refine (requestItems_joined _ _ _ _ mode).trans ?_
    rw [leadOf_append mode (by simp), hs', separation_of_word hp hc, joins_cons,
      isSoft_of_optional hp]
    rfl
  obtain ⟨edge, hedge, hlead, hhead⟩ := leadOf_edge mode (s ++ [c])
  rw [hs'] at hlead
  refine ⟨t.regex mode, htext ▸ Plain.isMatcher_regex mode ?_, fun rest values h => ?_⟩
  · rw [htext]
    simp
  · refine Gives.captures ?_
    rw [hitems, hlead, List.append_assoc]
    refine gives_lead (gives_text _ h) hedge ?_
    rintro hmode rfl
    rw [List.head?_append_of_ne_nil _ (by simp), ← List.nil_append (s' ++ [c]), ← hlead]
    exact hhead hmode rfl

/-- Whichever of the optional segments behind a word are given a value, a request is made and
matched.  The values come back where they land, and that is where they were given just if none of
them stands behind an absent one, not counting the first segment. -/
theorem captures_of_gaps (mode : SlashMode)
    (hparts : ∀ p ∈ parts, p.reach = .segment ∧ p.required = false) :
    ∃ re, IsMatcher mode (.ofList (l ++ steps (parts.map Part.text))) re ∧
      ∀ given : String → Option String,
        (∀ p ∈ parts, ∀ v, given (.ofList p.name) = some v →
          Reach.segment.Admits v.toList ∧ Unmarked v.toList) →
        let values := parts.map fun p => given (.ofList p.name)
        let request := l ++ stepTo (gapped (values.map (Option.map String.toList)))
        fill (.ofList (l ++ steps (parts.map Part.text))) given = .ok (.ofList request) ∧
          re.captures? (.ofList request) = some (landed values) ∧
          (re.captures? (.ofList request) = some values ↔
            values.tail.Pairwise fun v w => v = none → w = none) := by
  have hoptional : ∀ p ∈ parts, p.required = false := fun p hp => (hparts p hp).2
  obtain ⟨re, hmatcher, hcaptures⟩ := exists_matcher_behind_word chars unmarked word hne mode hoptional
  refine ⟨re, hmatcher, ?_⟩
  intro given hgiven values request
  have hlabel : ∀ p ∈ parts, p.label = p.name := fun p hp => by rw [Part.label, (hparts p hp).1]
  have hvalues : parts.map (Part.value given) = values.map (Option.map String.toList) := by
    rw [List.map_map]
    refine List.map_congr_left fun p hp => ?_
    rw [Part.value, hlabel p hp]
    rfl
  have hfill : fill (.ofList (l ++ steps (parts.map Part.text))) given = .ok (.ofList request) := by
    have hslashes : ∀ p ∈ parts, ∀ v, given (.ofList p.label) = some v →
        '/' ∉ v.toList ∧ Unmarked v.toList := by
      intro p hp v hv
      rw [hlabel p hp] at hv
      obtain ⟨hadmits, hmarker⟩ := hgiven p hp v hv
      exact ⟨hadmits.not_mem_slash, hmarker⟩
    have hfilled := fill_gapped chars unmarked word hne hoptional hslashes
    rwa [hvalues] at hfilled
  have hlanded : re.captures? (.ofList request) = some (landed values) := by
    have hadmits : ∀ v ∈ values.map (Option.map String.toList), ∀ x, v = some x →
        Reach.segment.Admits x := by
      intro v hv x hx
      rw [List.map_map] at hv
      obtain ⟨p, hp, rfl⟩ := List.mem_map.mp hv
      obtain ⟨u, hu, rfl⟩ := Option.map_eq_some_iff.mp hx
      exact (hgiven p hp u hu).1
    obtain ⟨p, parts, rfl⟩ := List.exists_cons_of_ne_nil hne
    have hlength : (values.map (Option.map String.toList)).length = parts.length + 1 := by
      rw [List.length_map, List.length_map]
      rfl
    have hgives := gives_gapped mode hparts hadmits (Nat.le_of_eq hlength)
    rw [hlength, Nat.sub_self, List.replicate_zero, List.append_nil, map_ofList_landed] at hgives
    refine hcaptures _ _ ?_
    rw [joins_cons, isSoft_of_optional (hoptional p List.mem_cons_self)]
    exact gives_stepTo ['/'] hgives
  refine ⟨hfill, hlanded, ?_⟩
  rw [hlanded, Option.some_inj]
  exact landed_eq_self_iff

end

/-- The first part may be absent without the second one changing its place. -/
theorem captures_of_gaps_size :
    let given := fun name => if name = "size" then some "20" else none
    ∃ re, IsMatcher .loose "/users/:page:/:size:" re ∧
      fill "/users/:page:/:size:" given = .ok "/users//20" ∧
      re.captures? "/users//20" = some [none, some "20"] := by
  intro given
  let page : Part := ⟨.segment, false, "page".toList, by decide, forall_mem_of_all rfl⟩
  let size : Part := ⟨.segment, false, "size".toList, by decide, forall_mem_of_all rfl⟩
  have hchars : ∀ c ∈ "/users".toList, c ≠ '{' ∧ c ≠ '}' ∧ c ≠ ':' := forall_mem_of_all rfl
  have hparts : ∀ p ∈ [page, size], p.reach = .segment ∧ p.required = false :=
    List.forall_mem_cons.mpr ⟨⟨rfl, rfl⟩, List.forall_mem_singleton.mpr ⟨rfl, rfl⟩⟩
  obtain ⟨re, hmatcher, hcaptures⟩ := captures_of_gaps hchars (marker_of_not_mem (by decide))
    ⟨'s', rfl, rfl⟩ (List.cons_ne_nil page [size]) .loose hparts
  have hgiven : ∀ p ∈ [page, size], ∀ v, given (.ofList p.name) = some v →
      Reach.segment.Admits v.toList ∧ Unmarked v.toList := by
    refine List.forall_mem_cons.mpr ⟨nofun, List.forall_mem_singleton.mpr ?_⟩
    rintro v ⟨⟩
    exact ⟨⟨by decide, forall_mem_of_all rfl⟩, marker_of_not_mem (by decide)⟩
  obtain ⟨hfill, -, hback⟩ := hcaptures given hgiven
  exact ⟨re, hmatcher, hfill, hback.mpr (List.pairwise_singleton _ _)⟩

/-- Behind an absent part that is not the first, a value comes back under another name. -/
theorem captures_of_gaps_moved :
    paramIds "x/:a:/:b:/:c:" = ["a", "b", "c"] ∧
      fill "x/:a:/:b:/:c:" (fun name => if name = "c" then some "v" else none) = .ok "x///v" ∧
      (compile .strict "x/:a:/:b:/:c:").toOption.bind (·.captures? "x///v") =
        some [none, some "v", none] := by
  decide +kernel

end RouteDispatch.Template
