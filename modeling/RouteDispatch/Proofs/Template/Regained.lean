/-
# Values that are found again

The best cutting of what is filled in has the values that were filled in, if the row
is steady (`SteadyRow.regains`).

The induction is on the row from left to right, and says more of the text that is cut:
slashes at its start may be gone to an optional segment in front of it.  Text that
is more than slashes does not let them go, nor does a value that begins otherwise
(`Seam`); so this happens only where all the values behind are absent, or once.

Two items need more than that.  A required segment is as long in the result as in the
request, for what it could take of the items behind it, it could take there as well
(`SteadyRow.shares`).  Behind a rest nothing may be missing, so there the request is
filled in as it was (`best_of_kept`).
-/
import RouteDispatch.Proofs.Template.SteadyRow

namespace RouteDispatch.Template

open Text Regex

/-! ## The values of the best cutting -/

/-- The best cutting of what is filled in has the values that were filled in, also where slashes at
the start of it are gone to a part in front. -/
def Regains (given : String → Option String) (allowed : Prop) [Decidable allowed]
    (tail edge : List Char) (items : List Item) : Prop :=
  ∀ gone rest slices, (∀ c ∈ gone, c = '/') →
    items.foldr (Item.onto given) (tail ++ edge) = gone ++ rest →
    (gone = [] ∨ Seam given items) → CutsBest (items ++ ends allowed tail) slices rest →
      valuesOf (items ++ ends allowed tail) slices =
        (partsOf items).map fun p => given (.ofList p.label)

theorem slash_cons_inj {gone text rest : List Char} (hgone : ∀ c ∈ gone, c = '/')
    (h : '/' :: text = gone ++ '/' :: rest) : text = gone ++ rest := by
  have hcomm : gone ++ ['/'] = '/' :: gone :=
    slashes_append_comm hgone (List.forall_mem_singleton.mpr rfl)
  rw [List.append_cons, hcomm] at h
  exact (List.cons.inj h).2

section
variable {given : String → Option String} {allowed : Prop} [Decidable allowed]
  {tail edge : List Char} {items : List Item}

/-- Text that is more than slashes keeps its place. -/
theorem regains_text (t : List Char) (h : Regains given allowed tail edge items) :
    Regains given allowed tail edge (.text t :: items) := by
  intro gone text slices hgone htext hseam hbest
  obtain ⟨s, back, rest, rfl, rfl, rfl, hback⟩ := hbest.uncons
  rw [Slice.text_before] at htext
  change t ++ items.foldr (Item.onto given) (tail ++ edge) = gone ++ (t ++ rest) at htext
  by_cases hne : gone = []
  · rw [hne, List.nil_append] at htext
    exact h [] rest back (List.forall_mem_nil _) (List.append_cancel_left htext) (Or.inl rfl) hback
  · have hslashes := slashes_of_shift hne hgone htext
    rw [← List.append_assoc, slashes_append_comm hgone hslashes, List.append_assoc] at htext
    exact h gone rest back hgone (List.append_cancel_left htext)
      (Or.inr (hseam.resolve_left hne hslashes)) hback

/-- A slash that is written stays, unless it is at the start and is gone to the part in front. -/
theorem regains_slash {mayMiss : Bool} {written : List Char}
    (hrow : SteadyRow given allowed tail edge (.slash mayMiss written :: items))
    (h : Regains given allowed tail edge items) :
    Regains given allowed tail edge (.slash mayMiss written :: items) := by
  intro gone text slices hgone htext hseam hbest
  obtain ⟨hrefills, -⟩ := List.forall_mem_cons.mp hrow.refills
  rw [List.foldr_cons] at htext
  obtain ⟨s, back, rest, rfl, rfl, hs, hback⟩ := hbest.uncons
  rcases hs with rfl | ⟨rfl, rfl⟩
  · change _ = gone ++ '/' :: rest at htext
    rcases hrefills.onto_slash _ with ⟨-, -, hnil⟩ | hfilled
    · rw [hnil] at htext
      exact absurd htext.symm (List.append_ne_nil_of_right_ne_nil _ (List.cons_ne_nil _ _))
    · rw [hfilled] at htext
      exact h gone rest back hgone (slash_cons_inj hgone htext) hseam hback
  · change _ = gone ++ rest at htext
    rcases hrefills.onto_slash _ with ⟨-, hbehind, hnil⟩ | hfilled
    · rw [hnil] at htext
      exact h gone rest back hgone (hbehind.trans htext) hseam hback
    · rw [hfilled] at htext
      cases gone with
      | nil =>
        have htake := hbest.takes_slash htext.symm hrow.behind.exists_cuts
        cases htake
      | cons c gone =>
        obtain ⟨rfl, hshorter⟩ := List.cons.inj htext
        exact h gone rest back (List.forall_mem_cons.mp hgone).2 hshorter
          (Or.inr (hseam.resolve_left (List.cons_ne_nil _ _))) hback

/-- Where no value is given, all that can be cut has at least the characters other than slashes that
are filled in. -/
theorem countP_le_of_absent (hrow : SteadyRow given allowed tail edge items)
    (habsent : ∀ p ∈ partsOf items, given (.ofList p.label) = none) {slices : List Slice}
    {text : List Char} (h : Cuts (items ++ ends allowed tail) slices text) :
    (items.foldr (Item.onto given) (tail ++ edge)).countP (· != '/') ≤ text.countP (· != '/') := by
  induction items generalizing slices text with
  | nil =>
    obtain ⟨e, -, rfl⟩ := cuts_ends h
    have hedge : edge.countP (· != '/') = 0 := by
      rcases hrow.ending with rfl | ⟨-, rfl⟩ <;> rfl
    rw [List.foldr_nil, List.countP_append, List.countP_append, hedge]
    exact Nat.add_le_add_left (Nat.zero_le _) _
  | cons item items ih =>
    obtain ⟨s, slices, rfl⟩ := h.exists_cons
    obtain ⟨⟨hs, hslices⟩, rfl⟩ := h
    rw [List.flatMap_cons, List.countP_append, List.foldr_cons]
    cases item with
    | text t =>
      obtain rfl := hs
      have hbehind := ih hrow.behind habsent ⟨hslices, rfl⟩
      rw [Item.onto, List.countP_append, Slice.text_before]
      exact Nat.add_le_add_left hbehind _
    | slash mayMiss written =>
      have hbehind := ih hrow.behind habsent ⟨hslices, rfl⟩
      refine Nat.le_trans ?_ (Nat.le_trans hbehind (Nat.le_add_left _ _))
      obtain ⟨hrefills, -⟩ := List.forall_mem_cons.mp hrow.refills
      rcases hrefills.onto_slash (items.foldr (Item.onto given) (tail ++ edge)) with
        ⟨-, -, hnil⟩ | hfilled
      · rw [hnil]
        exact Nat.zero_le _
      · rw [hfilled]
        exact Nat.le_of_eq (List.countP_cons_of_neg (by decide))
    | part p =>
      obtain ⟨hp, hitems⟩ := List.forall_mem_cons.mp habsent
      have hbehind := ih hrow.behind hitems ⟨hslices, rfl⟩
      rw [Item.onto, Part.filling_of_none hp]
      exact Nat.le_trans hbehind (Nat.le_add_left _ _)

/-- Where slashes are gone and no value is given, a part takes no more than slashes. -/
theorem slashes_of_absent {p : Part} (hrow : SteadyRow given allowed tail edge (.part p :: items))
    (habsent : ∀ q ∈ partsOf (.part p :: items), given (.ofList q.label) = none)
    {gone rest : List Char} (hne : gone ≠ []) {s : Slice} {back : List Slice}
    (hs : p.Takes s) (hback : Cuts (items ++ ends allowed tail) back rest)
    (htext : items.foldr (Item.onto given) (tail ++ edge) = gone ++ (s.text ++ rest)) :
    (∀ c ∈ s.text, c = '/') ∧ s.value = none := by
  obtain ⟨-, hitems⟩ := List.forall_mem_cons.mp habsent
  by_cases hreach : p.reach = .rest
  · obtain rfl := hrow.eq_nil_of_absent hreach hitems
    obtain ⟨e, -, rfl⟩ := cuts_ends hback
    have hlength := congrArg List.length htext
    have hpos := List.length_pos_iff.mpr hne
    have hshort : edge.length ≤ 1 := by
      rcases hrow.ending with rfl | ⟨-, rfl⟩ <;> decide
    simp only [List.foldr_nil, List.length_append] at hlength
    have htake : s.text = [] := List.length_eq_zero_iff.mp (by omega)
    have hslashes : ∀ c ∈ s.text, c = '/' := by
      rw [htake]
      exact List.forall_mem_nil _
    exact ⟨hslashes, hs.value_of_slashes hslashes (Or.inl htake)⟩
  · have hcount := countP_le_of_absent hrow.behind hitems hback
    rw [htext, List.countP_append, List.countP_append] at hcount
    have hzero : s.text.countP (· != '/') = 0 := by omega
    have hslashes : ∀ c ∈ s.text, c = '/' := by
      intro c hc
      have hnone := List.countP_eq_zero.mp hzero c hc
      simpa using hnone
    exact ⟨hslashes, hs.value_of_slashes hslashes (Or.inr hreach)⟩

/-- Slashes that are gone from the start of a value leave no best cutting at all, and where the
values are absent they are not missed. -/
theorem regains_part {p : Part} (hrow : SteadyRow given allowed tail edge (.part p :: items))
    (h : Regains given allowed tail edge items)
    (hfirst : ∀ slices, CutsBest (.part p :: items ++ ends allowed tail) slices
        (p.filling given ++ items.foldr (Item.onto given) (tail ++ edge)) →
      valuesOf (.part p :: items ++ ends allowed tail) slices =
        (partsOf (.part p :: items)).map fun q => given (.ofList q.label)) :
    Regains given allowed tail edge (.part p :: items) := by
  intro gone text slices hgone htext hseam hbest
  change p.filling given ++ items.foldr (Item.onto given) (tail ++ edge) = gone ++ text at htext
  by_cases hne : gone = []
  · rw [hne, List.nil_append] at htext
    rw [← htext] at hbest
    exact hfirst slices hbest
  · obtain ⟨hhead, habsent⟩ := hseam.resolve_left hne
    obtain ⟨hrefills, -⟩ := List.forall_mem_cons.mp hrow.refills
    cases hv : given (.ofList p.label) with
    | some v =>
      exfalso
      obtain ⟨c, gone, rfl⟩ := List.exists_cons_of_ne_nil hne
      obtain ⟨-, hadmits⟩ := hrefills.admits hv
      obtain ⟨d, u, hd⟩ := List.exists_cons_of_ne_nil hadmits.1
      rw [Part.filling_of_some hv, hd] at htext
      have hslash : d = '/' := (List.cons.inj htext).1.trans (hgone c List.mem_cons_self)
      refine hhead v hv ?_
      rw [hd, hslash]
      rfl
    | none =>
      have hnone := habsent hv
      obtain ⟨s, back, rest, rfl, rfl, hs, hback⟩ := hbest.uncons
      rw [Part.filling_of_none hv, List.nil_append] at htext
      obtain ⟨hslashes, hvalue⟩ := slashes_of_absent hrow (List.forall_mem_cons.mpr ⟨hv, hnone⟩)
        hne hs hback.1 htext
      have hlater := h (gone ++ s.text) rest back (List.forall_mem_append.mpr ⟨hgone, hslashes⟩)
        (htext.trans (List.append_assoc _ _ _).symm) (Or.inr (seam_of_absent hnone)) hback
      show s.value.map String.ofList :: valuesOf (items ++ ends allowed tail) back = _
      rw [hlater, hvalue, partsOf, List.map_cons, hv]
      rfl

/-- A row in which nothing may be missing has the values of the request. -/
theorem values_of_kept (hrow : SteadyRow given allowed tail edge items)
    (hkept : ∀ item ∈ items, item.Kept) {slices : List Slice} {text : List Char}
    (hfinds : Finds given allowed tail items slices text) {others : List Slice}
    (hbest : CutsBest (items ++ ends allowed tail) others
      (items.foldr (Item.onto given) (tail ++ edge))) :
    valuesOf (items ++ ends allowed tail) others =
      (partsOf items).map fun p => given (.ofList p.label) := by
  obtain ⟨same, hsame, hvalues⟩ := best_of_kept hkept hrow.closed hrow.ending hrow.last hfinds.1
    hfinds.2
  rw [hbest.eq hsame, hvalues, hfinds.2]

/-- A required segment takes its value: a longer one it could have taken of the request. -/
theorem values_of_segment {p : Part} (hp : p.reach = .segment ∧ p.required = true)
    (hrow : SteadyRow given allowed tail edge (.part p :: items))
    (hloose : ¬ ∀ item ∈ items, item.Kept) {slices : List Slice} {text : List Char}
    (hfinds : Finds given allowed tail (.part p :: items) slices text)
    (h : Regains given allowed tail edge items) {others : List Slice}
    (hbest : CutsBest (.part p :: items ++ ends allowed tail) others
      (p.filling given ++ items.foldr (Item.onto given) (tail ++ edge))) :
    valuesOf (.part p :: items ++ ends allowed tail) others =
      (partsOf (.part p :: items)).map fun q => given (.ofList q.label) := by
  obtain ⟨first, back, rest, rfl, rfl, htakes, hback, hvalue⟩ := hfinds.uncons
  obtain ⟨v, hv, rfl⟩ := (Part.takes_segment_iff hp).mp htakes
  have hgiven : some (String.ofList v) = given (.ofList p.label) := hvalue p rfl
  obtain ⟨s, others, more, rfl, htext, hs, hothers⟩ := hbest.uncons
  obtain ⟨w, hw, rfl⟩ := (Part.takes_segment_iff hp).mp hs
  have hslice : ∀ u, Reach.segment.Admits u → Cuts [.part p] [{ value := some u }] u :=
    fun u hu => cuts_value ((Part.takes_segment_iff hp).mpr ⟨u, hu, rfl⟩)
  rw [Part.filling_of_some hgiven.symm, String.toList_ofList] at hbest htext
  rw [Slice.text_value] at htext
  -- The value can be taken again, so what is taken is no shorter.
  have hlong : v.length ≤ w.length := by
    obtain ⟨cut, hcut⟩ := hrow.behind.exists_cuts
    rcases hbest.2 _ ((hslice v hv).append hcut) with hlt | ⟨heq, -⟩
    · rw [Slice.text_value, Slice.text_value] at hlt
      exact Nat.le_of_lt hlt
    · exact Nat.le_of_eq (congrArg List.length (Option.some.inj (congrArg Slice.value heq))).symm
  obtain ⟨d, rfl⟩ : v <+: w := List.prefix_of_prefix_length_le ⟨_, rfl⟩ ⟨_, htext.symm⟩ hlong
  rw [List.append_assoc, List.append_cancel_left_eq] at htext
  have hnil : d = [] := by
    by_contra hne
    have hstops : ∀ c ∈ d, isStop c = false :=
      fun c hc => hw.not_stop c (List.mem_append_right v hc)
    obtain ⟨more', others', rfl, hcuts⟩ :=
      hrow.behind.shares hloose hback d more others htext hne hstops hothers.1
    have hlonger := hfinds.1.2 ({ value := some (v ++ d) } :: others') (by
      rw [Slice.text_value, ← List.append_assoc]
      exact (hslice _ hw).append hcuts)
    rcases hlonger with hlt | ⟨heq, -⟩
    · rw [Slice.text_value, Slice.text_value, List.length_append] at hlt
      omega
    · have hsame := Option.some.inj (congrArg Slice.value heq)
      exact hne (List.append_right_eq_self.mp hsame.symm)
  subst hnil
  have hlater := h [] more others (List.forall_mem_nil _) htext (Or.inl rfl) hothers
  show some (String.ofList (v ++ [])) :: valuesOf (items ++ ends allowed tail) others = _
  rw [hlater, List.append_nil, hgiven]
  rfl

/-- An optional segment takes its value, and perhaps the slash behind it. -/
theorem values_of_optional {p : Part} (hoptional : p.required = false) (hrest : p.reach ≠ .rest)
    (hrow : SteadyRow given allowed tail edge (.part p :: items))
    (h : Regains given allowed tail edge items) {others : List Slice}
    (hbest : CutsBest (.part p :: items ++ ends allowed tail) others
      (p.filling given ++ items.foldr (Item.onto given) (tail ++ edge))) :
    valuesOf (.part p :: items ++ ends allowed tail) others =
      (partsOf (.part p :: items)).map fun q => given (.ofList q.label) := by
  obtain ⟨hsteady, -⟩ := hrow.parts
  obtain ⟨hrefills, -⟩ := List.forall_mem_cons.mp hrow.refills
  have hbehind := hsteady.text hrest hoptional
  cases hv : given (.ofList p.label) with
  | none =>
    rw [Part.filling_of_none hv, List.nil_append] at hbest
    obtain ⟨s, back, rest, rfl, htext, hs, hback⟩ := hbest.uncons
    obtain ⟨hvalue, htake⟩ := Part.Takes.of_slash hs hoptional hrest ⟨rest, htext.symm⟩ hbehind
    have hslashes : ∀ c ∈ s.text, c = '/' := by
      rcases htake with htake | ⟨-, htake⟩ <;> simp [htake]
    have hlater := h s.text rest back hslashes htext
      (htake.imp_right fun h => hsteady.seam h.1 hoptional) hback
    show s.value.map String.ofList :: valuesOf (items ++ ends allowed tail) back = _
    rw [hlater, hvalue, partsOf, List.map_cons, hv]
    rfl
  | some v =>
    obtain ⟨hquery, hadmits⟩ := hrefills.admits hv
    have hsegment : p.reach = .segment := p.reach.eq_segment hrest hquery
    rw [Part.filling_of_some hv] at hbest
    obtain ⟨s, back, gone, rest, rfl, hvalue, hback, htext, hgone⟩ := hbest.behind_part
      ⟨hsegment, hoptional⟩ (hsegment ▸ hadmits) hbehind hrow.behind.exists_cuts
    have hslashes : ∀ c ∈ gone, c = '/' := by
      rcases hgone with rfl | rfl <;> simp
    have hlater := h gone rest back hslashes htext
      (hgone.imp_right fun _ => hsteady.seam hsegment hoptional) hback
    show s.value.map String.ofList :: valuesOf (items ++ ends allowed tail) back = _
    rw [hlater, hvalue, partsOf, List.map_cons, hv, Option.map_some, String.ofList_toList]

/-- The values of a steady row are those of the best cutting of what is filled in. -/
theorem SteadyRow.regains (hrow : SteadyRow given allowed tail edge items) {slices : List Slice}
    {text : List Char} (hfinds : Finds given allowed tail items slices text) :
    Regains given allowed tail edge items := by
  induction items generalizing slices text with
  | nil =>
    intro gone rest slices _ _ _ hbest
    exact valuesOf_eq_nil hbest.1 partsOf_ends
  | cons item items ih =>
    obtain ⟨s, back, rest, -, -, -, hback, -⟩ := hfinds.uncons
    have hlater := ih hrow.behind hback
    cases item with
    | text t => exact regains_text t hlater
    | slash mayMiss written => exact regains_slash hrow hlater
    | part p =>
      refine regains_part hrow hlater fun others hbest => ?_
      by_cases hkept : ∀ item ∈ .part p :: items, item.Kept
      · exact values_of_kept hrow hkept hfinds hbest
      · obtain ⟨hsteady, -⟩ := hrow.parts
        have hrest : p.reach ≠ .rest := fun hreach =>
          hkept (List.forall_mem_cons.mpr ⟨Or.inl hreach, hsteady.kept hreach⟩)
        cases hrequired : p.required with
        | false => exact values_of_optional hrequired hrest hrow hlater hbest
        | true =>
          obtain ⟨hrefills, -⟩ := List.forall_mem_cons.mp hrow.refills
          obtain ⟨v, hv⟩ := hrefills.exists_value hrequired
          obtain ⟨hquery, -⟩ := hrefills.admits hv
          have hsegment : p.reach = .segment := p.reach.eq_segment hrest hquery
          have hp : p.reach = .segment ∧ p.required = true := ⟨hsegment, hrequired⟩
          have hloose : ¬ ∀ item ∈ items, item.Kept := fun hitems =>
            hkept (List.forall_mem_cons.mpr ⟨Or.inr hp, hitems⟩)
          exact values_of_segment hp hrow hloose hfinds hlater hbest

end

/-! ## Markers -/

theorem Part.Takes.before_eq_nil {p : Part} {s : Slice} (h : p.Takes s) (hreach : p.reach ≠ .query) :
    s.before = [] := by
  cases hp : p.reach with
  | query => exact absurd hp hreach
  | rest => rcases (Part.takes_rest_iff hp).mp h with ⟨-, rfl⟩ | ⟨v, -, rfl⟩ <;> rfl
  | segment =>
    cases hrequired : p.required with
    | true =>
      obtain ⟨v, -, rfl⟩ := (Part.takes_segment_iff ⟨hp, hrequired⟩).mp h
      rfl
    | false =>
      obtain ⟨slash, -, rfl | ⟨v, -, rfl⟩⟩ := (Part.takes_optional_iff ⟨hp, hrequired⟩).mp h <;> rfl

/-- What is filled in for a part is the beginning of what it took. -/
theorem Item.Refills.filling_prefix {given : String → Option String} {p : Part} {s : Slice}
    (h : (Item.part p).Refills given) (hs : p.Takes s)
    (hvalue : s.value.map String.ofList = given (.ofList p.label)) :
    p.filling given <+: s.text := by
  cases hv : given (.ofList p.label) with
  | none =>
    rw [Part.filling_of_none hv]
    exact List.nil_prefix
  | some v =>
    obtain ⟨hquery, -⟩ := h.admits hv
    rw [filling_of_value hvalue, Slice.text, hs.before_eq_nil hquery]
    exact List.prefix_append _ _

/-- What is filled in for a part makes no marker with the text around it: it stands in the request as
well, or there is a slash behind it. -/
theorem SteadyRow.unmarked_filling {given : String → Option String} {allowed : Prop}
    {tail edge : List Char} {items : List Item} {p : Part}
    (hrow : SteadyRow given allowed tail edge (.part p :: items)) {s : Slice} (hs : p.Takes s)
    (hvalue : s.value.map String.ofList = given (.ofList p.label)) {x behind : List Char}
    (hfilled : items.foldr (Item.onto given) (tail ++ edge) = behind) (hbehind : Unmarked behind)
    (hfront : Unmarked (x ++ s.text)) (hsame : Unmarked (x ++ (s.text ++ behind))) :
    Unmarked (x ++ (p.filling given ++ behind)) := by
  obtain ⟨hrefills, -⟩ := List.forall_mem_cons.mp hrow.refills
  by_cases hkept : p.Kept
  · rwa [hkept.text_eq hs, ← filling_of_value hvalue] at hsame
  · obtain ⟨hsteady, -⟩ := hrow.parts
    have hrest : p.reach ≠ .rest := fun hreach => hkept (Or.inl hreach)
    have hoptional : p.required = false := by
      cases hrequired : p.required with
      | false => rfl
      | true =>
        obtain ⟨v, hv⟩ := hrefills.exists_value hrequired
        obtain ⟨hquery, -⟩ := hrefills.admits hv
        exact absurd (Or.inr ⟨p.reach.eq_segment hrest hquery, hrequired⟩) hkept
    have hfirst : Unmarked (x ++ p.filling given) := by
      obtain ⟨u, hu⟩ := hrefills.filling_prefix hs hvalue
      rw [← hu, ← List.append_assoc] at hfront
      exact fun hin => hfront (hin.trans (List.prefix_append _ u).isInfix)
    have htext := hsteady.text hrest hoptional
    rw [hfilled] at htext
    rcases htext with rfl | ⟨u, rfl⟩
    · rwa [List.append_nil]
    · obtain ⟨-, hu⟩ := (unmarked_slash (s := [])).mp hbehind
      rw [← List.append_assoc]
      exact unmarked_slash.mpr ⟨hfirst, hu⟩

/-- What is filled in makes no marker with the text before it, if there is none in the request. -/
theorem SteadyRow.unmarked {given : String → Option String} {allowed : Prop} [Decidable allowed]
    {tail edge : List Char} {items : List Item} (hrow : SteadyRow given allowed tail edge items)
    {slices : List Slice} {text : List Char} (hfinds : Finds given allowed tail items slices text)
    {x : List Char} (hinside : ∀ s, s <:+: x ++ text → Unmarked s) :
    Unmarked (x ++ items.foldr (Item.onto given) (tail ++ edge)) := by
  induction items generalizing slices text x with
  | nil =>
    obtain ⟨e, -, rfl⟩ := cuts_ends hfinds.1.1
    rw [List.foldr_nil, ← List.append_assoc]
    refine hrow.ending.unmarked (hinside _ (List.IsPrefix.isInfix ?_))
    rw [← List.append_assoc]
    exact List.prefix_append _ e
  | cons item items ih =>
    obtain ⟨hrefills, -⟩ := List.forall_mem_cons.mp hrow.refills
    obtain ⟨s, back, rest, rfl, rfl, hs, hback, hvalue⟩ := hfinds.uncons
    have hbefore : Unmarked x := hinside x (List.prefix_append x _).isInfix
    have hfront : Unmarked (x ++ s.text) := by
      refine hinside _ (List.IsPrefix.isInfix ⟨rest, ?_⟩)
      rw [List.append_assoc]
    -- What stood behind the item may stand there again.
    have hsame : Unmarked (x ++ (s.text ++ items.foldr (Item.onto given) (tail ++ edge))) := by
      rw [← List.append_assoc]
      refine ih hrow.behind hback fun v hv => hinside v ?_
      rwa [← List.append_assoc]
    have hbehind : Unmarked (items.foldr (Item.onto given) (tail ++ edge)) := fun hin =>
      hsame (hin.trans ((List.suffix_append s.text _).trans (List.suffix_append x _)).isInfix)
    rw [List.foldr_cons]
    cases item with
    | text t =>
      obtain rfl := hs
      rwa [Slice.text_before] at hsame
    | slash mayMiss written =>
      rcases hrefills.onto_slash (items.foldr (Item.onto given) (tail ++ edge)) with
        ⟨-, -, hnil⟩ | hfilled
      · rwa [hnil, List.append_nil]
      · rw [hfilled]
        exact unmarked_slash.mpr ⟨hbefore, hbehind⟩
    | part p => exact hrow.unmarked_filling hs (hvalue p rfl) rfl hbehind hfront hsame

end RouteDispatch.Template
