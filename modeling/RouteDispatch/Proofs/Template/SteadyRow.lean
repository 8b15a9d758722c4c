/-
# Steady rows

A row of items that was filled in is the request that it was cut from, but for
slashes.  One that may be missing is written wherever anything stands behind it, and
the one that an optional segment took is left out.  So the same values need not be
the best ones again; where the row is steady, they are (`SteadyRow.regains`).

Of the items behind a segment this needs that it could have taken, in the request,
whatever it can take of them in the result (`SteadyRow.shares`).
-/
import RouteDispatch.Proofs.Template.Optional

namespace RouteDispatch.Template

open Text Regex

/-! ## Steady rows -/

/-- A slash in front of these items cannot be mistaken for one of theirs: the first value does not
begin with a slash, and if it is absent, all values behind it are. -/
def Seam (given : String → Option String) : List Item → Prop
  | [] => True
  | .text s :: items => (∀ c ∈ s, c = '/') → Seam given items
  | .slash _ _ :: items => Seam given items
  | .part p :: items =>
    (∀ v, given (.ofList p.label) = some v → v.toList.head? ≠ some '/') ∧
      (given (.ofList p.label) = none → ∀ q ∈ partsOf items, given (.ofList q.label) = none)

/-- What is behind the part leaves it where it is. -/
structure Part.SteadyBefore (given : String → Option String) (rest : List Char) (p : Part)
    (items : List Item) : Prop where
  kept : p.reach = .rest → ∀ item ∈ items, item.Kept
  required : p.reach = .rest → ∀ q ∈ partsOf items, q.required = true
  text : p.reach ≠ .rest → p.required = false → items.foldr (Item.onto given) rest = [] ∨
    ∃ u, items.foldr (Item.onto given) rest = '/' :: u
  seam : p.reach = .segment → p.required = false → Seam given items

def SteadyParts (given : String → Option String) (rest : List Char) : List Item → Prop
  | [] => True
  | .part p :: items => p.SteadyBefore given rest items ∧ SteadyParts given rest items
  | .text _ :: items => SteadyParts given rest items
  | .slash _ _ :: items => SteadyParts given rest items

/-- Items with values to fill in, and the text behind the last part with the slash that is allowed
there. -/
structure SteadyRow (given : String → Option String) (allowed : Prop) (tail edge : List Char)
    (items : List Item) : Prop where
  refills : ∀ item ∈ items, item.Refills given
  parts : SteadyParts given (tail ++ edge) items
  closed : Closed allowed (tail ++ edge) items
  ending : Edge allowed edge
  last : allowed → edge = [] → tail.getLast? ≠ some '/'

section
variable {given : String → Option String} {allowed : Prop} {tail edge : List Char} {item : Item}
  {items : List Item}

theorem SteadyParts.behind {rest : List Char} (h : SteadyParts given rest (item :: items)) :
    SteadyParts given rest items := by
  cases item with
  | text s => exact h
  | slash mayMiss written => exact h
  | part p => exact h.2

theorem SteadyRow.behind (h : SteadyRow given allowed tail edge (item :: items)) :
    SteadyRow given allowed tail edge items where
  refills := (List.forall_mem_cons.mp h.refills).2
  parts := h.parts.behind
  closed := h.closed.tail
  ending := h.ending
  last := h.last

theorem seam_of_absent (h : ∀ p ∈ partsOf items, given (.ofList p.label) = none) :
    Seam given items := by
  induction items with
  | nil => trivial
  | cons item items ih =>
    cases item with
    | text s => exact fun _ => ih h
    | slash mayMiss written => exact ih h
    | part p =>
      obtain ⟨hp, hitems⟩ := List.forall_mem_cons.mp h
      refine ⟨fun v hv => ?_, fun _ => hitems⟩
      rw [hp] at hv
      cases hv

theorem Part.filling_of_none {p : Part} (h : given (.ofList p.label) = none) :
    p.filling given = [] := by
  rw [Part.filling, h]
  rfl

theorem Part.filling_of_some {p : Part} {v : String} (h : given (.ofList p.label) = some v) :
    p.filling given = v.toList := by
  rw [Part.filling, h]
  rfl

theorem Reach.eq_segment (reach : Reach) (hrest : reach ≠ .rest) (hquery : reach ≠ .query) :
    reach = .segment := by
  cases reach with
  | segment => rfl
  | rest => exact absurd rfl hrest
  | query => exact absurd rfl hquery

/-- A value that is given is not empty, and not that of a query. -/
theorem Item.Refills.admits {p : Part} (h : (Item.part p).Refills given) {v : String}
    (hv : given (.ofList p.label) = some v) :
    p.reach ≠ .query ∧ p.reach.Admits v.toList := by
  obtain ⟨hholds, hqueries⟩ := h
  have hquery : p.reach ≠ .query := by
    intro hreach
    rw [hqueries hreach] at hv
    cases hv
  rw [hv] at hholds
  exact ⟨hquery, hholds.admits hquery⟩

/-- A part that is required has a value. -/
theorem Item.Refills.exists_value {p : Part} (h : (Item.part p).Refills given)
    (hrequired : p.required = true) : ∃ v, given (.ofList p.label) = some v := by
  cases hv : given (.ofList p.label) with
  | some v => exact ⟨v, rfl⟩
  | none =>
    have hholds := h.1
    rw [hv] at hholds
    have hoptional := hholds.not_required
    rw [hrequired] at hoptional
    cases hoptional

/-- Nothing is behind a rest if all the parts behind it are absent. -/
theorem SteadyRow.eq_nil_of_absent {p : Part}
    (hrow : SteadyRow given allowed tail edge (.part p :: items)) (hreach : p.reach = .rest)
    (habsent : ∀ q ∈ partsOf items, given (.ofList q.label) = none) : items = [] := by
  obtain ⟨hsteady, -⟩ := hrow.parts
  rcases List.eq_nil_or_concat items with hnil | ⟨front, item, hconcat⟩
  · exact hnil
  · exfalso
    rw [List.concat_eq_append] at hconcat
    obtain ⟨q, rfl, -⟩ := hrow.behind.closed front item hconcat
    have hq : q ∈ partsOf items := by
      rw [hconcat, partsOf_append]
      exact List.mem_append_right _ List.mem_cons_self
    have hin : Item.part q ∈ items := by
      rw [hconcat]
      exact List.mem_append_right _ List.mem_cons_self
    obtain ⟨v, hv⟩ := (hrow.behind.refills _ hin).exists_value (hsteady.required hreach q hq)
    rw [habsent q hq] at hv
    cases hv

end

/-! ## Cuttings with the values -/

theorem edge_of_cuts {allowed : Prop} [Decidable allowed] {slices : List Slice} {text : List Char}
    (h : Cuts (if allowed then [.slash true []] else []) slices text) : Edge allowed text :=
  (reads_edge.mp ⟨slices, h, rfl⟩).1

section
variable {given : String → Option String} {allowed : Prop} [Decidable allowed]
  {tail edge : List Char}

theorem cuts_ends {slices : List Slice} {text : List Char}
    (h : Cuts (ends allowed tail) slices text) : ∃ e, Edge allowed e ∧ text = tail ++ e := by
  obtain ⟨s, slices, rfl⟩ := h.exists_cons
  obtain ⟨⟨rfl, hslices⟩, rfl⟩ := h
  exact ⟨slices.flatMap Slice.text, edge_of_cuts ⟨hslices, rfl⟩, by
    rw [List.flatMap_cons, Slice.text_before]⟩

theorem partsOf_ends : partsOf (ends allowed tail) = [] := by
  rw [ends, partsOf]
  split <;> rfl

/-- What is filled in can be cut again. -/
theorem SteadyRow.exists_cuts {items : List Item} (h : SteadyRow given allowed tail edge items) :
    ∃ slices, Cuts (items ++ ends allowed tail) slices
      (items.foldr (Item.onto given) (tail ++ edge)) := by
  obtain ⟨u, hu, slices, hcuts, -⟩ := reads_foldr_onto h.refills (tail ++ edge)
  obtain ⟨back, hback, -⟩ := reads_edge.mpr ⟨h.ending, rfl⟩
  have htail : Cuts (.text tail :: if allowed then [.slash true []] else [])
      ([{ before := tail }] ++ back) (tail ++ edge) := (cuts_text.mpr ⟨rfl, rfl⟩).append hback
  exact ⟨slices ++ ([{ before := tail }] ++ back), hu ▸ hcuts.append htail⟩

/-- The best cutting of the text has the values that are given. -/
def Finds (given : String → Option String) (allowed : Prop) [Decidable allowed] (tail : List Char)
    (items : List Item) (slices : List Slice) (text : List Char) : Prop :=
  CutsBest (items ++ ends allowed tail) slices text ∧
    valuesOf (items ++ ends allowed tail) slices =
      (partsOf items).map fun p => given (.ofList p.label)

/-- So it is behind the first slice. -/
theorem Finds.uncons {item : Item} {items : List Item} {slices : List Slice} {text : List Char}
    (h : Finds given allowed tail (item :: items) slices text) :
    ∃ s back rest, slices = s :: back ∧ text = s.text ++ rest ∧ item.Takes s ∧
      Finds given allowed tail items back rest ∧
        ∀ p, item = .part p → s.value.map String.ofList = given (.ofList p.label) := by
  obtain ⟨hbest, hvalues⟩ := h
  obtain ⟨s, back, rest, rfl, rfl, hs, hback⟩ := hbest.uncons
  refine ⟨s, back, rest, rfl, rfl, hs, ?_⟩
  cases item with
  | text t => exact ⟨⟨hback, hvalues⟩, nofun⟩
  | slash mayMiss written => exact ⟨⟨hback, hvalues⟩, nofun⟩
  | part p =>
    obtain ⟨hvalue, hvalues⟩ := List.cons.inj hvalues
    refine ⟨⟨hback, hvalues⟩, ?_⟩
    rintro q ⟨⟩
    exact hvalue

end

/-! ## What a segment could take of the items behind it -/

section
variable {given : String → Option String} {allowed : Prop} [Decidable allowed]
  {tail edge : List Char}

/-- An optional segment may take less of its value. -/
theorem Part.takes_shorter {p : Part} (hp : p.reach = .segment ∧ p.required = false) {s : Slice}
    (hs : p.Takes s) {d v : List Char} (hvalue : s.value = some (d ++ v)) :
    ∃ s', p.Takes s' ∧ s.text = d ++ s'.text := by
  obtain ⟨slash, hslash, rfl | ⟨w, hw, rfl⟩⟩ := (Part.takes_optional_iff hp).mp hs
  · cases hvalue
  · obtain rfl := Option.some.inj hvalue
    by_cases hv : v = []
    · refine ⟨{ after := slash }, (Part.takes_optional_iff hp).mpr ⟨slash, hslash, Or.inl rfl⟩, ?_⟩
      rw [hv, List.append_nil]
      rfl
    · have hadmits : Reach.segment.Admits v :=
        ⟨hv, fun c hc => hw.2 c (List.mem_append_right d hc)⟩
      refine ⟨{ value := some v, after := slash }, ?_, List.append_assoc d v slash⟩
      exact (Part.takes_optional_iff hp).mpr ⟨slash, hslash, Or.inr ⟨v, hadmits, rfl⟩⟩

/-- Text without a slash that stands before a slash, or before nothing, is all of the value. -/
theorem exists_append_of_slash {v rest d more : List Char}
    (hrest : rest = [] ∨ ∃ u, rest = '/' :: u) (hd : '/' ∉ d) (htext : v ++ rest = d ++ more) :
    ∃ v', v = d ++ v' := by
  rcases List.append_eq_append_iff.mp htext with ⟨x, rfl, hx⟩ | ⟨x, hx, -⟩
  · cases x with
    | nil => exact ⟨[], by rw [List.append_nil, List.append_nil]⟩
    | cons c x =>
      rcases hrest with rfl | ⟨u, rfl⟩
      · cases hx
      · obtain ⟨rfl, -⟩ := List.cons.inj hx
        exact absurd (List.mem_append_right _ List.mem_cons_self) hd
  · exact ⟨x, hx⟩

/-- What a segment in front of them could take of the items that are filled in, it could take of the
request. -/
def Shares (given : String → Option String) (allowed : Prop) [Decidable allowed]
    (tail edge : List Char) (items : List Item) (text : List Char) : Prop :=
  ∀ d more others, items.foldr (Item.onto given) (tail ++ edge) = d ++ more → d ≠ [] →
    (∀ c ∈ d, isStop c = false) → Cuts (items ++ ends allowed tail) others more →
      ∃ more' others', text = d ++ more' ∧ Cuts (items ++ ends allowed tail) others' more'

section
variable {items : List Item} {text : List Char}

/-- Of a slash nothing can be taken. -/
theorem shares_of_slash (h : items.foldr (Item.onto given) (tail ++ edge) = [] ∨
      ∃ u, items.foldr (Item.onto given) (tail ++ edge) = '/' :: u) :
    Shares given allowed tail edge items text := by
  intro d more others htext hd hstops _
  obtain ⟨c, d, rfl⟩ := List.exists_cons_of_ne_nil hd
  rcases h with hnil | ⟨u, hu⟩
  · rw [hnil] at htext
    cases htext
  · rw [hu] at htext
    obtain ⟨rfl, -⟩ := List.cons.inj htext
    exact absurd (hstops '/' List.mem_cons_self) (by decide)

/-- What is taken of text is given back behind it. -/
theorem shares_text (t : List Char) (h : Shares given allowed tail edge items text) :
    Shares given allowed tail edge (.text t :: items) (t ++ text) := by
  intro d more others htext hd hstops hmore
  obtain ⟨s, others, rfl⟩ := hmore.exists_cons
  obtain ⟨⟨rfl, hothers⟩, rfl⟩ := hmore
  have hfirst : Cuts [.text t] [{ before := t }] t := cuts_text.mpr ⟨rfl, rfl⟩
  rw [List.flatMap_cons, Slice.text_before] at htext
  have hsplit : t ++ items.foldr (Item.onto given) (tail ++ edge) =
      (d ++ t) ++ others.flatMap Slice.text := htext.trans (List.append_assoc d t _).symm
  rcases List.append_eq_append_iff.mp hsplit with ⟨d', hshift, hbehind⟩ | ⟨x, hshift, -⟩
  · have hperm : d'.Perm d :=
      (List.perm_append_left_iff t).mp (hshift ▸ List.perm_append_comm)
    have hd' : d' ≠ [] := fun hnil => hd (List.nil_perm.mp (hnil ▸ hperm))
    obtain ⟨more', others', rfl, hcuts⟩ := h d' _ others hbehind hd'
      (fun c hc => hstops c (hperm.mem_iff.mp hc)) ⟨hothers, rfl⟩
    refine ⟨t ++ more', _, ?_, hfirst.append hcuts⟩
    rw [← List.append_assoc, ← hshift, List.append_assoc]
  · exfalso
    have hlength := congrArg List.length hshift
    have hpos := List.length_pos_iff.mpr hd
    simp only [List.length_append] at hlength
    omega

/-- What is taken of a required segment shortens it, or is given back behind it. -/
theorem shares_segment {p : Part} (hp : p.reach = .segment ∧ p.required = true) {v : String}
    (hv : given (.ofList p.label) = some v) (hadmits : Reach.segment.Admits v.toList)
    {slices : List Slice} (hcuts : Cuts (items ++ ends allowed tail) slices text)
    (h : Shares given allowed tail edge items text) :
    Shares given allowed tail edge (.part p :: items) (v.toList ++ text) := by
  intro d more others htext hd hstops hmore
  obtain ⟨s, others, rfl⟩ := hmore.exists_cons
  obtain ⟨⟨hs, hothers⟩, rfl⟩ := hmore
  obtain ⟨u, hu, rfl⟩ := (Part.takes_segment_iff hp).mp hs
  have hvalue : ∀ w, Reach.segment.Admits w → Cuts [.part p] [{ value := some w }] w :=
    fun w hw => cuts_value ((Part.takes_segment_iff hp).mpr ⟨w, hw, rfl⟩)
  have hsplit : v.toList ++ items.foldr (Item.onto given) (tail ++ edge) =
      (d ++ u) ++ others.flatMap Slice.text := by
    rw [List.append_assoc, ← Part.filling_of_some hv]
    rw [List.flatMap_cons, Slice.text_value] at htext
    exact htext
  have hshorter : ∀ x, v.toList = (d ++ u) ++ x →
      ∃ more' others', v.toList ++ text = d ++ more' ∧
        Cuts (.part p :: (items ++ ends allowed tail)) others' more' := by
    intro x hx
    rw [List.append_assoc] at hx
    have hin : Reach.segment.Admits (u ++ x) := by
      refine ⟨List.append_ne_nil_of_left_ne_nil hu.1 x, fun c hc => hadmits.2 c ?_⟩
      rw [hx]
      exact List.mem_append_right d hc
    exact ⟨(u ++ x) ++ text, _, by rw [hx, List.append_assoc], (hvalue _ hin).append hcuts⟩
  rcases List.append_eq_append_iff.mp hsplit with ⟨d', hshift, hbehind⟩ | ⟨x, hx, -⟩
  · by_cases hd' : d' = []
    · exact hshorter [] (by rw [hshift, hd', List.append_nil, List.append_nil])
    · have hstops' : ∀ c ∈ d', isStop c = false := by
        intro c hc
        have hmem : c ∈ d ++ u := hshift ▸ List.mem_append_right _ hc
        exact (List.mem_append.mp hmem).elim (hstops c) (hu.not_stop c)
      obtain ⟨more', others', rfl, hcuts'⟩ := h d' _ others hbehind hd' hstops' ⟨hothers, rfl⟩
      refine ⟨u ++ more', _, ?_, (hvalue u hu).append hcuts'⟩
      rw [← List.append_assoc, ← hshift, List.append_assoc]
  · exact hshorter x hx

/-- What is taken of an optional part shortens it. -/
theorem shares_optional {p : Part} (hoptional : p.required = false) (hrest : p.reach ≠ .rest)
    (hrefills : (Item.part p).Refills given)
    (hbehind : items.foldr (Item.onto given) (tail ++ edge) = [] ∨
      ∃ u, items.foldr (Item.onto given) (tail ++ edge) = '/' :: u) {slices : List Slice}
    (hfinds : Finds given allowed tail (.part p :: items) slices text) :
    Shares given allowed tail edge (.part p :: items) text := by
  intro d more others htext hd hstops hmore
  cases hv : given (.ofList p.label) with
  | none =>
    refine shares_of_slash ?_ d more others htext hd hstops hmore
    rwa [List.foldr_cons, Item.onto, Part.filling_of_none hv, List.nil_append]
  | some v =>
    obtain ⟨hquery, -⟩ := hrefills.admits hv
    have hsegment : p.reach = .segment := p.reach.eq_segment hrest hquery
    have hslash : '/' ∉ d := fun hin => absurd (hstops '/' hin) (by decide)
    rw [List.foldr_cons, Item.onto, Part.filling_of_some hv] at htext
    obtain ⟨v', hv'⟩ := exists_append_of_slash hbehind hslash htext
    obtain ⟨s, back, rest, rfl, rfl, hs, hback, hvalue⟩ := hfinds.uncons
    have hsome : s.value = some (d ++ v') := by
      obtain ⟨w, hw, rfl⟩ := Option.map_eq_some_iff.mp ((hvalue p rfl).trans hv)
      rw [hw, ← hv', String.toList_ofList]
    obtain ⟨s', hs', hshort⟩ := Part.takes_shorter ⟨hsegment, hoptional⟩ hs hsome
    have hitem : (Item.part p).Takes s' := hs'
    exact ⟨s'.text ++ rest, _, by rw [hshort, List.append_assoc],
      (cuts_singleton hitem).append hback.1.1⟩

end

/-- So a segment in front of a row in which anything may be missing has no more to take of what is
filled in than of the request. -/
theorem SteadyRow.shares {items : List Item} (h : SteadyRow given allowed tail edge items)
    (hloose : ¬ ∀ item ∈ items, item.Kept) {slices : List Slice} {text : List Char}
    (hfinds : Finds given allowed tail items slices text) :
    Shares given allowed tail edge items text := by
  induction items generalizing slices text with
  | nil => exact absurd (List.forall_mem_nil _) hloose
  | cons item items ih =>
    have hlater : item.Kept → ¬ ∀ item ∈ items, item.Kept := fun hkept hitems =>
      hloose (List.forall_mem_cons.mpr ⟨hkept, hitems⟩)
    obtain ⟨hrefills, -⟩ := List.forall_mem_cons.mp h.refills
    obtain ⟨s, back, rest, rfl, rfl, hs, hback, hvalue⟩ := hfinds.uncons
    cases item with
    | text t =>
      obtain rfl := hs
      rw [Slice.text_before]
      exact shares_text t (ih h.behind (hlater trivial) hback)
    | slash mayMiss written =>
      have honto := hrefills.onto_slash (items.foldr (Item.onto given) (tail ++ edge))
      exact shares_of_slash (honto.imp (fun hmissing => hmissing.2.2) fun hwritten => ⟨_, hwritten⟩)
    | part p =>
      obtain ⟨hsteady, -⟩ := h.parts
      cases hrequired : p.required with
      | true =>
        obtain ⟨v, hv⟩ := hrefills.exists_value hrequired
        obtain ⟨hquery, hadmits⟩ := hrefills.admits hv
        cases hreach : p.reach with
        | query => exact absurd hreach hquery
        | rest => exact absurd (hsteady.kept hreach) (hlater (Or.inl hreach))
        | segment =>
          have hp : p.reach = .segment ∧ p.required = true := ⟨hreach, hrequired⟩
          obtain ⟨w, -, rfl⟩ := (Part.takes_segment_iff hp).mp hs
          obtain rfl : String.ofList w = v := Option.some.inj ((hvalue p rfl).trans hv)
          have hshares := shares_segment hp hv (hreach ▸ hadmits) hback.1.1
            (ih h.behind (hlater (Or.inr hp)) hback)
          rw [String.toList_ofList] at hshares
          rw [Slice.text_value]
          exact hshares
      | false =>
        by_cases hreach : p.reach = .rest
        · exact absurd (hsteady.kept hreach) (hlater (Or.inl hreach))
        · exact shares_optional hrequired hreach hrefills (hsteady.text hreach hrequired) hfinds

end

end RouteDispatch.Template
