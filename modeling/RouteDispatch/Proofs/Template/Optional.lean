/-
# What optional parts take

In front of a slash, an optional segment that has a value takes all of it, and
perhaps the slash as well (`CutsBest.behind_part`); one that is absent takes nothing
or the slash (`Part.Takes.of_slash`).  Slashes alone have no values, but in a rest
(`values_of_slashes`).
-/
import RouteDispatch.Proofs.Template.Kept

namespace RouteDispatch.Template

open Text Regex

/-! ## Best cuttings -/

/-- Of a text that can be cut there is a best cutting. -/
theorem exists_best {items : List Item} {slices : List Slice} {text : List Char}
    (h : Cuts items slices text) : ∃ others, CutsBest items others text := by
  have hsearch := search_items items text
  cases hfound : (Expr.row (.edge .textStart ::
      (exprsFrom 1 items ++ [.edge .textEnd]))).search text with
  | none =>
    rw [hfound] at hsearch
    exact (hsearch slices h).elim
  | some trail =>
    rw [hfound] at hsearch
    obtain ⟨others, hbest, -⟩ := hsearch
    exact ⟨others, hbest⟩

/-- A segment, perhaps with the slash behind it, that is as long as one with which the text begins is
the same. -/
theorem segment_eq_of_long {v w slash rest : List Char} (hv : Reach.segment.Admits v)
    (hw : Reach.segment.Admits w) (hslash : slash = [] ∨ slash = ['/'])
    (hrest : rest = [] ∨ ∃ u, rest = '/' :: u) (hpre : w ++ slash <+: v ++ rest)
    (hlong : v.length ≤ (w ++ slash).length) : w = v := by
  have hshort : v <+: w := by
    by_cases hle : v.length ≤ w.length
    · exact List.prefix_of_prefix_length_le (List.prefix_append v rest)
        ((List.prefix_append w slash).trans hpre) hle
    · rcases hslash with rfl | rfl
      · exact absurd hlong (by simpa using hle)
      · have hin : w ++ ['/'] <+: v := by
          refine List.prefix_of_prefix_length_le hpre (List.prefix_append v rest) ?_
          simp only [List.length_append, List.length_singleton]
          omega
        have hstop := hv.not_stop '/' (hin.mem (by simp))
        exact absurd hstop (by decide)
  obtain ⟨x, rfl⟩ := hshort
  rw [List.append_assoc, List.prefix_append_right_inj] at hpre
  cases x with
  | nil => exact List.append_nil v
  | cons c x =>
    have hc := hw.not_stop c (List.mem_append_right _ List.mem_cons_self)
    rcases hrest with rfl | ⟨u, rfl⟩
    · cases List.prefix_nil.mp hpre
    · rw [(List.cons_prefix_cons.mp hpre).1] at hc
      exact absurd hc (by decide)

section
variable {p : Part} {s : Slice}

theorem isSoft_of_optional (h : p.required = false) : p.isSoft = true := by
  rw [Part.isSoft, h]
  rfl

/-- A value that a part takes is one that it admits, but for the empty one of a query. -/
theorem Part.Takes.admits (h : p.Takes s) {v : List Char} (hv : s.value = some v)
    (hreach : p.reach ≠ .query) : p.reach.Admits v := by
  have hholds : p.Holds (some (.ofList v)) := ⟨s, h, by rw [hv]; rfl⟩
  have hadmits := hholds.admits hreach
  rwa [String.toList_ofList] at hadmits

/-- A query that has a value has its mark before it. -/
theorem Part.Takes.query_text (h : p.Takes s) (hquery : p.reach = .query) {v : List Char}
    (hv : s.value = some v) : s.text = '?' :: v := by
  rw [Part.Takes, hquery] at h
  have hmark : ∀ w, s = { before := ['?'], value := some w } → s.text = '?' :: v := by
    rintro w rfl
    obtain rfl := Option.some.inj hv
    exact congrArg ('?' :: ·) (List.append_nil w)
  cases hrequired : p.required with
  | true =>
    rw [hrequired] at h
    obtain ⟨w, -, hs⟩ := h
    exact hmark w hs
  | false =>
    rw [hrequired] at h
    obtain rfl | ⟨w, -, hs⟩ := h
    · cases hv
    · exact hmark w hs

/-- Where the text begins with a slash, an optional part other than a rest has no value. -/
theorem Part.Takes.of_slash (h : p.Takes s) (hoptional : p.required = false)
    (hrest : p.reach ≠ .rest) {text : List Char} (hpre : s.text <+: text)
    (htext : text = [] ∨ ∃ u, text = '/' :: u) :
    s.value = none ∧ (s.text = [] ∨ p.reach = .segment ∧ s.text = ['/']) := by
  have hhead : ∀ c u, s.text = c :: u → c = '/' := by
    intro c u hs
    rw [hs] at hpre
    rcases htext with rfl | ⟨x, rfl⟩
    · cases List.prefix_nil.mp hpre
    · exact (List.cons_prefix_cons.mp hpre).1
  cases hreach : p.reach with
  | rest => exact absurd hreach hrest
  | query =>
    cases hv : s.value with
    | some v => cases hhead _ _ (h.query_text hreach hv)
    | none =>
      rw [Part.Takes, hreach, hoptional] at h
      obtain rfl | ⟨v, -, rfl⟩ := h
      · exact ⟨rfl, Or.inl rfl⟩
      · cases hv
  | segment =>
    obtain ⟨slash, hslash, rfl | ⟨v, hv, rfl⟩⟩ := (Part.takes_optional_iff ⟨hreach, hoptional⟩).mp h
    · exact ⟨rfl, hslash.imp_right fun hslash => ⟨rfl, hslash⟩⟩
    · obtain ⟨c, u, rfl, hc⟩ := hv.exists_cons
      exact absurd (hhead c (u ++ slash) rfl) hc

/-- A part that takes nothing but slashes has no value, unless it is a rest and takes some. -/
theorem Part.Takes.value_of_slashes (h : p.Takes s) (hslashes : ∀ c ∈ s.text, c = '/')
    (hrest : s.text = [] ∨ p.reach ≠ .rest) : s.value = none := by
  cases hv : s.value with
  | none => rfl
  | some v =>
    exfalso
    have hmem : ∀ c ∈ v, c ∈ s.text := by
      intro c hc
      rw [Slice.text, hv]
      exact List.mem_append_right _ (List.mem_append_left _ hc)
    cases hreach : p.reach with
    | query =>
      rw [h.query_text hreach hv] at hslashes
      cases hslashes '?' List.mem_cons_self
    | segment =>
      have hadmits := h.admits hv (by rw [hreach]; decide)
      obtain ⟨c, u, rfl⟩ := List.exists_cons_of_ne_nil hadmits.1
      obtain rfl := hslashes c (hmem c List.mem_cons_self)
      rw [hreach] at hadmits
      exact absurd (hadmits.2 '/' List.mem_cons_self) (by decide)
    | rest =>
      have hadmits := h.admits hv (by rw [hreach]; decide)
      obtain ⟨c, u, rfl⟩ := List.exists_cons_of_ne_nil hadmits.1
      have hempty := hrest.resolve_right (absurd hreach) ▸ hmem c List.mem_cons_self
      cases hempty

/-- Of a value and what stands behind it, a slice that is long enough takes the value. -/
theorem value_of_longest (hp : p.reach = .segment ∧ p.required = false) {v rest : List Char}
    (hv : Reach.segment.Admits v) (hrest : rest = [] ∨ ∃ u, rest = '/' :: u) (hs : p.Takes s)
    (hpre : s.text <+: v ++ rest) (hlong : v.length ≤ s.text.length) :
    s.value = some v ∧ (s.text = v ∨ s.text = v ++ ['/']) := by
  obtain ⟨slash, hslash, rfl | ⟨w, hw, rfl⟩⟩ := (Part.takes_optional_iff hp).mp hs
  · exfalso
    obtain ⟨c, u, rfl, hc⟩ := hv.exists_cons
    change slash <+: _ at hpre
    change _ ≤ slash.length at hlong
    rcases hslash with rfl | rfl
    · exact absurd hlong (by simp)
    · exact hc (List.cons_prefix_cons.mp hpre).1.symm
  · obtain rfl : w = v := segment_eq_of_long hv hw hslash hrest hpre hlong
    refine ⟨rfl, ?_⟩
    rcases hslash with rfl | rfl
    · exact Or.inl (List.append_nil w)
    · exact Or.inr rfl

end

/-! ## Slices of a best cutting -/

section
variable {items : List Item} {slices : List Slice}

theorem valuesOf_eq_nil {text : List Char} (h : Cuts items slices text)
    (hparts : partsOf items = []) : valuesOf items slices = [] := by
  have hholds := holds_of_takeAll h.1
  rw [hparts] at hholds
  exact List.forall₂_nil_left_iff.mp hholds

/-- The best cutting takes a slash at the start if it can go on from there. -/
theorem CutsBest.takes_slash {written text rest : List Char} {s : Slice}
    (h : CutsBest (.slash true written :: items) (s :: slices) text) (htext : text = '/' :: rest)
    (hgo : ∃ others, Cuts items others rest) : s = { before := ['/'] } := by
  rcases cuts_slash_cons h.1 with ⟨back, text', heq, -⟩ | ⟨-, back, heq, hback⟩
  · exact (List.cons.inj heq).1
  · obtain ⟨rfl, rfl⟩ := List.cons.inj heq
    obtain ⟨others, hothers⟩ := hgo
    rw [htext] at h
    have hlonger := h.2 ({ before := ['/'] } :: others)
      (Cuts.append (cuts_slash.mpr (Or.inl ⟨rfl, rfl⟩)) hothers)
    rcases hlonger with hlt | ⟨heq, -⟩
    · exact absurd hlt (Nat.not_lt_zero _)
    · exact heq

/-- The best cutting takes a whole value for an optional segment if it can go on from there. -/
theorem CutsBest.behind_part {p : Part} (hp : p.reach = .segment ∧ p.required = false)
    {v rest : List Char} (hv : Reach.segment.Admits v)
    (hrest : rest = [] ∨ ∃ u, rest = '/' :: u) (hgo : ∃ others, Cuts items others rest)
    (h : CutsBest (.part p :: items) slices (v ++ rest)) :
    ∃ s back y text, slices = s :: back ∧ s.value = some v ∧ CutsBest items back text ∧
      rest = y ++ text ∧ (y = [] ∨ y = ['/']) := by
  obtain ⟨s, back, rfl⟩ := h.1.exists_cons
  obtain ⟨others, hothers⟩ := hgo
  have hquery : p.reach ≠ .query := by
    rw [hp.1]
    decide
  have hwhole := cuts_value (p.takes_value hquery (hp.1 ▸ hv))
  have hlong : v.length ≤ s.text.length := by
    rcases h.2 _ (hwhole.append hothers) with hlt | ⟨rfl, -⟩
    · rw [Slice.text_value] at hlt
      exact Nat.le_of_lt hlt
    · exact Nat.le_of_eq (congrArg List.length (Slice.text_value v)).symm
  obtain ⟨⟨hs, hback⟩, htext⟩ := h.1
  rw [List.flatMap_cons] at htext
  obtain ⟨hsome, hstext⟩ := value_of_longest hp hv hrest hs ⟨_, htext⟩ hlong
  rw [← htext] at h
  have hbest := CutsBest.behind (cuts_singleton hs) ⟨hback, rfl⟩ h
  rcases hstext with hstext | hstext
  · rw [hstext] at htext
    exact ⟨s, back, [], _, rfl, hsome, hbest, (List.append_cancel_left htext).symm, Or.inl rfl⟩
  · rw [hstext, List.append_assoc] at htext
    exact ⟨s, back, ['/'], _, rfl, hsome, hbest, (List.append_cancel_left htext).symm, Or.inr rfl⟩

/-- Slashes have no values, but in a rest. -/
theorem values_of_slashes {text : List Char} (h : Cuts items slices text)
    (hslashes : ∀ c ∈ text, c = '/') (hrests : text = [] ∨ ∀ p ∈ partsOf items, p.reach ≠ .rest) :
    valuesOf items slices = (partsOf items).map fun _ => none := by
  induction items generalizing slices text with
  | nil => cases slices <;> rfl
  | cons item items ih =>
    obtain ⟨s, slices, rfl⟩ := h.exists_cons
    obtain ⟨⟨hs, hslices⟩, rfl⟩ := h
    obtain ⟨hfirst, hslashes⟩ := List.forall_mem_append.mp hslashes
    have hnil : (s :: slices).flatMap Slice.text = [] →
        s.text = [] ∧ slices.flatMap Slice.text = [] := List.append_eq_nil_iff.mp
    cases item with
    | text t => exact ih ⟨hslices, rfl⟩ hslashes (hrests.imp_left fun h => (hnil h).2)
    | slash mayMiss written =>
      exact ih ⟨hslices, rfl⟩ hslashes (hrests.imp_left fun h => (hnil h).2)
    | part p =>
      have hvalue := Part.Takes.value_of_slashes hs hfirst
        (hrests.imp (fun h => (hnil h).1) fun h => h p List.mem_cons_self)
      have hlater := ih ⟨hslices, rfl⟩ hslashes
        (hrests.imp (fun h => (hnil h).2) fun h q hq => h q (List.mem_cons_of_mem _ hq))
      rw [valuesOf, hvalue, hlater]
      rfl

end

end RouteDispatch.Template
