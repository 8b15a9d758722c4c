/-
# Parts that are filled in as they were cut

A rest takes its value and nothing else, and so does a required segment.  Where all
parts are of this kind, and no slash between them may be missing, what is filled in
differs from the request by no more than a slash at either end
(`foldr_onto_of_kept`).  The best cutting carries over from the one to the other as
long as the last part cannot take in the slash that was put there, and did not
take in the one that was taken away (`best_of_kept`).
-/
import RouteDispatch.Proofs.Template.Preference
import RouteDispatch.Proofs.Template.Rereading

namespace RouteDispatch.Template

open Text Regex

/-! ## What parts take -/

section
variable {p : Part} {s : Slice}

/-- A rest may take a slash more. -/
theorem Part.Takes.with_slash (h : p.Takes s) (hp : p.reach = .rest) :
    p.Takes { value := some (s.text ++ ['/']) } := by
  have hslash : Reach.rest.admits '/' = true := rfl
  refine (Part.takes_rest_iff hp).mpr (Or.inr ⟨_, ⟨by simp, ?_⟩, rfl⟩)
  rcases (Part.takes_rest_iff hp).mp h with ⟨-, rfl⟩ | ⟨v, hv, rfl⟩
  · exact List.forall_mem_singleton.mpr hslash
  · rw [Slice.text_value]
    exact List.forall_mem_append.mpr ⟨hv.2, List.forall_mem_singleton.mpr hslash⟩

theorem cuts_value {v : List Char} (hs : p.Takes { value := some v }) :
    Cuts [.part p] [{ value := some v }] v := by
  have hitem : (Item.part p).Takes { value := some v } := hs
  simpa only [Slice.text_value] using cuts_singleton hitem

theorem isSoft_of_required (h : p.required = true) (hreach : p.reach ≠ .query) :
    p.isSoft = false := by
  rw [Part.isSoft, h]
  cases hp : p.reach with
  | query => exact absurd hp hreach
  | segment => rfl
  | rest => rfl

end

/-! ## What is filled in as it was cut -/

/-- The part takes its value and nothing else. -/
def Part.Kept (p : Part) : Prop := p.reach = .rest ∨ (p.reach = .segment ∧ p.required = true)

/-- What is written for the item is what it took. -/
def Item.Kept : Item → Prop
  | text _ => True
  | slash mayMiss written => mayMiss = false ∧ written = ['/']
  | part p => p.Kept

theorem Part.Kept.text_eq {p : Part} (h : p.Kept) {s : Slice} (hs : p.Takes s) :
    s.text = s.value.getD [] := by
  rcases h with hreach | hsegment
  · rcases (Part.takes_rest_iff hreach).mp hs with ⟨-, rfl⟩ | ⟨v, -, rfl⟩
    · rfl
    · exact Slice.text_value v
  · obtain ⟨v, -, rfl⟩ := (Part.takes_segment_iff hsegment).mp hs
    exact Slice.text_value v

/-- A value of a slice is written again as it stands there. -/
theorem filling_of_value {p : Part} {given : String → Option String} {s : Slice}
    (h : s.value.map String.ofList = given (.ofList p.label)) :
    p.filling given = s.value.getD [] := by
  rw [Part.filling, ← h]
  cases s.value with
  | none => rfl
  | some v => exact String.toList_ofList

/-- Where all is kept, values are filled in as they were cut. -/
theorem foldr_onto_of_kept {given : String → Option String} {items : List Item}
    (h : ∀ item ∈ items, item.Kept) {slices : List Slice} (hall : TakeAll items slices)
    (hvalues : valuesOf items slices = (partsOf items).map fun p => given (.ofList p.label))
    (rest : List Char) :
    items.foldr (Item.onto given) rest = slices.flatMap Slice.text ++ rest := by
  induction items generalizing slices with
  | nil =>
    cases slices with
    | nil => rfl
    | cons s slices => exact hall.elim
  | cons item items ih =>
    obtain ⟨s, slices, rfl⟩ : ∃ s rest, slices = s :: rest := by
      cases slices with
      | nil => exact hall.elim
      | cons s slices => exact ⟨s, slices, rfl⟩
    obtain ⟨htakes, hall⟩ := hall
    obtain ⟨hitem, hitems⟩ := List.forall_mem_cons.mp h
    have hrest := ih hitems hall
    rw [List.foldr_cons, List.flatMap_cons, List.append_assoc]
    cases item with
    | text t =>
      obtain rfl := htakes
      rw [hrest hvalues]
      exact congrArg (· ++ _) (List.append_nil t).symm
    | slash mayMiss written =>
      obtain ⟨rfl, rfl⟩ := hitem
      obtain rfl := htakes.resolve_right fun h => nomatch h.1
      rw [hrest hvalues]
      rfl
    | part p =>
      obtain ⟨hvalue, hvalues⟩ := List.cons.inj hvalues
      rw [hrest hvalues, Item.onto, filling_of_value hvalue, hitem.text_eq htakes]

/-- A row that ends in a part ends with its slice. -/
theorem Cuts.last_part {items : List Item} {p : Part} {slices : List Slice} {text : List Char}
    (h : Cuts (items ++ [.part p]) slices text) :
    ∃ front before s, slices = front ++ [s] ∧ text = before ++ s.text ∧
      Cuts items front before ∧ p.Takes s := by
  obtain ⟨front, back, before, u, rfl, rfl, hfront, hback⟩ := cuts_append h
  obtain ⟨s, rest, rfl⟩ := hback.exists_cons
  obtain ⟨⟨hs, hrest⟩, rfl⟩ := hback
  cases rest with
  | cons s rest => exact hrest.elim
  | nil => exact ⟨front, before, s, rfl, by rw [List.flatMap_singleton], hfront, hs⟩

/-! ## Slashes more or less at the ends -/

theorem unmarked_nil : Unmarked [] := fun hin => absurd (List.eq_nil_of_infix_nil hin) (by decide)

/-- No marker goes over a slash. -/
theorem unmarked_slash {s u : List Char} : Unmarked (s ++ '/' :: u) ↔ Unmarked s ∧ Unmarked u := by
  constructor
  · intro h
    refine ⟨fun hin => h (hin.trans (List.prefix_append _ _).isInfix), fun hin => ?_⟩
    exact h (hin.trans ((List.suffix_cons _ _).trans (List.suffix_append _ _)).isInfix)
  · rintro ⟨hs, hu⟩ hin
    induction s with
    | nil =>
      rcases List.infix_cons_iff.mp hin with hpre | hin
      · exact absurd (List.cons_prefix_cons.mp hpre).1 (by decide)
      · exact hu hin
    | cons c s ih =>
      rcases List.infix_cons_iff.mp hin with hpre | hin
      · obtain ⟨rfl, hsecond⟩ := List.cons_prefix_cons.mp hpre
        rcases s with _ | ⟨d, s⟩
        · exact absurd (List.cons_prefix_cons.mp hsecond).1 (by decide)
        · obtain ⟨rfl, hthird⟩ := List.cons_prefix_cons.mp hsecond
          rcases s with _ | ⟨e, s⟩
          · exact absurd (List.cons_prefix_cons.mp hthird).1 (by decide)
          · obtain ⟨rfl, -⟩ := List.cons_prefix_cons.mp hthird
            exact hs ⟨[], s, rfl⟩
      · exact ih hs.tail hin

theorem Edge.unmarked {allowed : Prop} {edge s : List Char} (h : Edge allowed edge)
    (hs : Unmarked s) : Unmarked (s ++ edge) := by
  rcases h with rfl | ⟨-, rfl⟩
  · rwa [List.append_nil]
  · exact unmarked_slash.mpr ⟨hs, unmarked_nil⟩

theorem slashes_append_comm {y s : List Char} (hy : ∀ c ∈ y, c = '/') (hs : ∀ c ∈ s, c = '/') :
    y ++ s = s ++ y := by
  rw [List.eq_replicate_of_mem hy, List.eq_replicate_of_mem hs, List.replicate_append_replicate,
    List.replicate_append_replicate, Nat.add_comm]

/-- Text that some slashes in front of it shift is slashes, too. -/
theorem slashes_of_shift {y s u w : List Char} (hne : y ≠ []) (hy : ∀ c ∈ y, c = '/')
    (h : s ++ u = y ++ (s ++ w)) : ∀ c ∈ s, c = '/' := by
  induction s with
  | nil => exact List.forall_mem_nil _
  | cons d s ih =>
    obtain ⟨c, y, rfl⟩ := List.exists_cons_of_ne_nil hne
    obtain ⟨rfl, hrest⟩ := List.cons.inj h
    obtain ⟨rfl, hslashes⟩ := List.forall_mem_cons.mp hy
    have hcomm : y ++ ['/'] = '/' :: y :=
      slashes_append_comm hslashes (List.forall_mem_singleton.mpr rfl)
    refine List.forall_mem_cons.mpr ⟨rfl, ih ?_⟩
    rw [← hcomm, List.append_assoc]
    exact hrest

section
variable {allowed : Prop} [Decidable allowed]

/-- The best cutting with another slash at the end. -/
theorem best_swap_trail {items : List Item} {slices back : List Slice}
    {text edge edge' : List Char} (hcuts : Cuts items slices text)
    (hback : Cuts (if allowed then [.slash true []] else []) back edge)
    (h : CutsBest (items ++ if allowed then [.slash true []] else []) (slices ++ back)
      (text ++ edge)) (hedge' : Edge allowed edge')
    (hwith : allowed → edge' = ['/'] → ∀ others, ¬ Cuts items others (text ++ ['/']))
    (hwithout : edge' = [] → allowed → CutsBest (items ++ [.slash true []])
      (slices ++ [{ before := ['/'] }]) (text ++ ['/']) → text.getLast? ≠ some '/') :
    ∃ others, Cuts (if allowed then [.slash true []] else []) others edge' ∧
      CutsBest (items ++ if allowed then [.slash true []] else []) (slices ++ others)
        (text ++ edge') := by
  have hedge : Edge allowed edge := (reads_edge.mp ⟨back, hback, rfl⟩).1
  rcases hedge with rfl | ⟨hallowed, rfl⟩ <;> rcases hedge' with rfl | ⟨hallowed, rfl⟩
  · exact ⟨back, hback, h⟩
  · rw [if_pos hallowed] at hback h ⊢
    obtain ⟨rfl, -⟩ := (cuts_slash.mp hback).resolve_left nofun
    rw [List.append_nil] at h
    exact ⟨[{ before := ['/'] }], cuts_slash.mpr (Or.inl ⟨rfl, rfl⟩),
      h.with_trail hcuts (hwith hallowed rfl)⟩
  · rw [if_pos hallowed] at hback h ⊢
    obtain ⟨rfl, -⟩ := (cuts_slash.mp hback).resolve_right nofun
    rw [List.append_nil]
    exact ⟨[{}], cuts_slash.mpr (Or.inr ⟨rfl, rfl⟩),
      h.without_trail hcuts (hwithout rfl hallowed h)⟩
  · exact ⟨back, hback, h⟩

/-- The best cutting with another slash at the start. -/
theorem best_swap_lead {items : List Item} {slices : List Slice} {text edge : List Char}
    (h : CutsBest items slices text) (hedge : Edge allowed edge)
    (hnil : allowed → edge = [] → text.head? ≠ some '/') :
    ∃ front, Cuts (if allowed then [.slash true []] else []) front edge ∧
      CutsBest ((if allowed then [.slash true []] else []) ++ items) (front ++ slices)
        (edge ++ text) := by
  by_cases hallowed : allowed
  · rw [if_pos hallowed]
    rcases hedge with rfl | ⟨-, rfl⟩
    · exact ⟨[{}], cuts_slash.mpr (Or.inr ⟨rfl, rfl⟩), h.without_lead [] (hnil hallowed rfl)⟩
    · exact ⟨[{ before := ['/'] }], cuts_slash.mpr (Or.inl ⟨rfl, rfl⟩), h.with_lead []⟩
  · rw [if_neg hallowed]
    obtain rfl := hedge.resolve_right fun h => hallowed h.1
    exact ⟨[], ⟨trivial, rfl⟩, h⟩

/-- A slash at the start has no value. -/
theorem valuesOf_lead {items : List Item} {front slices : List Slice} {edge : List Char}
    (h : Cuts (if allowed then [.slash true []] else []) front edge) :
    valuesOf ((if allowed then [.slash true []] else []) ++ items) (front ++ slices) =
      valuesOf items slices := by
  have hnone := (reads_edge.mp ⟨front, h, rfl⟩).2
  rw [valuesOf_append h.1, hnone, List.nil_append]

/-- A slash at the end has no value. -/
theorem valuesOf_trail {items : List Item} {slices back : List Slice} {text edge : List Char}
    (hcuts : Cuts items slices text)
    (h : Cuts (if allowed then [.slash true []] else []) back edge) :
    valuesOf (items ++ if allowed then [.slash true []] else []) (slices ++ back) =
      valuesOf items slices := by
  have hnone := (reads_edge.mp ⟨back, h, rfl⟩).2
  rw [valuesOf_append hcuts.1, hnone, List.append_nil]

end

theorem Reach.Admits.reverse {reach : Reach} {v : List Char} (h : reach.Admits v) :
    reach.Admits v.reverse :=
  ⟨List.reverse_ne_nil_iff.mpr h.1, fun c hc => h.2 c (List.mem_reverse.mp hc)⟩

theorem cuts_text {s : List Char} {slices : List Slice} {text : List Char} :
    Cuts [.text s] slices text ↔ slices = [{ before := s }] ∧ text = s := by
  constructor
  · intro h
    obtain ⟨u, rest, rfl⟩ := h.exists_cons
    obtain ⟨⟨rfl, hrest⟩, rfl⟩ := h
    cases rest with
    | nil => exact ⟨rfl, (List.append_nil _).trans (List.append_nil s)⟩
    | cons v rest => exact hrest.elim
  · rintro ⟨rfl, rfl⟩
    exact ⟨⟨rfl, trivial⟩, (List.append_nil _).trans (List.append_nil text)⟩

/-- A slash more behind the text cannot be taken in by the items before. -/
theorem not_cuts_slash {inner : List Item} {tail : List Char} {slices : List Slice}
    {text : List Char} (hcuts : Cuts (inner ++ [.text tail]) slices text)
    (h : inner = [] ∨ ∃ items p, inner = items ++ [.part p] ∧ p.Kept ∧
      (p.reach = .rest → ∃ c ∈ tail, c ≠ '/')) (others : List Slice) :
    ¬ Cuts (inner ++ [.text tail]) others (text ++ ['/']) := by
  intro hothers
  obtain ⟨front, back, before, u, rfl, rfl, hfront, hback⟩ := cuts_append hcuts
  obtain ⟨front', back', before', u', rfl, htext, hfront', hback'⟩ := cuts_append hothers
  obtain ⟨-, rfl⟩ := cuts_text.mp hback
  obtain ⟨-, rfl⟩ := cuts_text.mp hback'
  rcases h with rfl | ⟨items, p, rfl, hp, htail⟩
  · obtain ⟨rfl, -⟩ := reads_nil.mp ⟨front, hfront, rfl⟩
    obtain ⟨rfl, -⟩ := reads_nil.mp ⟨front', hfront', rfl⟩
    have hlength := congrArg List.length htext
    simp at hlength
  · obtain ⟨-, start, s, -, rfl, -, hs⟩ := hfront'.last_part
    have hreverse := congrArg List.reverse htext
    simp only [List.reverse_append, List.reverse_cons, List.reverse_nil, List.nil_append,
      List.append_assoc] at hreverse
    rcases hp with hreach | hsegment
    · obtain ⟨c, hc, hne⟩ := htail hreach
      have hslashes := slashes_of_shift (List.cons_ne_nil '/' [])
        (List.forall_mem_singleton.mpr rfl) hreverse.symm
      exact hne (hslashes c (List.mem_reverse.mpr hc))
    · obtain ⟨v, hv, rfl⟩ := (Part.takes_segment_iff hsegment).mp hs
      obtain ⟨c, w, hw, hc⟩ := hv.reverse.exists_cons
      rw [Slice.text_value, hw] at hreverse
      exact shifted_ne _ hc _ _ hreverse.symm

/-- A rest takes in the slash behind it, for that is preferred. -/
theorem CutsBest.rest_takes_slash {items : List Item} {p : Part} (hreach : p.reach = .rest)
    {front : List Slice} {before : List Char} {s : Slice} (hfront : Cuts items front before)
    (hs : p.Takes s)
    (h : CutsBest (((items ++ [.part p]) ++ [.text []]) ++ [.slash true []])
      (((front ++ [s]) ++ [{ before := [] }]) ++ [{ before := ['/'] }])
      (((before ++ s.text) ++ []) ++ ['/'])) : False := by
  have hpart := cuts_value (hs.with_slash hreach)
  have hnone : Cuts [.slash true []] [({} : Slice)] [] := cuts_slash.mpr (Or.inr ⟨rfl, rfl⟩)
  have hothers :=
    ((hfront.append hpart).append (cuts_text.mpr (And.intro rfl (Eq.refl [])))).append hnone
  simp only [List.append_assoc, List.append_nil] at hothers h
  rcases (prefers_append_left front).mp (h.2 _ hothers) with hlonger | ⟨hsame, -⟩
  · rw [Slice.text_value, List.length_append] at hlonger
    exact absurd hlonger (by simp)
  · have hlength := congrArg (List.length ∘ Slice.text) hsame
    simp only [Function.comp, Slice.text_value, List.length_append] at hlength
    exact absurd hlength (by simp)

/-- Where the slash at the end may be left out, the text before ends in no other one: a rest would
have taken it in. -/
theorem getLast?_ne_slash {inner : List Item} {tail : List Char} {slices : List Slice}
    {text : List Char} (hcuts : Cuts (inner ++ [.text tail]) slices text)
    (hbest : CutsBest ((inner ++ [.text tail]) ++ [.slash true []])
      (slices ++ [{ before := ['/'] }]) (text ++ ['/']))
    (h : inner = [] ∨ ∃ items p, inner = items ++ [.part p] ∧ p.Kept)
    (htail : tail.getLast? ≠ some '/') : text.getLast? ≠ some '/' := by
  obtain ⟨front, back, before, u, rfl, rfl, hfront, hback⟩ := cuts_append hcuts
  obtain ⟨rfl, rfl⟩ := cuts_text.mp hback
  rw [List.getLast?_append]
  cases hlast : u.getLast? with
  | some c =>
    rw [hlast] at htail
    exact htail
  | none =>
    obtain rfl := List.getLast?_eq_none_iff.mp hlast
    rcases h with rfl | ⟨items, p, rfl, hp⟩
    · obtain ⟨rfl, -⟩ := reads_nil.mp ⟨front, hfront, rfl⟩
      nofun
    · obtain ⟨first, start, s, rfl, rfl, hfirst, hs⟩ := hfront.last_part
      rcases hp with hreach | hsegment
      · exact (hbest.rest_takes_slash hreach hfirst hs).elim
      · obtain ⟨v, hv, rfl⟩ := (Part.takes_segment_iff hsegment).mp hs
        obtain ⟨c, w, hw, hc⟩ := hv.reverse.exists_cons
        have hend : v = w.reverse ++ [c] := by
          rw [← List.reverse_reverse v, hw, List.reverse_cons]
        rw [Slice.text_value, hend, Option.none_or, ← List.append_assoc, List.getLast?_concat]
        exact fun h => hc (Option.some.inj h)

/-! ## Rows of kept items -/

/-- The row ends in a part.  If it is a rest, the text behind it is not slashes alone where a
request may have one more or less. -/
def Closed (allowed : Prop) (rest : List Char) (items : List Item) : Prop :=
  ∀ front item, items = front ++ [item] → ∃ p, item = .part p ∧
    (p.reach = .rest → allowed → rest = [] ∨ ∃ c ∈ rest, c ≠ '/')

theorem Closed.tail {allowed : Prop} {rest : List Char} {item : Item} {items : List Item}
    (h : Closed allowed rest (item :: items)) : Closed allowed rest items :=
  fun front last heq => h (item :: front) last (congrArg (item :: ·) heq)

/-- What stands behind the last part: text, and a slash where it is allowed. -/
def ends (allowed : Prop) [Decidable allowed] (tail : List Char) : List Item :=
  .text tail :: if allowed then [.slash true []] else []

/-- The values of kept items are those of the best cutting again. -/
theorem best_of_kept {allowed : Prop} [Decidable allowed] {items : List Item}
    (hkept : ∀ item ∈ items, item.Kept) {tail edge : List Char}
    (hclosed : Closed allowed (tail ++ edge) items) (hedge : Edge allowed edge)
    (htail : allowed → edge = [] → tail.getLast? ≠ some '/') {slices : List Slice}
    {text : List Char} (hbest : CutsBest (items ++ ends allowed tail) slices text)
    {given : String → Option String} (hvalues : valuesOf (items ++ ends allowed tail) slices =
      (partsOf items).map fun p => given (.ofList p.label)) :
    ∃ others, CutsBest (items ++ ends allowed tail) others
        (items.foldr (Item.onto given) (tail ++ edge)) ∧
      valuesOf (items ++ ends allowed tail) others = valuesOf (items ++ ends allowed tail) slices := by
  have hsplit : items ++ ends allowed tail =
      (items ++ [.text tail]) ++ if allowed then [.slash true []] else [] :=
    (List.append_assoc items [.text tail] _).symm
  rw [hsplit] at hbest hvalues ⊢
  obtain ⟨front, back, x, w, rfl, rfl, hfront, hback⟩ := cuts_append hbest.1
  have hitems : ∀ item ∈ items ++ [.text tail], item.Kept :=
    List.forall_mem_append.mpr ⟨hkept, List.forall_mem_singleton.mpr trivial⟩
  have hparts : partsOf (items ++ [.text tail]) = partsOf items :=
    (partsOf_append _ _).trans (List.append_nil _)
  rw [valuesOf_trail hfront hback, ← hparts] at hvalues
  have hfilled := foldr_onto_of_kept hitems hfront.1 hvalues edge
  rw [hfront.2, List.foldr_append] at hfilled
  have hwith : allowed → edge = ['/'] →
      ∀ others, ¬ Cuts (items ++ [.text tail]) others (x ++ ['/']) := by
    rintro hallowed rfl
    refine not_cuts_slash hfront ?_
    rcases List.eq_nil_or_concat items with hnil | ⟨start, item, hitem⟩
    · exact Or.inl hnil
    · rw [List.concat_eq_append] at hitem
      obtain ⟨p, rfl, hrest⟩ := hclosed start item hitem
      refine Or.inr ⟨start, p, hitem, hkept (.part p) (by simp [hitem]), fun hreach => ?_⟩
      obtain ⟨c, hc, hne⟩ := (hrest hreach hallowed).resolve_left (by simp)
      rcases List.mem_append.mp hc with hc | hc
      · exact ⟨c, hc, hne⟩
      · exact absurd (List.mem_singleton.mp hc) hne
  have hwithout : edge = [] → allowed →
      CutsBest ((items ++ [.text tail]) ++ [.slash true []]) (front ++ [{ before := ['/'] }])
        (x ++ ['/']) → x.getLast? ≠ some '/' := by
    rintro rfl hallowed hslash
    refine getLast?_ne_slash hfront hslash ?_ (htail hallowed rfl)
    rcases List.eq_nil_or_concat items with hnil | ⟨start, item, hitem⟩
    · exact Or.inl hnil
    · rw [List.concat_eq_append] at hitem
      obtain ⟨p, rfl, -⟩ := hclosed start item hitem
      exact Or.inr ⟨start, p, hitem, hkept (.part p) (by simp [hitem])⟩
  obtain ⟨back', hback', hbest'⟩ := best_swap_trail hfront hback hbest hedge hwith hwithout
  refine ⟨front ++ back', ?_, ?_⟩
  · have htext : items.foldr (Item.onto given) (tail ++ edge) = x ++ edge := hfilled
    rwa [htext]
  · rw [valuesOf_trail hfront hback', valuesOf_trail hfront hback]

end RouteDispatch.Template
