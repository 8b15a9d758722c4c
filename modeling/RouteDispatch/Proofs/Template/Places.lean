/-
# Where the groups of a plain template match

The marks of one item are apart from those of the others, so the group of a part is
marked where the part has its value (`places_trailOf`).  With the text before and
behind it that place says more than the value: the same value may stand in
several places of a request.
-/
import RouteDispatch.Proofs.Template.Match

namespace RouteDispatch

/-! ## Places -/

/-- What a group matched, between the text before it and the text behind it. -/
structure Place where
  before : List Char
  value : List Char
  after : List Char
deriving DecidableEq

namespace Regex

/-- The place between two marks, each given by how much of the text is left there. -/
def placeOf (text : List Char) (first last : Nat) : Place where
  before := text.take (text.length - first)
  value := (text.drop (text.length - first)).take (first - last)
  after := text.drop (text.length - last)

/-- Where the groups matched at the preferred match in a text. -/
def places? (r : Regex) (text : String) : Option (List (Option Place)) :=
  (r.expr.search text.toList).map fun trail =>
    (List.range r.groupCount).map fun i =>
      (Trail.span? trail (i + 1)).map fun (first, last) => placeOf text.toList first last

/-- The groups have what is at their places. -/
theorem captures?_eq_places (r : Regex) (text : String) :
    r.captures? text =
      (r.places? text).map (List.map (Option.map fun place => .ofList place.value)) := by
  rw [captures?, places?, Option.map_map]
  cases r.expr.search text.toList with
  | none => rfl
  | some trail =>
    rw [Option.map_some, Option.map_some, Function.comp, Trail.captures, List.map_map]
    refine congrArg some (List.map_congr_left fun i _ => ?_)
    rw [Function.comp, Option.map_map]
    rfl

end Regex

namespace Template

open Regex

/-- Where the parts have their values, if this text is before the slices. -/
def placesOf : (before : List Char) → List Item → List Slice → List (Option Place)
  | before, .part _ :: items, s :: slices =>
    s.value.map (⟨before ++ s.before, ·, s.after ++ slices.flatMap Slice.text⟩) ::
      placesOf (before ++ s.text) items slices
  | before, _ :: items, s :: slices => placesOf (before ++ s.text) items slices
  | _, _, _ => []

theorem valuesOf_eq_places (before : List Char) (items : List Item) (slices : List Slice) :
    valuesOf items slices =
      (placesOf before items slices).map (Option.map fun place => .ofList place.value) := by
  fun_induction placesOf before items slices with
  | case1 before p items s slices ih =>
    rw [valuesOf, List.map_cons, ← ih, Option.map_map]
    rfl
  | case2 before item items s slices hpart ih =>
    cases item with
    | part p => exact (hpart p rfl).elim
    | text t => exact ih
    | slash mayMiss written => exact ih
  | case3 before items slices => cases items <;> cases slices <;> simp_all [valuesOf]

/-! ## Marks of a group -/

theorem find?_of_group_ne {marks : Trail} {n : Nat} (h : ∀ m ∈ marks, m.group ≠ n)
    (p : Mark → Bool) : marks.reverse.find? (fun m => m.group == n && p m) = none := by
  refine List.find?_eq_none.mpr fun m hm => ?_
  simp [h m (List.mem_reverse.mp hm)]

/-- Marks of other groups do not count in front of those of a group. -/
theorem span?_append_of_ne {first second : Trail} {n : Nat} (h : ∀ m ∈ first, m.group ≠ n) :
    Trail.span? (first ++ second) n = Trail.span? second n := by
  simp only [Trail.span?, List.reverse_append, List.find?_append, find?_of_group_ne h,
    Option.or_none]

/-- Marks of other groups do not count behind those of a group. -/
theorem span?_append_of_ne' {first second : Trail} {n : Nat} (h : ∀ m ∈ second, m.group ≠ n) :
    Trail.span? (first ++ second) n = Trail.span? first n := by
  simp only [Trail.span?, List.reverse_append, List.find?_append, find?_of_group_ne h,
    Option.none_or]

theorem Slice.group_of_mem_trail {n left : Nat} {s : Slice} {m : Mark} (h : m ∈ s.trail n left) :
    m.group = n := by
  unfold trail at h
  split at h
  · cases h
  · rcases List.mem_cons.mp h with rfl | h
    · rfl
    · rw [List.mem_singleton.mp h]

theorem le_group_of_mem_trailOf {n left : Nat} {items : List Item} {slices : List Slice} {m : Mark}
    (h : m ∈ trailOf n left items slices) : n ≤ m.group := by
  induction items generalizing n left slices with
  | nil => cases h
  | cons item items ih =>
    cases slices with
    | nil => cases h
    | cons s slices =>
      rcases List.mem_append.mp h with h | h
      · exact Nat.le_of_eq (Slice.group_of_mem_trail h).symm
      · exact Nat.le_of_add_right_le (ih h)

/-! ## Marks of a cutting -/

/-- The marks of a slice are where its value is. -/
theorem place_slice (n : Nat) (before : List Char) (s : Slice) (behind : List Char) :
    (Trail.span? (s.trail n (s.text ++ behind).length) n).map (fun (first, last) =>
      placeOf (before ++ (s.text ++ behind)) first last) =
        s.value.map (⟨before ++ s.before, ·, s.after ++ behind⟩) := by
  obtain ⟨lead, value, after⟩ := s
  cases value with
  | none => rfl
  | some v =>
    have hspan : ∀ first last : Nat,
        Trail.span? [⟨n, true, first⟩, ⟨n, false, last⟩] n = some (first, last) := by
      intro first last
      simp [Trail.span?]
    have htext : (⟨lead, some v, after⟩ : Slice).text ++ behind =
        lead ++ (v ++ (after ++ behind)) := by
      simp [Slice.text]
    show (Trail.span? [_, _] n).map _ = some _
    rw [hspan, htext, Option.map_some]
    show some (placeOf (before ++ (lead ++ (v ++ (after ++ behind)))) _ _) = _
    rw [placeOf, ← List.append_assoc before]
    -- What is left at the two marks, counted from the start of the text instead.
    have hfirst : ((before ++ lead) ++ (v ++ (after ++ behind))).length -
        ((lead ++ (v ++ (after ++ behind))).length - lead.length) = (before ++ lead).length := by
      simp only [List.length_append]
      omega
    have hspread : (lead ++ (v ++ (after ++ behind))).length - lead.length -
        ((lead ++ (v ++ (after ++ behind))).length - lead.length - v.length) = v.length := by
      simp only [List.length_append]
      omega
    have hlast : ((before ++ lead) ++ (v ++ (after ++ behind))).length -
        ((lead ++ (v ++ (after ++ behind))).length - lead.length - v.length) =
          ((before ++ lead) ++ v).length := by
      simp only [List.length_append]
      omega
    rw [hfirst, hspread, hlast, List.drop_left, List.take_left, List.take_left,
      ← List.append_assoc _ v, List.drop_left]

/-- Only parts have a group. -/
theorem Item.groups_cases (item : Item) : item.groups = 0 ∨ ∃ p, item = .part p := by
  cases item with
  | text t => exact Or.inl rfl
  | slash mayMiss written => exact Or.inl rfl
  | part p => exact Or.inr ⟨p, rfl⟩

theorem Item.value_of_takes {item : Item} {s : Slice} (h : item.Takes s)
    (hgroups : item.groups = 0) : s.value = none := by
  cases item with
  | text t => exact congrArg Slice.value h
  | slash mayMiss written => rcases h with rfl | ⟨-, rfl⟩ <;> rfl
  | part p => cases hgroups

theorem placesOf_of_groups_eq_zero {item : Item} (h : item.groups = 0) (before : List Char)
    (items : List Item) (s : Slice) (slices : List Slice) :
    placesOf before (item :: items) (s :: slices) = placesOf (before ++ s.text) items slices := by
  cases item with
  | text t => rfl
  | slash mayMiss written => rfl
  | part p => cases h

theorem trailOf_cons (n : Nat) (item : Item) (items : List Item) (s : Slice)
    (slices : List Slice) :
    trailOf n ((s :: slices).flatMap Slice.text).length (item :: items) (s :: slices) =
      s.trail n (s.text ++ slices.flatMap Slice.text).length ++
        trailOf (n + item.groups) (slices.flatMap Slice.text).length items slices := by
  rw [trailOf, List.flatMap_cons, List.length_append, Nat.add_sub_cancel_left]

/-- The groups of the trail of a cutting match where its values are. -/
theorem places_trailOf {items : List Item} {slices : List Slice} (h : TakeAll items slices)
    (n : Nat) (before : List Char) :
    (List.range (groupsOf items)).map (fun i =>
      (Trail.span? (trailOf n (slices.flatMap Slice.text).length items slices) (i + n)).map
        fun (first, last) => placeOf (before ++ slices.flatMap Slice.text) first last) =
      placesOf before items slices := by
  induction items generalizing n before slices with
  | nil => cases slices <;> rfl
  | cons item items ih =>
    cases slices with
    | nil => exact h.elim
    | cons s slices =>
      obtain ⟨htakes, hall⟩ := h
      have hrest := ih hall (n + item.groups) (before ++ s.text)
      rw [List.append_assoc] at hrest
      rw [trailOf_cons, List.flatMap_cons, groupsOf]
      rcases item.groups_cases with hgroups | ⟨p, rfl⟩
      · rw [Slice.trail, Item.value_of_takes htakes hgroups, List.nil_append,
          placesOf_of_groups_eq_zero hgroups, hgroups, Nat.zero_add]
        rwa [hgroups] at hrest
      · rw [Item.groups, Nat.add_comm 1, List.range_succ_eq_map, List.map_cons, List.map_map,
          placesOf]
        congr 1
        · rw [Nat.zero_add, span?_append_of_ne', place_slice]
          intro m hm
          exact Nat.ne_of_gt (le_group_of_mem_trailOf hm)
        · rw [← hrest]
          refine List.map_congr_left ?_
          intro i _
          have hnumber : i.succ + n = i + (n + 1) := by omega
          rw [Function.comp, hnumber, span?_append_of_ne]
          · rfl
          · intro m hm
            rw [Slice.group_of_mem_trail hm]
            omega

end Template

end RouteDispatch
