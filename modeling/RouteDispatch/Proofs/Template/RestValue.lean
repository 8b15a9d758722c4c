/-
# The value of a rest

A rest among required segments takes all that they leave, as one value, whatever
slashes and question marks are in it.  The segments before it end at the next slash,
so it begins where they end.

Where it ends is settled by the segments behind it.  They need as many slashes as
there are of them (`length_le_count_of_cuts`), and behind the value there are no
more, so a rest that went on past its value would leave too few.

An optional rest is the last part.  If there is nothing for it but a slash, then the
slash before it takes that one, so it has no value and not an empty one.

Where there is no room for the segments around it, a rest has no value either, for
there is no matcher (`not_captures_of_rest`).
-/
import RouteDispatch.Proofs.Template.Room

namespace RouteDispatch.Template

open Text Regex

/-! ## Where a rest ends -/

/-- Every required segment has a slash before it. -/
theorem length_le_count_of_cuts {parts : List Part}
    (hparts : ∀ p ∈ parts, p.reach = .segment ∧ p.required = true) {behind : List Item}
    {slices : List Slice} {text : List Char} (h : Cuts (joins parts ++ behind) slices text) :
    parts.length ≤ text.count '/' := by
  induction parts generalizing slices text with
  | nil => exact Nat.zero_le _
  | cons p parts ih =>
    obtain ⟨hp, hparts⟩ := List.forall_mem_cons.mp hparts
    rw [joins_cons, isSoft_of_segment hp] at h
    obtain ⟨back, rest, -, rfl, hback⟩ | ⟨hmiss, -⟩ := cuts_slash_cons h
    case inr => cases hmiss
    obtain ⟨s, later, rfl⟩ := hback.exists_cons
    obtain ⟨⟨-, hlater⟩, rfl⟩ := hback
    have hle := ih hparts ⟨hlater, rfl⟩
    rw [List.flatMap_cons, List.count_cons_self, List.count_append, List.length_cons]
    omega

/-- A value in front of values cannot be longer, if as many slashes are needed behind it. -/
theorem eq_of_count {v w rest : List Char} {ys : List (List Char)} (hys : ∀ y ∈ ys, '/' ∉ y)
    (h : w ++ rest = v ++ steps ys) (hlong : v.length ≤ w.length)
    (hcount : ys.length ≤ rest.count '/') : w = v := by
  have hpre : v <+: w :=
    List.prefix_of_prefix_length_le (List.prefix_append v (steps ys)) ⟨rest, h⟩ hlong
  obtain ⟨d, rfl⟩ := hpre
  rw [List.append_assoc, List.append_right_inj] at h
  cases d with
  | nil => exact List.append_nil v
  | cons c d =>
    have htotal := congrArg (List.count '/') h
    rw [count_steps hys, List.count_append] at htotal
    cases ys with
    | nil => cases h
    | cons y ys =>
      obtain rfl : c = '/' := (List.cons.inj h).1
      rw [List.count_cons_self] at htotal
      omega

/-! ## What a rest takes -/

section
variable {mode : SlashMode} {m : List Char}

/-- A rest in front of segments takes all but the values of these. -/
theorem gives_rest_between (mode : SlashMode) {r : Part} (hr : r.reach = .rest ∧ r.required = true)
    {back : List Part} (hback : ∀ p ∈ back, p.reach = .segment ∧ p.required = true)
    {ys : List (List Char)} (hys : Fits back ys) (hm : Reach.rest.Admits m) :
    Gives (joins (r :: back) ++ ending mode) (steps (m :: ys)) (captured (m :: ys)) := by
  have hlater := gives_segments (Or.inl rfl) (gives_ending mode) hback hys
  rw [List.append_nil, List.append_nil] at hlater
  have hsoft : r.isSoft = false := isSoft_of_required hr.2 (by rw [hr.1]; decide)
  rw [joins_cons, hsoft, steps_cons]
  refine gives_slash ['/'] (gives_rest hr.1 hm ?_ hlater)
  rintro w rest htext ⟨slices, hcuts⟩ hlong
  have hcount := length_le_count_of_cuts hback hcuts
  rw [← hys.1] at hcount
  exact eq_of_count (fun y hy => (hys.2 y hy).not_mem_slash) htext hlong hcount

variable {r : Part} (hr : r.reach = .rest ∧ r.required = false)
include hr

/-- A rest at the end takes all. -/
theorem gives_optional_rest (mode : SlashMode) (hm : Reach.rest.Admits m) :
    Gives (joins [r] ++ ending mode) (steps [m]) (captured [m]) := by
  have hwhole := gives_rest hr.1 hm ?_ (gives_ending mode)
  · rw [joins_cons, isSoft_of_optional hr.2]
    exact gives_slash_taken ['/'] hwhole
  · intro w rest htext _ hlong
    rw [List.append_nil] at htext
    have hpre : w <+: m := ⟨rest, htext⟩
    exact hpre.eq_of_length_le hlong

theorem cuts_optional_rest_nil (mode : SlashMode) :
    ∃ slices, Cuts (.part r :: ending mode) slices [] := by
  obtain ⟨slices, hslices⟩ := cuts_ending mode
  have htakes : r.Takes {} := (Part.takes_rest_iff hr.1).mpr (Or.inl ⟨hr.2, rfl⟩)
  exact ⟨{} :: slices, ⟨htakes, hslices.1⟩, hslices.2⟩

/-- Where there is nothing, or a slash, a rest has no value. -/
theorem gives_no_rest (mode : SlashMode) :
    Gives (joins [r] ++ ending mode) [] [none] ∧ Gives (joins [r] ++ ending mode) ['/'] [none] := by
  have hnone := gives_absent (cuts_optional_rest_nil hr mode)
  have hvalues : ((partsOf (.part r :: ending mode)).map fun _ => (none : Option String)) = [none] := by
    rw [partsOf, partsOf_ending]
    rfl
  rw [hvalues] at hnone
  rw [joins_cons, isSoft_of_optional hr.2]
  exact ⟨gives_slash_missing ['/'] hnone (by decide), gives_slash_taken ['/'] hnone⟩

end

/-! ## Requests -/

/-- A rest among required segments has the whole middle of a request as its value, and an optional one
at the end has what there is, or no value. -/
theorem captures_of_rest (mode : SlashMode) {front back : List Part} (hne : front ≠ [])
    (hfront : ∀ p ∈ front, p.reach = .segment ∧ p.required = true)
    (hback : ∀ p ∈ back, p.reach = .segment ∧ p.required = true) {rest tail : Part}
    (hrest : rest.reach = .rest ∧ rest.required = true)
    (htail : tail.reach = .rest ∧ tail.required = false) :
    (∃ re, IsMatcher mode (.ofList (['/'].intercalate ((front ++ rest :: back).map Part.text))) re ∧
        ∀ xs m ys, Fits front xs → Reach.rest.Admits m → Fits back ys →
          re.captures? (.ofList (['/'].intercalate (xs ++ m :: ys))) =
            some (captured (xs ++ m :: ys))) ∧
      ∃ re, IsMatcher mode (.ofList (['/'].intercalate ((front ++ [tail]).map Part.text))) re ∧
        ∀ xs, Fits front xs →
          (∀ m, Reach.rest.Admits m →
              re.captures? (.ofList (['/'].intercalate (xs ++ [m]))) =
                some (captured (xs ++ [m]))) ∧
            re.captures? (.ofList (['/'].intercalate xs)) = some (captured xs ++ [none]) ∧
              re.captures? (.ofList (['/'].intercalate xs ++ ['/'])) =
                some (captured xs ++ [none]) := by
  have hvalues : ∀ {xs : List (List Char)}, Fits front xs → xs ≠ [] := by
    rintro xs hxs rfl
    exact hne (List.length_eq_zero_iff.mp hxs.1.symm)
  have hsteps : ∀ m ys, steps (m :: ys) = [] ∨ ∃ u, steps (m :: ys) = '/' :: u :=
    fun m ys => Or.inr ⟨_, steps_cons m ys⟩
  constructor
  · obtain ⟨re, hmatcher, hcaptures⟩ := exists_matcher mode hne hfront (rest :: back)
    refine ⟨re, hmatcher, ?_⟩
    intro xs m ys hxs hm hys
    rw [intercalate_append (hvalues hxs), captured, List.map_append]
    exact hcaptures xs _ _ hxs (hsteps m ys) (gives_rest_between mode hrest hback hys hm)
  · obtain ⟨re, hmatcher, hcaptures⟩ := exists_matcher mode hne hfront [tail]
    refine ⟨re, hmatcher, ?_⟩
    intro xs hxs
    obtain ⟨hnil, hslash⟩ := gives_no_rest htail mode
    have hnone := hcaptures xs [] [none] hxs (Or.inl rfl) hnil
    rw [List.append_nil] at hnone
    refine ⟨?_, hnone, hcaptures xs ['/'] [none] hxs (Or.inr ⟨[], rfl⟩) hslash⟩
    intro m hm
    rw [intercalate_append (hvalues hxs), captured, List.map_append]
    exact hcaptures xs _ _ hxs (hsteps m []) (gives_optional_rest htail mode hm)

/-- A path between a user and a revision, and a path that may be left out. -/
theorem captures_of_userPath :
    (∃ re, IsMatcher .strict "{user}/{path*}/{rev}" re ∧
        re.captures? "ann//a?b//c/7" = some [some "ann", some "/a?b//c", some "7"]) ∧
      ∃ re, IsMatcher .strict "{user}/:path*:" re ∧
        re.captures? "ann//a?b/" = some [some "ann", some "/a?b/"] ∧
          re.captures? "ann" = some [some "ann", none] ∧
            re.captures? "ann/" = some [some "ann", none] := by
  let user : Part := ⟨.segment, true, "user".toList, by decide, forall_mem_of_all rfl⟩
  let rev : Part := ⟨.segment, true, "rev".toList, by decide, forall_mem_of_all rfl⟩
  let path : Part := ⟨.rest, true, "path".toList, by decide, forall_mem_of_all rfl⟩
  let tail : Part := ⟨.rest, false, "path".toList, by decide, forall_mem_of_all rfl⟩
  have huser : ∀ p ∈ [user], p.reach = .segment ∧ p.required = true :=
    List.forall_mem_singleton.mpr ⟨rfl, rfl⟩
  have hrev : ∀ p ∈ [rev], p.reach = .segment ∧ p.required = true :=
    List.forall_mem_singleton.mpr ⟨rfl, rfl⟩
  have hpath : path.reach = .rest ∧ path.required = true := ⟨rfl, rfl⟩
  have htail : tail.reach = .rest ∧ tail.required = false := ⟨rfl, rfl⟩
  have hann : Fits [user] ["ann".toList] :=
    ⟨rfl, List.forall_mem_singleton.mpr ⟨by decide, forall_mem_of_all rfl⟩⟩
  have hseven : Fits [rev] ["7".toList] :=
    ⟨rfl, List.forall_mem_singleton.mpr ⟨by decide, forall_mem_of_all rfl⟩⟩
  have hmiddle : Reach.rest.Admits "/a?b//c".toList := ⟨by decide, forall_mem_of_all rfl⟩
  have hend : Reach.rest.Admits "/a?b/".toList := ⟨by decide, forall_mem_of_all rfl⟩
  obtain ⟨⟨re, hmatcher, hcaptures⟩, ⟨re', hmatcher', hcaptures'⟩⟩ :=
    captures_of_rest .strict (List.cons_ne_nil user []) huser hrev hpath htail
  obtain ⟨hwhole, hnone, hslash⟩ := hcaptures' _ hann
  have hbetween := hcaptures _ _ _ hann hmiddle hseven
  have hlast := hwhole _ hend
  exact ⟨⟨re, hmatcher, hbetween⟩, ⟨re', hmatcher', hlast, hnone, hslash⟩⟩

/-- Behind fifteen thousand segments a rest has no value, as there is no matcher. -/
theorem not_captures_of_rest :
    let a : Part := ⟨.segment, true, ['a'], List.cons_ne_nil _ _, forall_mem_of_all rfl⟩
    let r : Part := ⟨.rest, true, ['r'], List.cons_ne_nil _ _, forall_mem_of_all rfl⟩
    let xs := List.replicate 15000 ['x']
    ¬ ∃ re, compile .strict
          (.ofList (['/'].intercalate ((List.replicate 15000 a ++ [r]).map Part.text))) = .ok re ∧
        re.captures? (.ofList (['/'].intercalate (xs ++ [['y']]))) =
          some (captured (xs ++ [['y']])) := by
  intro a r xs
  rintro ⟨re, hcompile, -⟩
  let later := List.replicate 14999 a ++ [r]
  have hlater : List.replicate 15000 a ++ [r] = a :: later := by
    have hfirst : List.replicate 15000 a = a :: List.replicate 14999 a := List.replicate_succ
    rw [hfirst, List.cons_append]
  have htext : ['/'].intercalate ((a :: later).map Part.text) =
      [] ++ (a.text ++ steps (later.map Part.text)) := by
    rw [List.map_cons, intercalate_slash, List.nil_append]
  have hmany : weightLimit < 1000 * (later.length + 1) := by
    rw [List.length_append, List.length_replicate, List.length_singleton]
    decide
  rw [hlater, htext, oversized_of_joined .strict (literal_nil a) hmany] at hcompile
  cases hcompile

end RouteDispatch.Template
