/-
# What the expression of an item matches

From any place the expression of an item offers the slices that the item takes and
no others, the longer ones first (`offers_item`).  That no two slices are of the
same length is a consequence, so their order is settled by what they are, and not by
the expression.
-/
import RouteDispatch.Proofs.Template.Grammar
import RouteDispatch.Proofs.Template.Read

namespace RouteDispatch.Template

open Regex

/-! ## Slices as ways -/

/-- How a way through a group with this number passes it. -/
def Slice.trail (n left : Nat) (s : Slice) : Trail :=
  match s.value with
  | none => []
  | some v =>
    [⟨n, true, left - s.before.length⟩, ⟨n, false, left - s.before.length - v.length⟩]

def Slice.way (n : Nat) (c : Cursor) (s : Slice) : Way := (c.skip s.text, s.trail n c.left)

/-- The ways of a step are the slices taken that the text begins with, the longer ones first. -/
def Offers (step : Cursor → List Way) (n : Nat) (takes : Slice → Prop) : Prop :=
  ∀ c : Cursor, ∃ slices : List Slice, step c = slices.map (Slice.way n c) ∧
    (∀ s, s ∈ slices ↔ takes s ∧ s.text <+: c.after) ∧
    slices.Pairwise fun s u => u.text.length < s.text.length

/-- The ways of a step are the texts picked that the text begins with, the longer ones first, and
no group is passed. -/
def Picks (step : Cursor → List Way) (picked : List Char → Prop) : Prop :=
  ∀ c : Cursor, ∃ texts : List (List Char), step c = texts.map (fun u => (c.skip u, [])) ∧
    (∀ u, u ∈ texts ↔ picked u ∧ u <+: c.after) ∧
    texts.Pairwise fun u v => v.length < u.length

theorem Offers.congr {step : Cursor → List Way} {n : Nat} {takes takes' : Slice → Prop}
    (h : Offers step n takes) (heq : ∀ s, takes s ↔ takes' s) : Offers step n takes' := by
  intro c
  obtain ⟨slices, hstep, hmem, hsorted⟩ := h c
  exact ⟨slices, hstep, fun s => (hmem s).trans (and_congr_left' (heq s)), hsorted⟩

/-! ## Texts that are picked -/

theorem picks_some (cls : CharClass) :
    Picks (Expr.rep 1 none true (.char cls)).ways
      fun u => u ≠ [] ∧ ∀ c ∈ u, cls.contains c = true := by
  intro c
  refine ⟨_, ways_some cls c, fun u => ?_, runs1_sorted _ _⟩
  rw [mem_runs1]
  exact ⟨fun h => ⟨⟨h.1, h.2.2⟩, h.2.1⟩, fun h => ⟨h.1.1, h.2, h.1.2⟩⟩

theorem picks_many (cls : CharClass) :
    Picks (Expr.rep 0 none true (.char cls)).ways fun u => ∀ c ∈ u, cls.contains c = true := by
  intro c
  exact ⟨_, ways_many cls c, fun u => mem_runs.trans and_comm, runs_sorted _ _⟩

/-- Fixed text is picked wherever it stands. -/
theorem picks_text (s : List Char) :
    Picks (inAll (s.map fun c => (Expr.char (.single c)).ways)) fun u => u = s := by
  induction s with
  | nil =>
    intro c
    refine ⟨[[]], rfl, fun u => ?_, List.pairwise_singleton _ _⟩
    rw [List.mem_singleton]
    constructor
    · rintro rfl
      exact ⟨rfl, List.nil_prefix⟩
    · exact fun h => h.1
  | cons x s ih =>
    intro c
    rw [List.map_cons]
    show ∃ texts, inTurn (Expr.char (.single x)).ways (inAll _) c = _ ∧ _
    rcases inTurn_single_cases (inAll _) x c with ⟨hafter, hways⟩ | ⟨hnone, hways⟩
    · obtain ⟨texts, hstep, hmem, hsorted⟩ := ih (c.skip [x])
      refine ⟨texts.map (x :: ·), ?_, ?_, ?_⟩
      · rw [hways, hstep, List.map_map]
        refine List.map_congr_left ?_
        intro u _
        rw [Cursor.skip_skip]
        rfl
      · intro u
        rw [List.mem_map, hafter]
        constructor
        · rintro ⟨v, hv, rfl⟩
          obtain ⟨rfl, hpre⟩ := (hmem v).mp hv
          exact ⟨rfl, List.cons_prefix_cons.mpr ⟨rfl, hpre⟩⟩
        · rintro ⟨rfl, hpre⟩
          exact ⟨s, (hmem s).mpr ⟨rfl, (List.cons_prefix_cons.mp hpre).2⟩, rfl⟩
      · exact List.pairwise_map.mpr (hsorted.imp fun h => Nat.succ_lt_succ h)
    · refine ⟨[], hways, ?_, List.Pairwise.nil⟩
      intro u
      constructor
      · exact fun hu => absurd hu List.not_mem_nil
      · rintro ⟨rfl, v, hv⟩
        exact absurd hv.symm (hnone _)

/-! ## From texts to slices -/

/-- Text that is taken outside of a group is no value. -/
theorem Picks.offers {step : Cursor → List Way} {picked : List Char → Prop} (h : Picks step picked)
    (n : Nat) : Offers step n fun s => ∃ u, picked u ∧ s = { before := u } := by
  intro c
  obtain ⟨texts, hstep, hmem, hsorted⟩ := h c
  refine ⟨texts.map fun u => { before := u }, ?_, ?_, ?_⟩
  · rw [hstep, List.map_map]
    refine List.map_congr_left ?_
    intro u _
    simp only [Function.comp, Slice.way, Slice.text_before]
    rfl
  · intro s
    rw [List.mem_map]
    constructor
    · rintro ⟨u, hu, rfl⟩
      obtain ⟨hpicked, hpre⟩ := (hmem u).mp hu
      exact ⟨⟨u, hpicked, rfl⟩, (Slice.text_before u).symm ▸ hpre⟩
    · rintro ⟨⟨u, hpicked, rfl⟩, hpre⟩
      exact ⟨u, (hmem u).mpr ⟨hpicked, Slice.text_before u ▸ hpre⟩, rfl⟩
  · exact List.pairwise_map.mpr (hsorted.imp fun h => by rwa [Slice.text_before, Slice.text_before])

/-- Text that is taken in a group is its value. -/
theorem Picks.group {e : Expr} {picked : List Char → Prop} (h : Picks e.ways picked) (n : Nat) :
    Offers (Expr.group (some n) e).ways n fun s => ∃ v, picked v ∧ s = { value := some v } := by
  intro c
  obtain ⟨texts, hstep, hmem, hsorted⟩ := h c
  refine ⟨texts.map fun v => { value := some v }, ?_, ?_, ?_⟩
  · rw [ways_group, hstep, List.map_map, List.map_map]
    refine List.map_congr_left ?_
    intro v _
    simp only [Function.comp, Slice.way, Slice.text_value, Cursor.left_skip]
    rfl
  · intro s
    rw [List.mem_map]
    constructor
    · rintro ⟨v, hv, rfl⟩
      obtain ⟨hpicked, hpre⟩ := (hmem v).mp hv
      exact ⟨⟨v, hpicked, rfl⟩, (Slice.text_value v).symm ▸ hpre⟩
    · rintro ⟨⟨v, hpicked, rfl⟩, hpre⟩
      exact ⟨v, (hmem v).mpr ⟨hpicked, Slice.text_value v ▸ hpre⟩, rfl⟩
  · exact List.pairwise_map.mpr (hsorted.imp fun h => by rwa [Slice.text_value, Slice.text_value])

/-! ## Combining offers -/

/-- A slice with this character before it. -/
def Slice.precededBy (x : Char) (s : Slice) : Slice := { s with before := x :: s.before }

theorem Slice.text_precededBy (x : Char) (s : Slice) : (s.precededBy x).text = x :: s.text := rfl

theorem Slice.way_precededBy (x : Char) (s : Slice) (n : Nat) (c : Cursor) :
    s.way n (c.skip [x]) = (s.precededBy x).way n c := by
  have hleft : (c.skip [x]).left - s.before.length = c.left - (x :: s.before).length := by
    rw [Cursor.left_skip]
    show c.left - 1 - s.before.length = c.left - (s.before.length + 1)
    omega
  have htrail : s.trail n (c.skip [x]).left = (s.precededBy x).trail n c.left := by
    simp only [trail, precededBy, hleft]
  rw [way, way, htrail, text_precededBy, Cursor.skip_skip]
  rfl

/-- A fixed character before the slice. -/
theorem Offers.behind {step : Cursor → List Way} {n : Nat} {takes : Slice → Prop}
    (h : Offers step n takes) (x : Char) :
    Offers (inTurn (Expr.char (.single x)).ways step) n
      fun s => ∃ u, takes u ∧ s = u.precededBy x := by
  intro c
  rcases inTurn_single_cases step x c with ⟨hafter, hways⟩ | ⟨hnone, hways⟩
  · obtain ⟨slices, hstep, hmem, hsorted⟩ := h (c.skip [x])
    refine ⟨slices.map (Slice.precededBy x), ?_, ?_, ?_⟩
    · rw [hways, hstep, List.map_map]
      exact List.map_congr_left fun u _ => u.way_precededBy x n c
    · intro s
      rw [List.mem_map, hafter]
      constructor
      · rintro ⟨u, hu, rfl⟩
        obtain ⟨htakes, hpre⟩ := (hmem u).mp hu
        exact ⟨⟨u, htakes, rfl⟩, List.cons_prefix_cons.mpr ⟨rfl, hpre⟩⟩
      · rintro ⟨⟨u, htakes, rfl⟩, hpre⟩
        exact ⟨u, (hmem u).mpr ⟨htakes, (List.cons_prefix_cons.mp hpre).2⟩, rfl⟩
    · exact List.pairwise_map.mpr (hsorted.imp fun h => Nat.succ_lt_succ h)
  · refine ⟨[], hways, ?_, List.Pairwise.nil⟩
    intro s
    constructor
    · exact fun hs => absurd hs List.not_mem_nil
    · rintro ⟨⟨u, -, rfl⟩, v, hv⟩
      exact absurd hv.symm (hnone _)

/-- The empty slice, if nothing else will do. -/
theorem Offers.orNothing {e : Expr} {n : Nat} {takes : Slice → Prop} (h : Offers e.ways n takes)
    (hne : ∀ s, takes s → s.text ≠ []) :
    Offers (Expr.rep 0 (some 1) true e).ways n fun s => takes s ∨ s = ({} : Slice) := by
  intro c
  obtain ⟨slices, hstep, hmem, hsorted⟩ := h c
  refine ⟨slices ++ [({} : Slice)], ?_, ?_, ?_⟩
  · rw [ways_optional, hstep, List.map_append]
    rfl
  · intro s
    rw [List.mem_append, List.mem_singleton, hmem]
    constructor
    · rintro (⟨htakes, hpre⟩ | rfl)
      · exact ⟨Or.inl htakes, hpre⟩
      · exact ⟨Or.inr rfl, List.nil_prefix⟩
    · rintro ⟨htakes | rfl, hpre⟩
      · exact Or.inl ⟨htakes, hpre⟩
      · exact Or.inr rfl
  · refine List.pairwise_append.mpr ⟨hsorted, List.pairwise_singleton _ _, ?_⟩
    intro s hs u hu
    rw [List.mem_singleton.mp hu]
    exact List.length_pos_iff.mpr (hne s ((hmem s).mp hs).1)

/-! ### A slash that may follow -/

/-- The slash that a text begins with, and the empty text. -/
def leadingSlash : List Char → List (List Char)
  | '/' :: _ => [['/'], []]
  | _ => [[]]

theorem mem_leadingSlash {s slash : List Char} :
    slash ∈ leadingSlash s ↔ (slash = [] ∨ slash = ['/']) ∧ slash <+: s := by
  unfold leadingSlash
  split
  · next s =>
    simp only [List.mem_cons, List.not_mem_nil, or_false]
    constructor
    · rintro (rfl | rfl)
      · exact ⟨Or.inr rfl, s, rfl⟩
      · exact ⟨Or.inl rfl, List.nil_prefix⟩
    · exact fun h => h.1.symm
  · next hs =>
    rw [List.mem_singleton]
    constructor
    · rintro rfl
      exact ⟨Or.inl rfl, List.nil_prefix⟩
    · rintro ⟨rfl | rfl, u, hu⟩
      · rfl
      · exact absurd hu.symm (hs u)

theorem leadingSlash_sorted (s : List Char) :
    (leadingSlash s).Pairwise fun u v => v.length < u.length := by
  unfold leadingSlash
  split
  · exact List.pairwise_pair.mpr Nat.zero_lt_one
  · exact List.pairwise_singleton _ _

theorem ways_optionalSlash (c : Cursor) :
    optionalSlash.ways c = (leadingSlash c.after).map fun u => (c.skip u, []) := by
  have hslash : (Expr.char (.single '/')).ways c =
      inTurn (Expr.char (.single '/')).ways stay c := by rw [inTurn_stay]
  rw [optionalSlash, ways_optional, hslash]
  unfold leadingSlash
  split
  · next s h => rw [inTurn_single_of_head stay h]; rfl
  · next h =>
    rw [inTurn_single_of_not_head stay]
    · rfl
    · intro hhead
      obtain ⟨s, hs⟩ := List.head?_eq_some_iff.mp hhead
      exact h s hs

theorem picks_optionalSlash : Picks optionalSlash.ways fun u => u = [] ∨ u = ['/'] :=
  fun c => ⟨_, ways_optionalSlash c, fun _ => mem_leadingSlash, leadingSlash_sorted _⟩

theorem append_prefix_iff {u v s : List Char} :
    u ++ v <+: s ↔ u <+: s ∧ v <+: s.drop u.length := by
  constructor
  · rintro ⟨w, rfl⟩
    rw [List.append_assoc, List.drop_left]
    exact ⟨List.prefix_append _ _, List.prefix_append _ _⟩
  · rintro ⟨⟨w, rfl⟩, hv⟩
    rw [List.drop_left] at hv
    exact (List.prefix_append_right_inj u).mpr hv

/-- A slice with this behind it. -/
def Slice.followedBy (s : Slice) (slash : List Char) : Slice := { s with after := slash }

theorem Slice.text_followedBy {s : Slice} (h : s.after = []) (slash : List Char) :
    (s.followedBy slash).text = s.text ++ slash := by
  rw [followedBy, text, text, h, List.append_nil, List.append_assoc]

/-- The longer of two texts has the slash in it that follows the shorter one. -/
theorem slash_mem_of_prefix_lt {s u text : List Char} (hs : s <+: text) (hu : u ++ ['/'] <+: text)
    (hlt : u.length < s.length) : '/' ∈ s := by
  have hle : (u ++ ['/']).length ≤ s.length := by
    rw [List.length_append]
    exact hlt
  have hin : u ++ ['/'] <+: s := List.prefix_of_prefix_length_le hu hs hle
  exact hin.mem (List.mem_append_right _ (List.mem_singleton_self _))

/-- A slash may follow slices without any.  Of two such slices only the longer one can have a slash
behind it, or else the slash would be in the longer one. -/
theorem Offers.slashed {step : Cursor → List Way} {n : Nat} {takes : Slice → Prop}
    (h : Offers step n takes) (hafter : ∀ s, takes s → s.after = [])
    (hno : ∀ s, takes s → '/' ∉ s.text) :
    Offers (inTurn step optionalSlash.ways) n fun s =>
      ∃ u slash, takes u ∧ (slash = [] ∨ slash = ['/']) ∧ s = u.followedBy slash := by
  intro c
  obtain ⟨slices, hstep, hmem, hsorted⟩ := h c
  have htext : ∀ u ∈ slices, ∀ slash, (u.followedBy slash).text = u.text ++ slash := by
    intro u hu slash
    exact Slice.text_followedBy (hafter u ((hmem u).mp hu).1) slash
  refine ⟨slices.flatMap fun u => (leadingSlash (c.skip u.text).after).map u.followedBy,
    ?_, ?_, ?_⟩
  · rw [inTurn, hstep, List.flatMap_map, List.map_flatMap, List.flatMap_def, List.flatMap_def]
    refine congrArg List.flatten (List.map_congr_left ?_)
    intro u hu
    rw [Way.andThen, Slice.way, ways_optionalSlash, List.map_map, List.map_map]
    refine List.map_congr_left ?_
    intro slash _
    show ((c.skip u.text).skip slash, u.trail n c.left ++ []) =
      (c.skip (u.followedBy slash).text, u.trail n c.left)
    rw [htext u hu slash, Cursor.skip_skip, List.append_nil]
  · intro s
    rw [List.mem_flatMap]
    constructor
    · rintro ⟨u, hu, hs⟩
      obtain ⟨slash, hslash, rfl⟩ := List.mem_map.mp hs
      obtain ⟨htakes, hpre⟩ := (hmem u).mp hu
      obtain ⟨hone, hslash⟩ := mem_leadingSlash.mp hslash
      rw [htext u hu slash]
      exact ⟨⟨u, slash, htakes, hone, rfl⟩, append_prefix_iff.mpr ⟨hpre, hslash⟩⟩
    · rintro ⟨⟨u, slash, htakes, hone, rfl⟩, hpre⟩
      rw [Slice.text_followedBy (hafter u htakes)] at hpre
      obtain ⟨hpre, hslash⟩ := append_prefix_iff.mp hpre
      exact ⟨u, (hmem u).mpr ⟨htakes, hpre⟩,
        List.mem_map_of_mem (mem_leadingSlash.mpr ⟨hone, hslash⟩)⟩
  · refine List.pairwise_flatMap.mpr ⟨?_, ?_⟩
    · intro u hu
      refine List.pairwise_map.mpr ((leadingSlash_sorted _).imp ?_)
      intro slash none hlt
      rw [htext u hu slash, htext u hu none, List.length_append, List.length_append]
      exact Nat.add_lt_add_left hlt _
    · refine hsorted.imp_of_mem ?_
      intro s u hs hu hlt x hx y hy
      obtain ⟨before, -, rfl⟩ := List.mem_map.mp hx
      obtain ⟨slash, hslash, rfl⟩ := List.mem_map.mp hy
      obtain ⟨htakes, hpre⟩ := (hmem s).mp hs
      obtain ⟨hone, hslash⟩ := mem_leadingSlash.mp hslash
      rw [htext s hs before, htext u hu slash, List.length_append, List.length_append]
      rcases hone with rfl | rfl
      · exact Nat.lt_of_lt_of_le hlt (Nat.le_add_right _ _)
      · have hwhole := append_prefix_iff.mpr ⟨((hmem u).mp hu).2, hslash⟩
        exact absurd (slash_mem_of_prefix_lt hpre hwhole hlt) (hno s htakes)

/-! ## Items -/

theorem Reach.contains_cls (reach : Reach) (c : Char) :
    reach.cls.contains c = reach.admits c := by
  cases reach <;> simp only [cls, admits, CharClass.contains_compl, CharClass.contains_union,
    CharClass.contains_none, CharClass.contains_single, Bool.false_or, Bool.not_or] <;> rfl

theorem Reach.admits_iff (reach : Reach) (v : List Char) :
    (v ≠ [] ∧ ∀ c ∈ v, reach.cls.contains c = true) ↔ reach.Admits v := by
  simp only [Admits, contains_cls]

theorem Reach.Admits.slash_not_mem {v : List Char} (h : Reach.segment.Admits v) : '/' ∉ v :=
  fun hin => absurd (h.2 '/' hin) (by decide)

/-- A part that must have a value, or the group of one that need not. -/
theorem Reach.offers_value (reach : Reach) (n : Nat) :
    Offers (Expr.group (some n) (.rep 1 none true (.char reach.cls))).ways n
      fun s => ∃ v, reach.Admits v ∧ s = { value := some v } :=
  ((picks_some reach.cls).group n).congr fun _ => by simp only [reach.admits_iff]

/-- The same, or nothing. -/
theorem Reach.offers_orNothing (reach : Reach) (n : Nat) :
    Offers (Expr.rep 0 (some 1) true
        (.group (some n) (.rep 1 none true (.char reach.cls)))).ways n
      fun s => (∃ v, reach.Admits v ∧ s = { value := some v }) ∨ s = ({} : Slice) := by
  refine (reach.offers_value n).orNothing ?_
  rintro s ⟨v, hv, rfl⟩
  show v ++ [] ≠ []
  rw [List.append_nil]
  exact hv.1

/-- The same, and a slash may follow in either case. -/
theorem Reach.offers_slashed (n : Nat) :
    Offers (inTurn (Expr.rep 0 (some 1) true
        (.group (some n) (.rep 1 none true (.char Reach.segment.cls)))).ways optionalSlash.ways) n
      fun s => ∃ slash, (slash = [] ∨ slash = ['/']) ∧
        (s = { after := slash } ∨
          ∃ v, Reach.segment.Admits v ∧ s = { value := some v, after := slash }) := by
  have hslashed := (Reach.segment.offers_orNothing n).slashed
    (by rintro s (⟨v, -, rfl⟩ | rfl) <;> rfl) (by
      rintro s (⟨v, hv, rfl⟩ | rfl)
      · show '/' ∉ v ++ []
        rw [List.append_nil]
        exact hv.slash_not_mem
      · exact List.not_mem_nil)
  refine hslashed.congr ?_
  intro s
  constructor
  · rintro ⟨u, slash, ⟨v, hv, rfl⟩ | rfl, hslash, rfl⟩
    · exact ⟨slash, hslash, Or.inr ⟨v, hv, rfl⟩⟩
    · exact ⟨slash, hslash, Or.inl rfl⟩
  · rintro ⟨slash, hslash, rfl | ⟨v, hv, rfl⟩⟩
    · exact ⟨{}, slash, Or.inr rfl, hslash, rfl⟩
    · exact ⟨{ value := some v }, slash, Or.inl ⟨v, hv, rfl⟩, hslash, rfl⟩

/-- A value behind a question mark. -/
theorem offers_query {e : Expr} {picked : List Char → Prop} (h : Picks e.ways picked) (n : Nat) :
    Offers (inTurn (Expr.char (.single '?')).ways (Expr.group (some n) e).ways) n
      fun s => ∃ v, picked v ∧ s = { before := ['?'], value := some v } := by
  refine ((h.group n).behind '?').congr ?_
  intro s
  constructor
  · rintro ⟨u, ⟨v, hv, rfl⟩, rfl⟩
    exact ⟨v, hv, rfl⟩
  · rintro ⟨v, hv, rfl⟩
    exact ⟨{ value := some v }, ⟨v, hv, rfl⟩, rfl⟩

theorem Part.offers (n : Nat) (p : Part) :
    Offers (inAll ((p.exprs n).map Expr.ways)) n p.Takes := by
  obtain ⟨reach, required, name, hne, hchars⟩ := p
  cases reach <;> cases required
  case segment.true =>
    show Offers (inAll [_]) n _
    rw [inAll_singleton]
    exact Reach.segment.offers_value n
  case segment.false =>
    show Offers (inTurn _ (inAll [_])) n _
    rw [inAll_singleton]
    exact Reach.offers_slashed n
  case rest.true =>
    show Offers (inAll [_]) n _
    rw [inAll_singleton]
    exact Reach.rest.offers_value n
  case rest.false =>
    show Offers (inAll [_]) n _
    rw [inAll_singleton]
    exact (Reach.rest.offers_orNothing n).congr fun _ => or_comm
  case query.true =>
    show Offers (inTurn _ (inAll [_])) n _
    rw [inAll_singleton]
    refine (offers_query (picks_some Reach.query.cls) n).congr ?_
    intro s
    simp only [Reach.query.admits_iff]
    exact Iff.rfl
  case query.false =>
    show Offers (inAll [_]) n _
    rw [inAll_singleton]
    have hquery := offers_query (picks_many Reach.query.cls) n
    simp only [Reach.query.contains_cls] at hquery
    have hways : ∀ a b : Expr, (Expr.group none (.seq a b)).ways = inTurn a.ways b.ways := by
      intro a b
      funext c
      rw [Expr.ways, Expr.ways]
    rw [← hways] at hquery
    refine (hquery.orNothing ?_).congr fun s => or_comm
    rintro s ⟨v, -, rfl⟩
    exact List.cons_ne_nil _ _

/-- From any place the expressions of an item offer the slices that the item takes. -/
theorem offers_item (n : Nat) (item : Item) :
    Offers (inAll ((item.exprs n).map Expr.ways)) n item.Takes := by
  cases item with
  | text t =>
    rw [Item.exprs, List.map_map]
    refine ((picks_text t).offers n).congr ?_
    intro s
    constructor
    · rintro ⟨u, rfl, rfl⟩
      rfl
    · exact fun hs => ⟨t, rfl, hs⟩
  | slash mayMiss written =>
    cases mayMiss with
    | true =>
      show Offers (inAll [optionalSlash.ways]) n _
      rw [inAll_singleton]
      refine (picks_optionalSlash.offers n).congr ?_
      intro s
      constructor
      · rintro ⟨u, rfl | rfl, rfl⟩
        · exact Or.inr ⟨rfl, rfl⟩
        · exact Or.inl rfl
      · rintro (rfl | ⟨-, rfl⟩)
        · exact ⟨['/'], Or.inr rfl, rfl⟩
        · exact ⟨[], Or.inl rfl, rfl⟩
    | false =>
      refine ((picks_text ['/']).offers n).congr ?_
      intro s
      constructor
      · rintro ⟨u, rfl, rfl⟩
        exact Or.inl rfl
      · rintro (rfl | ⟨hmiss, -⟩)
        · exact ⟨['/'], rfl, rfl⟩
        · cases hmiss
  | part p => exact p.offers n

end RouteDispatch.Template
