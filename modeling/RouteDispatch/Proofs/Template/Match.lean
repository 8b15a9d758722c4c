/-
# What the matcher of a plain template finds

Going on from every slice that the first item offers, in order, and taking the
first that comes to something, is to take the best cutting (`best_cons`).  So the
trail that a search finds is that of the best cutting (`search_items`), and the
groups of the expression are its parts (`groupCount_items`).
-/
import RouteDispatch.Proofs.Template.Offers

namespace RouteDispatch.Template

open Regex

/-! ## Cuttings -/

theorem cuts_cons {item : Item} {items : List Item} {s : Slice} {slices : List Slice}
    {text : List Char} :
    Cuts (item :: items) (s :: slices) text ↔
      (item.Takes s ∧ s.text <+: text) ∧ Cuts items slices (text.drop s.text.length) := by
  constructor
  · rintro ⟨⟨htakes, hall⟩, rfl⟩
    rw [List.flatMap_cons, List.drop_left]
    exact ⟨⟨htakes, List.prefix_append _ _⟩, hall, rfl⟩
  · rintro ⟨⟨htakes, u, rfl⟩, hall, hrest⟩
    rw [List.drop_left] at hrest
    exact ⟨⟨htakes, hall⟩, by rw [List.flatMap_cons, hrest]⟩

/-- A cutting for some items has a first slice. -/
theorem Cuts.exists_cons {item : Item} {items : List Item} {slices : List Slice}
    {text : List Char} (h : Cuts (item :: items) slices text) :
    ∃ s rest, slices = s :: rest := by
  cases slices with
  | nil => exact h.1.elim
  | cons s rest => exact ⟨s, rest, rfl⟩

/-- At most one cutting is preferred to all others. -/
theorem Cuts.eq_of_prefers {items : List Item} {slices others : List Slice} {text : List Char}
    (h : Cuts items slices text) (h' : Cuts items others text) (hle : Prefers slices others)
    (hge : Prefers others slices) : slices = others := by
  induction items generalizing slices others text with
  | nil =>
    cases slices with
    | nil =>
      cases others with
      | nil => rfl
      | cons u others => exact h'.1.elim
    | cons s slices => exact h.1.elim
  | cons item items ih =>
    obtain ⟨s, slices, rfl⟩ := h.exists_cons
    obtain ⟨u, others, rfl⟩ := h'.exists_cons
    have hsame : s = u := by
      rcases hle with hlt | ⟨heq, -⟩
      · rcases hge with hgt | ⟨heq, -⟩
        · exact absurd hlt (Nat.lt_asymm hgt)
        · exact heq.symm
      · exact heq
    subst hsame
    have hle' := (hle.resolve_left (Nat.lt_irrefl _)).2
    have hge' := (hge.resolve_left (Nat.lt_irrefl _)).2
    rw [ih (cuts_cons.mp h).2 (cuts_cons.mp h').2 hle' hge']

/-- There is no more than one best cutting. -/
theorem CutsBest.eq {items : List Item} {slices others : List Slice} {text : List Char}
    (h : CutsBest items slices text) (h' : CutsBest items others text) : slices = others :=
  h.1.eq_of_prefers h'.1 (h.2 _ h'.1) (h'.2 _ h.1)

/-! ## The trail of a cutting -/

/-- How a match passes the groups of the items, of which the first has this number. -/
def trailOf : (n left : Nat) → List Item → List Slice → Trail
  | n, left, item :: items, s :: slices =>
    s.trail n left ++ trailOf (n + item.groups) (left - s.text.length) items slices
  | _, _, _, _ => []

/-- What a match with the rest of a text comes to is the best cutting. -/
def Settles (n : Nat) (items : List Item) (c : Cursor) : Outcome → Prop
  | none => ∀ slices, ¬ Cuts items slices c.after
  | some trail =>
    ∃ slices, CutsBest items slices c.after ∧ trail = trailOf n c.left items slices

theorem preferred_offered {step : Cursor → List Way} {n : Nat} {c : Cursor} {slices : List Slice}
    (h : step c = slices.map (Slice.way n c)) (next : Cursor → Outcome) :
    preferred step next c =
      slices.findSome? fun s => (next (c.skip s.text)).map (s.trail n c.left ++ ·) := by
  rw [preferred, h, List.findSome?_map]
  rfl

/-- The slices of the first item are tried from the longest on, so the first that can be gone on
with begins the best cutting. -/
theorem best_cons {step : Cursor → List Way} {n : Nat} {item : Item} {items : List Item}
    {next : Cursor → Outcome} (hstep : Offers step n item.Takes)
    (hnext : ∀ d, Settles (n + item.groups) items d (next d)) (c : Cursor) :
    Settles n (item :: items) c (preferred step next c) := by
  obtain ⟨slices, hways, hmem, hsorted⟩ := hstep c
  -- A slice after which nothing is found does not begin a cutting.
  have hdead : ∀ s rest, next (c.skip s.text) = none →
      ¬ Cuts (item :: items) (s :: rest) c.after := by
    intro s rest hs hcuts
    have hrest := hnext (c.skip s.text)
    rw [hs] at hrest
    exact hrest rest (cuts_cons.mp hcuts).2
  rw [preferred_offered hways]
  cases hfound : slices.findSome? fun s =>
      (next (c.skip s.text)).map (s.trail n c.left ++ ·) with
  | none =>
    intro cut hcuts
    obtain ⟨s, rest, rfl⟩ := hcuts.exists_cons
    have hs := List.findSome?_eq_none_iff.mp hfound s ((hmem s).mpr (cuts_cons.mp hcuts).1)
    exact hdead s rest (Option.map_eq_none_iff.mp hs) hcuts
  | some trail =>
    obtain ⟨longer, s, shorter, hsplit, hs, hlonger⟩ := List.findSome?_eq_some_iff.mp hfound
    obtain ⟨rest, hrest, rfl⟩ := Option.map_eq_some_iff.mp hs
    have hsettled := hnext (c.skip s.text)
    rw [hrest] at hsettled
    obtain ⟨behind, ⟨hcuts, hbest⟩, rfl⟩ := hsettled
    have hin : s ∈ slices := by simp [hsplit]
    refine ⟨s :: behind, ⟨cuts_cons.mpr ⟨(hmem s).mp hin, hcuts⟩, ?_⟩, ?_⟩
    · intro others hothers
      obtain ⟨u, others, rfl⟩ := hothers.exists_cons
      obtain ⟨hfirst, hbehind⟩ := cuts_cons.mp hothers
      have hu : u ∈ slices := (hmem u).mpr hfirst
      rw [hsplit] at hu hsorted
      rcases List.mem_append.mp hu with hu | hu
      · exact absurd hothers (hdead u others (Option.map_eq_none_iff.mp (hlonger u hu)))
      · rcases List.mem_cons.mp hu with rfl | hu
        · exact Or.inr ⟨rfl, hbest others hbehind⟩
        · have hafter := (List.pairwise_append.mp hsorted).2.1
          exact Or.inl ((List.pairwise_cons.mp hafter).1 u hu)
    · rw [Cursor.left_skip]
      rfl

/-- A match must reach the end of the text. -/
theorem best_nil (n : Nat) (c : Cursor) :
    Settles n [] c (preferred (Expr.edge .textEnd).ways (fun _ => some []) c) := by
  obtain ⟨before, after⟩ := c
  cases after with
  | nil => exact ⟨[], ⟨⟨trivial, rfl⟩, fun _ _ => trivial⟩, rfl⟩
  | cons x after =>
    rintro slices ⟨hall, htext⟩
    cases slices with
    | nil => cases htext
    | cons s slices => exact hall

/-- The expressions of the items find the best cutting. -/
theorem best_items (n : Nat) (items : List Item) (c : Cursor) :
    Settles n items c (preferred
      (inAll ((exprsFrom n items ++ [Expr.edge .textEnd]).map Expr.ways)) (fun _ => some []) c) := by
  induction items generalizing n c with
  | nil =>
    rw [exprsFrom, List.nil_append, List.map_singleton, inAll_singleton]
    exact best_nil n c
  | cons item items ih =>
    rw [exprsFrom, List.append_assoc, List.map_append, inAll_append, preferred_inTurn]
    exact best_cons (offers_item n item) (ih _) c

/-! ## Searches -/

/-- All places but the first have something before them. -/
theorem before_ne_of_mem_onward {c d : Cursor} (h : c.before ≠ []) (hd : d ∈ c.onward) :
    d.before ≠ [] := by
  fun_induction Cursor.onward c with
  | case1 before => rwa [List.mem_singleton.mp hd]
  | case2 before x after ih =>
    rcases List.mem_cons.mp hd with rfl | hd
    · exact h
    · exact ih (List.cons_ne_nil _ _) hd

theorem onward_start (text : List Char) :
    ∃ later, (Cursor.start text).onward = Cursor.start text :: later ∧
      ∀ c ∈ later, c.before ≠ [] := by
  cases text with
  | nil =>
    refine ⟨[], ?_, fun c hc => absurd hc List.not_mem_nil⟩
    rw [Cursor.start, Cursor.onward]
  | cons x text =>
    refine ⟨Cursor.onward ⟨[x], text⟩, ?_, fun c hc => ?_⟩
    · rw [Cursor.start, Cursor.onward]
    · exact before_ne_of_mem_onward (List.cons_ne_nil _ _) hc

/-- A match that begins with the text is looked for in one place only. -/
theorem search_anchored (es : List Expr) (text : List Char) :
    (Expr.row (.edge .textStart :: es)).search text =
      preferred (inAll (es.map Expr.ways)) (fun _ => some []) (Cursor.start text) := by
  have hways : (Expr.row (.edge .textStart :: es)).ways =
      inTurn (Expr.edge .textStart).ways (inAll (es.map Expr.ways)) := Expr.ways_row _
  have hfirst : ((Expr.row (.edge .textStart :: es)).ways (Cursor.start text)).head?.map (·.2) =
      preferred (inAll (es.map Expr.ways)) (fun _ => some []) (Cursor.start text) := by
    rw [← preferred_done, hways, preferred_inTurn]
    exact preferred_stay
  obtain ⟨later, honward, hlater⟩ := onward_start text
  have hnone : later.findSome? (fun c =>
      ((Expr.row (.edge .textStart :: es)).ways c).head?.map (·.2)) = none := by
    refine List.findSome?_eq_none_iff.mpr ?_
    rintro ⟨before, after⟩ hc
    obtain ⟨x, before, rfl⟩ := List.exists_cons_of_ne_nil (hlater _ hc)
    rw [hways]
    rfl
  rw [Expr.search_eq_firstWay, Expr.firstWay, honward, List.findSome?_cons, hfirst, hnone]
  cases preferred (inAll (es.map Expr.ways)) (fun _ => some []) (Cursor.start text) <;> rfl

/-- A search finds the best cutting of the text. -/
theorem search_items (items : List Item) (text : List Char) :
    Settles 1 items (Cursor.start text)
      ((Expr.row (.edge .textStart :: (exprsFrom 1 items ++ [.edge .textEnd]))).search text) := by
  rw [search_anchored]
  exact best_items 1 items (Cursor.start text)

/-! ## Groups -/

theorem Part.groupCount_exprs (n : Nat) (p : Part) :
    ((p.exprs n).map Expr.groupCount).foldr max 0 = n := by
  obtain ⟨reach, required, name, hne, hchars⟩ := p
  cases reach <;> cases required <;>
    simp [Part.exprs, Expr.groupCount, optionalSlash]

theorem Item.groupCount_exprs (n : Nat) (item : Item) :
    ((item.exprs n).map Expr.groupCount).foldr max 0 = n * item.groups := by
  cases item with
  | text s =>
    rw [exprs, List.map_map]
    show (s.map fun _ => 0).foldr max 0 = 0
    induction s with
    | nil => rfl
    | cons c s ih => rw [List.map_cons, List.foldr_cons, ih]; rfl
  | slash mayMiss written => cases mayMiss <;> exact (Nat.mul_zero n).symm
  | part p => exact (p.groupCount_exprs n).trans (Nat.mul_one n).symm

/-- The groups are numbered one after the other. -/
theorem groupCount_exprsFrom (n : Nat) (items : List Item) :
    max n (((exprsFrom (n + 1) items).map Expr.groupCount).foldr max 0) = n + groupsOf items := by
  induction items generalizing n with
  | nil => exact Nat.max_zero n
  | cons item items ih =>
    have hcons : groupsOf (item :: items) = item.groups + groupsOf items := rfl
    have hgroups : item.groups = 0 ∨ item.groups = 1 := by
      cases item <;> simp [Item.groups]
    have hrest := ih (n + item.groups)
    rw [Nat.add_right_comm n] at hrest
    rw [exprsFrom, List.map_append, List.foldr_append, foldr_max, item.groupCount_exprs, hcons]
    rcases hgroups with h0 | h1
    · rw [h0] at hrest ⊢
      omega
    · rw [h1] at hrest ⊢
      omega

theorem groupCount_items (items : List Item) :
    (Expr.row (.edge .textStart :: (exprsFrom 1 items ++ [.edge .textEnd]))).groupCount =
      groupsOf items := by
  have hcount := groupCount_exprsFrom 0 items
  rw [Nat.zero_add, Nat.zero_max, Nat.zero_add] at hcount
  rw [Expr.groupCount_row, List.map_cons, List.map_append, List.foldr_cons, List.foldr_append,
    ← hcount]
  exact Nat.zero_max _

end RouteDispatch.Template
