/-
# The stand-ins of a plain template are turned into regular expressions

Text is escaped, and then eight more passes turn the stand-ins into the regular
expressions of their forms.  None of these passes may take anything else for a
stand-in: not the end of one with the start of the text behind it, nor text with
the start of the stand-in behind that.

All stand-ins have a marker in them which plain text has not, followed by a
letter.  `Unmarked` text keeps that property in front of anything that `Opens`
without the rest of a marker (`marker_free`), and this is what the passes need.
-/
import RouteDispatch.Proofs.Template.Save.Parts

namespace RouteDispatch.Template

open Text

/-! ## Markers -/

/-- Text without the marker of stand-ins. -/
def Unmarked (s : List Char) : Prop := ¬ ['R', 'C', '_'] <:+: s

/-- Text that completes no marker: it ends, or begins with a character that is not in one, or with
the two that come before a marker. -/
def Opens (s : List Char) : Prop :=
  s = [] ∨ (∃ c u, s = c :: u ∧ c ≠ '_' ∧ c ≠ 'R' ∧ c ≠ 'C') ∨ ∃ u, s = '_' :: '_' :: u

theorem Unmarked.tail {c : Char} {s : List Char} (h : Unmarked (c :: s)) : Unmarked s :=
  fun hin => h (hin.trans (List.suffix_cons c s).isInfix)

theorem Opens.not_prefix {s : List Char} (h : Opens s) {c d : Char} {u : List Char}
    (hpre : c :: d :: u <+: s) : c ≠ 'R' ∧ c ≠ 'C' ∧ (c = '_' → d = '_') := by
  obtain ⟨v, hv⟩ := hpre
  rcases h with rfl | ⟨e, w, rfl, he, he', he''⟩ | ⟨w, rfl⟩
  · cases hv
  · obtain ⟨rfl, -⟩ := List.cons.inj hv
    exact ⟨he', he'', fun heq => absurd heq he⟩
  · obtain ⟨hc, hrest⟩ := List.cons.inj hv
    obtain ⟨hd, -⟩ := List.cons.inj hrest
    rw [hc, hd]
    exact ⟨by decide, by decide, fun _ => rfl⟩

/-- No marker begins in unmarked text, whatever part of it stands behind. -/
theorem marker_free {s rest : List Char} (hs : Unmarked s) (hrest : Opens rest) {a : Char}
    (ha : a ≠ '_') (u : List Char) : ¬ 'R' :: 'C' :: '_' :: a :: u <+: s ++ rest := by
  intro hpre
  rcases s with _ | ⟨c, s⟩
  · exact (hrest.not_prefix hpre).1 rfl
  · obtain ⟨hc, hpre⟩ := List.cons_prefix_cons.mp hpre
    rcases s with _ | ⟨d, s⟩
    · exact (hrest.not_prefix hpre).2.1 rfl
    · obtain ⟨hd, hpre⟩ := List.cons_prefix_cons.mp hpre
      rcases s with _ | ⟨e, s⟩
      · exact ha ((hrest.not_prefix hpre).2.2 rfl)
      · obtain ⟨he, -⟩ := List.cons_prefix_cons.mp hpre
        rw [← hc, ← hd, ← he] at hs
        exact hs ⟨[], s, rfl⟩

theorem marker_free_one {s rest : List Char} (hs : Unmarked s) (hrest : Opens rest) {a : Char}
    (ha : a ≠ '_') (u : List Char) : ¬ '_' :: 'R' :: 'C' :: '_' :: a :: u <+: s ++ rest := by
  intro hpre
  rcases s with _ | ⟨c, s⟩
  · have hunder := (hrest.not_prefix hpre).2.2 rfl
    exact absurd hunder (by decide)
  · exact marker_free hs.tail hrest ha u (List.cons_prefix_cons.mp hpre).2

/-! ## Stand-ins -/

/-- A stand-in is told from others by the two letters behind its marker. -/
theorem standIn_eq (form : Form) : ∃ a b, a ≠ '_' ∧ b ≠ '_' ∧
    form.standIn = ['_', '_', 'R', 'C', '_', a, b, '_', '_'] ∧
      ∀ other : Form, other ≠ form →
        ∀ a' b', other.standIn = ['_', '_', 'R', 'C', '_', a', b', '_', '_'] →
          ¬ (a' = a ∧ b' = b) := by
  have hinj : ∀ first second : Form, first.standIn = second.standIn → first = second := by
    intro first second
    cases first <;> cases second <;> decide
  have hletters : ∃ a b, a ≠ '_' ∧ b ≠ '_' ∧
      form.standIn = ['_', '_', 'R', 'C', '_', a, b, '_', '_'] := by
    cases form <;> exact ⟨_, _, by decide, by decide, rfl⟩
  obtain ⟨a, b, ha, hb, hform⟩ := hletters
  refine ⟨a, b, ha, hb, hform, ?_⟩
  rintro other hne a' b' hother ⟨rfl, rfl⟩
  exact hne (hinj other form (hother.trans hform.symm))

/-- Text is not taken for a stand-in. -/
theorem silent_text (form : Form) {s rest : List Char} (hs : Unmarked s) (hrest : Opens rest) :
    Silent (swapping form.standIn form.fragment) s rest := by
  obtain ⟨a, b, ha, -, hform, -⟩ := standIn_eq form
  induction s with
  | nil => trivial
  | cons c s ih =>
    refine ⟨swapping_eq_none fun hpre => ?_, ih hs.tail⟩
    rw [hform] at hpre
    exact marker_free_one hs.tail hrest ha _ (List.cons_prefix_cons.mp hpre).2

theorem silent_fragment (form other : Form) (rest : List Char) :
    Silent (swapping form.standIn form.fragment) other.fragment rest := by
  have hchars : ∀ c ∈ other.fragment, c ≠ '_' := by
    cases other <;> exact forall_mem_of_all rfl
  obtain ⟨a, b, -, -, hform, -⟩ := standIn_eq form
  refine silent_of_head rest fun c hc s => swapping_eq_none ?_
  intro hpre
  rw [hform] at hpre
  exact hchars c hc (List.cons_prefix_cons.mp hpre).1.symm

/-- A stand-in is not taken for another one, nor its end for the start of one. -/
theorem silent_other {form other : Form} (hne : other ≠ form) {s rest : List Char} (hs : Unmarked s)
    (hrest : Opens rest) :
    Silent (swapping form.standIn form.fragment) other.standIn (s ++ rest) := by
  obtain ⟨a, b, ha, hb, hform, hdiffer⟩ := standIn_eq form
  obtain ⟨a', b', ha', hb', hother, -⟩ := standIn_eq other
  have hnot := hdiffer other hne a' b' hother
  rw [hother, hform]
  refine ⟨?_, ?_, ?_, ?_, ?_, ?_, ?_, ?_, ?_, trivial⟩ <;>
    refine swapping_eq_none fun hpre => ?_ <;>
      simp only [List.cons_append, List.nil_append, List.cons_prefix_cons] at hpre
  · exact hnot ⟨hpre.2.2.2.2.2.1.symm, hpre.2.2.2.2.2.2.1.symm⟩
  · exact absurd hpre.2.1 (by decide)
  · exact absurd hpre.1 (by decide)
  · exact absurd hpre.1 (by decide)
  · exact ha' hpre.2.1.symm
  · exact ha' hpre.1.symm
  · exact hb' hpre.1.symm
  · exact marker_free hs hrest ha _ hpre.2.2
  · exact marker_free_one hs hrest ha _ hpre.2

/-! ## Escaped text -/

theorem escape_cons (c : Char) (s : List Char) :
    escape (c :: s) = (if isMeta c then ['\\', c] else [c]) ++ escape s := List.flatMap_cons

theorem escape_append (s u : List Char) : escape (s ++ u) = escape s ++ escape u :=
  List.flatMap_append

theorem escape_of_forall {s : List Char} (h : ∀ c ∈ s, isMeta c = false) : escape s = s := by
  induction s with
  | nil => rfl
  | cons c s ih =>
    rw [escape_cons, h c List.mem_cons_self, ih fun d hd => h d (List.mem_cons_of_mem _ hd)]
    rfl

/-- A character behind which no backslash was put is a character of the text. -/
theorem escape_eq_cons {s u : List Char} {c : Char} (h : escape s = c :: u) (hc : c ≠ '\\') :
    ∃ v, s = c :: v ∧ u = escape v := by
  cases s with
  | nil => cases h
  | cons d s =>
    rw [escape_cons] at h
    split at h
    · exact absurd (List.cons.inj h).1.symm hc
    · obtain ⟨rfl, rfl⟩ := List.cons.inj h
      exact ⟨s, rfl, rfl⟩

theorem Unmarked.escape {s : List Char} (h : Unmarked s) : Unmarked (escape s) := by
  induction s with
  | nil => exact h
  | cons c s ih =>
    have hrest := ih h.tail
    rw [escape_cons]
    intro hin
    split at hin
    · next hmeta =>
      have hne : c ≠ 'R' := by
        rintro rfl
        exact absurd hmeta (by decide)
      rcases List.infix_cons_iff.mp hin with hpre | hin
      · exact absurd (List.cons_prefix_cons.mp hpre).1 (by decide)
      · rcases List.infix_cons_iff.mp hin with hpre | hin
        · exact hne (List.cons_prefix_cons.mp hpre).1.symm
        · exact hrest hin
    · rcases List.infix_cons_iff.mp hin with hpre | hin
      · obtain ⟨rfl, u, hu⟩ := List.cons_prefix_cons.mp hpre
        obtain ⟨v, rfl, hv⟩ := escape_eq_cons hu.symm (by decide)
        obtain ⟨w, rfl, -⟩ := escape_eq_cons hv.symm (by decide)
        exact h ⟨[], w, rfl⟩
      · exact hrest hin

/-! ## Items after some passes -/

/-- What stands for a form after the first `k` passes. -/
def Form.shown (k : Nat) (form : Form) : List Char :=
  if form.rank < k then form.fragment else form.standIn

/-- What stands for an item once text is escaped, and after the first `k` passes. -/
def Item.restored (k : Nat) : Item → List Char
  | text s => escape s
  | slash mayMiss _ => (slashForm mayMiss).shown k
  | part p => p.form.shown k

def restoredAll (k : Nat) (items : List Item) : List Char := items.flatMap (Item.restored k)

/-- All text is unmarked, and no two pieces of text stand side by side. -/
def Spaced : List Item → Prop
  | [] => True
  | .text s :: items => Unmarked s ∧ (∀ u more, items ≠ .text u :: more) ∧ Spaced items
  | .slash _ _ :: items => Spaced items
  | .part _ :: items => Spaced items

theorem opens_shown (k : Nat) (form : Form) (rest : List Char) : Opens (form.shown k ++ rest) := by
  rw [Form.shown]
  split
  · refine Or.inr (Or.inl ?_)
    cases form <;> exact ⟨_, _, rfl, by decide, by decide, by decide⟩
  · refine Or.inr (Or.inr ?_)
    cases form <;> exact ⟨_, rfl⟩

theorem opens_restoredAll (k : Nat) {items : List Item} (h : ∀ u more, items ≠ .text u :: more) :
    Opens (restoredAll k items) := by
  rcases items with _ | ⟨item, items⟩
  · exact Or.inl rfl
  · cases item with
    | text s => exact absurd rfl (h s items)
    | slash mayMiss written => exact opens_shown k _ _
    | part p => exact opens_shown k _ _

/-- What stands behind a stand-in completes no marker. -/
theorem restoredAll_split (k : Nat) {items : List Item} (h : Spaced items) :
    ∃ s rest, restoredAll k items = s ++ rest ∧ Unmarked s ∧ Opens rest := by
  have hnil : Unmarked [] := by
    intro hin
    exact absurd (List.eq_nil_of_infix_nil hin) (by decide)
  rcases items with _ | ⟨item, items⟩
  · exact ⟨[], [], rfl, hnil, Or.inl rfl⟩
  · cases item with
    | text s => exact ⟨escape s, _, rfl, h.1.escape, opens_restoredAll k h.2.1⟩
    | slash mayMiss written => exact ⟨[], _, rfl, hnil, opens_shown k _ _⟩
    | part p => exact ⟨[], _, rfl, hnil, opens_shown k _ _⟩

/-- A pass gives the stand-ins of its form their meaning and leaves all others as they are. -/
theorem restore_shown {form other : Form} {s rest : List Char} (hs : Unmarked s)
    (hrest : Opens rest) :
    substitute (swapping form.standIn form.fragment) (other.shown form.rank ++ (s ++ rest)) =
      other.shown (form.rank + 1) ++
        substitute (swapping form.standIn form.fragment) (s ++ rest) := by
  rw [Form.shown, Form.shown]
  rcases Nat.lt_trichotomy other.rank form.rank with hlt | heq | hgt
  · rw [if_pos hlt, if_pos (by omega), substitute_append_of_silent (silent_fragment form other _)]
  · obtain rfl : other = form := rank_inj heq
    have hfound : swapping other.standIn other.fragment (other.standIn ++ (s ++ rest)) =
        some (other.fragment, other.standIn.length) := by
      rw [swapping, if_pos (List.isPrefixOf_iff_prefix.mpr (List.prefix_append _ _))]
    have hne : other.standIn ≠ [] := by
      cases other <;> decide
    rw [if_neg (Nat.lt_irrefl _), if_pos (Nat.lt_succ_self _),
      substitute_append_of_some hne hfound]
  · have hne : other ≠ form := by
      rintro rfl
      exact Nat.lt_irrefl _ hgt
    rw [if_neg (by omega), if_neg (by omega),
      substitute_append_of_silent (silent_other hne hs hrest)]

theorem restore_items (form : Form) {items : List Item} (h : Spaced items) :
    form.restore (restoredAll form.rank items) = restoredAll (form.rank + 1) items := by
  show substitute (swapping form.standIn form.fragment) _ = _
  induction items with
  | nil => rfl
  | cons item items ih =>
    have hslot : ∀ other : Form, Spaced items →
        substitute (swapping form.standIn form.fragment)
            (other.shown form.rank ++ restoredAll form.rank items) =
          other.shown (form.rank + 1) ++ restoredAll (form.rank + 1) items := by
      intro other hitems
      obtain ⟨s, rest, hsplit, hs, hrest⟩ := restoredAll_split form.rank hitems
      have hrestored := ih hitems
      rw [hsplit] at hrestored ⊢
      rw [restore_shown hs hrest, hrestored]
    cases item with
    | text s =>
      obtain ⟨hs, hnext, hitems⟩ := h
      have hopens := opens_restoredAll form.rank hnext
      have hsubst := substitute_append_of_silent (silent_text form hs.escape hopens)
      rw [ih hitems] at hsubst
      exact hsubst
    | slash mayMiss written => exact hslot (slashForm mayMiss) h
    | part p => exact hslot p.form h

/-- Passes in the order of the forms. -/
theorem foldl_restore {items : List Item} (hitems : Spaced items) {forms : List Form} {k : Nat}
    (h : forms.map Form.rank = List.range' k forms.length) :
    forms.foldl (fun s form => form.restore s) (restoredAll k items) =
      restoredAll (k + forms.length) items := by
  induction forms generalizing k with
  | nil => rfl
  | cons form forms ih =>
    rw [List.length_cons, List.range'_succ, List.map_cons] at h
    obtain ⟨rfl, hforms⟩ := List.cons.inj h
    rw [List.foldl_cons, restore_items form hitems, ih hforms, List.length_cons]
    congr 1
    omega

/-! ## Whole templates -/

theorem spaced_itemsFrom {prev : Option Part} {cells : List Cell} {tail : List Char}
    (ht : Tidy prev cells tail) : Spaced (itemsFrom prev cells tail) := by
  induction cells generalizing prev with
  | nil => exact ⟨Literal.marker ht, (fun _ _ heq => by cases heq), trivial⟩
  | cons cell cells ih =>
    obtain ⟨hcell, hcells⟩ := ht
    have hrest : Spaced (itemsFrom (some cell.part) cells tail) := ih hcells
    have hdropped : Unmarked cell.lead.dropLast := fun hin =>
      hcell.marker (hin.trans (List.dropLast_prefix _).isInfix)
    rw [itemsFrom, Cell.separation]
    split
    · exact hrest
    · split
      · exact ⟨hdropped, (fun _ _ heq => by cases heq), hrest⟩
      · exact ⟨hcell.marker, (fun _ _ heq => by cases heq), hrest⟩

/-- Stand-ins have nothing in them that would be escaped. -/
theorem escape_heldAll (items : List Item) : escape (heldAll 8 items) = restoredAll 0 items := by
  have hstand : ∀ form : Form, escape form.standIn = form.standIn := by
    intro form
    refine escape_of_forall ?_
    cases form <;> exact forall_mem_of_all rfl
  have hrank : ∀ form : Form, form.rank < 8 := by
    intro form
    cases form <;> decide
  induction items with
  | nil => rfl
  | cons item items ih =>
    rw [heldAll_cons, escape_append, ih]
    show _ = item.restored 0 ++ restoredAll 0 items
    congr 1
    cases item with
    | text s => rfl
    | slash mayMiss written =>
      rw [Item.held, if_pos (hrank _), hstand]
      rfl
    | part p =>
      rw [Item.held, if_pos (hrank _), hstand]
      rfl

theorem restored_eight (item : Item) : item.restored 8 = item.fragment := by
  cases item with
  | text s => rfl
  | slash mayMiss written => cases mayMiss <;> rfl
  | part p =>
    obtain ⟨reach, required, name, hne, hchars⟩ := p
    cases reach <;> cases required <;> rfl

/-- The passes come to the translation of a template item by item. -/
theorem body_eq_translation (t : Plain) : body t.text = t.translation := by
  have hspaced : Spaced t.items := spaced_itemsFrom t.tidy
  show Form.all.foldl (fun s form => form.restore s)
    (escape (Form.all.foldl (fun s form => form.save s) t.text)) = t.translation
  rw [save_all, escape_heldAll, foldl_restore hspaced rfl, Plain.translation, restoredAll]
  congr 1
  funext item
  exact restored_eight item

end RouteDispatch.Template
