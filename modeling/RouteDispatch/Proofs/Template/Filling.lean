/-
# Values go into a plain template

To fill a template, the slashes that may be missing are put away first, and then the
names are looked for by a scanner of their own.  On a plain template that scanner
finds the parts and nothing else (`cut_items`), also behind the first pass, so
what is filled in is told by the items one after the other (`fillChars_of_values`).

The stand-ins of slashes that are left go last, those at the end without a trace.
Where the filled text has no marker there is none of them, and it stays as it
is (`settleSlashes_of_unmarked`).
-/
import RouteDispatch.Proofs.Template.Translation
import RouteDispatch.Template.Fill

namespace RouteDispatch.Template

open Text

/-- The part as the scanner for names finds it. -/
def Part.slot (p : Part) : Slot := ⟨p.text, p.label⟩

/-- What the scanner for names cuts an item into, once the slashes that may be missing are put
away. -/
def Item.pieces : Item → List (Piece Slot)
  | part p => [.found p.slot]
  | item => (item.held 1).map .plain

/-- The item with a value in the place of its part. -/
def Item.filled (value : Part → List Char) : Item → List Char
  | part p => value p
  | item => item.held 1

/-! ## The scanner for names -/

/-- Nothing in the item is taken for the start of a part, unless it is one. -/
def Item.Clear : Item → Prop
  | part _ => True
  | item => ∀ c ∈ item.held 1, c ≠ '{' ∧ c ≠ ':'

theorem clear_slash (mayMiss : Bool) {written : List Char} (h : written = [] ∨ written = ['/']) :
    (Item.slash mayMiss written).Clear := by
  intro c hc
  rw [Item.held] at hc
  split at hc
  · have hstand := standIn_delimiters _ c hc
    exact ⟨hstand.1, hstand.2.2.1⟩
  · have hslash := slash_delimiters h c hc
    exact ⟨hslash.1, hslash.2.2⟩

theorem clear_text {s : List Char} (h : ∀ c ∈ s, c ≠ '{' ∧ c ≠ '}' ∧ c ≠ ':') :
    (Item.text s).Clear := fun c hc => ⟨(h c hc).1, (h c hc).2.2⟩

theorem clear_separation {prev : Option Part} {cell : Cell}
    (h : ∀ c ∈ cell.lead, c ≠ '{' ∧ c ≠ '}' ∧ c ≠ ':') :
    ∀ item ∈ cell.separation prev, item.Clear := by
  intro item hitem
  rw [Cell.separation] at hitem
  split at hitem
  · next hjoin =>
    rw [List.mem_singleton.mp hitem]
    exact clear_slash _ hjoin.2
  · split at hitem
    · rcases List.mem_cons.mp hitem with rfl | hitem
      · exact clear_text fun c hc => h c ((List.dropLast_sublist _).mem hc)
      · rw [List.mem_singleton.mp hitem]
        exact clear_slash _ (Or.inr rfl)
    · rw [List.mem_singleton.mp hitem]
      exact clear_text h

theorem clear_itemsFrom (prev : Option Part) {cells : List Cell} {tail : List Char}
    (ht : Undelimited cells tail) : ∀ item ∈ itemsFrom prev cells tail, item.Clear := by
  induction cells generalizing prev with
  | nil =>
    intro item hitem
    rw [List.mem_singleton.mp hitem]
    exact clear_text ht.tail
  | cons cell cells ih =>
    obtain ⟨hcell, hcells⟩ := ht.of_cons
    intro item hitem
    rcases List.mem_append.mp hitem with hitem | hitem
    · exact clear_separation hcell item hitem
    · rcases List.mem_cons.mp hitem with rfl | hitem
      · trivial
      · exact ih _ hcells item hitem

theorem cut_items {items : List Item} (h : ∀ item ∈ items, item.Clear) :
    cut slotRule (heldAll 1 items) = items.flatMap Item.pieces := by
  induction items with
  | nil => rfl
  | cons item items ih =>
    have hrest := ih fun other hother => h other (List.mem_cons_of_mem _ hother)
    have hitem := h item List.mem_cons_self
    have hplain : (∀ c ∈ item.held 1, c ≠ '{' ∧ c ≠ ':') →
        cut slotRule (item.held 1 ++ heldAll 1 items) =
          (item.held 1).map .plain ++ cut slotRule (heldAll 1 items) := by
      intro hchars
      refine cut_append_of_silent (silent_of_head _ ?_)
      intro c hc s
      exact slotRule_of_head (hchars c hc).1 (hchars c hc).2 s
    rw [heldAll_cons, List.flatMap_cons, ← hrest]
    cases item with
    | part p =>
      have hfound := slotRule_found p (heldAll 1 items)
      rw [held_part_of_le_two p (by decide)]
      rw [Part.text] at hfound ⊢
      exact cut_append_of_some hfound
    | text s => exact hplain hitem
    | slash mayMiss written => exact hplain hitem

/-! ## Values -/

theorem fillOnto_plain (values : String → Option String) (u done : List Char)
    (pieces : List (Piece Slot)) :
    fillOnto values done (u.map .plain ++ pieces) = fillOnto values (u.reverse ++ done) pieces := by
  induction u generalizing done with
  | nil => rfl
  | cons c u ih =>
    rw [List.map_cons, List.cons_append, fillOnto, ih, List.reverse_cons, List.append_assoc]
    rfl

theorem fillOnto_items {values : String → Option String} {value : Part → List Char}
    {items : List Item} (hclear : ∀ item ∈ items, item.Clear)
    (h : ∀ p, .part p ∈ items → p.slot.value values = .ok (value p)) (done : List Char) :
    fillOnto values done (items.flatMap Item.pieces) =
      .ok ((items.flatMap (Item.filled value)).reverse ++ done) := by
  induction items generalizing done with
  | nil => rfl
  | cons item items ih =>
    have hrest := ih (fun other hother => hclear other (List.mem_cons_of_mem _ hother))
      fun p hp => h p (List.mem_cons_of_mem _ hp)
    rw [List.flatMap_cons, List.flatMap_cons, List.reverse_append, List.append_assoc, ← hrest]
    cases item with
    | part p =>
      have hvalue := h p List.mem_cons_self
      rw [Item.pieces, List.singleton_append, fillOnto, hvalue]
      rfl
    | text s => exact fillOnto_plain values s done _
    | slash mayMiss written =>
      exact fillOnto_plain values ((Item.slash mayMiss written).held 1) done _

theorem part_mem_items {t : Plain} {p : Part} (h : .part p ∈ t.items) : p ∈ t.parts := by
  obtain ⟨cells, tail, tidy⟩ := t
  change .part p ∈ itemsFrom none cells tail at h
  show p ∈ cells.map (·.part)
  clear tidy
  generalize (none : Option Part) = prev at h
  induction cells generalizing prev with
  | nil => cases List.mem_singleton.mp h
  | cons cell cells ih =>
    rcases List.mem_append.mp h with h | h
    · rw [Cell.separation] at h
      split at h
      · cases List.mem_singleton.mp h
      · split at h <;> simp at h
    · rcases List.mem_cons.mp h with h | h
      · cases h
        exact List.mem_cons_self
      · exact List.mem_cons_of_mem _ (ih _ h)

/-- A template is filled part by part. -/
theorem fillChars_eq {cells : List Cell} {tail : List Char} (h : Undelimited cells tail)
    (values : String → Option String) :
    fillChars (cells.flatMap Cell.text ++ tail) values =
      (fillOnto values [] ((itemsFrom none cells tail).flatMap Item.pieces)).map settleSlashes := by
  rw [fillChars, save_optionalSlash h, cut_items (clear_itemsFrom none h)]

/-- A template whose parts all have a value is filled item by item. -/
theorem fillChars_of_values (t : Plain) {values : String → Option String}
    {value : Part → List Char} (h : ∀ p ∈ t.parts, p.slot.value values = .ok (value p)) :
    fillChars t.text values =
      .ok (settleSlashes (t.items.flatMap (Item.filled value)).reverse) := by
  have hclear := clear_itemsFrom none t.tidy.undelimited
  have hfill := fillOnto_items hclear (fun p hp => h p (part_mem_items hp)) []
  rw [Plain.text, fillChars_eq t.tidy.undelimited, hfill, List.append_nil]
  rfl

/-! ## Slashes that are left -/

theorem marker_in_standIn (form : Form) : ['R', 'C', '_'] <:+: form.standIn := by
  obtain ⟨a, b, -, -, hform, -⟩ := standIn_eq form
  exact ⟨['_', '_'], [a, b, '_', '_'], hform.symm⟩

theorem replace_of_unmarked (form : Form) (new : List Char) {s : List Char} (h : Unmarked s) :
    replace form.standIn new s = s :=
  replace_of_not_infix (fun hin => h ((marker_in_standIn form).trans hin)) new

/-- Text without a marker has no slash that is still to be settled. -/
theorem settleSlashes_of_unmarked {s : List Char} (h : Unmarked s) :
    settleSlashes s.reverse = s := by
  have hend : ¬ (Form.standIn .optionalSlash).reverse <+: s.reverse := by
    intro hpre
    have hsuffix := List.reverse_prefix.mp hpre
    exact h ((marker_in_standIn .optionalSlash).trans hsuffix.isInfix)
  rw [settleSlashes, dropRepeated_of_not_prefix hend, List.reverse_reverse, replace_of_unmarked _ _ h]

end RouteDispatch.Template
