/-
# A TOML text does not repeat names

A table in TOML is put together from headings, dotted keys and entries that may stand
far apart, so that the same table is changed again and again.  No change gives a table
two members of one name (`Apart`): a name that is there already is changed at its place
or refused (`changeMember_keeps`), and whatever walks down a path to make a change keeps
this for the tables on its way (`changeTable_keeps`).  Hence the document that a text
writes names no member of a record twice, at any depth (`document?_distinct`).
-/
import Mathlib.Data.List.Nodup
import RouteDispatch.Proofs.Document.Reordering

namespace RouteDispatch

/-! ## What a reading gives -/

namespace Reading

variable {α β : Type}

/-- Whatever is read has the property. -/
def Gives (r : Reading α) (P : α → Prop) : Prop := ∀ s a rest, r s = some (a, rest) → P a

theorem Gives.any {r : Reading α} : r.Gives fun _ => True := fun _ _ _ _ => trivial

theorem Gives.pure {P : α → Prop} {a : α} (h : P a) : Gives (Pure.pure a) P := by
  intro s b rest hread
  cases hread
  exact h

theorem Gives.failure {P : α → Prop} : Gives (Alternative.failure : Reading α) P := by
  intro s a rest hread
  cases hread

theorem Gives.lift {P : α → Prop} {o : Option α} (h : ∀ a, o = some a → P a) :
    Gives (liftM o : Reading α) P := by
  intro s a rest hread
  obtain ⟨b, hb, heq⟩ := Option.bind_eq_some_iff.mp hread
  cases heq
  exact h a hb

theorem Gives.bind {r : Reading α} {f : α → Reading β} {P : α → Prop} {Q : β → Prop}
    (h : r.Gives P) (hf : ∀ a, P a → (f a).Gives Q) : (r >>= f).Gives Q := by
  intro s b rest hread
  obtain ⟨⟨a, s'⟩, ha, hb⟩ := Option.bind_eq_some_iff.mp hread
  exact hf a (h s a s' ha) s' b rest hb

section
variable {item : Reading α} {P : α → Prop} (hitem : item.Gives P) {gap : Reading Unit}
  {close : Char} {trailing : Bool}
include hitem

theorem itemsOnto_gives (rounds : Nat) {done : List α} (hdone : ∀ a ∈ done, P a) :
    (itemsOnto item gap close trailing rounds done).Gives fun items => ∀ a ∈ items, P a := by
  induction rounds generalizing done with
  | zero => exact .failure
  | succ rounds ih =>
    rw [itemsOnto]
    refine .bind hitem fun a ha => .bind .any fun _ _ => .bind .any fun closed _ => ?_
    have hmore : ∀ b ∈ a :: done, P b := List.forall_mem_cons.mpr ⟨ha, hdone⟩
    have hend : ∀ b ∈ (a :: done).reverse, P b := fun b hb => hmore b (List.mem_reverse.mp hb)
    split
    · exact .pure hend
    · refine .bind .any fun _ _ => .bind .any fun _ _ => ?_
      split
      · refine .bind .any fun closed _ => ?_
        split
        · exact .pure hend
        · exact ih hmore
      · exact ih hmore

/-- Items that are read one by one all have the property. -/
theorem items_gives :
    (items item gap close trailing).Gives fun items => ∀ a ∈ items, P a := by
  refine .bind .any fun _ _ => .bind .any fun closed _ => ?_
  split
  · exact .pure (List.forall_mem_nil _)
  · exact .bind .any fun _ _ => itemsOnto_gives hitem _ (List.forall_mem_nil _)

end

end Reading

namespace Toml

open Document

/-! ## Members that are apart -/

/-- No two members of the table have one name, nor do any further down. -/
def Apart (members : Members) : Prop :=
  (members.map (·.1)).Nodup ∧ ∀ member ∈ members, member.2.close.Distinct

theorem closeMembers_eq (members : Members) :
    closeMembers members = members.map fun member => (member.1, member.2.close) := by
  induction members with
  | nil => rfl
  | cons member members ih => rw [closeMembers, ih, List.map_cons]

theorem distinct_record_iff {members : Members} :
    (Document.record (closeMembers members)).Distinct ↔ Apart members := by
  have hnames : (closeMembers members).map (·.1) = members.map (·.1) := by
    rw [closeMembers_eq, List.map_map]
    rfl
  have hvalues : (∀ member ∈ closeMembers members, member.2.Distinct) ↔
      ∀ member ∈ members, member.2.close.Distinct := by
    rw [closeMembers_eq, List.forall_mem_map]
  rw [Apart, ← hnames, ← hvalues]
  constructor
  · rintro (_ | _ | _ | _ | _ | _ | _ | ⟨hnames, hvalues⟩)
    exact ⟨hnames, hvalues⟩
  · rintro ⟨hnames, hvalues⟩
    exact .record hnames hvalues

theorem forall_mem_closeTables {P : Document → Prop} {elements : List Members}
    {done : List Document} :
    (∀ d ∈ closeTables elements done, P d) ↔
      (∀ members ∈ elements, P (.record (closeMembers members))) ∧ ∀ d ∈ done, P d := by
  induction elements generalizing done with
  | nil => simp [closeTables]
  | cons members elements ih =>
    rw [closeTables, ih, List.forall_mem_cons, List.forall_mem_cons]
    exact ⟨fun ⟨h, hfirst, hdone⟩ => ⟨⟨hfirst, h⟩, hdone⟩,
      fun ⟨⟨hfirst, h⟩, hdone⟩ => ⟨h, hfirst, hdone⟩⟩

theorem distinct_table_iff {origin : Origin} {members : Members} :
    (Item.table origin members).close.Distinct ↔ Apart members := by
  rw [Item.close, distinct_record_iff]

theorem distinct_tables_iff {elements : List Members} :
    (Item.tables elements).close.Distinct ↔ ∀ members ∈ elements, Apart members := by
  have hall : (∀ d ∈ closeTables elements [], d.Distinct) ↔ ∀ members ∈ elements, Apart members := by
    simp only [forall_mem_closeTables, distinct_record_iff, List.not_mem_nil, false_implies,
      implies_true, and_true]
  rw [Item.close, ← hall]
  constructor
  · rintro (_ | _ | _ | _ | _ | _ | hitems)
    exact hitems
  · exact .list

/-! ## Changes -/

/-- The change leaves members apart. -/
def Keeps (change : Members → Option Members) : Prop :=
  ∀ members members', Apart members → change members = some members' → Apart members'

theorem name_of_mem_changeMember {name : String} {change : Option Item → Option Item}
    {members members' : Members} (h : changeMember name change members = some members')
    {other : String} (hother : other ∈ members'.map (·.1)) :
    other = name ∨ other ∈ members.map (·.1) := by
  induction members generalizing members' with
  | nil =>
    obtain ⟨item, -, rfl⟩ := Option.map_eq_some_iff.mp h
    exact Or.inl (List.mem_singleton.mp hother)
  | cons member members ih =>
    obtain ⟨n, item⟩ := member
    rw [changeMember] at h
    split at h
    · obtain ⟨item', -, rfl⟩ := Option.map_eq_some_iff.mp h
      exact Or.inr hother
    · obtain ⟨rest, hrest, rfl⟩ := Option.map_eq_some_iff.mp h
      rcases List.mem_cons.mp hother with rfl | hother
      · exact Or.inr List.mem_cons_self
      · exact (ih hrest hother).imp id (List.mem_cons_of_mem _)

/-- What is put at the place of a name is distinct if what was there is. -/
theorem changeMember_keeps {name : String} {change : Option Item → Option Item}
    (hnew : ∀ item, change none = some item → item.close.Distinct)
    (hchange : ∀ item item', item.close.Distinct → change (some item) = some item' →
      item'.close.Distinct) : Keeps (changeMember name change) := by
  intro members
  induction members with
  | nil =>
    intro members' _ h
    obtain ⟨item, hitem, rfl⟩ := Option.map_eq_some_iff.mp h
    exact ⟨List.nodup_singleton _, List.forall_mem_singleton.mpr (hnew item hitem)⟩
  | cons member members ih =>
    rintro members' ⟨hnames, hvalues⟩ h
    obtain ⟨n, item⟩ := member
    obtain ⟨hfirst, hnames⟩ := List.nodup_cons.mp hnames
    obtain ⟨hitem, hvalues⟩ := List.forall_mem_cons.mp hvalues
    rw [changeMember] at h
    split at h
    · obtain ⟨item', hitem', rfl⟩ := Option.map_eq_some_iff.mp h
      exact ⟨List.nodup_cons.mpr ⟨hfirst, hnames⟩,
        List.forall_mem_cons.mpr ⟨hchange item item' hitem hitem', hvalues⟩⟩
    · next hne =>
      obtain ⟨rest, hrest, rfl⟩ := Option.map_eq_some_iff.mp h
      obtain ⟨hrestNames, hrestValues⟩ := ih rest ⟨hnames, hvalues⟩ hrest
      refine ⟨List.nodup_cons.mpr ⟨fun hmem => ?_, hrestNames⟩,
        List.forall_mem_cons.mpr ⟨hitem, hrestValues⟩⟩
      exact (name_of_mem_changeMember hrest hmem).elim hne hfirst

theorem apart_nil : Apart [] := ⟨List.nodup_nil, List.forall_mem_nil _⟩

/-- A change at the end of a path leaves apart what is on the way. -/
theorem changeTable_keeps {dotted : Bool} {change : Origin → Members → Option Members}
    (hchange : ∀ origin, Keeps (change origin)) (path : List String) (origin : Origin) :
    Keeps (changeTable dotted change path origin) := by
  induction path generalizing origin with
  | nil => exact hchange origin
  | cons name path ih =>
    refine changeMember_keeps ?_ ?_
    · intro item h
      obtain ⟨members, hmembers, rfl⟩ := Option.map_eq_some_iff.mp h
      exact distinct_table_iff.mpr (ih _ _ _ apart_nil hmembers)
    · intro item item' hitem h
      rcases item with d | ⟨origin, members⟩ | ⟨_ | ⟨members, elements⟩⟩
      · cases h
      · dsimp only at h
        split at h
        · cases h
        · obtain ⟨members', hmembers, rfl⟩ := Option.map_eq_some_iff.mp h
          exact distinct_table_iff.mpr (ih _ _ _ (distinct_table_iff.mp hitem) hmembers)
      · cases h
      · dsimp only at h
        split at h
        · cases h
        · obtain ⟨members', hmembers, rfl⟩ := Option.map_eq_some_iff.mp h
          obtain ⟨hfirst, hrest⟩ := List.forall_mem_cons.mp (distinct_tables_iff.mp hitem)
          exact distinct_tables_iff.mpr
            (List.forall_mem_cons.mpr ⟨ih _ _ _ hfirst hmembers, hrest⟩)

theorem addMember_keeps (name : String) {d : Document} (hd : d.Distinct) :
    Keeps (addMember name d) := by
  refine changeMember_keeps ?_ ?_
  · intro item h
    cases h
    exact hd
  · intro item item' _ h
    cases h

/-- A change under the last part of a key, in the table that the other parts lead to. -/
theorem changeLast_keeps {dotted : Bool}
    {change : String → List String → Origin → Members → Option Members}
    (hchange : ∀ last path origin, Keeps (change last path origin)) (key : List String) :
    Keeps fun members =>
      match key.reverse with
      | [] => none
      | last :: path => changeTable dotted (change last path) path.reverse .heading members := by
  intro members members' hmembers h
  dsimp only at h
  split at h
  · cases h
  · exact changeTable_keeps (hchange _ _) _ _ members members' hmembers h

theorem addEntry_keeps (key : List String) {d : Document} (hd : d.Distinct) :
    Keeps (addEntry key d) := by
  refine changeLast_keeps (fun last path origin members members' hmembers h => ?_) key
  split at h
  · cases h
  · exact addMember_keeps last hd members members' hmembers h

theorem addHeading_keeps (path : List String) : Keeps (addHeading path) := by
  refine changeLast_keeps (fun last _ _ => changeMember_keeps ?_ ?_) path
  · intro item h
    cases h
    exact distinct_table_iff.mpr apart_nil
  · intro item item' hitem h
    rcases item with d | ⟨_ | _ | _, members⟩ | elements
    case table.passage =>
      cases h
      exact distinct_table_iff.mpr (distinct_table_iff.mp hitem)
    all_goals cases h

theorem addElement_keeps (path : List String) : Keeps (addElement path) := by
  refine changeLast_keeps (fun last _ _ => changeMember_keeps ?_ ?_) path
  · intro item h
    cases h
    exact distinct_tables_iff.mpr (List.forall_mem_singleton.mpr apart_nil)
  · intro item item' hitem h
    cases item with
    | tables elements =>
      cases h
      exact distinct_tables_iff.mpr
        (List.forall_mem_cons.mpr ⟨apart_nil, distinct_tables_iff.mp hitem⟩)
    | _ => cases h

/-- The value of an entry is distinct. -/
def Statement.Distinct : Statement → Prop
  | .entry _ d => d.Distinct
  | _ => True

theorem follow?_apart {s : Statement} (hs : s.Distinct) {current path : List String}
    {members members' : Members} (h : Apart members)
    (hfollow : follow? (current, members) s = some (path, members')) : Apart members' := by
  cases s with
  | heading _ =>
    obtain ⟨_, hadd, heq⟩ := Option.map_eq_some_iff.mp hfollow
    cases heq
    exact addHeading_keeps _ _ _ h hadd
  | element _ =>
    obtain ⟨_, hadd, heq⟩ := Option.map_eq_some_iff.mp hfollow
    cases heq
    exact addElement_keeps _ _ _ h hadd
  | entry key d =>
    obtain ⟨_, hadd, heq⟩ := Option.map_eq_some_iff.mp hfollow
    cases heq
    exact changeTable_keeps (fun _ => addEntry_keeps key hs) _ _ _ _ h hadd

theorem foldlM_follow?_apart {statements : List Statement} (hall : ∀ s ∈ statements, s.Distinct)
    {current path : List String} {members members' : Members} (h : Apart members)
    (hfold : statements.foldlM follow? (current, members) = some (path, members')) :
    Apart members' := by
  induction statements generalizing current members with
  | nil =>
    cases hfold
    exact h
  | cons s statements ih =>
    rw [List.foldlM_cons] at hfold
    obtain ⟨⟨next, between⟩, hnext, hrest⟩ := Option.bind_eq_some_iff.mp hfold
    obtain ⟨hs, hall⟩ := List.forall_mem_cons.mp hall
    exact ih hall (follow?_apart hs h hnext) hrest

theorem build?_distinct {statements : List Statement} (hall : ∀ s ∈ statements, s.Distinct)
    {d : Document} (h : build? statements = some d) : d.Distinct := by
  obtain ⟨⟨path, members⟩, hfold, rfl⟩ := Option.map_eq_some_iff.mp h
  exact distinct_record_iff.mpr (foldlM_follow?_apart hall apart_nil hfold)

theorem foldlM_addEntry_apart {entries : List (List String × Document)}
    (hall : ∀ entry ∈ entries, entry.2.Distinct) :
    Keeps fun members => entries.foldlM (fun members entry => addEntry entry.1 entry.2 members)
      members := by
  induction entries with
  | nil =>
    intro members members' h hfold
    cases hfold
    exact h
  | cons entry entries ih =>
    intro members members' h hfold
    obtain ⟨between, hfirst, hrest⟩ := Option.bind_eq_some_iff.mp hfold
    obtain ⟨hentry, hall⟩ := List.forall_mem_cons.mp hall
    exact ih hall between members' (addEntry_keeps _ hentry _ _ h hfirst) hrest

theorem inlineTable?_distinct {entries : List (List String × Document)}
    (hall : ∀ entry ∈ entries, entry.2.Distinct) {d : Document} (h : inlineTable? entries = some d) :
    d.Distinct := by
  obtain ⟨members, hfold, rfl⟩ := Option.map_eq_some_iff.mp h
  exact distinct_record_iff.mpr (foldlM_addEntry_apart hall _ _ apart_nil hfold)

/-! ## Values and statements -/

theorem atom?_distinct {s : List Char} {d : Document} (h : atom? s = some d) : d.Distinct := by
  have hvalue : (∃ b, d = .bool b) ∨ (∃ n, d = .int n) ∨ d = .real ∨ d = .moment := by
    grind [atom?]
  rcases hvalue with ⟨b, rfl⟩ | ⟨n, rfl⟩ | rfl | rfl
  · exact .bool b
  · exact .int n
  · exact .real
  · exact .moment

theorem scalar_distinct : scalar.Gives Distinct := by
  intro s d rest h
  rw [scalar] at h
  split at h
  · obtain ⟨_, -, heq⟩ := Option.map_eq_some_iff.mp h
    cases heq
    exact .text _
  · obtain ⟨_, -, heq⟩ := Option.map_eq_some_iff.mp h
    cases heq
    exact .text _
  · obtain ⟨d, hatom, heq⟩ := Option.map_eq_some_iff.mp h
    cases heq
    exact atom?_distinct hatom

theorem entry_distinct {value : Reading Document} (h : value.Gives Distinct) :
    (entry value).Gives fun e => e.2.Distinct :=
  .bind .any fun _ _ => .bind .any fun _ _ => .bind .any fun _ _ => .bind .any fun _ _ =>
    .bind h fun _ hd => .pure hd

theorem valueWith_distinct {inner : Option (Reading Document)}
    (h : ∀ value ∈ inner, value.Gives Distinct) : (valueWith inner).Gives Distinct := by
  refine .bind .any fun c _ => ?_
  split
  · split
    · exact .failure
    · next value =>
      refine .bind .any fun _ _ => .bind (Reading.items_gives (h value rfl)) fun items hitems => ?_
      exact .pure (.list hitems)
  · split
    · exact .failure
    · next value =>
      refine .bind .any fun _ _ =>
        .bind (Reading.items_gives (entry_distinct (h value rfl))) fun entries hentries => ?_
      exact .lift fun _ htable => inlineTable?_distinct hentries htable
  · exact scalar_distinct

theorem value_distinct (depth : Nat) : (value depth).Gives Distinct := by
  induction depth with
  | zero => exact valueWith_distinct nofun
  | succ depth ih =>
    refine valueWith_distinct fun value hvalue => ?_
    cases hvalue
    exact ih

theorem statement_distinct : statement.Gives Statement.Distinct := by
  refine .bind .any fun heading _ => ?_
  split
  · refine .bind .any fun many _ => .bind .any fun _ _ => .bind .any fun k _ =>
      .bind .any fun _ _ => .bind .any fun _ _ => ?_
    split
    · exact .pure trivial
    · exact .pure trivial
  · exact .bind (entry_distinct (value_distinct _)) fun _ hd => .pure hd

theorem statementsOnto_distinct (rounds : Nat) {done : List Statement}
    (hdone : ∀ s ∈ done, s.Distinct) :
    (statementsOnto rounds done).Gives fun statements => ∀ s ∈ statements, s.Distinct := by
  induction rounds generalizing done with
  | zero => exact .failure
  | succ rounds ih =>
    refine .bind .any fun _ _ => .bind .any fun c _ => ?_
    split
    · exact .pure fun s hs => hdone s (List.mem_reverse.mp hs)
    · split
      · exact .bind .any fun _ _ => ih hdone
      · refine .bind statement_distinct fun s hs => .bind .any fun _ _ => ih ?_
        exact List.forall_mem_cons.mpr ⟨hs, hdone⟩

theorem statements?_distinct {text : List Char} {statements : List Statement}
    (h : statements? text = some statements) : ∀ s ∈ statements, s.Distinct := by
  rw [statements?, Reading.whole] at h
  split at h
  · next hread =>
    cases h
    exact statementsOnto_distinct _ (List.forall_mem_nil _) _ _ _ hread
  · cases h

/-- No record in the document that a text writes names a member twice. -/
theorem document?_distinct {s : String} {d : Document} (h : document? s = some d) :
    d.Distinct := by
  obtain ⟨statements, hstatements, hbuild⟩ := Option.bind_eq_some_iff.mp h
  exact build?_distinct (statements?_distinct hstatements) hbuild

end Toml

end RouteDispatch
