/-
# What a document says, a table holds

A route table is read out of a document by functions that take what they need.  Here it
is said from the side of the document: which members a record may have at its place,
how often, and what in the table is the value of each (`RouteTable.WrittenAs`).  A
document is read as a table exactly if it is written like this
(`RouteTable.ofDocument?_iff`), so whatever else it says, it is refused.

The fields of a table, of its section and of an entry are all members that there are,
each once.  There are two places where a document says more than the table holds: of
rules with one name only the last one counts, which a text in TOML cannot have, and of a
rule that is a record only the pattern does (`ofText_drops_flags`).

There is a third place if the parser of TOML passes over what a list has behind the last
field (`surplus`).  All of this holds whether it does or not.
-/
import RouteDispatch.Proofs.Document.TomlNames
import RouteDispatch.Proofs.Text.Named

namespace RouteDispatch

open Text

/-! ## How things are written -/

namespace Document

/-- The members of a record, or those that a list of fields in this order stands for. -/
inductive Members (surplus : Bool) (names : List String) :
    Document → List (String × Document) → Prop where
  | record (members : List (String × Document)) : Members surplus names (.record members) members
  | list {items : List Document} (hitems : items.length ≤ names.length ∨ surplus = true) :
      Members surplus names (.list items) (names.zip items)

/-- The document is a record.  No field is there twice, and for every member, and for every field
that is missing, it holds what `field` says. -/
def RecordOf (surplus : Bool) (names : List String) (field : String → Option Document → Prop)
    (d : Document) : Prop :=
  ∃ members, Members surplus names d members ∧ (members.map (·.1)).Nodup ∧
    (∀ member ∈ members, field member.1 (some member.2)) ∧
    ∀ name ∈ names, name ∉ members.map (·.1) → field name none

end Document

open Document

/-- A rule is a list of texts, or a record with one pattern. -/
inductive RuleSource.WrittenAs : RuleSource → Document → Prop where
  | oneOf (allowed : List String) : WrittenAs (.oneOf allowed) (.list (allowed.map .text))
  | pattern (source : String) {front back : List (String × Document)}
      (hfront : "pattern" ∉ front.map (·.1)) (hback : "pattern" ∉ back.map (·.1)) :
      WrittenAs (.pattern source) (.record (front ++ ("pattern", .text source) :: back))

/-- The rules of an entry are a record of rules.  Of those with one name, the last one counts. -/
def RulesWrittenAs (rules : List (String × RuleSource)) (d : Document) : Prop :=
  ∃ members, d = .record members ∧
    (∀ member ∈ members, ∃ rule, RuleSource.WrittenAs rule member.2) ∧
    (rules.map fun rule => bytes rule.1).Pairwise (· < ·) ∧
    ∀ name rule, (name, rule) ∈ rules ↔
      ∃ d, lastNamed? members name = some d ∧ RuleSource.WrittenAs rule d

/-- What an entry holds if a field is given, or is not. -/
def RouteEntry.Says (entry : RouteEntry) : String → Option Document → Prop
  | "pattern", some d => d = .text entry.pattern
  | "priority", some d =>
    d = .int entry.priority ∧ -0x80000000 ≤ entry.priority ∧ entry.priority < 0x80000000
  | "priority", none => entry.priority = 0
  | "greedy", some d => d = .bool entry.greedy
  | "greedy", none => entry.greedy = false
  | "rules", some d => RulesWrittenAs entry.rules d
  | "rules", none => entry.rules = []
  | _, _ => False

/-- An entry has a pattern, and may have a priority, greed and rules. -/
def RouteEntry.WrittenAs (surplus : Bool) (entry : RouteEntry) (d : Document) : Prop :=
  RecordOf surplus ["pattern", "priority", "greedy", "rules"] entry.Says d

/-- A slash mode is its name, or a record with that name only. -/
inductive SlashMode.WrittenAs (format : Format) (mode : SlashMode) : Document → Prop where
  | name : WrittenAs format mode (.text mode.name)
  | only {d : Document} (h : d.isUnit format = true) :
      WrittenAs format mode (.record [(mode.name, d)])

/-- What a lexer section holds if its field is given, or is not. -/
def SlashMode.Says (format : Format) (mode : SlashMode) : String → Option Document → Prop
  | "slash_mode", some d => mode.WrittenAs format d
  | "slash_mode", none => mode = .loose
  | _, _ => False

namespace RouteTable

/-- The lexer section is null if there is none, and may have a slash mode. -/
def LexerWrittenAs (format : Format) (surplus : Bool) : Option SlashMode → Document → Prop
  | none, d => d = .null
  | some mode, d => RecordOf surplus ["slash_mode"] (mode.Says format) d

/-- What a table holds if a field is given, or is not. -/
def Says (format : Format) (surplus : Bool) (t : RouteTable) : String → Option Document → Prop
  | "lexer", some d => LexerWrittenAs format surplus t.lexer d
  | "lexer", none => t.lexer = none
  | "routes", some d =>
    ∃ items, d = .list items ∧ List.Forall₂ (RouteEntry.WrittenAs surplus) t.routes items
  | "routes", none => t.routes = []
  | _, _ => False

/-- A table may have a lexer section and routes. -/
def WrittenAs (format : Format) (surplus : Bool) (t : RouteTable) (d : Document) : Prop :=
  RecordOf surplus ["lexer", "routes"] (t.Says format surplus) d

end RouteTable

/-! ## Fields -/

namespace Document

theorem lookup_zip {names : List String} (hnames : names.Nodup) (items : List Document) :
    names.map ((names.zip items).lookup ·) =
      (items.take names.length).map some ++
        List.replicate (names.length - items.length) none := by
  induction names generalizing items with
  | nil =>
    rw [List.length_nil, Nat.zero_sub, List.take_zero]
    rfl
  | cons name names ih =>
    obtain ⟨hname, hnames⟩ := List.nodup_cons.mp hnames
    cases items with
    | nil =>
      have hnone := ih hnames []
      rw [List.zip_nil_right] at hnone ⊢
      rw [List.map_cons, hnone, List.take_nil, List.take_nil]
      rfl
    | cons item items =>
      have hrest := ih hnames items
      have hlater : names.map (((name, item) :: names.zip items).lookup ·) =
          names.map ((names.zip items).lookup ·) := by
        refine List.map_congr_left fun other hother => ?_
        rw [lookup_cons_eq, if_neg]
        rintro rfl
        exact hname hother
      rw [List.zip_cons_cons, List.map_cons, hlater, hrest, lookup_cons_eq, if_pos rfl]
      simp

section
variable {surplus : Bool}

/-- The fields that are read are those of the members, each once. -/
theorem fields?_iff {names : List String} (hnames : names.Nodup) {d : Document}
    {values : List (Option Document)} :
    d.fields? surplus names = some values ↔
      ∃ members, Members surplus names d members ∧ (members.map (·.1)).Nodup ∧
        (∀ member ∈ members, member.1 ∈ names) ∧ names.map (members.lookup ·) = values := by
  constructor
  · intro h
    cases d with
    | record members =>
      rw [fields?] at h
      split at h
      · next hfields =>
        refine ⟨members, .record members, hfields.2, ?_, Option.some.inj h⟩
        simpa using hfields.1
      · cases h
    | list items =>
      rw [fields?] at h
      split at h
      · next hlength =>
        refine ⟨names.zip items, .list hlength, ?_, fun member hmember => ?_, ?_⟩
        · rw [List.zip_eq_zip_take_min, List.map_fst_zip (by simp)]
          exact hnames.sublist (List.take_sublist _ _)
        · exact (List.of_mem_zip hmember).1
        · rw [lookup_zip hnames]
          exact Option.some.inj h
      · cases h
    | _ => cases h
  · rintro ⟨members, hmembers, honce, hknown, rfl⟩
    cases hmembers with
    | record members =>
      rw [fields?, if_pos]
      exact ⟨by simpa using hknown, honce⟩
    | list hlength => rw [fields?, if_pos hlength, lookup_zip hnames]

/-- A record with some fields is read field by field. -/
theorem recordOf_iff {names : List String} (hnames : names.Nodup)
    {field : String → Option Document → Prop}
    (hknown : ∀ name d, field name (some d) → name ∈ names) {d : Document} :
    RecordOf surplus names field d ↔
      ∃ values, d.fields? surplus names = some values ∧ List.Forall₂ field names values := by
  constructor
  · rintro ⟨members, hmembers, honce, hsaid, hmissing⟩
    refine ⟨_, (fields?_iff hnames).mpr ⟨members, hmembers, honce, fun member hmember =>
      hknown _ _ (hsaid member hmember), rfl⟩, ?_⟩
    rw [List.forall₂_map_right_iff, List.forall₂_same]
    intro name hname
    cases hvalue : members.lookup name with
    | some d => exact hsaid (name, d) ((mem_iff_lookup honce).mpr hvalue)
    | none =>
      refine hmissing name hname fun hmem => ?_
      obtain ⟨⟨_, d⟩, hmember, rfl⟩ := List.mem_map.mp hmem
      rw [(mem_iff_lookup honce).mp hmember] at hvalue
      cases hvalue
  · rintro ⟨values, hvalues, hall⟩
    obtain ⟨members, hmembers, honce, hin, rfl⟩ := (fields?_iff hnames).mp hvalues
    rw [List.forall₂_map_right_iff, List.forall₂_same] at hall
    refine ⟨members, hmembers, honce, ?_, ?_⟩
    · rintro ⟨name, d⟩ hmember
      have hfield := hall name (hin _ hmember)
      rwa [(mem_iff_lookup honce).mp hmember] at hfield
    · intro name hname hmissing
      have hfield := hall name hname
      rwa [List.lookup_eq_none_iff.mpr] at hfield
      intro member hmember
      refine bne_iff_ne.mpr fun heq => hmissing ?_
      exact heq ▸ List.mem_map_of_mem hmember

/-- What is built from the fields of a record is told by them, field by field. -/
theorem build_fields?_iff {α : Type} {names : List String} (hnames : names.Nodup)
    {field : String → Option Document → Prop}
    (hknown : ∀ name d, field name (some d) → name ∈ names) {d : Document}
    {build : List (Option Document) → Option α} {a : α}
    (hbuild : ∀ values, build values = some a ↔ List.Forall₂ field names values) :
    (d.fields? surplus names >>= build) = some a ↔ RecordOf surplus names field d := by
  rw [recordOf_iff hnames hknown, Option.bind_eq_bind, Option.bind_eq_some_iff]
  simp only [hbuild]

end

/-! ## Single values -/

theorem text?_eq_some_iff {d : Document} {s : String} : d.text? = some s ↔ d = .text s := by
  cases d with
  | text t => rw [text?, Option.some.injEq, text.injEq]
  | _ => exact ⟨nofun, nofun⟩

theorem bool?_eq_some_iff {d : Document} {b : Bool} : d.bool? = some b ↔ d = .bool b := by
  cases d with
  | bool c => rw [bool?, Option.some.injEq, bool.injEq]
  | _ => exact ⟨nofun, nofun⟩

theorem int32?_eq_some_iff {d : Document} {n : Int} :
    d.int32? = some n ↔ d = .int n ∧ -0x80000000 ≤ n ∧ n < 0x80000000 := by
  cases d with
  | int m =>
    rw [int32?, Option.ite_none_right_eq_some, Option.some.injEq, int.injEq, and_comm]
    constructor
    · rintro ⟨rfl, h⟩
      exact ⟨rfl, h⟩
    · rintro ⟨rfl, h⟩
      exact ⟨rfl, h⟩
  | _ => exact ⟨nofun, nofun⟩

/-- A list is read item by item. -/
theorem listOf?_eq_some_iff {α : Type} {item? : Document → Option α} {d : Document}
    {values : List α} :
    d.listOf? item? = some values ↔
      ∃ items, d = .list items ∧ List.Forall₂ (fun a item => item? item = some a) values items := by
  cases d with
  | list items =>
    have hall : items.mapM item? = some values ↔
        List.Forall₂ (fun a item => item? item = some a) values items := by
      induction items generalizing values with
      | nil => simp [eq_comm]
      | cons item items ih =>
        rw [List.mapM_cons, List.forall₂_cons_right_iff]
        simp only [Option.bind_eq_bind, Option.bind_eq_some_iff, ih, Option.pure_def,
          Option.some.injEq]
        constructor
        · rintro ⟨first, hfirst, rest, hrest, rfl⟩
          exact ⟨first, rest, hfirst, hrest, rfl⟩
        · rintro ⟨first, rest, hfirst, hrest, rfl⟩
          exact ⟨first, hfirst, rest, hrest, rfl⟩
    rw [listOf?, hall]
    constructor
    · exact fun h => ⟨items, rfl, h⟩
    · rintro ⟨_, heq, h⟩
      cases heq
      exact h
  | _ =>
    exact ⟨nofun, nofun⟩

end Document

/-! ## Rules -/

/-- There is one value of a name exactly if one member has it. -/
theorem Document.valuesOf_eq_singleton {name : String} {members : List (String × Document)}
    {d : Document} :
    valuesOf name members = [d] ↔
      ∃ front back, members = front ++ (name, d) :: back ∧ name ∉ front.map (·.1) ∧
        name ∉ back.map (·.1) := by
  have hnone : ∀ {others : List (String × Document)},
      (∀ other ∈ others, ¬ decide (other.1 = name) = true) ↔ name ∉ others.map (·.1) := by
    intro others
    simp only [decide_eq_true_eq, List.mem_map, not_exists, not_and]
  rw [valuesOf, List.map_eq_singleton_iff]
  constructor
  · rintro ⟨⟨_, _⟩, hfilter, rfl⟩
    obtain ⟨front, back, rfl, hfront, hname, hback⟩ := List.filter_eq_cons_iff.mp hfilter
    obtain rfl := of_decide_eq_true hname
    exact ⟨front, back, rfl, hnone.mp hfront, hnone.mp (List.filter_eq_nil_iff.mp hback)⟩
  · rintro ⟨front, back, rfl, hfront, hback⟩
    refine ⟨(name, d), List.filter_eq_cons_iff.mpr ⟨front, back, rfl, hnone.mpr hfront, ?_, ?_⟩, rfl⟩
    · exact decide_eq_true rfl
    · exact List.filter_eq_nil_iff.mpr (hnone.mpr hback)

theorem RuleSource.ofDocument?_iff {d : Document} {rule : RuleSource} :
    RuleSource.ofDocument? d = some rule ↔ rule.WrittenAs d := by
  constructor
  · intro h
    cases d with
    | record members =>
      rw [ofDocument?] at h
      split at h
      · next source hvalues =>
        cases h
        obtain ⟨front, back, rfl, hfront, hback⟩ := valuesOf_eq_singleton.mp hvalues
        exact .pattern source hfront hback
      · cases h
    | list items =>
      obtain ⟨allowed, hallowed, rfl⟩ := Option.map_eq_some_iff.mp h
      obtain ⟨_, hlist, hitems⟩ := listOf?_eq_some_iff.mp hallowed
      cases hlist
      have htexts : allowed.map .text = items := by
        rw [← List.forall₂_eq_eq_eq, List.forall₂_map_left_iff]
        exact hitems.imp fun _ _ h => (text?_eq_some_iff.mp h).symm
      rw [← htexts]
      exact .oneOf allowed
    | _ => cases h
  · intro h
    cases h with
    | oneOf allowed =>
      refine Option.map_eq_some_iff.mpr ⟨allowed, listOf?_eq_some_iff.mpr ⟨_, rfl, ?_⟩, rfl⟩
      rw [List.forall₂_map_right_iff, List.forall₂_same]
      exact fun _ _ => rfl
    | pattern source hfront hback =>
      rw [ofDocument?, valuesOf_eq_singleton.mpr ⟨_, _, rfl, hfront, hback⟩]

theorem lookup_insertRule (name : String) (rule : RuleSource) (rules : List (String × RuleSource))
    (other : String) :
    (insertRule name rule rules).lookup other =
      if other = name then some rule else rules.lookup other := by
  induction rules with
  | nil => rw [insertRule, lookup_cons_eq]
  | cons first rules ih =>
    obtain ⟨n, r⟩ := first
    grind [insertRule, lookup_cons_eq]

/-- Of the rules with a name, the last one is kept. -/
theorem lookup_of_foldlM_putMember {members : List (String × Document)}
    {before rules : OrderedRules} (h : members.foldlM putMember before = some rules)
    (name : String) :
    rules.1.lookup name =
      (lastNamed? members name).elim (before.1.lookup name) RuleSource.ofDocument? := by
  induction members generalizing before with
  | nil =>
    cases h
    rfl
  | cons member members ih =>
    rw [List.foldlM_cons] at h
    obtain ⟨next, hnext, hrest⟩ := Option.bind_eq_some_iff.mp h
    obtain ⟨rule, hrule, rfl⟩ := Option.map_eq_some_iff.mp hnext
    rw [ih hrest, lastNamed?_cons, OrderedRules.insert, lookup_insertRule]
    cases lastNamed? members name with
    | some d => rfl
    | none =>
      split
      · exact hrule.symm
      · rfl

/-- The rules are read if every one of them can be. -/
theorem foldlM_putMember_isSome {members : List (String × Document)} {before : OrderedRules} :
    (∃ rules, members.foldlM putMember before = some rules) ↔
      ∀ member ∈ members, ∃ rule, RuleSource.ofDocument? member.2 = some rule := by
  induction members generalizing before with
  | nil => simp
  | cons member members ih =>
    rw [List.forall_mem_cons, List.foldlM_cons, putMember]
    cases RuleSource.ofDocument? member.2 with
    | none => simp
    | some rule =>
      rw [Option.map_some, Option.bind_eq_bind, Option.bind_some, ih]
      simp

/-- In the order of their names, no rule has the name of another. -/
theorem OrderedRules.names_nodup (rules : OrderedRules) : (rules.1.map (·.1)).Nodup :=
  List.pairwise_map.mpr (rules.2.imp fun hlt => String.ne_of_lt hlt)

/-- In one order, the same rules make the same list. -/
theorem OrderedRules.eq_of_mem_iff {rules others : OrderedRules}
    (h : ∀ rule, rule ∈ rules.1 ↔ rule ∈ others.1) : rules = others := by
  have hsame : rules.1.Perm others.1 :=
    (List.perm_ext_iff_of_nodup rules.names_nodup.of_map others.names_nodup.of_map).mpr h
  refine Subtype.ext (hsame.eq_of_pairwise ?_ rules.2 others.2)
  exact fun _ _ _ _ hlt hgt => absurd (String.lt_trans hlt hgt) (String.lt_irrefl _)

/-- The rules that were read are those that the members say. -/
theorem mem_rulesOfDocument?_iff {members : List (String × Document)} {rules : OrderedRules}
    (h : rulesOfDocument? (.record members) = some rules) (name : String) (rule : RuleSource) :
    (name, rule) ∈ rules.1 ↔ ∃ d, lastNamed? members name = some d ∧ rule.WrittenAs d := by
  rw [mem_iff_lookup rules.names_nodup, lookup_of_foldlM_putMember h]
  cases lastNamed? members name with
  | none => exact ⟨nofun, nofun⟩
  | some d => simp [RuleSource.ofDocument?_iff]

theorem rulesOfDocument?_iff {d : Document} {rules : OrderedRules} :
    rulesOfDocument? d = some rules ↔ RulesWrittenAs rules.1 d := by
  constructor
  · intro h
    cases d with
    | record members =>
      refine ⟨members, rfl, ?_, inOrder_iff.mp rules.2, mem_rulesOfDocument?_iff h⟩
      simpa only [RuleSource.ofDocument?_iff] using foldlM_putMember_isSome.mp ⟨rules, h⟩
    | _ => cases h
  · rintro ⟨members, rfl, hreadable, -, hrules⟩
    simp only [← RuleSource.ofDocument?_iff] at hreadable
    obtain ⟨found, hfound⟩ : ∃ found, rulesOfDocument? (.record members) = some found :=
      foldlM_putMember_isSome.mpr hreadable
    rw [hfound, Option.some.injEq]
    refine (OrderedRules.eq_of_mem_iff ?_).symm
    rintro ⟨name, rule⟩
    rw [hrules, mem_rulesOfDocument?_iff hfound]

/-! ## Entries and tables -/

theorem SlashMode.ofName?_eq_some_iff {name : String} {mode : SlashMode} :
    ofName? name = some mode ↔ name = mode.name := by
  constructor
  · intro h
    unfold ofName? at h
    have hname := List.find?_some h
    exact (beq_iff_eq.mp hname).symm
  · rintro rfl
    exact ofName?_name mode

theorem SlashMode.ofDocument?_iff {format : Format} {d : Document} {mode : SlashMode} :
    SlashMode.ofDocument? format d = some mode ↔ mode.WrittenAs format d := by
  constructor
  · intro h
    unfold SlashMode.ofDocument? at h
    split at h
    · obtain rfl := ofName?_eq_some_iff.mp h
      exact .name
    · next name d =>
      obtain ⟨hunit, h⟩ := Option.ite_none_right_eq_some.mp h
      obtain rfl := ofName?_eq_some_iff.mp h
      exact .only hunit
    · cases h
  · intro h
    cases h with
    | name => exact ofName?_name mode
    | only hunit =>
      rw [SlashMode.ofDocument?, if_pos hunit]
      exact ofName?_name mode

/-- A field that may be missing. -/
theorem Document.orElse_eq_some_iff {α : Type} {read? : Document → Option α} {default a : α}
    (field : Option Document → Prop) (hgiven : ∀ d, read? d = some a ↔ field (some d))
    (hmissing : a = default ↔ field none) (given : Option Document) :
    orElse given default read? = some a ↔ field given := by
  cases given with
  | none => rw [orElse, Option.some.injEq, eq_comm, hmissing]
  | some d => exact hgiven d

theorem RouteEntry.ofDocument?_iff {surplus : Bool} {d : Document} {entry : RouteEntry} :
    RouteEntry.ofDocument? surplus d = some entry ↔ entry.WrittenAs surplus d := by
  have hknown : ∀ name d, entry.Says name (some d) →
      name ∈ ["pattern", "priority", "greedy", "rules"] := by
    intro name d h
    unfold RouteEntry.Says at h
    split at h <;> simp_all
  refine build_fields?_iff (by decide) hknown fun values => ?_
  -- Only four fields make an entry, the first of which must be there.
  rcases values with _ | ⟨_ | pattern, _ | ⟨priority, _ | ⟨greedy, _ | ⟨rules, _ | ⟨_, _⟩⟩⟩⟩⟩
  case cons.some.cons.cons.cons.nil =>
    have hpriority := orElse_eq_some_iff (entry.Says "priority") (a := entry.priority)
      (fun _ => int32?_eq_some_iff) Iff.rfl priority
    have hgreedy := orElse_eq_some_iff (entry.Says "greedy") (a := entry.greedy)
      (fun _ => bool?_eq_some_iff) Iff.rfl greedy
    have hempty : (⟨entry.rules, entry.inOrder⟩ : OrderedRules) = ⟨[], .nil⟩ ↔
        entry.Says "rules" none := Subtype.ext_iff
    have hrules := orElse_eq_some_iff (entry.Says "rules") (fun _ => rulesOfDocument?_iff)
      hempty rules
    simp only [Option.bind_eq_bind, Option.bind_eq_some_iff, Option.pure_def, Option.some.injEq]
    constructor
    · rintro ⟨_, hr, _, hp, _, hpr, _, hg, rfl⟩
      exact .cons (text?_eq_some_iff.mp hp)
        (.cons (hpriority.mp hpr) (.cons (hgreedy.mp hg) (.cons (hrules.mp hr) .nil)))
    · rintro (_ | ⟨hp, _ | ⟨hpr, _ | ⟨hg, _ | ⟨hr, -⟩⟩⟩⟩)
      exact ⟨_, hrules.mpr hr, _, text?_eq_some_iff.mpr hp, _, hpriority.mpr hpr, _,
        hgreedy.mpr hg, rfl⟩
  all_goals simp [RouteEntry.Says]

namespace RouteTable

section
variable {format : Format} {surplus : Bool} {d : Document}

theorem sectionOfDocument?_iff {mode : SlashMode} :
    sectionOfDocument? format surplus d = some mode ↔
      RecordOf surplus ["slash_mode"] (mode.Says format) d := by
  have hknown : ∀ name d, mode.Says format name (some d) → name ∈ ["slash_mode"] := by
    intro name d h
    unfold SlashMode.Says at h
    split at h <;> simp_all
  refine build_fields?_iff (by decide) hknown fun values => ?_
  rcases values with _ | ⟨given, _ | ⟨_, _⟩⟩
  case cons.nil =>
    have hgiven := orElse_eq_some_iff (mode.Says format "slash_mode")
      (fun _ => SlashMode.ofDocument?_iff) Iff.rfl given
    simp [hgiven]
  all_goals simp

theorem lexerOfDocument?_iff {lexer : Option SlashMode} :
    lexerOfDocument? format surplus d = some lexer ↔ LexerWrittenAs format surplus lexer d := by
  cases d with
  | null =>
    cases lexer with
    | none => exact ⟨fun _ => rfl, fun _ => rfl⟩
    | some mode => exact ⟨nofun, fun h => by obtain ⟨_, ⟨⟩, -⟩ := h⟩
  | _ =>
    cases lexer with
    | none => simp [lexerOfDocument?, LexerWrittenAs]
    | some mode => simp [lexerOfDocument?, LexerWrittenAs, ← sectionOfDocument?_iff]

/-- A document is read as a table exactly if the table is written as the document. -/
theorem ofDocument?_iff {t : RouteTable} :
    ofDocument? format surplus d = some t ↔ t.WrittenAs format surplus d := by
  have hknown : ∀ name d, t.Says format surplus name (some d) → name ∈ ["lexer", "routes"] := by
    intro name d h
    unfold Says at h
    split at h <;> simp_all
  refine build_fields?_iff (by decide) hknown fun values => ?_
  rcases values with _ | ⟨lexer, _ | ⟨routes, _ | ⟨_, _⟩⟩⟩
  case cons.cons.nil =>
    have hlexer := orElse_eq_some_iff (t.Says format surplus "lexer") (a := t.lexer)
      (fun _ => lexerOfDocument?_iff) Iff.rfl lexer
    have hentries : ∀ d, d.listOf? (RouteEntry.ofDocument? surplus) = some t.routes ↔
        t.Says format surplus "routes" (some d) := by
      intro d
      simp only [listOf?_eq_some_iff, RouteEntry.ofDocument?_iff, Says]
    have hroutes := orElse_eq_some_iff (t.Says format surplus "routes") hentries Iff.rfl routes
    simp only [Option.bind_eq_bind, Option.bind_eq_some_iff, Option.pure_def, Option.some.injEq]
    constructor
    · rintro ⟨_, hl, _, hr, rfl⟩
      exact .cons (hlexer.mp hl) (.cons (hroutes.mp hr) .nil)
    · rintro (_ | ⟨hl, _ | ⟨hr, -⟩⟩)
      exact ⟨_, hlexer.mpr hl, _, hroutes.mpr hr, rfl⟩
  all_goals simp

end

/-- What a text must say to be loaded as a table: it writes a document that says what the table
holds.  If it does not write such a document for any table, it is refused as a text that cannot be
parsed.  In TOML, it does not name a member of a record twice either, and its lists of fields may be
longer than that if the parser passes over the rest. -/
theorem ofText_iff (format : Format) (text : String) (surplus : Bool) :
    let lax := format.passesOver surplus
    (∀ t, ofText format text surplus = .ok t ↔
      ∃ d, format.document? text = some d ∧ t.WrittenAs format lax d ∧
        (format = .toml → d.Distinct)) ∧
    (ofText format text surplus = .error (.unparsable format) ↔
      ∀ d, format.document? text = some d → ∀ t : RouteTable, ¬ t.WrittenAs format lax d) := by
  intro lax
  have hread : ∀ t, (format.document? text).bind (ofDocument? format lax) = some t ↔
      ∃ d, format.document? text = some d ∧ t.WrittenAs format lax d := by
    intro t
    simp only [Option.bind_eq_some_iff, ofDocument?_iff]
  have hdistinct : ∀ {d}, format.document? text = some d → format = .toml → d.Distinct := by
    rintro d hd rfl
    exact Toml.document?_distinct hd
  rw [ofText]
  cases htable : (format.document? text).bind (ofDocument? format lax) with
  | some found =>
    rw [htable] at hread
    obtain ⟨d, hd, hfound⟩ := (hread found).mp rfl
    refine ⟨fun t => ?_, fun h => ?_, fun hnone => absurd hfound (hnone d hd found)⟩
    · have hiff := hread t
      rw [Option.some.injEq] at hiff
      rw [Except.ok.injEq, hiff]
      constructor
      · rintro ⟨d, hd, ht⟩
        exact ⟨d, hd, ht, hdistinct hd⟩
      · rintro ⟨d, hd, ht, -⟩
        exact ⟨d, hd, ht⟩
    · cases h
  | none =>
    rw [htable] at hread
    refine ⟨fun t => ⟨fun h => ?_, ?_⟩, fun _ d hd t ht => ?_, fun _ => rfl⟩
    · cases h
    · rintro ⟨d, hd, ht, -⟩
      cases (hread t).mpr ⟨d, hd, ht⟩
    · cases (hread t).mpr ⟨d, hd, ht⟩

/-- A table with one entry, whose rule has flags beside its pattern. -/
def flagsText : String :=
  "\x7b\"routes\":[\x7b\"pattern\":\"\x7ba\x7d\",\"rules\":\x7b\"a\":\x7b\"pattern\":\"^[0-9]+$\",\"flags\":\"i\"\x7d\x7d\x7d]\x7d"

/-- The flags beside the pattern of a rule are dropped. -/
theorem ofText_drops_flags :
    Json.document? flagsText = some (.record [("routes", .list [.record [
      ("pattern", .text "\x7ba\x7d"),
      ("rules", .record [
        ("a", .record [("pattern", .text "^[0-9]+$"), ("flags", .text "i")])])]])]) ∧
    ofText .json flagsText = .ok { routes := [
      { pattern := "\x7ba\x7d", rules := [("a", .pattern "^[0-9]+$")] }] } := by
  have hdocument : Json.document? flagsText = some (.record [("routes", .list [.record [
      ("pattern", .text "\x7ba\x7d"),
      ("rules", .record [
        ("a", .record [("pattern", .text "^[0-9]+$"), ("flags", .text "i")])])]])]) := by
    decide +kernel
  refine ⟨hdocument, ?_⟩
  rw [ofText, Document.Format.document?, hdocument]
  rfl

end RouteTable

end RouteDispatch
