/-
# Tables do not depend on the order of members

Two documents may differ in the order in which the members of their records are
written, at any depth (`Document.Reordered`).  Where no record names a member twice,
whatever reads a table out of a document gives the same for both: the fields of a
record are looked up by their names (`Alike.fields?`), a rule asks for one name only
(`RuleSource.ofDocument?_alike`), and the rules of an entry are put in the order of
their names wherever they stood (`rulesOfDocument?_alike`).

The condition on names is needed for the last of these: of two rules of one name the
later one counts.
-/
import Mathlib.Data.List.Forall2
import RouteDispatch.Proofs.Router.RuleOrder
import RouteDispatch.RouteTable.Load

namespace RouteDispatch

namespace Document

mutual

/-- The documents differ at most in the order of the members of their records. -/
inductive Reordered : Document → Document → Prop where
  | null : Reordered null null
  | bool (b : Bool) : Reordered (bool b) (bool b)
  | int (n : Int) : Reordered (int n) (int n)
  | real : Reordered real real
  | moment : Reordered moment moment
  | text (s : String) : Reordered (text s) (text s)
  | list {items items' : List Document} (hitems : List.Forall₂ Reordered items items') :
      Reordered (list items) (list items')
  | record {members between members' : List (String × Document)}
      (hvalues : List.Forall₂ ReorderedMember members between) (horder : between.Perm members') :
      Reordered (record members) (record members')

/-- The members have one name, and values that differ at most in the order of members. -/
inductive ReorderedMember : String × Document → String × Document → Prop where
  | mk (name : String) {d d' : Document} (h : Reordered d d') :
      ReorderedMember (name, d) (name, d')

end

/-- No record in the document names a member twice. -/
inductive Distinct : Document → Prop where
  | null : Distinct null
  | bool (b : Bool) : Distinct (bool b)
  | int (n : Int) : Distinct (int n)
  | real : Distinct real
  | moment : Distinct moment
  | text (s : String) : Distinct (text s)
  | list {items : List Document} (hitems : ∀ d ∈ items, Distinct d) : Distinct (list items)
  | record {members : List (String × Document)} (hnames : (members.map (·.1)).Nodup)
      (hvalues : ∀ member ∈ members, Distinct member.2) : Distinct (record members)

/-- The documents differ at most in the order of members, and none is named twice. -/
def Alike (d d' : Document) : Prop := Reordered d d' ∧ d.Distinct

/-- The members have one name and alike values. -/
def AlikeMember (m m' : String × Document) : Prop := m.1 = m'.1 ∧ Alike m.2 m'.2

/-! ## What is alike in lists and records -/

theorem names_eq {members members' : List (String × Document)}
    (h : List.Forall₂ AlikeMember members members') :
    members.map (·.1) = members'.map (·.1) := by
  induction h with
  | nil => rfl
  | cons hfirst _ ih => rw [List.map_cons, List.map_cons, hfirst.1, ih]

theorem Alike.list {items : List Document} {d' : Document} (h : Alike (.list items) d') :
    ∃ items', d' = .list items' ∧ List.Forall₂ Alike items items' := by
  obtain ⟨hreordered, hdistinct⟩ := h
  cases hreordered with
  | list hitems =>
    cases hdistinct with
    | list hdistinct =>
      have hboth := (List.forall₂_and_left _ _).mpr ⟨hdistinct, hitems⟩
      exact ⟨_, rfl, hboth.imp fun _ _ hpair => hpair.symm⟩

/-- The members of two records agree one by one, once those of the first are put in the order of
the second. -/
theorem Alike.record {members : List (String × Document)} {d' : Document}
    (h : Alike (.record members) d') :
    ∃ between members', d' = .record members' ∧ List.Forall₂ AlikeMember members between ∧
      between.Perm members' ∧ (between.map (·.1)).Nodup := by
  obtain ⟨hreordered, hdistinct⟩ := h
  cases hreordered with
  | @record _ between members' hvalues horder =>
    cases hdistinct with
    | record hnames hdistinct =>
      have hboth := (List.forall₂_and_left _ _).mpr ⟨hdistinct, hvalues⟩
      have hmembers : List.Forall₂ AlikeMember members between := by
        refine hboth.imp ?_
        rintro _ _ ⟨hd, ⟨name, hvalue⟩⟩
        exact ⟨rfl, hvalue, hd⟩
      refine ⟨between, members', rfl, hmembers, horder, ?_⟩
      rwa [← names_eq hmembers]

/-! ## Members by name -/

theorem lookup_alike {members members' : List (String × Document)}
    (h : List.Forall₂ AlikeMember members members') (name : String) :
    Option.Rel Alike (members.lookup name) (members'.lookup name) := by
  induction h with
  | nil => exact .none
  | @cons member member' _ _ hfirst _ ih =>
    rw [List.lookup_cons, List.lookup_cons, ← hfirst.1]
    cases name == member.1 with
    | true => exact .some hfirst.2
    | false => exact ih

/-- Where no name comes twice, it does not matter where a member stands. -/
theorem lookup_perm {members members' : List (String × Document)} (h : members.Perm members')
    (hnames : (members.map (·.1)).Nodup) (name : String) :
    members.lookup name = members'.lookup name := by
  induction h with
  | nil => rfl
  | cons member _ ih =>
    rw [List.lookup_cons, List.lookup_cons, ih (List.nodup_cons.mp hnames).2]
  | swap first second rest =>
    have hne : second.1 ≠ first.1 := by
      intro heq
      exact (List.nodup_cons.mp hnames).1 (List.mem_cons.mpr (Or.inl heq))
    rw [List.lookup_cons, List.lookup_cons, List.lookup_cons, List.lookup_cons]
    by_cases hfirst : name = first.1
    · rw [beq_false_of_ne fun heq => hne (heq.symm.trans hfirst)]
    · rw [beq_false_of_ne hfirst]
  | trans h _ ih ih' => rw [ih hnames, ih' ((h.map _).nodup_iff.mp hnames)]

/-- Of alike documents, the fields with the same names are alike. -/
theorem Alike.fields? {d d' : Document} (h : Alike d d') (surplus : Bool) (names : List String) :
    Option.Rel (List.Forall₂ (Option.Rel Alike)) (d.fields? surplus names)
      (d'.fields? surplus names) := by
  have hfields : ∀ {present present' : List Document}, List.Forall₂ Alike present present' →
      List.Forall₂ (Option.Rel Alike) (present.map some) (present'.map some) := by
    intro present present' hpresent
    refine List.forall₂_map_left_iff.mpr (List.forall₂_map_right_iff.mpr (hpresent.imp ?_))
    exact fun _ _ => .some
  cases d with
  | list items =>
    obtain ⟨items', rfl, hitems⟩ := h.list
    rw [Document.fields?, Document.fields?, ← hitems.length_eq]
    split
    · refine .some (List.rel_append (hfields (List.forall₂_take _ hitems)) ?_)
      exact List.forall₂_same.mpr fun _ hmem => List.eq_of_mem_replicate hmem ▸ .none
    · exact .none
  | record members =>
    obtain ⟨between, members', rfl, hmembers, horder, hnames⟩ := h.record
    have hsame := names_eq hmembers
    have hknown : members.all (names.contains ·.1) = members'.all (names.contains ·.1) := by
      have hall := (horder.map (·.1)).all_eq (f := names.contains)
      rw [← hsame, List.all_map, List.all_map] at hall
      exact hall
    have hnodup : (members.map (·.1)).Nodup ↔ (members'.map (·.1)).Nodup := by
      rw [hsame]
      exact (horder.map _).nodup_iff
    rw [Document.fields?, Document.fields?, hknown]
    simp only [hnodup]
    split
    · refine .some (List.forall₂_map_left_iff.mpr (List.forall₂_map_right_iff.mpr ?_))
      refine List.forall₂_same.mpr fun name _ => ?_
      rw [← lookup_perm horder hnames]
      exact lookup_alike hmembers name
    · exact .none
  | _ =>
    obtain ⟨hreordered, -⟩ := h
    cases hreordered
    exact .none

/-- Where no name comes twice, there is at most one value for a name. -/
theorem valuesOf_eq_toList {members : List (String × Document)}
    (hnames : (members.map (·.1)).Nodup) (name : String) :
    valuesOf name members = (members.lookup name).toList := by
  induction members with
  | nil => rfl
  | cons member members ih =>
    obtain ⟨hfirst, hnames⟩ := List.nodup_cons.mp hnames
    have hrest := ih hnames
    rw [valuesOf] at hrest ⊢
    rw [List.lookup_cons, List.filter_cons]
    by_cases hname : member.1 = name
    · subst hname
      have hnone : members.filter (·.1 = member.1) = [] := by
        refine List.filter_eq_nil_iff.mpr fun other hother heq => hfirst ?_
        exact List.mem_map.mpr ⟨other, hother, of_decide_eq_true heq⟩
      rw [hnone]
      simp
    · simp only [hname, decide_false, Bool.false_eq_true, if_false, beq_false_of_ne (Ne.symm hname)]
      exact hrest

/-! ## Single values -/

section
variable {d d' : Document} (h : Alike d d')
include h

theorem Alike.text? : d.text? = d'.text? := by
  obtain ⟨hreordered, -⟩ := h
  cases hreordered <;> rfl

theorem Alike.bool? : d.bool? = d'.bool? := by
  obtain ⟨hreordered, -⟩ := h
  cases hreordered <;> rfl

theorem Alike.int32? : d.int32? = d'.int32? := by
  obtain ⟨hreordered, -⟩ := h
  cases hreordered <;> rfl

theorem Alike.isUnit (format : Format) : d.isUnit format = d'.isUnit format := by
  cases d with
  | list items =>
    obtain ⟨items', rfl, hitems⟩ := h.list
    cases hitems with
    | nil => rfl
    | cons _ _ => cases format <;> rfl
  | record members =>
    obtain ⟨between, members', rfl, hmembers, horder, -⟩ := h.record
    cases hmembers with
    | nil => rw [List.nil_perm.mp horder]
    | cons hfirst hrest =>
      obtain ⟨first, rest, rfl⟩ := List.exists_cons_of_ne_nil (List.ne_nil_of_mem
        (horder.subset List.mem_cons_self))
      cases format <;> rfl
  | _ =>
    obtain ⟨hreordered, -⟩ := h
    cases hreordered
    rfl

/-- A reader of items that does not depend on the order of members makes one of lists. -/
theorem Alike.listOf? {α : Type} {item? : Document → Option α}
    (hitem : ∀ {d d'}, Alike d d' → item? d = item? d') : d.listOf? item? = d'.listOf? item? := by
  cases d with
  | list items =>
    obtain ⟨items', rfl, hitems⟩ := h.list
    show items.mapM item? = items'.mapM item?
    clear h
    induction hitems with
    | nil => rfl
    | cons hfirst _ ih => rw [List.mapM_cons, List.mapM_cons, hitem hfirst, ih]
  | record members =>
    obtain ⟨_, _, rfl, -⟩ := h.record
    rfl
  | _ =>
    obtain ⟨hreordered, -⟩ := h
    cases hreordered
    rfl

end

theorem orElse_alike {α : Type} {read? : Document → Option α}
    (hread : ∀ {d d'}, Alike d d' → read? d = read? d') (default : α) {field field' : Option Document}
    (h : Option.Rel Alike field field') : orElse field default read? = orElse field' default read? := by
  cases h with
  | none => rfl
  | some h => exact hread h

end Document

open Document

/-! ## Rules -/

theorem SlashMode.ofDocument?_alike (format : Document.Format) {d d' : Document} (h : Alike d d') :
    SlashMode.ofDocument? format d = SlashMode.ofDocument? format d' := by
  cases d with
  | record members =>
    obtain ⟨between, members', rfl, hmembers, horder, -⟩ := h.record
    rcases hmembers with _ | ⟨⟨hname, hvalue⟩, _ | ⟨_, _⟩⟩
    · rw [List.nil_perm.mp horder]
    · next member member' =>
      obtain rfl := List.singleton_perm.mp horder
      obtain ⟨name, d⟩ := member
      obtain ⟨_, d'⟩ := member'
      cases hname
      rw [SlashMode.ofDocument?, SlashMode.ofDocument?, hvalue.isUnit]
    · obtain ⟨first, second, rest, rfl⟩ : ∃ first second rest, members' = first :: second :: rest := by
        have hlength := horder.length_eq
        rcases members' with _ | ⟨first, _ | ⟨second, rest⟩⟩
        · cases hlength
        · cases hlength
        · exact ⟨first, second, rest, rfl⟩
      rfl
  | list items =>
    obtain ⟨_, rfl, -⟩ := h.list
    rfl
  | _ =>
    obtain ⟨hreordered, -⟩ := h
    cases hreordered
    rfl

theorem RuleSource.ofDocument?_alike {d d' : Document} (h : Alike d d') :
    RuleSource.ofDocument? d = RuleSource.ofDocument? d' := by
  cases d with
  | record members =>
    obtain ⟨between, members', rfl, hmembers, horder, hnames⟩ := h.record
    have hnames' : (members'.map (·.1)).Nodup := (horder.map _).nodup_iff.mp hnames
    have hlookup := lookup_alike hmembers "pattern"
    rw [lookup_perm horder hnames] at hlookup
    rw [← names_eq hmembers] at hnames
    rw [RuleSource.ofDocument?, RuleSource.ofDocument?, valuesOf_eq_toList hnames,
      valuesOf_eq_toList hnames']
    generalize members.lookup "pattern" = found, members'.lookup "pattern" = found' at hlookup
    cases hlookup with
    | none => rfl
    | some hvalue =>
      obtain ⟨hreordered, -⟩ := hvalue
      cases hreordered <;> rfl
  | list items =>
    obtain ⟨_, rfl, -⟩ := h.list
    exact congrArg (Option.map oneOf) (h.listOf? Alike.text?)
  | _ =>
    obtain ⟨hreordered, -⟩ := h
    cases hreordered
    rfl

/-- Two rules of different names are put in their places in either order. -/
theorem insertRule_comm {a b : String} (h : a ≠ b) (first second : RuleSource)
    (rules : List (String × RuleSource)) :
    insertRule a first (insertRule b second rules) =
      insertRule b second (insertRule a first rules) := by
  induction rules with
  | nil => grind [insertRule]
  | cons rule rules ih =>
    obtain ⟨name, source⟩ := rule
    grind [insertRule]

theorem OrderedRules.insert_comm {a b : String} (h : a ≠ b) (first second : RuleSource)
    (rules : OrderedRules) :
    (rules.insert b second).insert a first = (rules.insert a first).insert b second :=
  Subtype.ext (insertRule_comm h first second rules.1)

/-- One rule more, if the member is one. -/
def putMember (rules : OrderedRules) (member : String × Document) : Option OrderedRules :=
  (RuleSource.ofDocument? member.2).map (rules.insert member.1 ·)

theorem rulesOfDocument?_record (members : List (String × Document)) :
    rulesOfDocument? (.record members) = members.foldlM putMember ⟨[], .nil⟩ := rfl

theorem putMember_comm {first second : String × Document} (h : first.1 ≠ second.1)
    (rules : OrderedRules) :
    (putMember rules first).bind (putMember · second) =
      (putMember rules second).bind (putMember · first) := by
  rw [putMember, putMember]
  cases hfirst : RuleSource.ofDocument? first.2 with
  | none => cases RuleSource.ofDocument? second.2 <;> simp [putMember, hfirst]
  | some source =>
    cases hsecond : RuleSource.ofDocument? second.2 with
    | none => simp [putMember, hsecond]
    | some other =>
      simp only [Option.map_some, Option.bind_some, putMember, hfirst, hsecond]
      rw [OrderedRules.insert_comm h]

/-- Where no name comes twice, rules may be put in their places in any order. -/
theorem foldlM_putMember_perm {members members' : List (String × Document)}
    (h : members.Perm members') (hnames : (members.map (·.1)).Nodup) (rules : OrderedRules) :
    members.foldlM putMember rules = members'.foldlM putMember rules := by
  induction h generalizing rules with
  | nil => rfl
  | cons member _ ih =>
    rw [List.foldlM_cons, List.foldlM_cons]
    exact congrArg _ (funext (ih (List.nodup_cons.mp hnames).2))
  | swap first second rest =>
    have hne : second.1 ≠ first.1 := by
      intro heq
      exact (List.nodup_cons.mp hnames).1 (List.mem_cons.mpr (Or.inl heq))
    simp only [List.foldlM_cons, Option.bind_eq_bind, ← Option.bind_assoc]
    rw [putMember_comm hne]
  | trans h _ ih ih' => rw [ih hnames, ih' ((h.map _).nodup_iff.mp hnames)]

theorem rulesOfDocument?_alike {d d' : Document} (h : Alike d d') :
    rulesOfDocument? d = rulesOfDocument? d' := by
  cases d with
  | record members =>
    obtain ⟨between, members', rfl, hmembers, horder, hnames⟩ := h.record
    rw [rulesOfDocument?_record, rulesOfDocument?_record, ← foldlM_putMember_perm horder hnames]
    generalize (⟨[], .nil⟩ : OrderedRules) = rules
    clear h horder hnames
    induction hmembers generalizing rules with
    | nil => rfl
    | @cons member member' _ _ hfirst _ ih =>
      have hput : putMember rules member = putMember rules member' := by
        rw [putMember, putMember, hfirst.1, RuleSource.ofDocument?_alike hfirst.2]
      rw [List.foldlM_cons, List.foldlM_cons, hput]
      exact congrArg _ (funext ih)
  | list items =>
    obtain ⟨_, rfl, -⟩ := h.list
    rfl
  | _ =>
    obtain ⟨hreordered, -⟩ := h
    cases hreordered
    rfl

/-! ## Entries and tables -/

theorem RouteEntry.ofDocument?_alike (surplus : Bool) {d d' : Document} (h : Alike d d') :
    RouteEntry.ofDocument? surplus d = RouteEntry.ofDocument? surplus d' := by
  have hfields := h.fields? surplus ["pattern", "priority", "greedy", "rules"]
  rw [RouteEntry.ofDocument?, RouteEntry.ofDocument?]
  generalize d.fields? _ _ = fields, d'.fields? _ _ = fields' at hfields
  cases hfields with
  | none => rfl
  | some hall =>
    cases hall with
    | nil => rfl
    | cons hpattern hall =>
      cases hpattern with
      | none => rfl
      | some hpattern =>
        -- Only four fields make an entry.
        rcases hall with _ | ⟨hpriority, _ | ⟨hgreedy, _ | ⟨hrules, _ | ⟨_, _⟩⟩⟩⟩
        case cons.cons.cons.nil =>
          simp only [Option.bind_eq_bind, Option.bind_some, hpattern.text?,
            orElse_alike Alike.int32? 0 hpriority, orElse_alike Alike.bool? false hgreedy,
            orElse_alike rulesOfDocument?_alike ⟨[], .nil⟩ hrules]
        all_goals rfl

namespace RouteTable

section
variable (format : Document.Format) (surplus : Bool)

theorem sectionOfDocument?_alike {d d' : Document} (h : Alike d d') :
    sectionOfDocument? format surplus d = sectionOfDocument? format surplus d' := by
  have hfields := h.fields? surplus ["slash_mode"]
  rw [sectionOfDocument?, sectionOfDocument?]
  generalize d.fields? _ _ = fields, d'.fields? _ _ = fields' at hfields
  cases hfields with
  | none => rfl
  | some hall =>
    rcases hall with _ | ⟨hmode, _ | ⟨_, _⟩⟩
    case cons.nil => exact orElse_alike (SlashMode.ofDocument?_alike format) _ hmode
    all_goals rfl

theorem lexerOfDocument?_alike {d d' : Document} (h : Alike d d') :
    lexerOfDocument? format surplus d = lexerOfDocument? format surplus d' := by
  have hsection := congrArg (Option.map some) (sectionOfDocument?_alike format surplus h)
  obtain ⟨hreordered, -⟩ := h
  cases hreordered <;> first | rfl | exact hsection

theorem ofDocument?_alike {d d' : Document} (h : Alike d d') :
    ofDocument? format surplus d = ofDocument? format surplus d' := by
  have hfields := h.fields? surplus ["lexer", "routes"]
  rw [ofDocument?, ofDocument?]
  generalize d.fields? _ _ = fields, d'.fields? _ _ = fields' at hfields
  cases hfields with
  | none => rfl
  | some hall =>
    rcases hall with _ | ⟨hlexer, _ | ⟨hroutes, _ | ⟨_, _⟩⟩⟩
    case cons.cons.nil =>
      have hentries : ∀ {d d' : Document}, Alike d d' →
          d.listOf? (RouteEntry.ofDocument? surplus) =
            d'.listOf? (RouteEntry.ofDocument? surplus) :=
        fun h => h.listOf? (RouteEntry.ofDocument?_alike surplus)
      simp only [Option.bind_eq_bind, Option.bind_some,
        orElse_alike (lexerOfDocument?_alike format surplus) none hlexer,
        orElse_alike hentries [] hroutes]
    all_goals rfl

end

/-- The router that a text describes, or why there is none. -/
def routerOfText (format : Document.Format) (text : String)
    (engine : Regex.Engine := Regex.compile) : Except String Router :=
  match ofText format text with
  | .ok t => (t.build engine).mapError InvalidRule.message
  | .error failure => .error failure.message

/-- Texts whose documents differ in the order of members write the same table, or none at all, and
describe the same router, or fail with the same message. -/
theorem ofText_of_reordered {text text' : String}
    (h : Option.Rel Reordered (Json.document? text) (Json.document? text'))
    (hdistinct : ∀ d, Json.document? text = some d → d.Distinct) :
    ((∃ t, ofText .json text = .ok t ∧ ofText .json text' = .ok t ∧
          ∀ entry ∈ t.routes, entry.Ordered) ∨
        ∃ failure, ofText .json text = .error failure ∧ ofText .json text' = .error failure) ∧
      ∀ engine, routerOfText .json text engine = routerOfText .json text' engine := by
  have hsame : ofText .json text = ofText .json text' := by
    rw [ofText, ofText, Document.Format.document?]
    generalize hd : Json.document? text = d, Json.document? text' = d' at h
    cases h with
    | none => rfl
    | some h => rw [Option.bind_some, Option.bind_some, ofDocument?_alike .json _ ⟨h, hdistinct _ hd⟩]
  refine ⟨?_, fun engine => by rw [routerOfText, routerOfText, hsame]⟩
  rw [← hsame]
  cases ofText .json text with
  | ok t => exact Or.inl ⟨t, rfl, rfl, fun entry _ => entry.ordered⟩
  | error failure => exact Or.inr ⟨failure, rfl, rfl⟩

/-- A table with one entry, of which a rule does not compile. -/
def entryText : String :=
  "\x7b\"routes\":[\x7b\"pattern\":\"/a\",\"rules\":\x7b\"b\":[],\"a\":\x7b\"pattern\":\"(\"\x7d\x7d\x7d]\x7d"

/-- The same table with the members of the entry, and those of its rules, in the other order. -/
def entryTextReordered : String :=
  "\x7b\"routes\":[\x7b\"rules\":\x7b\"a\":\x7b\"pattern\":\"(\"\x7d,\"b\":[]\x7d,\"pattern\":\"/a\"\x7d]\x7d"

theorem ofText_of_reordered_entry :
    Option.Rel Reordered (Json.document? entryText) (Json.document? entryTextReordered) ∧
      (∀ d, Json.document? entryText = some d → d.Distinct) ∧
      ofText .json entryText = ofText .json entryTextReordered ∧
      routerOfText .json entryTextReordered = .error "Invalid rule 'a' on route '/a'" := by
  have hfirst : Json.document? entryText = some (.record [("routes", .list [.record [
      ("pattern", .text "/a"),
      ("rules", .record [("b", .list []), ("a", .record [("pattern", .text "(")])])]])]) := by
    decide +kernel
  have hsecond : Json.document? entryTextReordered = some (.record [("routes", .list [.record [
      ("rules", .record [("a", .record [("pattern", .text "(")]), ("b", .list [])]),
      ("pattern", .text "/a")]])]) := by
    decide +kernel
  have hrelated : Option.Rel Reordered (Json.document? entryText)
      (Json.document? entryTextReordered) := by
    rw [hfirst, hsecond]
    have hpattern : Reordered (.record [("pattern", .text "(")]) (.record [("pattern", .text "(")]) :=
      .record (.cons (.mk _ (.text _)) .nil) (.refl _)
    have hrules : Reordered (.record [("b", .list []), ("a", .record [("pattern", .text "(")])])
        (.record [("a", .record [("pattern", .text "(")]), ("b", .list [])]) :=
      .record (.cons (.mk _ (.list .nil)) (.cons (.mk _ hpattern) .nil)) (.swap _ _ _)
    have hentry := Reordered.record
      (.cons (.mk "pattern" (.text "/a")) (.cons (.mk "rules" hrules) .nil)) (.swap _ _ _)
    exact .some (.record (.cons (.mk _ (.list (.cons hentry .nil))) .nil) (.refl _))
  have hdistinct : ∀ d, Json.document? entryText = some d → d.Distinct := by
    intro d hd
    rw [hfirst] at hd
    cases hd
    have hpattern : Distinct (.record [("pattern", .text "(")]) :=
      .record (by decide) (List.forall_mem_cons.mpr ⟨.text _, List.forall_mem_nil _⟩)
    have hrules : Distinct (.record [("b", .list []), ("a", .record [("pattern", .text "(")])]) :=
      .record (by decide) (List.forall_mem_cons.mpr ⟨.list (List.forall_mem_nil _),
        List.forall_mem_cons.mpr ⟨hpattern, List.forall_mem_nil _⟩⟩)
    have hentry : Distinct (.record [("pattern", .text "/a"),
        ("rules", .record [("b", .list []), ("a", .record [("pattern", .text "(")])])]) :=
      .record (by decide) (List.forall_mem_cons.mpr
        ⟨.text _, List.forall_mem_cons.mpr ⟨hrules, List.forall_mem_nil _⟩⟩)
    exact .record (by decide) (List.forall_mem_cons.mpr
      ⟨.list (List.forall_mem_cons.mpr ⟨hentry, List.forall_mem_nil _⟩), List.forall_mem_nil _⟩)
  have hrouter : routerOfText .json entryText = .error "Invalid rule 'a' on route '/a'" := by
    have hmessage : (routerOfText .json entryText).map (fun _ => ()) =
        .error "Invalid rule 'a' on route '/a'" := by decide +kernel
    cases hresult : routerOfText .json entryText with
    | ok router =>
      rw [hresult] at hmessage
      cases hmessage
    | error message =>
      rw [hresult] at hmessage
      cases hmessage
      rfl
  obtain ⟨htables, hrouters⟩ := ofText_of_reordered hrelated hdistinct
  refine ⟨hrelated, hdistinct, ?_, hrouters Regex.compile ▸ hrouter⟩
  rcases htables with ⟨t, hfirst, hsecond, -⟩ | ⟨failure, hfirst, hsecond⟩
  · rw [hfirst, hsecond]
  · rw [hfirst, hsecond]

end RouteTable

end RouteDispatch
