/-
Reading a route table out of a document.

A table, its lexer section and its entries are records with certain fields,
each of which may come once; they may also be written as lists of their fields
in order. A rule is a list of texts, or a record with a pattern, which may
have other fields beside it. Anything else is refused.

A parser of JSON asks whether a list is at its end once all fields are read;
one of TOML may pass over the items that are left (`surplus`).
-/
import RouteDispatch.Document
import RouteDispatch.RouteTable

namespace RouteDispatch

namespace Document

/-- The values of the members with this name. -/
def valuesOf (name : String) (members : List (String × Document)) : List Document :=
  (members.filter (·.1 = name)).map (·.2)

/-- Items of a list are passed over that stand behind the last field. -/
def Format.passesOver (surplus : Bool) : Format → Bool
  | json => false
  | toml => surplus

/-- The values of some fields, in the order in which they are listed here. No field may come twice,
and there may be no others, unless they are passed over. -/
def fields? (surplus : Bool) (names : List String) : Document → Option (List (Option Document))
  | record members =>
    if members.all (names.contains ·.1) ∧ (members.map (·.1)).Nodup then
      some (names.map (members.lookup ·))
    else none
  | list items =>
    if items.length ≤ names.length ∨ surplus = true then
      some ((items.take names.length).map some ++
        List.replicate (names.length - items.length) none)
    else none
  | _ => none

/-- A text. -/
def text? : Document → Option String
  | text s => some s
  | _ => none

/-- A truth value. -/
def bool? : Document → Option Bool
  | bool b => some b
  | _ => none

/-- An integer of 32 bits with a sign. -/
def int32? : Document → Option Int
  | int n => if -0x80000000 ≤ n ∧ n < 0x80000000 then some n else none
  | _ => none

/-- A list, all of whose items can be read. -/
def listOf? {α : Type} (item? : Document → Option α) : Document → Option (List α)
  | list items => items.mapM item?
  | _ => none

/-- The value that stands for nothing but the name before it. -/
def isUnit : Format → Document → Bool
  | .json, null => true
  | .toml, record [] => true
  | .toml, list [] => true
  | _, _ => false

/-- A field that may be missing. -/
def orElse {α : Type} (d : Option Document) (default : α) (read? : Document → Option α) :
    Option α :=
  match d with
  | none => some default
  | some d => read? d

end Document

/-- A slash mode, as its name alone or as the only name of a record. -/
def SlashMode.ofDocument? (format : Document.Format) : Document → Option SlashMode
  | .text name => ofName? name
  | .record [(name, d)] => if d.isUnit format then ofName? name else none
  | _ => none

/-- A rule. Of a record, only the pattern counts. -/
def RuleSource.ofDocument? (d : Document) : Option RuleSource :=
  match d with
  | .record members =>
    match Document.valuesOf "pattern" members with
    | [.text source] => some (pattern source)
    | _ => none
  | d => (d.listOf? Document.text?).map oneOf

/-! ## Rules in the order of their names -/

/-- Puts a rule in its place among those that are in the order of their names; the one of the same
name makes way. -/
def insertRule (name : String) (rule : RuleSource) :
    List (String × RuleSource) → List (String × RuleSource)
  | [] => [(name, rule)]
  | (n, r) :: rules =>
    if name < n then (name, rule) :: (n, r) :: rules
    else if name = n then (name, rule) :: rules
    else (n, r) :: insertRule name rule rules

theorem name_of_mem_insertRule {name : String} {rule : RuleSource}
    {rules : List (String × RuleSource)} {other : String × RuleSource}
    (h : other ∈ insertRule name rule rules) : other.1 = name ∨ other ∈ rules := by
  induction rules with
  | nil =>
    rw [List.mem_singleton.mp h]
    exact Or.inl rfl
  | cons first rules ih =>
    obtain ⟨n, source⟩ := first
    rw [insertRule] at h
    split at h
    · rcases List.mem_cons.mp h with rfl | h
      · exact Or.inl rfl
      · exact Or.inr h
    · split at h
      · rcases List.mem_cons.mp h with rfl | h
        · exact Or.inl rfl
        · exact Or.inr (List.mem_cons_of_mem _ h)
      · rcases List.mem_cons.mp h with rfl | h
        · exact Or.inr List.mem_cons_self
        · exact (ih h).imp id (List.mem_cons_of_mem _)

/-- A rule is put where the order of the names has it. -/
theorem insertRule_inOrder (name : String) (rule : RuleSource)
    {rules : List (String × RuleSource)} (h : InOrder rules) :
    InOrder (insertRule name rule rules) := by
  induction rules with
  | nil => exact List.pairwise_singleton _ _
  | cons first rules ih =>
    obtain ⟨n, source⟩ := first
    obtain ⟨hfirst, hrules⟩ := List.pairwise_cons.mp h
    rw [insertRule]
    split
    · next hlt =>
      refine List.pairwise_cons.mpr ⟨?_, h⟩
      intro other hother
      rcases List.mem_cons.mp hother with rfl | hother
      · exact hlt
      · exact String.lt_trans hlt (hfirst other hother)
    · next hnot =>
      split
      · next heq =>
        rw [heq]
        exact List.pairwise_cons.mpr ⟨hfirst, hrules⟩
      · next hne =>
        refine List.pairwise_cons.mpr ⟨?_, ih hrules⟩
        intro other hother
        rcases name_of_mem_insertRule hother with hname | hold
        · rw [hname]
          exact Std.lt_of_le_of_ne (String.not_lt.mp hnot) (Ne.symm hne)
        · exact hfirst other hold

/-- Rules in the order of their names. -/
abbrev OrderedRules := { rules : List (String × RuleSource) // InOrder rules }

/-- Puts a rule in its place. -/
def OrderedRules.insert (rules : OrderedRules) (name : String) (rule : RuleSource) :
    OrderedRules := ⟨insertRule name rule rules.1, insertRule_inOrder name rule rules.2⟩

/-- The rules of an entry. -/
def rulesOfDocument? : Document → Option OrderedRules
  | .record members =>
    members.foldlM (fun rules (name, d) => (RuleSource.ofDocument? d).map (rules.insert name ·))
      ⟨[], .nil⟩
  | _ => none

/-- An entry. -/
def RouteEntry.ofDocument? (surplus : Bool) (d : Document) : Option RouteEntry := do
  match ← d.fields? surplus ["pattern", "priority", "greedy", "rules"] with
  | [some pattern, priority, greedy, rules] =>
    let rules ← Document.orElse rules ⟨[], .nil⟩ rulesOfDocument?
    return {
      pattern := ← pattern.text?
      priority := ← Document.orElse priority 0 Document.int32?
      greedy := ← Document.orElse greedy false Document.bool?
      rules := rules.1
      inOrder := rules.2 }
  | _ => none

namespace RouteTable

/-- A lexer section. -/
def sectionOfDocument? (format : Document.Format) (surplus : Bool) (d : Document) :
    Option SlashMode := do
  match ← d.fields? surplus ["slash_mode"] with
  | [mode] => Document.orElse mode .loose (SlashMode.ofDocument? format)
  | _ => none

/-- A lexer section that may be given as null. -/
def lexerOfDocument? (format : Document.Format) (surplus : Bool) :
    Document → Option (Option SlashMode)
  | .null => some none
  | d => (sectionOfDocument? format surplus d).map some

/-- A table. -/
def ofDocument? (format : Document.Format) (surplus : Bool) (d : Document) :
    Option RouteTable := do
  match ← d.fields? surplus ["lexer", "routes"] with
  | [lexer, routes] =>
    return {
      lexer := ← Document.orElse lexer none (lexerOfDocument? format surplus)
      routes := ← Document.orElse routes [] (Document.listOf? (RouteEntry.ofDocument? surplus)) }
  | _ => none

end RouteTable

end RouteDispatch
