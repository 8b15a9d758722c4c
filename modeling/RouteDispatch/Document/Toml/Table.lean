/-
Putting tables together from statements.

A table is given by a heading, by a longer heading that passes through it, or
by a dotted key that does. Which of these it was decides who may add to it: a
heading may come once, and a dotted key only adds to what dotted keys have
made.
-/
import RouteDispatch.Document

namespace RouteDispatch.Toml

/-- A statement. -/
inductive Statement where
  /-- The entries that follow belong to this table. -/
  | heading (path : List String)
  /-- The entries that follow belong to another table in this list of tables. -/
  | element (path : List String)
  | entry (key : List String) (value : Document)

/-- What a table was first given by. -/
inductive Origin where
  | heading
  /-- A longer heading. -/
  | passage
  | dottedKey
deriving DecidableEq

/-- What a name stands for while statements are still to come. -/
inductive Item where
  /-- A value, to which nothing can be added. -/
  | value (d : Document)
  | table (origin : Origin) (members : List (String × Item))
  /-- The members of each table of a list, the last table first. -/
  | tables (elements : List (List (String × Item)))

/-- The members of a table, in the order in which they came. -/
abbrev Members := List (String × Item)

mutual

/-- The document that an item is once all statements are read. -/
def Item.close : Item → Document
  | .value d => d
  | .table _ members => .record (closeMembers members)
  | .tables elements => .list (closeTables elements [])

/-- As `Item.close`, for all members. -/
def closeMembers : List (String × Item) → List (String × Document)
  | [] => []
  | (name, item) :: members => (name, item.close) :: closeMembers members

/-- As `Item.close`, for the tables of a list, before those that are done. -/
def closeTables : List (List (String × Item)) → List Document → List Document
  | [], done => done
  | members :: elements, done => closeTables elements (.record (closeMembers members) :: done)

end

/-- Changes the item of a name, or adds one. -/
def changeMember (name : String) (change : Option Item → Option Item) : Members → Option Members
  | [] => (change none).map fun item => [(name, item)]
  | (n, item) :: members =>
    if n = name then (change (some item)).map fun item => (n, item) :: members
    else (changeMember name change members).map ((n, item) :: ·)

/-- Changes the members of the table that a path leads to, creating what is missing. A dotted key
does not lead through tables that have a heading or are in a list. -/
def changeTable (dotted : Bool) (change : Origin → Members → Option Members) :
    (path : List String) → Origin → Members → Option Members
  | [], origin, members => change origin members
  | name :: path, _, members =>
    changeMember name (fun
      | none =>
        let origin := if dotted then .dottedKey else .passage
        (changeTable dotted change path origin []).map (.table origin)
      | some (.table origin members) =>
        if dotted ∧ origin = .heading then none
        else (changeTable dotted change path origin members).map (.table origin)
      | some (.tables (members :: elements)) =>
        if dotted then none
        else (changeTable dotted change path .heading members).map fun members =>
          .tables (members :: elements)
      | some _ => none) members

/-- Adds a new name to a table. -/
def addMember (name : String) (d : Document) : Members → Option Members :=
  changeMember name fun
    | none => some (.value d)
    | some _ => none

/-- Adds a value under a key. -/
def addEntry (key : List String) (d : Document) (members : Members) : Option Members :=
  match key.reverse with
  | [] => none
  | last :: path =>
    changeTable true (fun origin members =>
      if !path.isEmpty && origin != .dottedKey then none else addMember last d members)
      path.reverse .heading members

/-- Follows a heading. -/
def addHeading (path : List String) (members : Members) : Option Members :=
  match path.reverse with
  | [] => none
  | last :: path =>
    changeTable false (fun _ => changeMember last fun
      | none => some (.table .heading [])
      | some (.table .passage members) => some (.table .heading members)
      | some _ => none)
      path.reverse .heading members

/-- Follows the heading of another table in a list. -/
def addElement (path : List String) (members : Members) : Option Members :=
  match path.reverse with
  | [] => none
  | last :: path =>
    changeTable false (fun _ => changeMember last fun
      | none => some (.tables [[]])
      | some (.tables elements) => some (.tables ([] :: elements))
      | some _ => none)
      path.reverse .heading members

/-- The table that some entries make. -/
def inlineTable? (entries : List (List String × Document)) : Option Document :=
  (entries.foldlM (fun members (key, d) => addEntry key d members) ([] : Members)).map
    fun members => .record (closeMembers members)

/-- Follows a statement; `current` is the path of the table that entries belong to. -/
def follow? : List String × Members → Statement → Option (List String × Members)
  | (_, members), .heading path => (addHeading path members).map (path, ·)
  | (_, members), .element path => (addElement path members).map (path, ·)
  | (current, members), .entry key d =>
    (changeTable false (fun _ => addEntry key d) current .heading members).map (current, ·)

/-- The document that the statements make. -/
def build? (statements : List Statement) : Option Document :=
  (statements.foldlM follow? ([], [])).map fun (_, members) => .record (closeMembers members)

end RouteDispatch.Toml
