/-
Documents: the values that a JSON or TOML text writes.

The members of a record are kept in the order of the text, repeated names
included, so that whoever reads a document decides what to do with them.
-/
namespace RouteDispatch

/-- A document. -/
inductive Document where
  | null
  | bool (b : Bool)
  | int (n : Int)
  /-- A number that is not written as an integer. -/
  | real
  /-- A date or a time. -/
  | moment
  | text (s : String)
  | list (items : List Document)
  | record (members : List (String × Document))

namespace Document

/-! ## Equality -/

mutual

/-- The documents are the same, repeated names included. -/
def same : Document → Document → Bool
  | null, null => true
  | bool b, bool b' => b == b'
  | int n, int n' => n == n'
  | real, real => true
  | moment, moment => true
  | text s, text s' => s == s'
  | list items, list items' => sameItems items items'
  | record members, record members' => sameMembers members members'
  | _, _ => false

/-- The items of two lists are the same. -/
def sameItems : List Document → List Document → Bool
  | [], [] => true
  | d :: items, d' :: items' => same d d' && sameItems items items'
  | _, _ => false

/-- The members of two records are the same. -/
def sameMembers : List (String × Document) → List (String × Document) → Bool
  | [], [] => true
  | (name, d) :: members, (name', d') :: members' =>
    name == name' && same d d' && sameMembers members members'
  | _, _ => false

end

mutual

theorem same_iff : ∀ d d' : Document, same d d' = true ↔ d = d'
  | null, d' | bool _, d' | int _, d' | real, d' | moment, d' | text _, d' => by
    cases d' <;> simp [same]
  | list items, d' => by cases d' <;> simp [same, sameItems_iff items]
  | record members, d' => by cases d' <;> simp [same, sameMembers_iff members]

theorem sameItems_iff : ∀ items items' : List Document,
    sameItems items items' = true ↔ items = items'
  | [], items' => by cases items' <;> simp [sameItems]
  | d :: items, items' => by cases items' <;> simp [sameItems, same_iff d, sameItems_iff items]

theorem sameMembers_iff : ∀ members members' : List (String × Document),
    sameMembers members members' = true ↔ members = members'
  | [], members' => by cases members' <;> simp [sameMembers]
  | (name, d) :: members, members' => by
    cases members' <;> simp [sameMembers, same_iff d, sameMembers_iff members, Prod.ext_iff]

end

instance : DecidableEq Document := fun d d' => decidable_of_iff _ (same_iff d d')

/-! ## Formats and numbers -/

/-- The languages in which a document may be written. -/
inductive Format where
  | json
  | toml
deriving DecidableEq, Repr

/-- A number of this many tenth powers still has a place among the doubles: it rounds to one below
their greatest power of two. -/
def fitsDouble (digits : Nat) (exponent : Int) : Bool :=
  let size : Int := (Nat.toDigits 10 digits).length + exponent
  if digits = 0 ∨ size < 300 then true
  else if 400 < size then false
  else
    let bound := Nat.pow 2 1024 - Nat.pow 2 970
    digits * Nat.pow 10 exponent.toNat < bound * Nat.pow 10 (-exponent).toNat

/-- An integer of 64 bits, with or without a sign. -/
def isWord (n : Int) : Bool := -0x8000000000000000 ≤ n && n < 0x10000000000000000

end Document

/-! ## Reading -/

/-- Reads from the start of a text, and leaves the rest; or fails. -/
abbrev Reading := StateT (List Char) Option

namespace Reading

variable {α : Type}

/-- The next character, which stays. -/
def peek : Reading (Option Char) := fun s => some (s.head?, s)

/-- Takes the next character if it is this one, and says whether it was. -/
def skip? (c : Char) : Reading Bool := fun s =>
  match s with
  | d :: rest => some (if d = c then (true, rest) else (false, s))
  | [] => some (false, [])

/-- Takes this text, which must be next. -/
def word (w : String) : Reading Unit := fun s =>
  if w.toList.isPrefixOf s then some ((), s.drop w.length) else none

/-- Takes the longest run of characters with a property. -/
def run (p : Char → Bool) : Reading (List Char) := fun s => some (s.takeWhile p, s.dropWhile p)

/-- As `run`, with one character at least. -/
def run1 (p : Char → Bool) : Reading (List Char) := do
  let cs ← run p
  if cs.isEmpty then failure else return cs

/-- Reads items with commas between them up to the closing character, and puts them behind those
that are done, last one first. A comma may also follow the last item if `trailing`. Every round
takes a character at least, so there are at most as many as the text is long. -/
def itemsOnto (item : Reading α) (gap : Reading Unit) (close : Char) (trailing : Bool) :
    (rounds : Nat) → (done : List α) → Reading (List α)
  | 0, _ => failure
  | rounds + 1, done => do
    let a ← item
    gap
    if ← skip? close then return (a :: done).reverse
    word ","
    gap
    if trailing then
      if ← skip? close then return (a :: done).reverse
    itemsOnto item gap close trailing rounds (a :: done)

/-- Reads items with commas between them, the opening bracket being gone. -/
def items (item : Reading α) (gap : Reading Unit) (close : Char) (trailing : Bool) :
    Reading (List α) := do
  gap
  if ← skip? close then return []
  itemsOnto item gap close trailing (← get).length []

/-- Reads the whole of a text. -/
def whole (r : Reading α) (s : List Char) : Option α :=
  match r s with
  | some (a, []) => some a
  | _ => none

end Reading

end RouteDispatch
