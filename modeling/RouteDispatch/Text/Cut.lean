/-
Cutting a text into the parts that a rule finds and the characters between
them.

A rule looks at the start of a text and may claim its first characters. The
text is gone through from left to right; what is claimed is not looked at
again, so the parts found never overlap and each begins as early as it can.
Replacing, collecting names and filling in values are all done on the pieces.
-/
namespace RouteDispatch.Text

/-- A part of a text: a character that no rule claimed, or what a rule found. -/
inductive Piece (α : Type) where
  | plain (c : Char)
  | found (a : α)
deriving DecidableEq

/-- What is found at the start of a text, and how many characters it takes. -/
abbrev Rule (α : Type) := List Char → Option (α × Nat)

/-- The pieces of a text, whose first `skip` characters are claimed already, after those in
`done`, the last of which comes first. -/
def cutOnto {α : Type} (rule : Rule α) (done : List (Piece α)) :
    (skip : Nat) → List Char → List (Piece α)
  | _, [] => done.reverse
  | skip + 1, _ :: s => cutOnto rule done skip s
  | 0, c :: s =>
    match rule (c :: s) with
    | some (a, n) => cutOnto rule (.found a :: done) (n - 1) s
    | none => cutOnto rule (.plain c :: done) 0 s

/-- The pieces of a text. -/
def cut {α : Type} (rule : Rule α) (s : List Char) : List (Piece α) := cutOnto rule [] 0 s

/-- All that a rule finds. -/
def findAll {α : Type} (rule : Rule α) (s : List Char) : List α :=
  (cut rule s).filterMap fun
    | .plain _ => none
    | .found a => some a

/-- Puts something else in the place of all that a rule finds. -/
def substitute (rule : Rule (List Char)) (s : List Char) : List Char :=
  (cut rule s).flatMap fun
    | .plain c => [c]
    | .found a => a

/-- Finds a fixed text, in whose place another one goes. -/
def swapping (old new : List Char) : Rule (List Char) := fun s =>
  if old.isPrefixOf s then some (new, old.length) else none

/-- Puts one text in the place of another wherever that occurs. -/
def replace (old new s : List Char) : List Char := substitute (swapping old new) s

/-- The text up to the first character with a property, which must be there. -/
def upTo? (stops : Char → Bool) (s : List Char) : Option (List Char) :=
  if s.any stops then some (s.takeWhile (! stops ·)) else none

/-- Drops a text from the start as often as it stands there. -/
def dropRepeated (lead : List Char) : List Char → List Char
  | [] => []
  | c :: s =>
    if lead.isPrefixOf (c :: s) then dropRepeated lead (s.drop (lead.length - 1)) else c :: s
termination_by s => s.length
decreasing_by simp only [List.length_drop, List.length_cons]; omega

/-! ## Going on after what was cut already -/

theorem cutOnto_eq_append {α : Type} (rule : Rule α) (done : List (Piece α)) (skip : Nat)
    (s : List Char) : cutOnto rule done skip s = done.reverse ++ cutOnto rule [] skip s := by
  induction s generalizing done skip with
  | nil => simp [cutOnto]
  | cons c s ih =>
    cases skip with
    | succ skip => simp only [cutOnto]; exact ih done skip
    | zero =>
      simp only [cutOnto]
      split
      · next a n _ => rw [ih (.found a :: done), ih [.found a]]; simp
      · rw [ih (.plain c :: done), ih [.plain c]]; simp

/-- A character that begins nothing found is a piece by itself. -/
theorem cut_cons_of_none {α : Type} {rule : Rule α} {c : Char} {s : List Char}
    (h : rule (c :: s) = none) : cut rule (c :: s) = .plain c :: cut rule s := by
  simp only [cut, cutOnto, h]
  rw [cutOnto_eq_append]
  rfl

/-- Claimed characters are passed over. -/
theorem cutOnto_skip {α : Type} (rule : Rule α) (done : List (Piece α)) (t s : List Char) :
    cutOnto rule done t.length (t ++ s) = cutOnto rule done 0 s := by
  induction t with
  | nil => rfl
  | cons c t ih => simpa [cutOnto] using ih

/-- What is found at the start is a piece, and the rest is cut by itself. -/
theorem cut_append_of_some {α : Type} {rule : Rule α} {a : α} {c : Char} {t s : List Char}
    (h : rule (c :: t ++ s) = some (a, t.length + 1)) :
    cut rule (c :: t ++ s) = .found a :: cut rule s := by
  simp only [List.cons_append] at h
  simp only [cut, List.cons_append, cutOnto, h, Nat.add_sub_cancel]
  rw [cutOnto_skip, cutOnto_eq_append]
  rfl

end RouteDispatch.Text
