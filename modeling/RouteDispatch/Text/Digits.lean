/-
Numbers in decimal and hexadecimal digits, and characters given by their number.
-/
namespace RouteDispatch.Text

/-- The value of a hexadecimal digit. -/
def hexDigit? (c : Char) : Option Nat :=
  if c.isDigit then some (c.toNat - '0'.toNat)
  else if 'a' ≤ c ∧ c ≤ 'f' then some (c.toNat - 'a'.toNat + 10)
  else if 'A' ≤ c ∧ c ≤ 'F' then some (c.toNat - 'A'.toNat + 10)
  else none

/-- The number written by these digits, of which there must be one at least. -/
def hexNumber? (digits : List Char) : Option Nat :=
  if digits.isEmpty then none
  else digits.foldlM (fun n c => (hexDigit? c).map (16 * n + ·)) 0

/-- The number written by the first `width` characters, all of them digits. -/
def hexPrefix? (width : Nat) (s : List Char) : Option Nat :=
  let digits := s.take width
  if digits.length < width then none else hexNumber? digits

/-- The character with this code point. -/
def charAt? (n : Nat) : Option Char :=
  if n.isValidChar then some (.ofNat n) else none

/-- The number written by decimal digits. -/
def decimal (digits : List Char) : Nat :=
  digits.foldl (fun n c => 10 * n + (c.toNat - '0'.toNat)) 0

end RouteDispatch.Text
