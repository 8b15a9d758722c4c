/-
Texts as they are shown between quotation marks, and records as they are shown
on one line.
-/
import RouteDispatch.Unicode.Category

namespace RouteDispatch.Text

/-- A code point in hexadecimal, between braces. -/
def escapedPoint (c : Char) : List Char :=
  '\\' :: 'u' :: '{' :: (Nat.toDigits 16 c.toNat ++ ['}'])

/-- A character as it is shown in a quoted text. Characters that would not show, or would show as
a part of the one before them, are given by their code point. -/
def quotedChar (c : Char) : List Char :=
  match c with
  | '"' => ['\\', '"']
  | '\\' => ['\\', '\\']
  | '\n' => ['\\', 'n']
  | '\t' => ['\\', 't']
  | '\r' => ['\\', 'r']
  | '\x00' => ['\\', '0']
  | c =>
    if 0x20 ≤ c.toNat ∧ c.toNat < 0x7F then [c]
    else if Unicode.graphemeExtender.contains c then escapedPoint c
    else if Unicode.printable.contains c then [c]
    else escapedPoint c

/-- A text between quotation marks. -/
def quoted (s : String) : String :=
  .ofList ('"' :: (s.toList.flatMap quotedChar ++ ['"']))

/-- A list between square brackets. -/
def shownList (items : List String) : String := "[" ++ ", ".intercalate items ++ "]"

/-- A value under the name of its kind. -/
def shownCase (kind value : String) : String := kind ++ "(" ++ value ++ ")"

/-- A record under the name of its kind, with its fields. -/
def shownRecord (kind : String) (fields : List (String × String)) : String :=
  kind ++ " \x7b " ++ ", ".intercalate (fields.map fun (name, value) => name ++ ": " ++ value) ++
    " \x7d"

/-- A truth value as a word. -/
def shownBool (b : Bool) : String := if b then "true" else "false"

end RouteDispatch.Text
