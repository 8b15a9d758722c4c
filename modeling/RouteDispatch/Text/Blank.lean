/-
White space around a text, and the case of its Latin letters.
-/
import RouteDispatch.Unicode.Blank

namespace RouteDispatch.Text

/-- Without the white space before it. -/
def dropBlanks (s : List Char) : List Char := s.dropWhile Unicode.whiteSpace.contains

/-- Without the white space before and after it. -/
def trim (s : List Char) : List Char := (dropBlanks (dropBlanks s).reverse).reverse

/-- The capitals among the first 128 characters made small; all others stay as they are. -/
def lower (s : List Char) : List Char := s.map Char.toLower

end RouteDispatch.Text
