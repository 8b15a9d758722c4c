/-
Loading a route table from a text or from the content of a file.
-/
import RouteDispatch.Document.Json
import RouteDispatch.Document.Toml.Statement
import RouteDispatch.RouteTable.Decode
import RouteDispatch.Text.Blank

namespace RouteDispatch

/-- Why a table cannot be loaded. -/
inductive LoadFailure where
  /-- The text is no document of its format, or the document is no table. -/
  | unparsable (format : Document.Format)
  /-- There is no such file, or it holds no text. -/
  | unreadable (name : String)
deriving DecidableEq, Repr

/-- The failure in words. -/
def LoadFailure.message : LoadFailure → String
  | unparsable .json => "Failed to parse JSON route table"
  | unparsable .toml => "Failed to parse TOML route table"
  | unreadable name => s!"Failed to read route table {name}"

/-- The document that a text writes. -/
def Document.Format.document? : Document.Format → String → Option Document
  | json => Json.document?
  | toml => Toml.document?

/-- What stands behind the last dot of the name of a file, if something stands before it. The name
begins behind the last slash. -/
def extension? (path : String) : Option String :=
  let reversed := (path.toList.reverse.dropWhile (· == '/')).takeWhile (· != '/')
  let ext := reversed.takeWhile (· != '.')
  if reversed.length ≤ ext.length + 1 ∨ reversed = ['.', '.'] then none
  else some (.ofList ext.reverse)

/-- The format that a file is read as: JSON if its name says so, in capitals or small letters, and
TOML otherwise. -/
def Document.Format.ofPath (path : String) : Document.Format :=
  if (extension? path).any fun ext => Text.lower ext.toList = "json".toList then json else toml

namespace RouteTable

/-- The table that a text writes. With `surplus`, the parser of TOML passes over what a list of
fields has behind the last one. -/
def ofText (format : Document.Format) (text : String) (surplus : Bool := true) :
    Except LoadFailure RouteTable :=
  match (format.document? text).bind (ofDocument? format (format.passesOver surplus)) with
  | some t => .ok t
  | none => .error (.unparsable format)

/-- The table in a file with this content; without content there is no such file. -/
def load (path : String) (content : Option ByteArray) (surplus : Bool := true) :
    Except LoadFailure RouteTable :=
  match content.bind String.fromUTF8? with
  | some text => ofText (.ofPath path) text surplus
  | none => .error (.unreadable path)

end RouteTable

end RouteDispatch
