/-
# Every template has a source that can be read

The source of a template is a row of pieces between its anchors
(`sourceChars_eq_written`), and the reader refuses no such row.  A template can
therefore be too large for a matcher, but it is never malformed
(`compile_of_any`): delimiters that are not balanced, characters that mean something
in a regular expression, and text that looks like a stand-in or a part of one are
no exceptions.
-/
import RouteDispatch.Proofs.Template.Pieces
import RouteDispatch.Proofs.Template.Read
import RouteDispatch.Route

namespace RouteDispatch.Template

open Text Regex

/-- The slash that a mode allows before the requests of a template. -/
def leadPieces : SlashMode → List (Piece Form)
  | .loose => [.found .optionalSlash]
  | .strict | .legacy => []

/-- The slash that a mode allows behind the requests of a template. -/
def trailPieces : SlashMode → List (Piece Form)
  | .loose | .legacy => [.found .optionalSlash]
  | .strict => []

theorem written_append (first second : List (Piece Form)) :
    written (first ++ second) = written first ++ written second := by
  rw [written, List.map_append, List.flatMap_append]
  rfl

theorem sourceChars_nil (mode : SlashMode) :
    sourceChars mode [] = '^' :: (written (trailPieces mode) ++ ['$']) := by
  cases mode <;> rfl

/-- The source of a template that is not empty has the pieces of its body between the slashes that
the mode allows. -/
theorem sourceChars_of_body {mode : SlashMode} {template : List Char} (h : template ≠ [])
    {pieces : List (Piece Form)} (hbody : body (mode.strip template) = written pieces) :
    sourceChars mode template =
      '^' :: (written (leadPieces mode ++ (pieces ++ trailPieces mode)) ++ ['$']) := by
  rw [sourceChars, if_neg h, hbody, written_append, written_append]
  cases mode <;> simp [h, leadPieces, trailPieces, written, pieceItem, Form.item, Item.fragment]

/-- Whatever a template is, its source is a row of pieces between the anchors. -/
theorem sourceChars_eq_written (mode : SlashMode) (template : List Char) :
    ∃ pieces, sourceChars mode template = '^' :: (written pieces ++ ['$']) := by
  by_cases hnil : template = []
  · rw [hnil]
    exact ⟨_, sourceChars_nil mode⟩
  · obtain ⟨pieces, hbody⟩ := body_eq_written (mode.strip template)
    exact ⟨_, sourceChars_of_body hnil hbody⟩

/-- The source of every template is a row of whole fragments and escaped characters, it can be read
as a regular expression, and only one that is too large does not compile. -/
theorem compile_of_any (mode : SlashMode) (template : String) :
    ∃ (pieces : List (Piece Form)) (e : Expr),
      source mode template = .ofList ('^' :: (written pieces ++ ['$'])) ∧
        Expr.ofSource? (source mode template).toList = some e ∧
        (compile mode template = .ok ⟨source mode template, e⟩ ∧ e.weight ≤ weightLimit ∨
          compile mode template = .error .oversized ∧ weightLimit < e.weight) ∧
        ∀ id priority, (Route.ofPattern id (.template template) priority mode).matcher = none ↔
          weightLimit < e.weight := by
  obtain ⟨pieces, hsource⟩ := sourceChars_eq_written mode template.toList
  let items := pieces.map pieceItem
  let e := Expr.row (.edge .textStart :: (exprsFrom 1 items ++ [.edge .textEnd]))
  have hitems : sourceChars mode template.toList = '^' :: (items.flatMap Item.fragment ++ ['$']) :=
    hsource
  have hread : Expr.ofSource? (source mode template).toList = some e := by
    rw [source, String.toList_ofList, hitems]
    exact ofSource?_eq items
  have hcompile : compile mode template =
      if e.weight ≤ weightLimit then .ok ⟨source mode template, e⟩ else .error .oversized :=
    compile_of_source hitems
  refine ⟨pieces, e, by rw [source, hsource], hread, ?_⟩
  by_cases hweight : e.weight ≤ weightLimit
  · rw [if_pos hweight] at hcompile
    refine ⟨Or.inl ⟨hcompile, hweight⟩, ?_⟩
    intro id priority
    rw [Route.ofPattern, Pattern.matcher?, hcompile]
    refine iff_of_false ?_ (Nat.not_lt.mpr hweight)
    intro h
    cases h
  · rw [if_neg hweight] at hcompile
    refine ⟨Or.inr ⟨hcompile, Nat.lt_of_not_le hweight⟩, ?_⟩
    intro id priority
    rw [Route.ofPattern, Pattern.matcher?, hcompile]
    exact iff_of_true rfl (Nat.lt_of_not_le hweight)

end RouteDispatch.Template
