/-
# Slash modes only widen what is accepted

A stricter mode keeps the slashes at the ends of a template, where a laxer one drops
them and lets a request have them or not.  No pass touches these slashes, so the
sources that two modes give to a template differ in them alone: what the stricter
one has at an end, the laxer one has a slash for that may be missing
(`strict_and_legacy`, `legacy_and_loose`).

Such a slash can be read as whatever an end can have (`EdgeSlash.reading`).
-/
import RouteDispatch.Proofs.Template.Ends
import RouteDispatch.Proofs.Template.Readings
import RouteDispatch.Proofs.Template.Syntax

namespace RouteDispatch.Template

open Text Regex

/-- The template compiles in this mode, and its matcher accepts the request. -/
def Accepts (mode : SlashMode) (template request : String) : Prop :=
  ∃ re, compile mode template = .ok re ∧ re.isMatch request = true

/-- These are the pieces of the template in this mode. -/
def HasPieces (mode : SlashMode) (template : List Char) (pieces : List (Piece Form)) : Prop :=
  sourceChars mode template = '^' :: (written pieces ++ ['$'])

/-- The row of pieces can be read as this text. -/
def Reading (pieces : List (Piece Form)) (text : List Char) : Prop :=
  ∃ values, Reads (pieces.map pieceItem) text values

/-! ## Acceptance as reading -/

theorem isMatch_iff_reads {re : Regex} {items : List Item}
    (h : re.expr = .row (.edge .textStart :: (exprsFrom 1 items ++ [.edge .textEnd])))
    (request : String) :
    re.isMatch request = true ↔ ∃ values, Reads items request.toList values := by
  have hmatch : re.isMatch request = (re.captures? request).isSome := by
    rw [isMatch, captures?, Option.isSome_map]
  rw [hmatch]
  rcases captures?_cases h request with ⟨slices, hbest, hvalues⟩ | ⟨hnone, hvalues⟩
  · rw [hvalues]
    exact iff_of_true rfl ⟨_, slices, hbest.1, rfl⟩
  · rw [hvalues]
    refine iff_of_false Bool.false_ne_true ?_
    rintro ⟨values, slices, hcuts, -⟩
    exact hnone slices hcuts

/-- A matcher accepts what the pieces of its template can be read as. -/
theorem accepts_iff {mode : SlashMode} {template : String} {pieces : List (Piece Form)}
    (h : HasPieces mode template.toList pieces) (request : String) :
    Accepts mode template request ↔
      (∃ re, compile mode template = .ok re) ∧ Reading pieces request.toList := by
  have hmatch : ∀ re, compile mode template = .ok re →
      (re.isMatch request = true ↔ Reading pieces request.toList) :=
    fun re hcompile => isMatch_iff_reads (expr_of_source h hcompile) request
  constructor
  · rintro ⟨re, hcompile, haccepts⟩
    exact ⟨⟨re, hcompile⟩, (hmatch re hcompile).mp haccepts⟩
  · rintro ⟨⟨re, hcompile⟩, hread⟩
    exact ⟨re, hcompile, (hmatch re hcompile).mpr hread⟩

/-! ## Slashes in a row -/

theorem reading_append {first second : List (Piece Form)} {text : List Char} :
    Reading (first ++ second) text ↔
      ∃ t u, text = t ++ u ∧ Reading first t ∧ Reading second u := by
  simp only [Reading, List.map_append, reads_append]
  constructor
  · rintro ⟨-, t, u, v, w, rfl, rfl, hfirst, hsecond⟩
    exact ⟨t, u, rfl, ⟨v, hfirst⟩, ⟨w, hsecond⟩⟩
  · rintro ⟨t, u, rfl, ⟨v, hfirst⟩, ⟨w, hsecond⟩⟩
    exact ⟨v ++ w, t, u, v, w, rfl, rfl, hfirst, hsecond⟩

theorem reading_optionalSlash {text : List Char} :
    Reading [.found .optionalSlash] text ↔ text = ['/'] ∨ text = [] := by
  refine Iff.trans (exists_congr fun values => reads_slash) ?_
  simp

/-- What the pieces of a mode can have at an end. -/
inductive EdgeSlash : List (Piece Form) → Prop
  | none : EdgeSlash []
  | kept : EdgeSlash [.found .requiredSlash]
  | allowed : EdgeSlash [.found .optionalSlash]

/-- A slash that may be missing can be read as whatever is at an end. -/
theorem EdgeSlash.reading {edge : List (Piece Form)} (h : EdgeSlash edge) {text : List Char}
    (hread : Reading edge text) : Reading [.found .optionalSlash] text := by
  rw [reading_optionalSlash]
  cases h with
  | none =>
    obtain ⟨values, hvalues⟩ := hread
    exact Or.inr (reads_nil.mp hvalues).1
  | kept =>
    obtain ⟨values, hvalues⟩ := hread
    obtain ⟨hslash | ⟨hmiss, -⟩, -⟩ := reads_slash.mp hvalues
    · exact Or.inl hslash
    · cases hmiss
  | allowed => exact reading_optionalSlash.mp hread

theorem EdgeSlash.reading_lead {edge rest : List (Piece Form)} (h : EdgeSlash edge)
    {text : List Char} (hread : Reading (edge ++ rest) text) :
    Reading ([.found .optionalSlash] ++ rest) text := by
  obtain ⟨t, u, rfl, hedge, hrest⟩ := reading_append.mp hread
  exact reading_append.mpr ⟨t, u, rfl, h.reading hedge, hrest⟩

theorem EdgeSlash.reading_trail {core edge : List (Piece Form)} (h : EdgeSlash edge)
    {text : List Char} (hread : Reading (core ++ edge) text) :
    Reading (core ++ [.found .optionalSlash]) text := by
  obtain ⟨t, u, rfl, hcore, hedge⟩ := reading_append.mp hread
  exact reading_append.mpr ⟨t, u, rfl, hcore, h.reading hedge⟩

/-- Where a slash may be missing at the end, a text that has none may have one. -/
theorem reading_concat_slash {core : List (Piece Form)} {text : List Char}
    (hread : Reading (core ++ [.found .optionalSlash]) text) (hlast : text.getLast? ≠ some '/') :
    Reading (core ++ [.found .optionalSlash]) (text ++ ['/']) := by
  obtain ⟨t, u, rfl, hcore, hslash⟩ := reading_append.mp hread
  rcases reading_optionalSlash.mp hslash with rfl | rfl
  · exact (hlast List.getLast?_concat).elim
  · refine reading_append.mpr ⟨t, ['/'], ?_, hcore, reading_optionalSlash.mpr (Or.inl rfl)⟩
    rw [List.append_nil]

/-- And so at the start. -/
theorem reading_cons_slash {rest : List (Piece Form)} {text : List Char}
    (hread : Reading ([.found .optionalSlash] ++ rest) text) (hhead : text.head? ≠ some '/') :
    Reading ([.found .optionalSlash] ++ rest) ('/' :: text) := by
  obtain ⟨t, u, rfl, hslash, hrest⟩ := reading_append.mp hread
  rcases reading_optionalSlash.mp hslash with rfl | rfl
  · exact (hhead rfl).elim
  · exact reading_append.mpr ⟨['/'], u, rfl, reading_optionalSlash.mpr (Or.inl rfl), hrest⟩

/-! ## The pieces of a template in each mode -/

section
variable {template : List Char} {pieces : List (Piece Form)}

theorem hasPieces_strict (h : template ≠ []) (hbody : body template = written pieces) :
    HasPieces .strict template pieces := by
  have hsource : HasPieces .strict template (pieces ++ []) := sourceChars_of_body h hbody
  rwa [List.append_nil] at hsource

theorem hasPieces_legacy (h : template ≠ [])
    (hbody : body (SlashMode.dropTrail template) = written pieces) :
    HasPieces .legacy template (pieces ++ [.found .optionalSlash]) := sourceChars_of_body h hbody

theorem hasPieces_loose (h : template ≠ [])
    (hbody : body (SlashMode.dropTrail (SlashMode.dropLead template)) = written pieces) :
    HasPieces .loose template ([.found .optionalSlash] ++ (pieces ++ [.found .optionalSlash])) :=
  sourceChars_of_body h hbody

end

/-- The pieces of the strict and of the legacy mode differ at the end only. -/
theorem strict_and_legacy (template : List Char) :
    ∃ core edge, EdgeSlash edge ∧ HasPieces .strict template (core ++ edge) ∧
      HasPieces .legacy template (core ++ [.found .optionalSlash]) := by
  by_cases hnil : template = []
  · rw [hnil]
    exact ⟨[], [], .none, sourceChars_nil .strict, sourceChars_nil .legacy⟩
  · obtain ⟨core, hcore⟩ := body_eq_written (SlashMode.dropTrail template)
    have hlegacy := hasPieces_legacy hnil hcore
    rcases dropTrail_cases template with hsame | hslash
    · rw [hsame] at hcore
      refine ⟨core, [], .none, ?_, hlegacy⟩
      rw [List.append_nil]
      exact hasPieces_strict hnil hcore
    · have hwhole : body template = written (core ++ [.found .requiredSlash]) := by
        rw [hslash, body_concat_slash, hcore, written_append]
        rfl
      exact ⟨core, [.found .requiredSlash], .kept, hasPieces_strict hnil hwhole, hlegacy⟩

/-- Dropping the slash at the start leaves the end as it is, unless it is the same slash. -/
theorem dropTrail_slash {s : List Char} (h : s ≠ []) :
    SlashMode.dropTrail ('/' :: s) = '/' :: SlashMode.dropTrail s := by
  obtain ⟨c, s, rfl⟩ := List.exists_cons_of_ne_nil h
  simp only [SlashMode.dropTrail, List.getLast?_cons_cons, List.dropLast_cons_cons]
  split <;> rfl

/-- The pieces of the legacy and of the loose mode differ at the start only. -/
theorem legacy_and_loose (template : List Char) :
    ∃ edge rest, EdgeSlash edge ∧ HasPieces .legacy template (edge ++ rest) ∧
      HasPieces .loose template ([.found .optionalSlash] ++ rest) := by
  by_cases hnil : template = []
  · rw [hnil]
    exact ⟨[.found .optionalSlash], [], .allowed, sourceChars_nil .legacy, sourceChars_nil .loose⟩
  · obtain ⟨core, hcore⟩ := body_eq_written (SlashMode.dropTrail (SlashMode.dropLead template))
    have hloose := hasPieces_loose hnil hcore
    rcases dropLead_cases template with hsame | hslash
    · rw [hsame] at hcore
      have hlegacy := hasPieces_legacy hnil hcore
      exact ⟨[], _, .none, hlegacy, hloose⟩
    · by_cases hsole : SlashMode.dropLead template = []
      · -- The template is one slash, which is at the start as well as at the end.
        rw [hsole] at hslash hcore
        rw [hslash] at hloose hnil ⊢
        have hlegacy : HasPieces .legacy ['/'] (core ++ [.found .optionalSlash]) :=
          hasPieces_legacy hnil hcore
        exact ⟨[], _, .none, hlegacy, hloose⟩
      · have hwhole : body (SlashMode.dropTrail template) =
            written (.found .requiredSlash :: core) := by
          rw [hslash, dropTrail_slash hsole, body_slash, hcore, written_cons]
          rfl
        have hlegacy := hasPieces_legacy hnil hwhole
        exact ⟨[.found .requiredSlash], _, .kept, hlegacy, hloose⟩

/-- Every mode but the strict one has a slash at the end that may be missing. -/
theorem hasPieces_trail {mode : SlashMode} (h : mode ≠ .strict) (template : List Char) :
    ∃ core, HasPieces mode template (core ++ [.found .optionalSlash]) := by
  have htrail : trailPieces mode = [.found .optionalSlash] := by
    cases mode with
    | strict => exact (h rfl).elim
    | loose | legacy => rfl
  by_cases hnil : template = []
  · refine ⟨[], ?_⟩
    rw [hnil, HasPieces, sourceChars_nil, htrail]
    rfl
  · obtain ⟨core, hcore⟩ := body_eq_written (mode.strip template)
    refine ⟨leadPieces mode ++ core, ?_⟩
    rw [List.append_assoc, ← htrail]
    exact sourceChars_of_body hnil hcore

/-! ## Requests -/

/-- Whatever the template, a laxer mode accepts what a stricter one does, and the slashes that a
mode leaves open may be put to a request that has none. -/
theorem slashModes_widen (template request : String) :
    ((∃ re, compile .legacy template = .ok re) →
        Accepts .strict template request → Accepts .legacy template request) ∧
      ((∃ re, compile .loose template = .ok re) →
        Accepts .legacy template request → Accepts .loose template request) ∧
      (∀ mode, mode ≠ .strict → request.toList.getLast? ≠ some '/' →
        Accepts mode template request → Accepts mode template (request ++ "/")) ∧
      (request.toList.head? ≠ some '/' →
        Accepts .loose template request → Accepts .loose template ("/" ++ request)) := by
  refine ⟨?_, ?_, ?_, ?_⟩
  · intro hcompiles hstrict
    obtain ⟨core, edge, hedge, hbefore, hafter⟩ := strict_and_legacy template.toList
    have hread := ((accepts_iff hbefore request).mp hstrict).2
    exact (accepts_iff hafter request).mpr ⟨hcompiles, hedge.reading_trail hread⟩
  · intro hcompiles hlegacy
    obtain ⟨edge, rest, hedge, hbefore, hafter⟩ := legacy_and_loose template.toList
    have hread := ((accepts_iff hbefore request).mp hlegacy).2
    exact (accepts_iff hafter request).mpr ⟨hcompiles, hedge.reading_lead hread⟩
  · intro mode hmode hlast haccepts
    obtain ⟨core, hpieces⟩ := hasPieces_trail hmode template.toList
    obtain ⟨hcompiles, hread⟩ := (accepts_iff hpieces request).mp haccepts
    have htext : (request ++ "/").toList = request.toList ++ ['/'] := String.toList_append
    have hmore := reading_concat_slash hread hlast
    rw [← htext] at hmore
    exact (accepts_iff hpieces _).mpr ⟨hcompiles, hmore⟩
  · intro hhead haccepts
    obtain ⟨-, rest, -, -, hpieces⟩ := legacy_and_loose template.toList
    obtain ⟨hcompiles, hread⟩ := (accepts_iff hpieces request).mp haccepts
    have htext : ("/" ++ request).toList = '/' :: request.toList := String.toList_append
    have hmore := reading_cons_slash hread hhead
    rw [← htext] at hmore
    exact (accepts_iff hpieces _).mpr ⟨hcompiles, hmore⟩

/-- A colon without a partner is plain text, and the slash behind it counts as one behind any other
template. -/
theorem slashModes_widen_unclosed :
    Accepts .strict "/a+b:/" "/a+b:/" ∧ Accepts .legacy "/a+b:/" "/a+b:/" ∧
      Accepts .loose "/a+b:/" "/a+b:/" ∧
      Accepts .legacy "/a+b:/" "/a+b:" ∧ Accepts .legacy "/a+b:/" ("/a+b:" ++ "/") ∧
      Accepts .loose "/a+b:/" "a+b:" ∧ Accepts .loose "/a+b:/" ("/" ++ "a+b:") := by
  have haccepts : ∀ mode request,
      (compile mode "/a+b:/").toOption.any (·.isMatch request) = true →
        Accepts mode "/a+b:/" request := by
    intro mode request h
    cases hcompile : compile mode "/a+b:/" with
    | ok re =>
      rw [hcompile] at h
      exact ⟨re, hcompile, h⟩
    | error e =>
      rw [hcompile] at h
      cases h
  have hstrict := haccepts .strict "/a+b:/" (by decide +kernel)
  have hshort := haccepts .legacy "/a+b:" (by decide +kernel)
  have hbare := haccepts .loose "a+b:" (by decide +kernel)
  have hlegacyOk : ∃ re, compile .legacy "/a+b:/" = .ok re := hshort.imp fun _ => And.left
  have hlooseOk : ∃ re, compile .loose "/a+b:/" = .ok re := hbare.imp fun _ => And.left
  have hlegacy := (slashModes_widen "/a+b:/" "/a+b:/").1 hlegacyOk hstrict
  have hloose := (slashModes_widen "/a+b:/" "/a+b:/").2.1 hlooseOk hlegacy
  have htrail := (slashModes_widen "/a+b:/" "/a+b:").2.2.1 .legacy (by decide) (by decide) hshort
  have hlead := (slashModes_widen "/a+b:/" "a+b:").2.2.2 (by decide) hbare
  exact ⟨hstrict, hlegacy, hloose, hshort, htrail, hbare, hlead⟩

end RouteDispatch.Template
