/-
# What a plain template is turned into

The source of the matcher of a plain template, and the names that are read off
the template, both by the parts of the template alone.

Three scanners go through the same text: the passes that make the source, the one
that collects all names, and the one that collects the names between colons.  They
know nothing of each other and cut the text by different delimiters, but they see
the same parts.
-/
import RouteDispatch.Proofs.Template.Restore

namespace RouteDispatch.Template

open Text

/-! ## Names -/

theorem slotRule_of_head {c : Char} (h : c ≠ '{') (h' : c ≠ ':') (s : List Char) :
    slotRule (c :: s) = none := by
  have hc : ¬ (c == '{' || c == ':') = true := by simp [h, h']
  exact if_neg hc

theorem slotRule_found (p : Part) (rest : List Char) :
    slotRule (p.text ++ rest) = some (⟨p.text, p.label⟩, p.text.length) := by
  have hopening : (p.opening == '{' || p.opening == ':') = true := by
    rw [Part.opening]
    cases p.required <;> rfl
  have hclosing : (p.closing == '}' || p.closing == ':') = true := by
    rw [Part.closing]
    cases p.required <;> rfl
  have hlabel : ∀ c ∈ p.label, (c == '}' || c == ':') = false := by
    intro c hc
    obtain ⟨-, h, h', -⟩ := p.label_delimiters hc
    simp [h, h']
  have hupTo : upTo? (fun d => d == '}' || d == ':') (p.label ++ p.closing :: rest) =
      some p.label := upTo?_append hlabel hclosing
  have hempty : p.label.isEmpty = false := by
    cases hl : p.label
    · exact absurd hl p.label_ne
    · rfl
  have htext : p.text ++ rest = p.opening :: (p.label ++ p.closing :: rest) := by
    rw [Part.text]
    simp
  have hlength : p.text.length = p.label.length + 2 := by
    rw [Part.text]
    simp
  have htake : (p.opening :: (p.label ++ p.closing :: rest)).take (p.label.length + 2) = p.text := by
    rw [← htext, ← hlength, List.take_left]
  rw [htext]
  refine (if_pos hopening).trans ?_
  rw [hupTo]
  simp only [hempty, Bool.false_eq_true, if_false]
  rw [htake, hlength]

/-- The scanner for names between colons finds the optional parts and no others. -/
theorem enclosed_colon_found {p : Part} (h : p.required = false) (rest : List Char) :
    enclosed [':'] ':' (p.text ++ rest) = some (p.label, p.text.length) := by
  have hlabel : ∀ c ∈ p.label, c ≠ ':' := fun c hc => (p.label_delimiters hc).2.2.1
  have hfound := enclosed_found [':'] rest p.label_ne hlabel
  have htext : p.text ++ rest = [':'] ++ (p.label ++ ':' :: rest) := by
    simp [Part.text, Part.opening, Part.closing, h]
  have hlength : p.text.length = [':'].length + p.label.length + 1 := by
    simp [Part.text, Nat.add_comm]
  rw [htext, hfound, hlength]

theorem enclosed_colon_of_head {c : Char} (h : c ≠ ':') (s : List Char) :
    enclosed [':'] ':' (c :: s) = none := by
  refine enclosed_eq_none ?_
  simp [List.isPrefixOf, Ne.symm h]

theorem silent_colon {p : Part} (h : p.required = true) (rest : List Char) :
    Silent (enclosed [':'] ':') p.text rest := by
  refine silent_of_head rest fun c hc s => enclosed_colon_of_head ?_ s
  rw [Part.text, Part.opening, Part.closing, h] at hc
  rcases List.mem_cons.mp hc with rfl | hc
  · decide
  · rcases List.mem_append.mp hc with hc | hc
    · exact (p.label_delimiters hc).2.2.1
    · rw [List.mem_singleton.mp hc]
      decide

theorem findAll_slots {prev : Option Part} {cells : List Cell} {tail : List Char}
    (ht : Tidy prev cells tail) :
    findAll slotRule (cells.flatMap Cell.text ++ tail) =
      cells.map fun cell => ⟨cell.part.text, cell.part.label⟩ := by
  have hliteral : ∀ {prev s next} (rest : List Char), Literal prev s next →
      Silent slotRule s rest := by
    intro prev s next rest h
    refine silent_of_head rest ?_
    intro c hc s
    exact slotRule_of_head (h.delimiters c hc).1 (h.delimiters c hc).2.2 s
  induction cells generalizing prev with
  | nil => exact findAll_of_silent (hliteral [] ht)
  | cons cell cells ih =>
    obtain ⟨hcell, hcells⟩ := ht
    rw [List.flatMap_cons, Cell.text, List.append_assoc, List.append_assoc,
      findAll_append_of_silent (hliteral _ hcell),
      findAll_append_of_some (show cell.part.text ≠ [] from List.cons_ne_nil _ _)
        (slotRule_found cell.part _), ih hcells]
    rfl

theorem findAll_colons {prev : Option Part} {cells : List Cell} {tail : List Char}
    (ht : Tidy prev cells tail) :
    findAll (enclosed [':'] ':') (cells.flatMap Cell.text ++ tail) =
      ((cells.map (·.part)).filter (! ·.required)).map Part.label := by
  have hliteral : ∀ {prev s next} (rest : List Char), Literal prev s next →
      Silent (enclosed [':'] ':') s rest := by
    intro prev s next rest h
    refine silent_of_head rest ?_
    intro c hc s
    exact enclosed_colon_of_head (h.delimiters c hc).2.2 s
  induction cells generalizing prev with
  | nil => exact findAll_of_silent (hliteral [] ht)
  | cons cell cells ih =>
    obtain ⟨hcell, hcells⟩ := ht
    rw [List.flatMap_cons, Cell.text, List.append_assoc, List.append_assoc,
      findAll_append_of_silent (hliteral _ hcell)]
    cases hr : cell.part.required with
    | true =>
      rw [findAll_append_of_silent (silent_colon hr _), ih hcells]
      simp [hr]
    | false =>
      rw [findAll_append_of_some (show cell.part.text ≠ [] from List.cons_ne_nil _ _)
        (enclosed_colon_found hr _), ih hcells]
      simp [hr]

/-! ## The translation -/

/-- The passes come to the translation of what is left once the slashes are dropped. -/
theorem sourceChars_of_plain (mode : SlashMode) (t : Plain) (h : t.text ≠ []) :
    sourceChars mode t.text =
      '^' :: ((if mode = .loose then "/?".toList else []) ++
        ((t.strip mode).translation ++
          ((if mode = .strict then [] else "/?".toList) ++ ['$']))) := by
  rw [sourceChars, ← t.text_strip, body_eq_translation]
  simp only [h, ne_eq, not_false_eq_true, and_true, if_false]
  rfl

/-- The source of a plain template is put together from its items, whatever the slash mode, and the
names are the labels of its parts. -/
theorem source_of_plain (mode : SlashMode) (t : Plain) (h : t.text ≠ []) :
    source mode (.ofList t.text) =
        .ofList ('^' :: ((if mode = .loose then "/?".toList else []) ++
          ((t.strip mode).translation ++
            ((if mode = .strict then [] else "/?".toList) ++ ['$'])))) ∧
      paramIds (.ofList t.text) = t.parts.map (String.ofList ·.label) ∧
      optionalParamIds (.ofList t.text) =
        (t.parts.filter (! ·.required)).map (String.ofList ·.label) := by
  refine ⟨?_, ?_, ?_⟩
  · rw [source, String.toList_ofList, sourceChars_of_plain mode t h]
  · have hslots := findAll_slots t.tidy
    rw [paramIds, String.toList_ofList, Plain.text, hslots, List.map_map, Plain.parts, List.map_map]
    rfl
  · have hcolons := findAll_colons t.tidy
    rw [optionalParamIds, String.toList_ofList, Plain.text, hcolons, List.map_map, Plain.parts]
    rfl

/-- Two parts, of which the second may be left out with its slash. -/
theorem source_of_usersPage :
    Plain.usersPage.text = "/users/{id}/:page:".toList ∧ Plain.usersPage.text ≠ [] ∧
      source .loose (.ofList Plain.usersPage.text) = "^/?users/([^/?]+)/?([^/?]+)?/?/?$" ∧
      paramIds (.ofList Plain.usersPage.text) = ["id", "page"] ∧
      optionalParamIds (.ofList Plain.usersPage.text) = ["page"] := by
  have hne : Plain.usersPage.text ≠ [] := List.cons_ne_nil _ _
  obtain ⟨hsource, hids, hoptional⟩ := source_of_plain .loose Plain.usersPage hne
  exact ⟨rfl, hne, hsource.trans rfl, hids.trans rfl, hoptional.trans rfl⟩

end RouteDispatch.Template
