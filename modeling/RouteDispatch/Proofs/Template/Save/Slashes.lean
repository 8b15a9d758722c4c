/-
# The slashes of a plain template are put away

Eight passes put stand-ins in the place of slashes and parts, each pass for one
form.  `Item.held k` is what an item looks like after the first `k` of them.

This file is about the first two passes, which are for slashes between parts.
They look at a slash together with the delimiters on either side of it, so what
they do is said of the place between two parts (`save_separation_optional`,
`save_separation_required`).  A pass that found a separator has gone through the
start of the next part already; the end of that part is therefore left to the
next step of the induction (`save_separations`).
-/
import RouteDispatch.Proofs.Text.Passes
import RouteDispatch.Proofs.Template.Plain

namespace RouteDispatch.Template

open Text

/-! ## Items after some passes -/

/-- The place of a form in the order of the passes. -/
def Form.rank : Form → Nat
  | optionalSlash => 0
  | requiredSlash => 1
  | requiredQuery => 2
  | optionalQuery => 3
  | optionalRest => 4
  | requiredRest => 5
  | requiredParam => 6
  | optionalParam => 7

def Part.form (p : Part) : Form :=
  match p.reach, p.required with
  | .segment, true => .requiredParam
  | .segment, false => .optionalParam
  | .rest, true => .requiredRest
  | .rest, false => .optionalRest
  | .query, true => .requiredQuery
  | .query, false => .optionalQuery

/-- The form of a slash between two parts. -/
def slashForm (mayMiss : Bool) : Form := if mayMiss then .optionalSlash else .requiredSlash

/-- What holds the place of an item after the first `k` passes. -/
def Item.held (k : Nat) : Item → List Char
  | text s => s
  | slash mayMiss written =>
    if (slashForm mayMiss).rank < k then (slashForm mayMiss).standIn else written
  | part p => if p.form.rank < k then p.form.standIn else p.text

def heldAll (k : Nat) (items : List Item) : List Char := items.flatMap (Item.held k)

theorem heldAll_append (k : Nat) (first second : List Item) :
    heldAll k (first ++ second) = heldAll k first ++ heldAll k second := List.flatMap_append

theorem heldAll_cons (k : Nat) (item : Item) (items : List Item) :
    heldAll k (item :: items) = item.held k ++ heldAll k items := List.flatMap_cons

theorem standIn_delimiters (form : Form) :
    ∀ c ∈ form.standIn, c ≠ '{' ∧ c ≠ '}' ∧ c ≠ ':' ∧ c ≠ '/' ∧ c ≠ '?' ∧ c ≠ '*' := by
  cases form <;> exact forall_mem_of_all rfl

/-! ## Between two parts -/

/-- The delimiter that closes the part before, if there is one. -/
def before : Option Part → List Char
  | none => []
  | some p => [p.closing]

theorem closing_cases (p : Part) : p.closing = ':' ∨ p.closing = '}' := by
  rw [Part.closing]
  cases p.required
  · exact Or.inl rfl
  · exact Or.inr rfl

section
variable (start? : List Char → Option (List Char)) (standIn : List Char)

theorem betweenParts_of_head {c : Char} (s : List Char) (h : c ≠ ':') (h' : c ≠ '}') :
    betweenParts start? standIn (c :: s) = none := by
  have hc : ¬ (c == ':' || c == '}') = true := by simp [h, h']
  exact if_neg hc

theorem betweenParts_closing (p : Part) {slash : List Char} (rest : List Char) (hslash : slash = [] ∨ slash = ['/']) (hrest : rest.head? ≠ some '/') :
    betweenParts start? standIn (p.closing :: (slash ++ rest)) =
      (start? rest).map fun start =>
        (p.closing :: (standIn ++ start), 1 + slash.length + start.length) := by
  have hclosing : (p.closing == ':' || p.closing == '}') = true := by
    rcases closing_cases p with h | h <;> rw [h] <;> decide
  refine (if_pos hclosing).trans ?_
  rcases hslash with rfl | rfl
  · cases rest with
    | nil => rfl
    | cons c rest =>
      have hc : c ≠ '/' := fun heq => hrest (congrArg some heq)
      simp [hc]
  · rfl

/-- A part does not end where text stands that is not just a slash. -/
theorem betweenParts_literal (hstart : ∀ c s, c ≠ ':' → c ≠ '{' → start? (c :: s) = none) (p : Part)
    {s : List Char} (rest : List Char) (hs : ∀ c ∈ s, c ≠ '{' ∧ c ≠ '}' ∧ c ≠ ':')
    (hne : s ≠ []) (hslash : s ≠ ['/']) :
    betweenParts start? standIn (p.closing :: (s ++ rest)) = none := by
  obtain ⟨c, s, rfl⟩ := List.exists_cons_of_ne_nil hne
  obtain ⟨hc, -, hc'⟩ := hs c List.mem_cons_self
  by_cases heq : c = '/'
  · subst heq
    obtain ⟨d, s, rfl⟩ := List.exists_cons_of_ne_nil fun hnil => hslash (congrArg (List.cons '/') hnil)
    obtain ⟨hd, -, hd'⟩ := hs d (List.mem_cons_of_mem _ List.mem_cons_self)
    by_cases hdd : d = '/'
    · subst hdd
      have hclosing : (p.closing == ':' || p.closing == '}') = true := by
        rcases closing_cases p with h | h <;> rw [h] <;> decide
      refine (if_pos hclosing).trans ?_
      show (start? ('/' :: (s ++ rest))).map _ = none
      rw [hstart _ _ hd' hd]
      rfl
    · have h := betweenParts_closing start? standIn p (d :: (s ++ rest)) (Or.inr rfl)
        fun heq => hdd (Option.some.inj heq)
      rw [hstart _ _ hd' hd] at h
      exact h
  · have h := betweenParts_closing start? standIn p (c :: (s ++ rest)) (Or.inl rfl)
      fun hh => heq (Option.some.inj hh)
    rw [hstart _ _ hc' hc] at h
    exact h

/-- A part has a name, so nothing lies between it and the next part where it opens. -/
theorem betweenParts_opening (hstart : ∀ c s, c ≠ ':' → c ≠ '{' → start? (c :: s) = none) (p : Part)
    (rest : List Char) :
    betweenParts start? standIn (p.opening :: (p.label ++ rest)) = none := by
  obtain ⟨c, label, hlabel⟩ := List.exists_cons_of_ne_nil p.label_ne
  obtain ⟨hc, -, hc', hc''⟩ := p.label_delimiters (hlabel ▸ List.mem_cons_self : c ∈ p.label)
  cases hr : p.required with
  | true =>
    rw [Part.opening, hr]
    exact betweenParts_of_head _ _ _ (by decide) (by decide)
  | false =>
    have h := betweenParts_closing start? standIn p (p.label ++ rest) (Or.inl rfl)
      (by rw [hlabel]; exact fun heq => hc'' (Option.some.inj heq))
    rw [hlabel, List.cons_append, hstart _ _ hc' hc] at h
    rw [hlabel]
    simpa [Part.opening, Part.closing, hr] using h

end

/-! ### How parts start -/

theorem optionalStart?_of_ne (c : Char) (s : List Char) (h : c ≠ ':') (h' : c ≠ '{') :
    optionalStart? (c :: s) = none := by
  unfold optionalStart?
  split
  · next heq => exact absurd (List.cons.inj heq).1 h
  · next heq => exact absurd (List.cons.inj heq).1 h'
  · rfl

theorem requiredStart?_of_ne (c : Char) (s : List Char) (_ : c ≠ ':') (h : c ≠ '{') :
    requiredStart? (c :: s) = none := by
  unfold requiredStart?
  split
  · next heq => exact absurd (List.cons.inj heq).1 h
  · rfl

namespace Part

/-- What tells that a slash before the part may be missing. -/
def start (p : Part) : List Char := if p.required then ['{', '?'] else [':']

/-- The label without what is seen of it at the start. -/
def inner (p : Part) : List Char := if p.required then p.name else p.label

theorem start_append_inner {p : Part} (h : p.isSoft = true) :
    p.start ++ p.inner = p.opening :: p.label := by
  rw [start, inner, opening, label]
  cases hr : p.required with
  | false => rfl
  | true =>
    have hreach : p.reach = .query := by simpa [isSoft, hr] using h
    rw [hreach]
    rfl

theorem inner_delimiters {p : Part} {c : Char} (h : c ∈ p.inner) :
    c ≠ '{' ∧ c ≠ '}' ∧ c ≠ ':' ∧ c ≠ '/' := by
  rw [inner] at h
  split at h
  · have hc := p.name_chars c h
    exact ⟨isNameChar_ne hc rfl, isNameChar_ne hc rfl,
      isNameChar_ne hc rfl, isNameChar_ne hc rfl⟩
  · exact label_delimiters h

theorem optionalStart?_eq (p : Part) (rest : List Char) :
    optionalStart? (p.opening :: (p.label ++ rest)) = if p.isSoft then some p.start else none := by
  cases hr : p.required with
  | false => simp [opening, isSoft, start, hr, optionalStart?]
  | true =>
    cases hreach : p.reach with
    | query => simp [opening, isSoft, start, label, hr, hreach, optionalStart?]
    | _ =>
      have hsoft : p.isSoft = false := by rw [isSoft, hr, hreach]; rfl
      obtain ⟨c, label, hlabel⟩ := List.exists_cons_of_ne_nil p.label_ne
      have hc : c ≠ '?' := by
        obtain ⟨d, name, hname⟩ := List.exists_cons_of_ne_nil p.name_ne
        have hd : isNameChar d = true := p.name_chars d (hname ▸ List.mem_cons_self)
        have hcd : c = d := by
          rw [Part.label, hreach, hname] at hlabel
          exact (List.cons.inj hlabel).1.symm
        exact hcd ▸ isNameChar_ne hd rfl
      rw [hsoft, opening, hr, hlabel]
      simp [optionalStart?, hc]

theorem requiredStart?_eq {p : Part} (h : p.isSoft = false) (rest : List Char) :
    requiredStart? (p.opening :: rest) = some [p.opening] := by
  have hr : p.required = true := by
    cases hr : p.required
    · rw [isSoft, hr] at h
      cases h
    · rfl
  rw [opening, hr]
  rfl

end Part

/-! ### Where there is no separator -/

theorem afterText_eq_none {start? : List Char → Option (List Char)} {standIn : List Char} {c : Char}
    {s : List Char} (h : ∀ u, s = '/' :: u → isNameChar c = true → start? u = none) :
    afterText start? standIn (c :: s) = none := by
  unfold afterText
  split
  · next d u heq =>
    obtain ⟨rfl, rfl⟩ := List.cons.inj heq
    split
    · next hc => rw [h u rfl hc, Option.map_none]
    · rfl
  · rfl

/-- The two ways to find a slash that may be missing. -/
theorem optionalSlash_eq_none {c : Char} {s : List Char}
    (h : betweenParts optionalStart? Form.optionalSlash.standIn (c :: s) = none)
    (h' : ∀ u, s = '/' :: u → isNameChar c = true → optionalStart? u = none) :
    Form.optionalSlash.rule (c :: s) = none := by
  show (betweenParts optionalStart? _ (c :: s) <|> afterText optionalStart? _ (c :: s)) = none
  rw [h, afterText_eq_none h']
  rfl

theorem endsInWordSlash_append {u s : List Char} (h : endsInWordSlash s = true) :
    endsInWordSlash (u ++ s) = true := by
  obtain ⟨before, c, rfl, hc⟩ := endsInWordSlash_iff.mp h
  exact endsInWordSlash_iff.mpr ⟨u ++ before, c, (List.append_assoc _ _ _).symm, hc⟩

theorem silent_optionalSlash {s rest : List Char} (hs : ∀ c ∈ s, c ≠ '{' ∧ c ≠ '}' ∧ c ≠ ':')
    (hslash : rest.head? ≠ some '/')
    (hend : endsInWordSlash s = true → optionalStart? rest = none) :
    Silent Form.optionalSlash.rule s rest := by
  induction s with
  | nil => trivial
  | cons c s ih =>
    obtain ⟨-, hc, hc'⟩ := hs c List.mem_cons_self
    have hrest := ih (fun d hd => hs d (List.mem_cons_of_mem _ hd)) fun hd =>
      hend (endsInWordSlash_append (u := [c]) hd)
    refine ⟨optionalSlash_eq_none (betweenParts_of_head _ _ _ hc' hc) fun u hu hname => ?_, hrest⟩
    rcases s with _ | ⟨d, s⟩
    · exact absurd (congrArg List.head? hu) hslash
    · obtain ⟨rfl, rfl⟩ := List.cons.inj hu
      rcases s with _ | ⟨e, s⟩
      · exact hend (endsInWordSlash_iff.mpr ⟨[], c, rfl, hname⟩)
      · have hmem : e ∈ c :: '/' :: e :: s := by simp
        exact optionalStart?_of_ne _ _ (hs e hmem).2.2 (hs e hmem).1

theorem silent_requiredSlash {s : List Char} (rest : List Char)
    (hs : ∀ c ∈ s, c ≠ '{' ∧ c ≠ '}' ∧ c ≠ ':') : Silent Form.requiredSlash.rule s rest :=
  silent_of_head rest fun c hc u => betweenParts_of_head _ _ u (hs c hc).2.2 (hs c hc).2.1

theorem endsInWordSlash_of_forall_ne {s : List Char} (h : ∀ c ∈ s, c ≠ '/') :
    endsInWordSlash s = false := by
  cases hs : endsInWordSlash s with
  | false => rfl
  | true =>
    obtain ⟨before, c, rfl, -⟩ := endsInWordSlash_iff.mp hs
    exact absurd rfl (h '/' (by simp))

/-- Nothing is found from the start of a part on, where it is not part of a separator. -/
theorem silent_opening_optional (p : Part) (rest : List Char) :
    Silent Form.optionalSlash.rule (p.opening :: p.label) (p.closing :: rest) := by
  obtain ⟨c, label, hlabel⟩ := List.exists_cons_of_ne_nil p.label_ne
  refine ⟨optionalSlash_eq_none (betweenParts_opening _ _ optionalStart?_of_ne p _) ?_, ?_⟩
  · intro u hu
    rw [hlabel] at hu
    have hc := (p.label_delimiters (hlabel ▸ List.mem_cons_self : c ∈ p.label)).2.2.2
    exact absurd (List.cons.inj hu).1 hc
  · refine silent_optionalSlash (fun d hd => ?_) ?_ ?_
    · obtain ⟨h, h', h'', -⟩ := p.label_delimiters hd
      exact ⟨h, h', h''⟩
    · rcases closing_cases p with h | h <;> simp [h]
    · rw [endsInWordSlash_of_forall_ne fun d hd => (p.label_delimiters hd).2.2.2]
      exact fun h => absurd h (by decide)

theorem silent_opening_required (p : Part) (rest : List Char) :
    Silent Form.requiredSlash.rule (p.opening :: p.label) (p.closing :: rest) := by
  refine ⟨betweenParts_opening _ _ requiredStart?_of_ne p _, silent_requiredSlash _ fun d hd => ?_⟩
  obtain ⟨h, h', h'', -⟩ := p.label_delimiters hd
  exact ⟨h, h', h''⟩

/-! ### The two passes for separators -/

theorem isNameChar_closing (p : Part) : isNameChar p.closing = false := by
  rcases closing_cases p with h | h <;> rw [h] <;> decide

theorem head?_opening (p : Part) (rest : List Char) : (p.opening :: rest).head? ≠ some '/' := by
  rw [Part.opening]
  cases p.required <;> simp

/-- Where a part closes, and what follows is neither the next part nor joined to it by a slash. -/
theorem silent_before_optional {prev : Option Part} {s rest : List Char}
    (hs : ∀ c ∈ s, c ≠ '{' ∧ c ≠ '}' ∧ c ≠ ':') (h : prev.isSome → s ≠ [] ∧ s ≠ ['/']) :
    Silent Form.optionalSlash.rule (before prev) (s ++ rest) := by
  cases prev with
  | none => trivial
  | some q =>
    obtain ⟨hne, hslash⟩ := h rfl
    refine ⟨optionalSlash_eq_none (betweenParts_literal _ _ optionalStart?_of_ne q rest hs hne hslash) ?_,
      trivial⟩
    intro u _ hc
    rw [isNameChar_closing] at hc
    cases hc

theorem silent_before_required {prev : Option Part} {s rest : List Char}
    (hs : ∀ c ∈ s, c ≠ '{' ∧ c ≠ '}' ∧ c ≠ ':') (h : prev.isSome → s ≠ [] ∧ s ≠ ['/']) :
    Silent Form.requiredSlash.rule (before prev) (s ++ rest) := by
  cases prev with
  | none => trivial
  | some q =>
    obtain ⟨hne, hslash⟩ := h rfl
    exact ⟨betweenParts_literal _ _ requiredStart?_of_ne q rest hs hne hslash, trivial⟩

theorem slash_delimiters {slash : List Char} (h : slash = [] ∨ slash = ['/']) :
    ∀ c ∈ slash, c ≠ '{' ∧ c ≠ '}' ∧ c ≠ ':' := by
  rcases h with rfl | rfl
  · exact fun c hc => absurd hc List.not_mem_nil
  · exact forall_mem_of_all rfl

/-- A separator is found together with the start of the part behind it. -/
theorem substitute_separator {p : Part} (hsoft : p.isSoft = true) {u new rest : List Char}
    (hne : u ≠ [])
    (h : Form.optionalSlash.rule (u ++ (p.opening :: p.label ++ p.closing :: rest)) =
      some (new ++ p.start, u.length + p.start.length)) :
    substitute Form.optionalSlash.rule (u ++ (p.opening :: p.label ++ p.closing :: rest)) =
      new ++ (p.opening :: p.label ++
        substitute Form.optionalSlash.rule (p.closing :: rest)) := by
  have hinner : Silent Form.optionalSlash.rule p.inner (p.closing :: rest) := by
    refine silent_optionalSlash (fun d hd => ?_) ?_ ?_
    · obtain ⟨h, h', h'', -⟩ := p.inner_delimiters hd
      exact ⟨h, h', h''⟩
    · rcases closing_cases p with h | h <;> simp [h]
    · rw [endsInWordSlash_of_forall_ne fun d hd => (p.inner_delimiters hd).2.2.2]
      exact fun h => absurd h (by decide)
  have htext : u ++ (p.opening :: p.label ++ p.closing :: rest) =
      (u ++ p.start) ++ (p.inner ++ p.closing :: rest) := by
    rw [← p.start_append_inner hsoft]
    simp only [List.append_assoc]
  rw [htext, ← List.length_append] at h
  rw [htext, substitute_append_of_some (List.append_ne_nil_of_left_ne_nil hne _) h,
    substitute_append_of_silent hinner, ← p.start_append_inner hsoft]
  simp only [List.append_assoc]

theorem optionalStart?_opening (p : Part) (rest : List Char) :
    optionalStart? (p.opening :: p.label ++ rest) = if p.isSoft then some p.start else none :=
  p.optionalStart?_eq rest

/-- The slash between two parts, or none. -/
theorem substitute_joined (q p : Part) {slash : List Char} (hslash : slash = [] ∨ slash = ['/'])
    (rest : List Char) :
    substitute Form.optionalSlash.rule
        (q.closing :: (slash ++ (p.opening :: p.label ++ p.closing :: rest))) =
      q.closing :: ((if p.isSoft then Form.optionalSlash.standIn else slash) ++
        (p.opening :: p.label ++ substitute Form.optionalSlash.rule (p.closing :: rest))) := by
  have hfound := betweenParts_closing optionalStart? Form.optionalSlash.standIn q
    (p.opening :: p.label ++ p.closing :: rest) hslash (head?_opening p _)
  rw [optionalStart?_opening] at hfound
  cases hsoft : p.isSoft with
  | true =>
    rw [hsoft, if_pos rfl] at hfound
    have hrule : Form.optionalSlash.rule
        ((q.closing :: slash) ++ (p.opening :: p.label ++ p.closing :: rest)) =
          some ((q.closing :: Form.optionalSlash.standIn) ++ p.start,
            (q.closing :: slash).length + p.start.length) := by
      show (betweenParts optionalStart? _ _ <|> afterText optionalStart? _ _) = _
      rw [List.cons_append, hfound, List.length_cons, Nat.add_comm slash.length]
      rfl
    exact substitute_separator hsoft (List.cons_ne_nil _ _) hrule
  | false =>
    rw [hsoft, if_neg (by decide)] at hfound
    have hends : endsInWordSlash slash = false := by
      rcases hslash with rfl | rfl <;> rfl
    have hsilent : Silent Form.optionalSlash.rule (q.closing :: slash)
        (p.opening :: p.label ++ p.closing :: rest) := by
      refine ⟨optionalSlash_eq_none hfound ?_,
        silent_optionalSlash (slash_delimiters hslash) (head?_opening p _) ?_⟩
      · intro u _ hc
        rw [isNameChar_closing] at hc
        cases hc
      · rw [hends]
        exact fun h => absurd h (by decide)
    have hsubst := substitute_append_of_silent hsilent
    rw [substitute_append_of_silent (silent_opening_optional p rest)] at hsubst
    exact hsubst

/-- A slash that ends text, before a part that can do without. -/
theorem substitute_loose {p : Part} (hsoft : p.isSoft = true) {c : Char} (hc : isNameChar c = true)
    (rest : List Char) :
    substitute Form.optionalSlash.rule
        ([c, '/'] ++ (p.opening :: p.label ++ p.closing :: rest)) =
      (c :: Form.optionalSlash.standIn) ++
        (p.opening :: p.label ++ substitute Form.optionalSlash.rule (p.closing :: rest)) := by
  refine substitute_separator hsoft (List.cons_ne_nil _ _) ?_
  have hbetween := betweenParts_of_head optionalStart? Form.optionalSlash.standIn
    ('/' :: (p.opening :: p.label ++ p.closing :: rest)) (isNameChar_ne hc (d := ':') rfl)
    (isNameChar_ne hc rfl)
  have hafter : afterText optionalStart? Form.optionalSlash.standIn
      (c :: '/' :: (p.opening :: p.label ++ p.closing :: rest)) =
        some (c :: (Form.optionalSlash.standIn ++ p.start), 2 + p.start.length) := by
    rw [afterText, if_pos hc, optionalStart?_opening, if_pos hsoft]
    rfl
  show (betweenParts optionalStart? _ _ <|> afterText optionalStart? _ _) = _
  rw [List.cons_append, List.cons_append, List.nil_append, hbetween, hafter]
  rfl

/-- What stands before a part, after the first pass: a slash that may be missing is put away. -/
theorem save_separation_optional {prev : Option Part} {cell : Cell}
    (h : ∀ c ∈ cell.lead, c ≠ '{' ∧ c ≠ '}' ∧ c ≠ ':') (rest : List Char) :
    substitute Form.optionalSlash.rule (before prev ++ (heldAll 0 (cell.separation prev) ++
        (cell.part.opening :: cell.part.label ++ cell.part.closing :: rest))) =
      before prev ++ (heldAll 1 (cell.separation prev) ++ (cell.part.opening :: cell.part.label ++
        substitute Form.optionalSlash.rule (cell.part.closing :: rest))) := by
  obtain ⟨lead, p⟩ := cell
  rw [Cell.separation]
  split
  · next hjoin =>
    obtain ⟨hprev, hlead⟩ := hjoin
    obtain ⟨q, rfl⟩ := Option.isSome_iff_exists.mp hprev
    have hsubst := substitute_joined q p hlead rest
    cases hsoft : p.isSoft <;>
      simpa [heldAll, Item.held, slashForm, Form.rank, before, hsoft] using hsubst
  · next hjoin =>
    have hapart : prev.isSome → lead ≠ [] ∧ lead ≠ ['/'] := fun hprev =>
      not_or.mp fun hlead => hjoin ⟨hprev, hlead⟩
    split
    · next hloose =>
      obtain ⟨hsoft, hends⟩ := hloose
      obtain ⟨front, c, rfl, hc⟩ := endsInWordSlash_iff.mp hends
      have hfront : Silent Form.optionalSlash.rule (before prev ++ front)
          ([c, '/'] ++ (p.opening :: p.label ++ p.closing :: rest)) := by
        refine Silent.append ?_ (silent_optionalSlash ?_ ?_ ?_)
        · rw [← List.append_assoc]
          exact silent_before_optional h hapart
        · exact fun d hd => h d (List.mem_append_left _ hd)
        · exact fun hhead => isNameChar_ne hc (d := '/') rfl (Option.some.inj hhead)
        · intro _
          exact optionalStart?_of_ne _ _ (isNameChar_ne hc rfl)
            (isNameChar_ne hc rfl)
      have hsubst := substitute_append_of_silent hfront
      rw [substitute_loose hsoft hc] at hsubst
      have hdrop : (front ++ [c, '/']).dropLast = front ++ [c] := by simp
      simpa [heldAll, Item.held, slashForm, Form.rank, hdrop] using hsubst
    · next hloose =>
      have hsilent : Silent Form.optionalSlash.rule (before prev ++ lead)
          (p.opening :: p.label ++ p.closing :: rest) := by
        refine Silent.append (silent_before_optional h hapart)
          (silent_optionalSlash h (head?_opening p _) fun hends => ?_)
        rw [optionalStart?_opening, if_neg fun hsoft => hloose ⟨hsoft, hends⟩]
      have hsubst := substitute_append_of_silent hsilent
      rw [substitute_append_of_silent (silent_opening_optional p rest)] at hsubst
      simpa [heldAll, Item.held] using hsubst

theorem substitute_required {p : Part} (hsoft : p.isSoft = false) (q : Part) {slash : List Char}
    (hslash : slash = [] ∨ slash = ['/']) (rest : List Char) :
    substitute Form.requiredSlash.rule
        (q.closing :: (slash ++ (p.opening :: p.label ++ p.closing :: rest))) =
      q.closing :: (Form.requiredSlash.standIn ++
        (p.opening :: p.label ++ substitute Form.requiredSlash.rule (p.closing :: rest))) := by
  have hfound := betweenParts_closing requiredStart? Form.requiredSlash.standIn q
    (p.opening :: p.label ++ p.closing :: rest) hslash (head?_opening p _)
  rw [List.cons_append, p.requiredStart?_eq hsoft] at hfound
  have hrule : Form.requiredSlash.rule
      ((q.closing :: (slash ++ [p.opening])) ++ (p.label ++ p.closing :: rest)) =
        some (q.closing :: (Form.requiredSlash.standIn ++ [p.opening]),
          (q.closing :: (slash ++ [p.opening])).length) := by
    have hlength : (q.closing :: (slash ++ [p.opening])).length = 1 + slash.length + 1 := by
      simp [Nat.add_comm]
    rw [hlength, List.cons_append, List.append_assoc]
    exact hfound
  have hlabel : Silent Form.requiredSlash.rule p.label (p.closing :: rest) :=
    silent_requiredSlash _ fun d hd => by
      obtain ⟨h, h', h'', -⟩ := p.label_delimiters hd
      exact ⟨h, h', h''⟩
  have hsubst := substitute_append_of_some (List.cons_ne_nil _ _) hrule
  rw [substitute_append_of_silent hlabel] at hsubst
  simpa using hsubst

/-- Where no slash joins two parts any longer, the text is gone over as it is. -/
theorem substitute_apart (prev : Option Part) (p : Part) (rest : List Char) {s : List Char}
    (hs : ∀ c ∈ s, c ≠ '{' ∧ c ≠ '}' ∧ c ≠ ':') (h : prev.isSome → s ≠ [] ∧ s ≠ ['/']) :
    substitute Form.requiredSlash.rule
        (before prev ++ (s ++ (p.opening :: p.label ++ p.closing :: rest))) =
      before prev ++ (s ++ (p.opening :: p.label ++
        substitute Form.requiredSlash.rule (p.closing :: rest))) := by
  rw [substitute_append_of_silent (silent_before_required hs h),
    substitute_append_of_silent (silent_requiredSlash _ hs),
    substitute_append_of_silent (silent_opening_required p rest)]

/-- What stands before a part, after the second pass: all slashes between parts are put away. -/
theorem save_separation_required {prev : Option Part} {cell : Cell}
    (h : ∀ c ∈ cell.lead, c ≠ '{' ∧ c ≠ '}' ∧ c ≠ ':') (rest : List Char) :
    substitute Form.requiredSlash.rule (before prev ++ (heldAll 1 (cell.separation prev) ++
        (cell.part.opening :: cell.part.label ++ cell.part.closing :: rest))) =
      before prev ++ (heldAll 2 (cell.separation prev) ++ (cell.part.opening :: cell.part.label ++
        substitute Form.requiredSlash.rule (cell.part.closing :: rest))) := by
  obtain ⟨lead, p⟩ := cell
  have hsaved : ∀ c ∈ Form.optionalSlash.standIn, c ≠ '{' ∧ c ≠ '}' ∧ c ≠ ':' :=
    forall_mem_of_all rfl
  rw [Cell.separation]
  split
  · next hjoin =>
    obtain ⟨hprev, hlead⟩ := hjoin
    obtain ⟨q, rfl⟩ := Option.isSome_iff_exists.mp hprev
    cases hsoft : p.isSoft with
    | true =>
      have hsubst := substitute_apart (some q) p rest hsaved fun _ => ⟨by decide, by decide⟩
      simpa [heldAll, Item.held, slashForm, Form.rank, hsoft] using hsubst
    | false =>
      have hsubst := substitute_required hsoft q hlead rest
      simpa [heldAll, Item.held, slashForm, Form.rank, before, hsoft] using hsubst
  · next hjoin =>
    have hapart : prev.isSome → lead ≠ [] ∧ lead ≠ ['/'] := fun hprev =>
      not_or.mp fun hlead => hjoin ⟨hprev, hlead⟩
    split
    · have hs : ∀ c ∈ lead.dropLast ++ Form.optionalSlash.standIn, c ≠ '{' ∧ c ≠ '}' ∧ c ≠ ':' := by
        intro c hc
        rcases List.mem_append.mp hc with hc | hc
        · exact h c ((List.dropLast_sublist lead).mem hc)
        · exact hsaved c hc
      have hnil : lead.dropLast ++ Form.optionalSlash.standIn ≠ [] :=
        List.append_ne_nil_of_right_ne_nil _ (by decide)
      have hslash : lead.dropLast ++ Form.optionalSlash.standIn ≠ ['/'] := by
        intro heq
        have hmem : '_' ∈ ['/'] := heq ▸ List.mem_append_right _ (by decide)
        exact absurd hmem (by decide)
      have hsubst := substitute_apart prev p rest hs fun _ => ⟨hnil, hslash⟩
      simpa [heldAll, Item.held, slashForm, Form.rank] using hsubst
    · have hsubst := substitute_apart prev p rest h hapart
      simpa [heldAll, Item.held] using hsubst

theorem silent_tail_optional {prev : Option Part} {tail : List Char}
    (h : ∀ c ∈ tail, c ≠ '{' ∧ c ≠ '}' ∧ c ≠ ':') :
    Silent Form.optionalSlash.rule (before prev ++ tail) [] := by
  refine Silent.append ?_ (silent_optionalSlash h (by simp) fun _ => rfl)
  cases prev with
  | none => trivial
  | some q =>
    refine ⟨optionalSlash_eq_none ?_ fun u _ hc => ?_, trivial⟩
    · by_cases hslash : tail = [] ∨ tail = ['/']
      · rw [List.nil_append, betweenParts_closing _ _ q [] hslash (by simp)]
        rfl
      · obtain ⟨hne, hslash⟩ := not_or.mp hslash
        exact betweenParts_literal _ _ optionalStart?_of_ne q [] h hne hslash
    · rw [isNameChar_closing] at hc
      cases hc

theorem silent_tail_required {prev : Option Part} {tail : List Char}
    (h : ∀ c ∈ tail, c ≠ '{' ∧ c ≠ '}' ∧ c ≠ ':') :
    Silent Form.requiredSlash.rule (before prev ++ tail) [] := by
  refine Silent.append ?_ (silent_requiredSlash _ h)
  cases prev with
  | none => trivial
  | some q =>
    refine ⟨?_, trivial⟩
    by_cases hslash : tail = [] ∨ tail = ['/']
    · rw [Form.rule, List.nil_append, betweenParts_closing _ _ q [] hslash (by simp)]
      rfl
    · obtain ⟨hne, hslash⟩ := not_or.mp hslash
      exact betweenParts_literal _ _ requiredStart?_of_ne q [] h hne hslash

theorem held_part_of_le_two (p : Part) {k : Nat} (h : k ≤ 2) : (Item.part p).held k = p.text := by
  have hrank : ¬ p.form.rank < k := by
    rw [Part.form]
    split <;> simp [Form.rank] <;> omega
  rw [Item.held, if_neg hrank]

/-- A pass for separators, over a whole template.  It stops before the delimiter that closes a part,
as that may belong to the next separator. -/
theorem save_separations {form : Form} (h : form.rank < 2)
    (hseparation : ∀ {prev : Option Part} {cell : Cell},
      (∀ c ∈ cell.lead, c ≠ '{' ∧ c ≠ '}' ∧ c ≠ ':') → ∀ rest,
      substitute form.rule (before prev ++ (heldAll form.rank (cell.separation prev) ++
          (cell.part.opening :: cell.part.label ++ cell.part.closing :: rest))) =
        before prev ++ (heldAll (form.rank + 1) (cell.separation prev) ++
          (cell.part.opening :: cell.part.label ++
            substitute form.rule (cell.part.closing :: rest))))
    (htail : ∀ {prev : Option Part} {tail : List Char},
      (∀ c ∈ tail, c ≠ '{' ∧ c ≠ '}' ∧ c ≠ ':') → Silent form.rule (before prev ++ tail) [])
    (prev : Option Part) {cells : List Cell} {tail : List Char} (ht : Undelimited cells tail) :
    substitute form.rule (before prev ++ heldAll form.rank (itemsFrom prev cells tail)) =
      before prev ++ heldAll (form.rank + 1) (itemsFrom prev cells tail) := by
  induction cells generalizing prev with
  | nil =>
    have hsilent : Silent form.rule (before prev ++ tail) [] := htail ht.tail
    have hsubst := substitute_of_silent hsilent
    simpa [itemsFrom, heldAll, Item.held] using hsubst
  | cons cell cells ih =>
    obtain ⟨hcell, hcells⟩ := ht.of_cons
    have hrest := ih (some cell.part) hcells
    have htext : ∀ rest, cell.part.text ++ rest =
        cell.part.opening :: cell.part.label ++ cell.part.closing :: rest := by
      intro rest
      rw [Part.text]
      simp
    simp only [before, List.cons_append, List.nil_append] at hrest
    rw [itemsFrom, heldAll_append, heldAll_append, heldAll_cons, heldAll_cons,
      held_part_of_le_two _ (by omega), held_part_of_le_two _ (by omega), htext, htext,
      hseparation hcell, hrest]

end RouteDispatch.Template
