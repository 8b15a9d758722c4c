/-
# The parts of a plain template are put away

The last six passes are for the parts.  A pass finds all parts of its own form
(`rule_found`) and does not stop at any other item (`rule_opening`,
`rule_closing`).

The colon that closes a part could open another one, if what stands behind it
looked like the rest of a part.  A query would need a question mark there, and a
rest an asterisk before the next colon; a plain template has neither
(`head?_heldAll`, `starsFirstColon_heldAll`).

`save_all` is the result: after eight passes all items but text are stand-ins.
-/
import RouteDispatch.Proofs.Template.Save.Slashes

namespace RouteDispatch.Template

open Text

/-! ## Finding what is enclosed -/

theorem enclosed_found (opening : List Char) {name : List Char} {stop : Char} (rest : List Char)
    (hne : name ≠ []) (h : ∀ c ∈ name, c ≠ stop) :
    enclosed opening stop (opening ++ (name ++ stop :: rest)) =
      some (name, opening.length + name.length + 1) := by
  have hpre : opening.isPrefixOf (opening ++ (name ++ stop :: rest)) = true :=
    List.isPrefixOf_iff_prefix.mpr (List.prefix_append _ _)
  have hname : name.isEmpty = false := by
    cases name
    · exact absurd rfl hne
    · rfl
  have hupTo : upTo? (· == stop) (name ++ stop :: rest) = some name :=
    upTo?_append (fun c hc => by simpa using h c hc) (by simp)
  rw [enclosed, if_pos hpre, List.drop_left, hupTo]
  simp [hname]

theorem enclosed_eq_none {opening s : List Char} {stop : Char} (h : opening.isPrefixOf s = false) :
    enclosed opening stop s = none := by
  rw [enclosed, h]
  rfl

theorem enclosed_eq_some {opening s name : List Char} {stop : Char} {n : Nat}
    (h : enclosed opening stop s = some (name, n)) :
    ∃ rest, s.drop opening.length = name ++ stop :: rest ∧ ∀ c ∈ name, c ≠ stop := by
  rw [enclosed] at h
  split at h
  · split at h
    · next found hupTo =>
      obtain ⟨c, rest, hs, hc, hname⟩ := upTo?_eq_some hupTo
      split at h
      · cases h
      · cases h
        refine ⟨rest, ?_, fun d hd => ?_⟩
        · rw [hs, beq_iff_eq.mp hc]
        · simpa using hname d hd
    · cases h
  · cases h

theorem starred_found (opening : List Char) {name : List Char} {stop : Char} (rest : List Char)
    (hne : name ≠ []) (h : ∀ c ∈ name ++ ['*'], c ≠ stop) :
    starred opening stop (opening ++ ((name ++ ['*']) ++ stop :: rest)) =
      some (name, opening.length + (name ++ ['*']).length + 1) := by
  have hlong : 1 < (name ++ ['*']).length := by
    have hpos := List.length_pos_iff.mpr hne
    rw [List.length_append, List.length_singleton]
    omega
  rw [starred, enclosed_found opening rest (List.append_ne_nil_of_right_ne_nil _ (List.cons_ne_nil _ _)) h]
  simp only [List.getLast?_concat, List.dropLast_concat]
  rw [if_pos ⟨trivial, hlong⟩]

theorem starred_eq_none {opening s : List Char} {stop : Char}
    (h : ∀ name n, enclosed opening stop s = some (name, n) → name.getLast? ≠ some '*') :
    starred opening stop s = none := by
  rw [starred]
  split
  · next name n hfound => rw [if_neg fun hstar => h name n hfound hstar.1]
  · rfl

/-! ## Where a part is found -/

/-- From the third pass on, only a delimiter that opens a part is of interest. -/
theorem rule_of_head {form : Form} (hform : 2 ≤ form.rank) {c : Char} (h : c ≠ '{') (h' : c ≠ ':')
    (s : List Char) : form.rule (c :: s) = none := by
  have hbrace : ∀ more, (('{' :: more).isPrefixOf (c :: s)) = false := by
    intro more
    simp [List.isPrefixOf, Ne.symm h]
  have hcolon : ∀ more, ((':' :: more).isPrefixOf (c :: s)) = false := by
    intro more
    simp [List.isPrefixOf, Ne.symm h']
  cases form with
  | optionalSlash => exact absurd hform (by decide)
  | requiredSlash => exact absurd hform (by decide)
  | requiredQuery => rw [Form.rule, enclosed_eq_none (hbrace _), Option.map_none]
  | requiredParam => rw [Form.rule, enclosed_eq_none (hbrace _), Option.map_none]
  | requiredRest => rw [Form.rule, starred, enclosed_eq_none (hbrace _)]; rfl
  | optionalQuery => rw [Form.rule, enclosed_eq_none (hcolon _), Option.map_none]
  | optionalParam => rw [Form.rule, enclosed_eq_none (hcolon _), Option.map_none]
  | optionalRest => rw [Form.rule, starred, enclosed_eq_none (hcolon _)]; rfl

/-- A part is found by the pass for its own form. -/
theorem rule_found (p : Part) (rest : List Char) :
    p.form.rule (p.text ++ rest) = some (p.form.standIn, p.text.length) := by
  obtain ⟨reach, required, name, hne, hchars⟩ := p
  have hname : ∀ {stop : Char}, isNameChar stop = false → ∀ c ∈ name, c ≠ stop :=
    fun hstop c hc => isNameChar_ne (hchars c hc) hstop
  have hsegment : ∀ opening {stop : Char}, isNameChar stop = false →
      enclosed [opening] stop (opening :: (name ++ stop :: rest)) =
        some (name, 1 + name.length + 1) :=
    fun opening _ hstop => enclosed_found [opening] rest hne (hname hstop)
  have hquery : ∀ opening {stop : Char}, isNameChar stop = false →
      enclosed [opening, '?'] stop (opening :: '?' :: (name ++ stop :: rest)) =
        some (name, 2 + name.length + 1) :=
    fun opening _ hstop => enclosed_found [opening, '?'] rest hne (hname hstop)
  have hrest : ∀ opening {stop : Char}, isNameChar stop = false → '*' ≠ stop →
      starred [opening] stop (opening :: (name ++ '*' :: stop :: rest)) =
        some (name, 1 + (name.length + 1) + 1) := by
    intro opening stop hstop hstar
    have hlabel : ∀ c ∈ name ++ ['*'], c ≠ stop := by
      intro c hc
      rcases List.mem_append.mp hc with hc | hc
      · exact hname hstop c hc
      · exact List.mem_singleton.mp hc ▸ hstar
    have h := starred_found [opening] rest hne hlabel
    rw [List.append_assoc, List.length_append] at h
    exact h
  have hcolon : isNameChar ':' = false := rfl
  have hbrace : isNameChar '}' = false := rfl
  cases reach <;> cases required <;>
    simp [Part.form, Form.rule, Part.text, Part.opening, Part.label, Part.closing, hsegment, hquery,
      hrest, hcolon, hbrace] <;> omega

theorem head?_label {p : Part} (h : p.reach ≠ .query) : ∃ c u, p.label = c :: u ∧ c ≠ '?' := by
  obtain ⟨c, name, hname⟩ := List.exists_cons_of_ne_nil p.name_ne
  have hc : c ≠ '?' := isNameChar_ne (p.name_chars c (hname ▸ List.mem_cons_self)) rfl
  cases hreach : p.reach with
  | segment => exact ⟨c, name, by rw [Part.label, hreach, hname], hc⟩
  | rest => exact ⟨c, name ++ ['*'], by rw [Part.label, hreach, hname]; rfl, hc⟩
  | query => exact absurd hreach h

/-- What is enclosed between the delimiters of a segment is its name, which is no rest. -/
theorem starred_segment {p : Part} (h : p.reach = .segment) (rest : List Char) :
    starred [p.opening] p.closing (p.opening :: (p.label ++ p.closing :: rest)) = none := by
  refine starred_eq_none ?_
  intro name n hfound hlast
  have hclosing : ∀ c ∈ p.name, c ≠ p.closing := by
    intro c hc
    refine isNameChar_ne (p.name_chars c hc) ?_
    rcases closing_cases p with h | h <;> rw [h] <;> decide
  have hlabel : p.label = p.name := by rw [Part.label, h]
  have hname := enclosed_found [p.opening] rest p.name_ne hclosing
  rw [hlabel] at hfound
  obtain ⟨rfl, -⟩ := Prod.mk.inj (Option.some.inj (hname.symm.trans hfound))
  have hstar := p.name_chars '*' (List.mem_of_getLast? hlast)
  exact absurd hstar (by decide)

/-- The forms that come behind a form of rank two or more. -/
theorem reach_of_rank {p : Part} {n : Nat} (h : n < p.form.rank) :
    (2 ≤ n → p.required = true → p.reach ≠ .query) ∧
      (3 ≤ n → p.required = false → p.reach ≠ .query) ∧
      (4 ≤ n → p.required = false → p.reach = .segment) ∧
      (5 ≤ n → p.required = true → p.reach = .segment) ∧
      (6 ≤ n → p.required = false) ∧ n < 7 := by
  rw [Part.form] at h
  cases hreach : p.reach <;> cases hrequired : p.required <;> rw [hreach, hrequired] at h <;>
    simp [Form.rank] at h ⊢ <;> omega

/-- A part of another form, which comes later, is not found where it opens. -/
theorem rule_opening {form : Form} (hform : 2 ≤ form.rank) {p : Part} (h : form.rank < p.form.rank)
    (rest : List Char) : form.rule (p.opening :: (p.label ++ p.closing :: rest)) = none := by
  obtain ⟨hrequery, hoptquery, hoptrest, hreqrest, hreq, hlast⟩ := reach_of_rank h
  have hbrace : p.required = true → p.opening = '{' := fun hr => by rw [Part.opening, hr]; rfl
  have hcolon : p.required = false → p.opening = ':' := fun hr => by rw [Part.opening, hr]; rfl
  have hnotColon : p.required = true → p.opening ≠ ':' := by
    intro hr
    rw [hbrace hr]
    decide
  have hnotBrace : p.required = false → p.opening ≠ '{' := by
    intro hr
    rw [hcolon hr]
    decide
  -- The second character tells a query from other parts.
  have hquery : ∀ opening, p.reach ≠ .query →
      [opening, '?'].isPrefixOf (p.opening :: (p.label ++ p.closing :: rest)) = false := by
    intro opening hreach
    obtain ⟨c, u, hlabel, hc⟩ := head?_label hreach
    rw [hlabel]
    simp [List.isPrefixOf, Ne.symm hc]
  have hother : ∀ {opening more}, p.opening ≠ opening →
      (opening :: more).isPrefixOf (p.opening :: (p.label ++ p.closing :: rest)) = false := by
    intro opening more hne
    simp [List.isPrefixOf, Ne.symm hne]
  cases form with
  | optionalSlash => exact absurd hform (by decide)
  | requiredSlash => exact absurd hform (by decide)
  | requiredQuery =>
    rw [Form.rule]
    cases hr : p.required with
    | true => rw [enclosed_eq_none (hquery _ (hrequery (by decide) hr)), Option.map_none]
    | false => rw [enclosed_eq_none (hother (hnotBrace hr)), Option.map_none]
  | optionalQuery =>
    rw [Form.rule]
    cases hr : p.required with
    | true => rw [enclosed_eq_none (hother (hnotColon hr)), Option.map_none]
    | false => rw [enclosed_eq_none (hquery _ (hoptquery (by decide) hr)), Option.map_none]
  | optionalRest =>
    rw [Form.rule]
    cases hr : p.required with
    | true =>
      rw [starred, enclosed_eq_none (hother (hnotColon hr))]
      rfl
    | false =>
      have hnone := starred_segment (hoptrest (by decide) hr) rest
      rw [hcolon hr, Part.closing, hr] at hnone
      rw [hcolon hr, Part.closing, hr]
      exact congrArg _ hnone
  | requiredRest =>
    rw [Form.rule]
    cases hr : p.required with
    | true =>
      have hnone := starred_segment (hreqrest (by decide) hr) rest
      rw [hbrace hr, Part.closing, hr] at hnone
      rw [hbrace hr, Part.closing, hr]
      exact congrArg _ hnone
    | false =>
      rw [starred, enclosed_eq_none (hother (hnotBrace hr))]
      rfl
  | requiredParam =>
    rw [Form.rule, enclosed_eq_none (hother (hnotBrace (hreq (by decide)))),
      Option.map_none]
  | optionalParam => exact absurd hlast (by decide)

/-! ## The colon that closes a part -/

/-- An asterisk stands before the first colon of a text that follows this character. -/
def starsFirstColon (last : Option Char) : List Char → Bool
  | [] => false
  | c :: s => if c = ':' then last == some '*' else starsFirstColon (some c) s

theorem starsFirstColon_append {u : List Char} (h : ∀ c ∈ u, c ≠ ':') (last : Option Char)
    (s : List Char) : starsFirstColon last (u ++ s) = starsFirstColon (u.getLast?.or last) s := by
  induction u generalizing last with
  | nil => rfl
  | cons c u ih =>
    have hc := h c List.mem_cons_self
    rw [List.cons_append, starsFirstColon, if_neg hc,
      ih (fun d hd => h d (List.mem_cons_of_mem _ hd))]
    congr 1
    rw [List.getLast?_cons]
    cases u.getLast? <;> rfl

theorem starsFirstColon_of_forall_ne {u : List Char} (h : ∀ c ∈ u, c ≠ ':') (last : Option Char) :
    starsFirstColon last u = false := by
  have happend := starsFirstColon_append h last []
  rwa [List.append_nil] at happend

/-- A part that waits for a later pass is not found where it closes. -/
theorem rule_closing {form : Form} (hform : 2 ≤ form.rank) {p : Part} (h : form.rank < p.form.rank)
    {rest : List Char} (hquery : p.required = false → rest.head? ≠ some '?')
    (hstar : p.required = false → starsFirstColon none rest = false) :
    form.rule (p.closing :: rest) = none := by
  cases hr : p.required with
  | true =>
    rw [Part.closing, hr]
    exact rule_of_head hform (by decide) (by decide) rest
  | false =>
    have hcolon : p.closing = ':' := by rw [Part.closing, hr]; rfl
    rw [hcolon]
    have hbrace : ∀ more, ('{' :: more).isPrefixOf (':' :: rest) = false := fun _ => rfl
    cases form with
    | optionalSlash => exact absurd hform (by decide)
    | requiredSlash => exact absurd hform (by decide)
    | requiredQuery => rw [Form.rule, enclosed_eq_none (hbrace _), Option.map_none]
    | requiredParam => rw [Form.rule, enclosed_eq_none (hbrace _), Option.map_none]
    | requiredRest =>
      have hnone : starred ['{'] '}' (':' :: rest) = none := by
        rw [starred, enclosed_eq_none (hbrace _)]
      rw [Form.rule, hnone, Option.map_none]
    | optionalQuery =>
      have hpre : [':', '?'].isPrefixOf (':' :: rest) = false := by
        cases rest with
        | nil => rfl
        | cons c rest =>
          have hc : c ≠ '?' := fun heq => hquery hr (congrArg some heq)
          simp [List.isPrefixOf, Ne.symm hc]
      rw [Form.rule, enclosed_eq_none hpre, Option.map_none]
    | optionalRest =>
      have hnone : starred [':'] ':' (':' :: rest) = none := by
        refine starred_eq_none ?_
        intro name n hfound hlast
        obtain ⟨more, hmore, hname⟩ := enclosed_eq_some hfound
        have hsplit : rest = name ++ ':' :: more := hmore
        have hfalse := hstar hr
        rw [hsplit, starsFirstColon_append hname, hlast] at hfalse
        cases hfalse
      rw [Form.rule, hnone, Option.map_none]
    | optionalParam => exact absurd (reach_of_rank h).2.2.2.2.2 (by decide)

/-! ## Whole templates -/

theorem held_slash (mayMiss : Bool) (written : List Char) {k : Nat} (h : 2 ≤ k) :
    (Item.slash mayMiss written).held k = (slashForm mayMiss).standIn := by
  have hrank : (slashForm mayMiss).rank < k := by
    cases mayMiss <;> simp [slashForm, Form.rank] <;> omega
  rw [Item.held, if_pos hrank]

/-- What stands before a part, once the slashes are put away. -/
theorem held_separation {prev : Option Part} {cell : Cell} {k : Nat} (hk : 2 ≤ k)
    (h : Literal prev cell.lead (some cell.part)) :
    let s := heldAll k (cell.separation prev)
    (∀ c ∈ s, c ≠ '{' ∧ c ≠ ':') ∧
      (prev.isSome → s ≠ [] ∧ (cell.part.required = false → s.getLast? ≠ some '*') ∧
        (s.head? = some '?' → cell.lead.head? = some '?')) := by
  obtain ⟨lead, p⟩ := cell
  have hstand : ∀ form : Form, form.standIn ≠ [] ∧ form.standIn.getLast? = some '_' ∧
      form.standIn.head? = some '_' := by
    intro form
    cases form <;> decide
  have hchars : ∀ form : Form, ∀ c ∈ form.standIn, c ≠ '{' ∧ c ≠ ':' := fun form c hc =>
    ⟨(standIn_delimiters form c hc).1, (standIn_delimiters form c hc).2.2.1⟩
  intro s
  simp only [s, Cell.separation]
  split
  · have hs : heldAll k [Item.slash p.isSoft lead] = (slashForm p.isSoft).standIn := by
      rw [heldAll_cons, held_slash _ _ hk]
      exact List.append_nil _
    obtain ⟨hne, hlast, hhead⟩ := hstand (slashForm p.isSoft)
    rw [hs, hlast, hhead]
    refine ⟨hchars _, fun _ => ⟨hne, fun _ => by decide, ?_⟩⟩
    intro heq
    cases heq
  · next hjoin =>
    split
    · next hloose =>
      obtain ⟨front, c, hlead, hc⟩ := endsInWordSlash_iff.mp hloose.2
      have hs : heldAll k [Item.text lead.dropLast, Item.slash true ['/']] =
          lead.dropLast ++ Form.optionalSlash.standIn := by
        rw [heldAll_cons, heldAll_cons, held_slash _ _ hk]
        exact congrArg _ (List.append_nil _)
      obtain ⟨hne, hlast, -⟩ := hstand .optionalSlash
      rw [hs]
      refine ⟨?_, fun _ => ⟨List.append_ne_nil_of_right_ne_nil _ hne, fun _ => ?_, fun heq => ?_⟩⟩
      · intro d hd
        rcases List.mem_append.mp hd with hd | hd
        · have hdel := h.delimiters d ((List.dropLast_sublist lead).mem hd)
          exact ⟨hdel.1, hdel.2.2⟩
        · exact hchars _ d hd
      · rw [List.getLast?_append, hlast]
        simp
      · rw [hlead] at heq ⊢
        have hdrop : (front ++ [c, '/']).dropLast = front ++ [c] := by simp
        rw [hdrop] at heq
        cases front <;> exact heq
    · have hs : heldAll k [Item.text lead] = lead := List.append_nil _
      rw [hs]
      refine ⟨fun d hd => ⟨(h.delimiters d hd).1, (h.delimiters d hd).2.2⟩, ?_⟩
      intro hprev
      have hne : lead ≠ [] := fun hnil => hjoin ⟨hprev, Or.inl hnil⟩
      exact ⟨hne, fun hr => h.last p rfl hr, id⟩

/-- Behind the colon that closes a part there is no question mark. -/
theorem head?_heldAll {p : Part} (hr : p.required = false) {cells : List Cell} {tail : List Char}
    (ht : Tidy (some p) cells tail) {k : Nat} (hk : 2 ≤ k) :
    (heldAll k (itemsFrom (some p) cells tail)).head? ≠ some '?' := by
  cases cells with
  | nil =>
    have hs : heldAll k (itemsFrom (some p) [] tail) = tail := List.append_nil _
    rw [hs]
    exact Literal.head ht p rfl hr
  | cons cell cells =>
    obtain ⟨hcell, -⟩ := ht
    obtain ⟨hne, -, hhead⟩ := (held_separation hk hcell).2 rfl
    rw [itemsFrom, heldAll_append, List.head?_append, List.head?_eq_some_head hne, Option.some_or,
      ← List.head?_eq_some_head hne]
    exact fun heq => hcell.head p rfl hr (hhead heq)

/-- Before the next colon there is no asterisk. -/
theorem starsFirstColon_heldAll {prev : Option Part} (hprev : prev.isSome) {cells : List Cell}
    {tail : List Char} (ht : Tidy prev cells tail) {k : Nat} (hk : 2 ≤ k) (last : Option Char) :
    starsFirstColon last (heldAll k (itemsFrom prev cells tail)) = false := by
  induction cells generalizing prev last with
  | nil =>
    have hs : heldAll k (itemsFrom prev [] tail) = tail := List.append_nil _
    rw [hs]
    exact starsFirstColon_of_forall_ne (fun c hc => (Literal.delimiters ht c hc).2.2) last
  | cons cell cells ih =>
    obtain ⟨hcell, hcells⟩ := ht
    obtain ⟨hchars, hseparation⟩ := held_separation hk hcell
    obtain ⟨hne, hlast, -⟩ := hseparation hprev
    rw [itemsFrom, heldAll_append, heldAll_cons,
      starsFirstColon_append fun c hc => (hchars c hc).2]
    rw [Item.held]
    split
    · rw [starsFirstColon_append fun c hc => (standIn_delimiters _ c hc).2.2.1]
      exact ih rfl hcells _
    · cases hr : cell.part.required with
      | true =>
        have hcolon : ∀ c ∈ cell.part.text, c ≠ ':' := by
          intro c hc
          rw [Part.text, Part.opening, Part.closing, hr] at hc
          rcases List.mem_cons.mp hc with rfl | hc
          · decide
          · rcases List.mem_append.mp hc with hc | hc
            · exact (cell.part.label_delimiters hc).2.2.1
            · rw [List.mem_singleton.mp hc]
              decide
        rw [starsFirstColon_append hcolon]
        exact ih rfl hcells _
      | false =>
        have hopening : cell.part.opening = ':' := by rw [Part.opening, hr]; rfl
        rw [Part.text, hopening, List.cons_append, starsFirstColon, if_pos rfl]
        rw [List.getLast?_eq_some_getLast hne] at hlast ⊢
        rw [Option.some_or]
        exact beq_eq_false_iff_ne.mpr (hlast hr)

theorem rank_inj {form form' : Form} (h : form.rank = form'.rank) : form = form' := by
  cases form <;> cases form' <;> first | rfl | exact absurd h (by decide)

theorem silent_standIn {form : Form} (hform : 2 ≤ form.rank) (other : Form) (rest : List Char) :
    Silent form.rule other.standIn rest := by
  refine silent_of_head rest ?_
  intro c hc s
  obtain ⟨h, -, h', -⟩ := standIn_delimiters other c hc
  exact rule_of_head hform h h' s

/-- A pass puts away the parts of its form and leaves all others as they are. -/
theorem save_part {form : Form} (hform : 2 ≤ form.rank) {p : Part} {rest : List Char}
    (hquery : p.required = false → rest.head? ≠ some '?')
    (hstar : p.required = false → starsFirstColon none rest = false) :
    substitute form.rule ((Item.part p).held form.rank ++ rest) =
      (Item.part p).held (form.rank + 1) ++ substitute form.rule rest := by
  rw [Item.held, Item.held]
  rcases Nat.lt_trichotomy p.form.rank form.rank with hlt | heq | hgt
  · rw [if_pos hlt, if_pos (by omega), substitute_append_of_silent (silent_standIn hform _ _)]
  · have hform' : p.form = form := rank_inj heq
    have hfound := rule_found p rest
    rw [hform'] at hfound
    rw [hform', if_neg (Nat.lt_irrefl _), if_pos (Nat.lt_succ_self _),
      substitute_append_of_some (show p.text ≠ [] from List.cons_ne_nil _ _) hfound]
  · have hlabel : Silent form.rule p.label (p.closing :: rest) := by
      refine silent_of_head _ ?_
      intro c hc s
      obtain ⟨h, -, h', -⟩ := p.label_delimiters hc
      exact rule_of_head hform h h' s
    have htext : Silent form.rule p.text rest := by
      have hopening := rule_opening hform hgt rest
      have hclosing := rule_closing hform hgt hquery hstar
      refine Silent.append (u := p.opening :: p.label) ⟨hopening, hlabel⟩ ⟨hclosing, trivial⟩
    rw [if_neg (by omega), if_neg (by omega), substitute_append_of_silent htext]

theorem save_parts {form : Form} (hform : 2 ≤ form.rank) {prev : Option Part} {cells : List Cell}
    {tail : List Char} (ht : Tidy prev cells tail) :
    substitute form.rule (heldAll form.rank (itemsFrom prev cells tail)) =
      heldAll (form.rank + 1) (itemsFrom prev cells tail) := by
  induction cells generalizing prev with
  | nil =>
    have hs : ∀ k, heldAll k (itemsFrom prev [] tail) = tail := fun _ => List.append_nil _
    rw [hs, hs]
    refine substitute_of_silent (silent_of_head _ ?_)
    intro c hc s
    have hdel := Literal.delimiters ht c hc
    exact rule_of_head hform hdel.1 hdel.2.2 s
  | cons cell cells ih =>
    obtain ⟨hcell, hcells⟩ := ht
    have hsame : heldAll form.rank (cell.separation prev) =
        heldAll (form.rank + 1) (cell.separation prev) := by
      rw [Cell.separation]
      split
      · rw [heldAll_cons, heldAll_cons, held_slash _ _ hform, held_slash _ _ (by omega)]
        rfl
      · split
        · rw [heldAll_cons, heldAll_cons, heldAll_cons, heldAll_cons, held_slash _ _ hform,
            held_slash _ _ (by omega)]
          rfl
        · rfl
    have hsilent : ∀ rest, Silent form.rule (heldAll form.rank (cell.separation prev)) rest := by
      refine fun rest => silent_of_head rest ?_
      intro c hc s
      obtain ⟨h, h'⟩ := (held_separation hform hcell).1 c hc
      exact rule_of_head hform h h' s
    rw [itemsFrom, heldAll_append, heldAll_append, heldAll_cons, heldAll_cons,
      substitute_append_of_silent (hsilent _),
      save_part hform (fun hr => head?_heldAll hr hcells hform)
        (fun _ => starsFirstColon_heldAll rfl hcells hform none),
      ih hcells, hsame]

/-- The pass for a form, over the items of a template. -/
theorem save_items (form : Form) (t : Plain) :
    form.save (heldAll form.rank t.items) = heldAll (form.rank + 1) t.items := by
  by_cases hform : 2 ≤ form.rank
  · exact save_parts hform t.tidy
  · cases form with
    | optionalSlash =>
      exact save_separations (by decide) save_separation_optional silent_tail_optional none
        t.tidy.undelimited
    | requiredSlash =>
      exact save_separations (by decide) save_separation_required silent_tail_required none
        t.tidy.undelimited
    | _ => exact absurd (by decide) hform

/-- Before the first pass the items are the text that is written. -/
theorem heldAll_itemsFrom (prev : Option Part) (cells : List Cell) (tail : List Char) :
    heldAll 0 (itemsFrom prev cells tail) = cells.flatMap Cell.text ++ tail := by
  induction cells generalizing prev with
  | nil => exact List.append_nil _
  | cons cell cells ih =>
    have hseparation : heldAll 0 (cell.separation prev) = cell.lead := by
      rw [Cell.separation]
      split
      · exact List.append_nil _
      · split
        · next hloose =>
          obtain ⟨front, c, hlead, -⟩ := endsInWordSlash_iff.mp hloose.2
          rw [hlead]
          simp [heldAll, Item.held]
        · exact List.append_nil _
    rw [itemsFrom, heldAll_append, heldAll_cons, hseparation, ih (some cell.part),
      List.flatMap_cons, Cell.text]
    simp [Item.held]

theorem heldAll_zero (t : Plain) : heldAll 0 t.items = t.text :=
  heldAll_itemsFrom none t.cells t.tail

/-- The first pass over any text without delimiters around its parts. -/
theorem save_optionalSlash {cells : List Cell} {tail : List Char} (h : Undelimited cells tail) :
    Form.save .optionalSlash (cells.flatMap Cell.text ++ tail) =
      heldAll 1 (itemsFrom none cells tail) := by
  have hsave : substitute Form.optionalSlash.rule (heldAll 0 (itemsFrom none cells tail)) =
      heldAll 1 (itemsFrom none cells tail) :=
    save_separations (by decide) save_separation_optional silent_tail_optional none h
  rw [← heldAll_itemsFrom none cells tail]
  exact hsave

/-- Passes in the order of the forms. -/
theorem foldl_save (t : Plain) {forms : List Form} {k : Nat}
    (h : forms.map Form.rank = List.range' k forms.length) :
    forms.foldl (fun s form => form.save s) (heldAll k t.items) =
      heldAll (k + forms.length) t.items := by
  induction forms generalizing k with
  | nil => rfl
  | cons form forms ih =>
    rw [List.length_cons, List.range'_succ, List.map_cons] at h
    obtain ⟨rfl, hforms⟩ := List.cons.inj h
    rw [List.foldl_cons, save_items, ih hforms, List.length_cons]
    congr 1
    omega

/-- After all passes, text is left and stand-ins. -/
theorem save_all (t : Plain) :
    Form.all.foldl (fun s form => form.save s) t.text = heldAll 8 t.items := by
  rw [← heldAll_zero]
  exact foldl_save t rfl

end RouteDispatch.Template
