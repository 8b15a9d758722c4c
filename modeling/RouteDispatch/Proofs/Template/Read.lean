/-
# How the source of a plain template is read

The reader goes over the source of a plain template item by item, and what each item
leaves behind is known beforehand (`Item.exprs`), but for the numbers of its
groups.  Only a question mark is read with a look at what follows, and no item
begins with one.
-/
import RouteDispatch.Proofs.Template.Translation
import RouteDispatch.Proofs.Regex.Runs

namespace RouteDispatch.Template

open Regex

/-! ## What is read -/

/-- The characters that a part does not stop at. -/
def Reach.cls : Reach → CharClass
  | segment => .compl (.union (.union .none (.single '/')) (.single '?'))
  | rest => .compl (.single '\n')
  | query => .compl (.union .none (.single '#'))

/-- A slash that may be missing. -/
def optionalSlash : Expr := .rep 0 (some 1) true (.char (.single '/'))

/-- What is left behind by a part whose group has this number. -/
def Part.exprs (n : Nat) (p : Part) : List Expr :=
  let some := Expr.group (some n) (.rep 1 none true (.char p.reach.cls))
  match p.reach, p.required with
  | .segment, true => [some]
  | .segment, false => [.rep 0 (.some 1) true some, optionalSlash]
  | .rest, true => [some]
  | .rest, false => [.rep 0 (.some 1) true some]
  | .query, true => [.char (.single '?'), some]
  | .query, false =>
    let many := Expr.group (.some n) (.rep 0 none true (.char p.reach.cls))
    [.rep 0 (.some 1) true (.group none (.seq (.char (.single '?')) many))]

/-- What is left behind by an item. -/
def Item.exprs (n : Nat) : Item → List Expr
  | text s => s.map fun c => .char (.single c)
  | slash mayMiss _ => [if mayMiss then optionalSlash else .char (.single '/')]
  | part p => p.exprs n

/-- The number of groups of an item. -/
def Item.groups : Item → Nat
  | part _ => 1
  | _ => 0

/-- What is left behind by items whose first group has this number. -/
def exprsFrom : Nat → List Item → List Expr
  | _, [] => []
  | n, item :: items => item.exprs n ++ exprsFrom (n + item.groups) items

def groupsOf : List Item → Nat
  | [] => 0
  | item :: items => item.groups + groupsOf items

/-! ## The reader -/

/-- The reader is not in a class, and no flag is set. -/
def Ready (r : Reader) : Prop := r.flags = {} ∧ r.classes = []

/-- The reader with more items behind those that it has. -/
def extend (r : Reader) (es : List Expr) (groups : Nat) : Reader :=
  { r with
    branches := { r.branches with items := (es.map some).reverse ++ r.branches.items }
    groupCount := r.groupCount + groups }

theorem Ready.extend {r : Reader} (h : Ready r) (es : List Expr) (n : Nat) :
    Ready (extend r es n) := h

theorem extend_extend (r : Reader) (es fs : List Expr) (m n : Nat) :
    extend (extend r es m) fs n = extend r (es ++ fs) (m + n) := by
  simp [Template.extend, Nat.add_assoc]

/-- The text is read as these expressions, with so many groups, whatever follows. -/
def ReadAs (s : List Char) (es : Nat → List Expr) (groups : Nat) : Prop :=
  ∀ r : Reader, Ready r → ∀ rest : List Char,
    r.run? 0 (s ++ rest) = (extend r (es (r.groupCount + 1)) groups).run? 0 rest

/-- The text is read as these expressions unless a question mark follows. -/
def ReadApart (s : List Char) (es : Nat → List Expr) (groups : Nat) : Prop :=
  ∀ r : Reader, Ready r → ∀ rest : List Char, rest.head? ≠ some '?' →
    r.run? 0 (s ++ rest) = (extend r (es (r.groupCount + 1)) groups).run? 0 rest

theorem ReadAs.apart {s : List Char} {es : Nat → List Expr} {n : Nat} (h : ReadAs s es n) :
    ReadApart s es n := fun r hr rest _ => h r hr rest

theorem ReadApart.append {s u : List Char} {es fs : Nat → List Expr} {m n : Nat}
    (hs : ReadApart s es m) (hu : ReadApart u fs n) (hhead : u.head? ≠ some '?') :
    ReadApart (s ++ u) (fun k => es k ++ fs (k + m)) (m + n) := by
  intro r hr rest hrest
  have hboth : (u ++ rest).head? ≠ some '?' := by
    rw [List.head?_append]
    cases hu : u.head? with
    | none => exact hrest
    | some c => rwa [hu] at hhead
  rw [List.append_assoc, hs r hr _ hboth, hu _ (hr.extend _ _) rest hrest, extend_extend]
  have hcount : (extend r (es (r.groupCount + 1)) m).groupCount + 1 = r.groupCount + 1 + m :=
    Nat.add_right_comm _ _ _
  rw [hcount]

/-! ### Characters -/

/-- A character that means nothing else stands for itself. -/
theorem token?_plain (r : Reader) {c : Char} (h : isMeta c = false) (s : List Char) :
    r.token? (c :: s) = some (r.literal c, 1) := by
  have hne : ∀ d, isMeta d = true → c ≠ d := by
    rintro d hd rfl
    rw [h] at hd
    cases hd
  unfold Reader.token?
  split <;> rename_i heq
  all_goals
    first
      | exact absurd (List.cons.inj heq).1 (hne _ (by decide))
      | cases heq; rfl
      | cases heq

/-- All characters that are escaped stand for themselves behind a backslash. -/
theorem escape?_meta {c : Char} (h : isMeta c = true) (s : List Char) :
    escape? false (c :: s) = some (.literal c, 1) := by
  have hmem : c ∈ "\\.+*?()|[]\x7b\x7d^$#&-~".toList := by simpa [isMeta] using h
  repeat
    rcases List.mem_cons.mp hmem with rfl | hmem
    · rfl
  cases hmem

theorem run?_skip (r : Reader) (t rest : List Char) :
    r.run? t.length (t ++ rest) = r.run? 0 rest := by
  induction t with
  | nil => rfl
  | cons c t ih => exact ih

/-- A token is read, and then what follows it. -/
theorem run?_token {r next : Reader} (h : Ready r) {c : Char} {t rest : List Char}
    (htoken : r.token? (c :: (t ++ rest)) = some (next, t.length + 1)) :
    r.run? 0 (c :: t ++ rest) = next.run? 0 rest := by
  have hstep : r.step? (c :: (t ++ rest)) = some (next, t.length + 1) := by
    rw [Reader.step?, h.2]
    exact htoken
  rw [List.cons_append, Reader.run?, hstep]
  exact run?_skip next t rest

theorem literal_eq {r : Reader} (h : Ready r) (c : Char) :
    r.literal c = extend r [.char (.single c)] 0 := by
  rw [Reader.literal, h.1]
  rfl

theorem readAs_char (c : Char) :
    ReadAs (if isMeta c then ['\\', c] else [c]) (fun _ => [.char (.single c)]) 0 := by
  intro r hr rest
  rw [← literal_eq hr]
  split
  · next hmeta =>
    refine run?_token hr (t := [c]) ?_
    show (escape? r.flags.anyCase (c :: rest)).map _ = _
    rw [hr.1, escape?_meta hmeta]
    rfl
  · next hmeta =>
    exact run?_token hr (t := []) (token?_plain r (eq_false_of_ne_true hmeta) rest)

theorem head?_escape (s : List Char) : (escape s).head? ≠ some '?' := by
  cases s with
  | nil => exact fun h => by cases h
  | cons c s =>
    rw [escape_cons]
    split
    · exact fun h => absurd h (by simp)
    · next hmeta =>
      intro h
      obtain rfl := Option.some.inj h
      exact hmeta rfl

theorem readApart_text (s : List Char) :
    ReadApart (escape s) (fun _ => s.map fun c => .char (.single c)) 0 := by
  induction s with
  | nil => exact fun _ _ _ _ => rfl
  | cons c s ih =>
    rw [escape_cons]
    exact (readAs_char c).apart.append ih (head?_escape s)

/-! ### Fragments -/

/-- A question mark makes the last item optional. -/
theorem run?_optional {r : Reader} (h : Ready r) {e : Expr} {items : List (Option Expr)}
    (hitems : r.branches.items = some e :: items) (he : e.isBlank = false) {rest : List Char}
    (hrest : rest.head? ≠ some '?') :
    r.run? 0 ('?' :: rest) =
      ({ r with branches := { r.branches with
        items := some (.rep 0 (some 1) true e) :: items } } : Reader).run? 0 rest := by
  refine run?_token h (t := []) ?_
  have htimes : e.times 0 (some 1) true = .rep 0 (some 1) true e := by
    simp [Expr.times, he]
  have hgreedy : (false == r.flags.swapGreed) = true := by rw [h.1]; rfl
  have hrepeat : r.repeatLast? 0 (some 1) false = some { r with branches := { r.branches with
      items := some (.rep 0 (some 1) true e) :: items } } := by
    rw [Reader.repeatLast?, hitems]
    simp only [hgreedy, htimes]
  cases rest with
  | nil => exact congrArg (Option.map (·, 1)) hrepeat
  | cons c rest =>
    have hc : c ≠ '?' := fun heq => hrest (congrArg some heq)
    have htoken : r.token? ('?' :: c :: rest) = (r.repeatLast? 0 (some 1) false).map (·, 1) := by
      simp [Reader.token?, hc]
    exact htoken.trans (congrArg (Option.map (·, 1)) hrepeat)

theorem ReadAs.optional {s : List Char} {e : Nat → Expr} {n : Nat}
    (h : ReadAs s (fun k => [e k]) n) (he : ∀ k, (e k).isBlank = false) :
    ReadApart (s ++ ['?']) (fun k => [.rep 0 (some 1) true (e k)]) n := by
  intro r hr rest hrest
  rw [List.append_assoc, h r hr]
  exact run?_optional (hr.extend _ _) rfl (he _) hrest

theorem readAs_segment : ReadAs "([^/?]+)".toList
    (fun k => [.group (some k) (.rep 1 none true (.char Reach.segment.cls))]) 1 := by
  have h : ReadAs "([^/?]+)".toList
      (fun k => [.group (some k) (.row [.rep 1 none true (.char Reach.segment.cls)])]) 1 := by
    rintro ⟨flags, branches, groups, classes, count, names⟩ ⟨rfl, rfl⟩ rest
    rfl
  simpa only [Expr.row_singleton] using h

theorem readAs_rest : ReadAs "(.+)".toList
    (fun k => [.group (some k) (.rep 1 none true (.char Reach.rest.cls))]) 1 := by
  have h : ReadAs "(.+)".toList
      (fun k => [.group (some k) (.row [.rep 1 none true (.char Reach.rest.cls)])]) 1 := by
    rintro ⟨flags, branches, groups, classes, count, names⟩ ⟨rfl, rfl⟩ rest
    rfl
  simpa only [Expr.row_singleton] using h

theorem readAs_query : ReadAs "\\?([^#]+)".toList
    (fun k => [.char (.single '?'),
      .group (some k) (.rep 1 none true (.char Reach.query.cls))]) 1 := by
  have h : ReadAs "\\?([^#]+)".toList (fun k => [.char (.single '?'),
      .group (some k) (.row [.rep 1 none true (.char Reach.query.cls)])]) 1 := by
    rintro ⟨flags, branches, groups, classes, count, names⟩ ⟨rfl, rfl⟩ rest
    rfl
  simpa only [Expr.row_singleton] using h

theorem readAs_optionalQuery : ReadAs "(?:\\?([^#]*))".toList
    (fun k => [.group none (.seq (.char (.single '?'))
      (.group (some k) (.rep 0 none true (.char Reach.query.cls))))]) 1 := by
  have h : ReadAs "(?:\\?([^#]*))".toList (fun k => [.group none (.row [.char (.single '?'),
      .group (some k) (.row [.rep 0 none true (.char Reach.query.cls)])])]) 1 := by
    rintro ⟨flags, branches, groups, classes, count, names⟩ ⟨rfl, rfl⟩ rest
    rfl
  simpa only [Expr.row_singleton, Expr.row_pair] using h

theorem readApart_optionalSlash : ReadApart "/?".toList (fun _ => [optionalSlash]) 0 :=
  (readAs_char '/').optional fun _ => rfl

/-- Every item is read as its expressions. -/
theorem readApart_item (item : Item) :
    ReadApart item.fragment (fun k => item.exprs k) item.groups := by
  cases item with
  | text s => exact readApart_text s
  | slash mayMiss written =>
    cases mayMiss with
    | true => exact readApart_optionalSlash
    | false => exact (readAs_char '/').apart
  | part p =>
    obtain ⟨reach, required, name, hne, hchars⟩ := p
    cases reach <;> cases required
    · exact (readAs_segment.optional fun _ => rfl).append readApart_optionalSlash (by decide)
    · exact readAs_segment.apart
    · exact readAs_rest.optional fun _ => rfl
    · exact readAs_rest.apart
    · exact readAs_optionalQuery.optional fun _ => rfl
    · exact readAs_query.apart

theorem head?_fragment (item : Item) : item.fragment.head? ≠ some '?' := by
  cases item with
  | text s => exact head?_escape s
  | slash mayMiss written =>
    cases mayMiss <;> exact fun h => absurd (Option.some.inj h) (by decide)
  | part p =>
    obtain ⟨reach, required, name, hne, hchars⟩ := p
    cases reach <;> cases required <;> exact fun h => absurd (Option.some.inj h) (by decide)

theorem head?_fragments (items : List Item) :
    (items.flatMap Item.fragment).head? ≠ some '?' := by
  induction items with
  | nil => exact fun h => by cases h
  | cons item items ih =>
    have hitem := head?_fragment item
    rw [List.flatMap_cons, List.head?_append]
    cases hhead : item.fragment.head? with
    | none => exact ih
    | some c => rwa [hhead] at hitem

theorem readApart_items (items : List Item) :
    ReadApart (items.flatMap Item.fragment) (fun k => exprsFrom k items) (groupsOf items) := by
  induction items with
  | nil => exact fun _ _ _ _ => rfl
  | cons item items ih => exact (readApart_item item).append ih (head?_fragments items)

/-! ## The whole source -/

/-- No expression that is left behind lies deep. -/
theorem Item.depth_exprs (n : Nat) (item : Item) :
    ∀ e ∈ item.exprs n, e.depthWithin .row ≤ 5 := by
  cases item with
  | text s =>
    intro e he
    obtain ⟨c, -, rfl⟩ := List.mem_map.mp he
    exact Nat.zero_le _
  | slash mayMiss written =>
    intro e he
    rw [List.mem_singleton.mp he]
    cases mayMiss <;> simp [optionalSlash, Expr.depthWithin]
  | part p =>
    obtain ⟨reach, required, name, hne, hchars⟩ := p
    cases reach <;> cases required <;>
      simp [Item.exprs, Part.exprs, optionalSlash, Expr.depthWithin]

theorem depth_exprsFrom (n : Nat) (items : List Item) :
    ∀ e ∈ exprsFrom n items, e.depthWithin .row ≤ 5 := by
  induction items generalizing n with
  | nil => exact fun e he => absurd he List.not_mem_nil
  | cons item items ih =>
    intro e he
    rcases List.mem_append.mp he with he | he
    · exact item.depth_exprs n e he
    · exact ih _ e he

theorem depth_source (items : List Item) :
    (Expr.row (.edge .textStart :: (exprsFrom 1 items ++ [.edge .textEnd]))).depth ≤ depthLimit := by
  have hall : ∀ e ∈ Expr.edge .textStart :: (exprsFrom 1 items ++ [.edge .textEnd]),
      e.depthWithin .row ≤ 5 := by
    intro e he
    rcases List.mem_cons.mp he with rfl | he
    · exact Nat.zero_le _
    · rcases List.mem_append.mp he with he | he
      · exact depth_exprsFrom 1 items e he
      · rw [List.mem_singleton.mp he]
        exact Nat.zero_le _
  exact Nat.le_trans (Expr.depth_row_le hall) (by decide)

/-- What is read between the anchors.  Nothing is refused. -/
theorem ofSource?_eq (items : List Item) :
    Expr.ofSource? ('^' :: (items.flatMap Item.fragment ++ ['$'])) =
      some (.row (.edge .textStart :: (exprsFrom 1 items ++ [.edge .textEnd]))) := by
  let opened := extend {} [.edge .textStart] 0
  have hready : Ready opened := ⟨rfl, rfl⟩
  have hitems := readApart_items items opened hready ['$'] (by simp)
  have hrun : ({} : Reader).run? 0 ('^' :: (items.flatMap Item.fragment ++ ['$'])) =
      some (extend (extend opened (exprsFrom 1 items) (groupsOf items)) [.edge .textEnd] 0) :=
    hitems
  have hfinish : Reader.finish?
      (extend (extend opened (exprsFrom 1 items) (groupsOf items)) [.edge .textEnd] 0) =
        some (.row (.edge .textStart :: (exprsFrom 1 items ++ [.edge .textEnd]))) := by
    show some (Expr.row (List.filterMap id (List.reverse (some (.edge .textEnd) ::
      (((exprsFrom 1 items).map some).reverse ++ [some (.edge .textStart)]))))) = _
    simp [List.filterMap_append, List.filterMap_map]
  rw [Expr.ofSource?, hrun]
  simp only [Option.bind_eq_bind, Option.bind_some, hfinish]
  exact if_pos (depth_source items)

/-- A template whose source has a fragment for each of these items compiles, unless its matcher
would be too large. -/
theorem compile_of_source {mode : SlashMode} {template : String} {items : List Item}
    (h : sourceChars mode template.toList = '^' :: (items.flatMap Item.fragment ++ ['$'])) :
    compile mode template =
      if (Expr.row (.edge .textStart :: (exprsFrom 1 items ++ [.edge .textEnd]))).weight ≤
          weightLimit then
        .ok ⟨source mode template,
          .row (.edge .textStart :: (exprsFrom 1 items ++ [.edge .textEnd]))⟩
      else .error .oversized := by
  rw [compile, Regex.compile, source, String.toList_ofList, h, ofSource?_eq]

theorem expr_of_source {mode : SlashMode} {template : String} {items : List Item}
    (h : sourceChars mode template.toList = '^' :: (items.flatMap Item.fragment ++ ['$']))
    {re : Regex} (hcompile : compile mode template = .ok re) :
    re.expr = .row (.edge .textStart :: (exprsFrom 1 items ++ [.edge .textEnd])) := by
  rw [compile_of_source h] at hcompile
  split at hcompile
  · cases hcompile
    rfl
  · cases hcompile

end RouteDispatch.Template
