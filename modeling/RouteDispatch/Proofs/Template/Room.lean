/-
# Templates that take too much room

There is a limit to the room that a matcher may take, and a template of many parts
goes beyond it: the characters that a part admits are almost all there are, and the
states for such a class take nearly a kibibyte each time (`weight_part`).  So for a
template of more than some ten thousand parts there is no matcher, however plain it
is (`oversized_of_parts`).
-/
import RouteDispatch.Proofs.Template.Joined

namespace RouteDispatch.Template

open Text Regex

/-- The class of a part holds characters of several bytes. -/
theorem weight_cls (reach : Reach) : 864 ≤ (Expr.char reach.cls).weight := by
  cases reach <;> decide

/-- What may be missing takes no less room than what is there. -/
theorem weight_le_optional (e : Expr) : e.weight ≤ (Expr.rep 0 (some 1) true e).weight := by
  show e.weight ≤ 0 * e.weight + (1 - 0) * (40 + e.weight)
  omega

/-- Every part takes this much room. -/
theorem weight_part (n : Nat) (p : Part) : 1000 ≤ ((p.exprs n).map Expr.weight).sum := by
  have hcls := weight_cls p.reach
  have hsome : 1000 ≤ (Expr.group (some n) (.rep 1 none true (.char p.reach.cls))).weight := by
    show 1000 ≤ 64 + (1 * (Expr.char p.reach.cls).weight + 80)
    omega
  have hmaybe := weight_le_optional (.group (some n) (.rep 1 none true (.char p.reach.cls)))
  have hquery : 1000 ≤ (Expr.group none (.seq (.char (.single '?'))
      (.group (some n) (.rep 0 none true (.char p.reach.cls))))).weight := by
    show 1000 ≤ 32 + (64 + (1 * (Expr.char p.reach.cls).weight + 80))
    omega
  have hquery' := Nat.le_trans hquery (weight_le_optional _)
  rw [Part.exprs]
  split <;> simp only [List.map_cons, List.map_nil, List.sum_cons, List.sum_nil] <;> omega

theorem weight_exprsFrom (n : Nat) (items : List Item) :
    1000 * (partsOf items).length ≤ ((exprsFrom n items).map Expr.weight).sum := by
  induction items generalizing n with
  | nil => exact Nat.le_refl 0
  | cons item items ih =>
    have hlater := ih (n + item.groups)
    rw [exprsFrom, List.map_append, List.sum_append]
    cases item with
    | text s => exact Nat.le_trans hlater (Nat.le_add_left _ _)
    | slash mayMiss written => exact Nat.le_trans hlater (Nat.le_add_left _ _)
    | part p =>
      have hpart := weight_part n p
      have hlength : (partsOf (.part p :: items)).length = (partsOf items).length + 1 := rfl
      have hexprs : (Item.part p).exprs n = p.exprs n := rfl
      rw [hlength, hexprs]
      omega

/-- The room that a template takes grows with the number of its parts. -/
theorem weight_regex (mode : SlashMode) (t : Plain) :
    1000 * t.parts.length ≤ (t.regex mode).expr.weight := by
  have hitems := weight_exprsFrom 1 (t.requestItems mode)
  rw [partsOf_requestItems] at hitems
  refine Nat.le_trans hitems (Nat.le_trans ?_ (Expr.sum_weight_le_row _))
  rw [List.map_cons, List.map_append, List.sum_cons, List.sum_append]
  omega

/-- A template of too many parts does not compile. -/
theorem oversized_of_parts (mode : SlashMode) {t : Plain} (h : t.text ≠ [])
    (hparts : weightLimit < 1000 * t.parts.length) :
    compile mode (.ofList t.text) = .error .oversized := by
  rw [(Plain.isMatcher_regex mode h).compiles, if_neg]
  exact Nat.not_le.mpr (Nat.lt_of_lt_of_le hparts (weight_regex mode t))

/-- Too many parts with slashes between do not compile. -/
theorem oversized_of_joined (mode : SlashMode) {lead : List Char} {p : Part}
    (literal : Literal none lead (some p)) {parts : List Part}
    (h : weightLimit < 1000 * (parts.length + 1)) :
    compile mode (.ofList (lead ++ (p.text ++ steps (parts.map Part.text)))) =
      .error .oversized := by
  let t := Plain.joined lead p parts literal
  have htext : t.text = lead ++ (p.text ++ steps (parts.map Part.text)) :=
    text_joined lead p parts literal
  have hlength : t.parts.length = parts.length + 1 := by
    show ((Cell.mk lead p :: parts.map (Cell.mk ['/'])).map (·.part)).length = parts.length + 1
    simp
  have hne : t.text ≠ [] := by
    rw [htext]
    exact List.append_ne_nil_of_right_ne_nil _ (List.append_ne_nil_of_left_ne_nil (List.cons_ne_nil _ _) _)
  rw [← htext]
  exact oversized_of_parts mode hne (by rwa [hlength])

end RouteDispatch.Template
