/-
What the ways of an expression come to when a match goes on behind them.

A match that goes on from every way in turn, and takes the first that comes to
something, never needs the list of all ways: `preferred` follows the combinators
that the list is made of. Whoever wants to know what a search finds for an
expression reads it off these laws.
-/
import RouteDispatch.Regex.Ways

namespace RouteDispatch.Regex

/-- What a match comes to from some place on: the trail of the preferred way, if there is one. -/
abbrev Outcome := Option Trail

/-- Prefers one outcome to the other, in the order that `greedy` asks for. -/
def prefer (greedy : Bool) (go leave : Outcome) : Outcome :=
  if greedy then go <|> leave else leave <|> go

/-- Takes the first way from a place that comes to something when the match goes on behind it. -/
def preferred (step : Cursor → List Way) (next : Cursor → Outcome) (c : Cursor) : Outcome :=
  (step c).findSome? fun w => (next w.1).map (w.2 ++ ·)

/-! ## Lists of ways -/

theorem findSome?_flatMap {α β γ : Type} (l : List α) (f : α → List β) (g : β → Option γ) :
    (l.flatMap f).findSome? g = l.findSome? fun a => (f a).findSome? g := by
  induction l with
  | nil => rfl
  | cons a l ih =>
    rw [List.flatMap_cons, List.findSome?_append, ih, List.findSome?_cons]
    cases (f a).findSome? g <;> rfl

theorem findSome?_congr {α β : Type} {l : List α} {f g : α → Option β}
    (h : ∀ a ∈ l, f a = g a) : l.findSome? f = l.findSome? g := by
  induction l with
  | nil => rfl
  | cons a l ih =>
    rw [List.findSome?_cons, List.findSome?_cons, h a List.mem_cons_self,
      ih fun b hb => h b (List.mem_cons_of_mem _ hb)]

/-- Going on behind a way is going on from where it ends. -/
theorem findSome?_andThen (w : Way) (step : Cursor → List Way) (next : Cursor → Outcome) :
    (w.andThen step).findSome? (fun v => (next v.1).map (v.2 ++ ·)) =
      (preferred step next w.1).map (w.2 ++ ·) := by
  simp only [Way.andThen, preferred, List.findSome?_map, List.map_findSome?]
  refine findSome?_congr fun v _ => ?_
  cases h : next v.1 <;> simp [Function.comp, h]

/-! ## One law per combinator -/

section
variable {step first second : Cursor → List Way} {next next' : Cursor → Outcome} {c : Cursor}

theorem preferred_congr (h : ∀ w ∈ step c, next w.1 = next' w.1) :
    preferred step next c = preferred step next' c :=
  findSome?_congr fun w hw => by rw [h w hw]

@[simp] theorem preferred_stay : preferred stay next c = next c := by
  cases h : next c <;> simp [preferred, stay, h]

theorem preferred_append (first second : Cursor → List Way) (h : step c = first c ++ second c) :
    preferred step next c = (preferred first next c <|> preferred second next c) := by
  rw [preferred, h, List.findSome?_append, Option.orElse_eq_orElse, Option.orElse_eq_or]
  rfl

theorem preferred_inTurn :
    preferred (inTurn first second) next c = preferred first (preferred second next) c := by
  rw [preferred, inTurn, findSome?_flatMap]
  exact findSome?_congr fun w _ => findSome?_andThen w second next

theorem preferred_orStay (greedy : Bool) :
    preferred (orStay greedy step) next c = prefer greedy (preferred step next c) (next c) := by
  cases greedy
  · rw [preferred_append stay step rfl, preferred_stay]
    rfl
  · rw [preferred_append step stay rfl, preferred_stay]
    rfl

/-- A match that ends behind the ways comes to the first of them. -/
theorem preferred_done :
    preferred step (fun _ => some []) c = (step c).head?.map (·.2) := by
  cases h : step c <;> simp [preferred, h]

end

end RouteDispatch.Regex
