/-
# Routers with other numbers for their routes

The numbers of routes serve to find a route again, and to tell the listeners of the
router which one matched.  So nothing depends on which numbers they are: a router
whose routes are renamed does the same, and what it tells of routes is told
under their new names.

`Delivery.translate` says what a delivery is in other words, with its state and its
events translated.  It goes through `andThen` and through rows of deliveries, and
so the statement about a whole parse (`parse_rename`) comes from those about
single notifications.  The renaming has to be injective, for a route to be found
under its new name; this is used in `route?_rename` and `modify_rename` only.
-/
import RouteDispatch.Proofs.Delivery.Seats
import RouteDispatch.Proofs.Router.Run

namespace RouteDispatch

/-! ## Translations -/

namespace Traced

variable {ε α β γ : Type}

/-- A computation whose value is put in other words. -/
def translate (word : α → β) (t : Traced ε α) : Traced ε β := ⟨t.calls, t.result.map word⟩

theorem translate_bind (word : β → γ) (t : Traced ε α) (next : α → Traced ε β) :
    (t >>= next).translate word = t >>= fun a => (next a).translate word := by
  change (Traced.bind t next).translate word = Traced.bind t _
  cases ht : t.result <;> simp [Traced.bind, translate, ht, Except.map]

theorem bind_translate (word : α → β) (t : Traced ε α) (next : β → Traced ε γ) :
    t.translate word >>= next = t >>= fun a => next (word a) := by
  change Traced.bind (t.translate word) next = Traced.bind t _
  cases ht : t.result <;> simp [Traced.bind, translate, ht, Except.map]

end Traced

namespace Delivery

variable {ε δ σ τ α β : Type}

/-- A delivery in other words. -/
def translate (put : σ → τ) (word : ε → δ) (d : Delivery ε σ) : Delivery δ τ :=
  ⟨put d.state, d.events.map word, d.failure⟩

theorem translate_andThen (put : σ → τ) (word : ε → δ) {d : Delivery ε σ}
    {f : τ → Delivery δ τ} {g : σ → Delivery ε σ}
    (h : ∀ s, f (put s) = (g s).translate put word) :
    (d.translate put word).andThen f = (d.andThen g).translate put word := by
  cases hd : d.failure with
  | some reason => simp [andThen, translate, hd]
  | none => simp [andThen, translate, hd, h]

theorem translate_after (put : σ → τ) (word : ε → δ) (d : Delivery ε σ) (events : List ε) :
    (d.after events).translate put word = (d.translate put word).after (events.map word) := by
  simp [after, translate]

/-- A row of deliveries, each of them said in other words. -/
theorem forEach_translate (put : σ → τ) (word : ε → δ) (name : α → β)
    {deliver : α → σ → Delivery ε σ} {deliver' : β → τ → Delivery δ τ}
    (h : ∀ a s, deliver' (name a) (put s) = (deliver a s).translate put word)
    (as : List α) (s : σ) :
    forEach deliver' (as.map name) (put s) = (forEach deliver as s).translate put word := by
  induction as generalizing s with
  | nil => rfl
  | cons a as ih =>
    rw [List.map_cons, forEach, forEach, h]
    exact translate_andThen put word ih

end Delivery

/-- A dispatch within a larger state, with what it reports said in other words. -/
theorem Signal.dispatch_translate {ε δ σ τ : Type} (word : ε → δ) (event : String → ε)
    {image : σ → τ} {put : Signal → σ} {put' : Signal → τ} (h : ∀ s, put' s = image (put s))
    (s : Signal) :
    (s.dispatch (word ∘ event)).within put' =
      ((s.dispatch event).within put).translate image word := by
  have hcalls : ∀ ls : List Listener,
      callAll (word ∘ event) ls = (callAll event ls).translate id word := by
    intro ls
    induction ls with
    | nil => rfl
    | cons l ls ih =>
      cases hl : l.fails l.calls with
      | some reason => simp [callAll, Delivery.translate, hl]
      | none => simp [callAll, Delivery.translate, Delivery.after, Delivery.within, hl, ih]
  rw [dispatch, hcalls]
  simp only [dispatch, Delivery.within, Delivery.translate, h]
  rfl

/-! ## New names -/

/-- The event with other numbers for the routes that it speaks of. -/
def Event.rename {α : Type} (σ : RouteId → RouteId) : Event α → Event α
  | routed listener extra request id params isFirst =>
    routed listener extra request (σ id) params isFirst
  | event => event

/-- The route with another number. -/
def Route.rename (σ : RouteId → RouteId) (route : Route) : Route := { route with id := σ route.id }

/-- The match with another number for its route. -/
def Match.rename (σ : RouteId → RouteId) (m : Match) : Match := { m with id := σ m.id }

namespace Router

variable {α : Type}

/-- The router with other numbers for its routes. -/
def rename (σ : RouteId → RouteId) (r : Router) : Router :=
  { r with routes := r.routes.map (Route.rename σ), previous := r.previous.map σ }

/-- A delivery of the router, told with other numbers for its routes. -/
def renamed (σ : RouteId → RouteId) (d : Delivery (Event α) Router) : Delivery (Event α) Router :=
  d.translate (rename σ) (Event.rename σ)

variable {σ : RouteId → RouteId}

/-! ## Matching -/

/-- A route does not look at its own number. -/
theorem accepts_rename (route : Route) (request : String) :
    (route.rename σ).accepts request = route.accepts request :=
  Route.accepts_congr (a := route.rename σ) (b := route) rfl rfl rfl rfl request

theorem collect_rename (request : String) (fallback : Option Normalizer) (found : Bool)
    (routes : List Route) :
    collect request fallback found (routes.map (Route.rename σ)) =
      (collect request fallback found routes).translate (·.map (Match.rename σ)) := by
  induction routes generalizing found with
  | nil => rfl
  | cons route routes ih =>
    have harguments : (route.rename σ).arguments request fallback =
        route.arguments request fallback := rfl
    have hgreedy : (route.rename σ).greedy = route.greedy := rfl
    rw [List.map_cons, collect_cons, collect_cons, accepts_rename, harguments, hgreedy,
      Traced.translate_bind]
    congr 1
    funext accepted
    cases accepted with
    | false => exact ih found
    | true =>
      simp only [if_true, Traced.translate_bind, ih true, Traced.bind_translate]
      rfl

theorem matches?_rename (r : Router) (request : String) :
    (r.rename σ).matches? request = (r.matches? request).translate (·.map (Match.rename σ)) :=
  collect_rename request r.normalizer false r.routes

theorem markFirst_rename (ms : List Match) :
    markFirst (ms.map (Match.rename σ)) =
      (markFirst ms).map fun m => (m.1.rename σ, m.2) := by
  cases ms with
  | nil => rfl
  | cons m ms => simp [markFirst]

/-! ## Finding and changing routes -/

section
variable (hσ : Function.Injective σ)
include hσ

theorem route?_rename (r : Router) (id : RouteId) :
    (r.rename σ).route? (σ id) = (r.route? id).map (Route.rename σ) := by
  simp only [route?, rename, List.find?_map]
  congr 2
  funext route
  have hname : (route.rename σ).id = σ id ↔ route.id = id := hσ.eq_iff
  rw [Function.comp, Bool.eq_iff_iff, beq_iff_eq, beq_iff_eq, hname]

/-- A change that does not look at the number of the route. -/
theorem modify_rename {f : Route → Route}
    (hf : ∀ route, f (route.rename σ) = (f route).rename σ) (r : Router)
    (id : RouteId) : (r.rename σ).modify (σ id) f = (r.modify id f).rename σ := by
  have hroutes : (r.routes.map (Route.rename σ)).map (fun route =>
        if route.id == σ id then f route else route) =
      (r.routes.map fun route =>
        if route.id == id then f route else route).map (Route.rename σ) := by
    rw [List.map_map, List.map_map]
    refine List.map_congr_left fun route _ => ?_
    have hname : (route.rename σ).id = σ id ↔ route.id = id := hσ.eq_iff
    by_cases h : route.id = id
    · simp [h, hname.mpr h, hf]
    · simp [h, mt hname.mp h]
  simp only [modify, rename, hroutes]

/-! ## Notifying -/

theorem notifyPassed_rename (request : String) (id : RouteId) (r : Router) :
    notifyPassed (α := α) request (σ id) (r.rename σ) =
      renamed σ (notifyPassed request id r) := by
  rw [notifyPassed_eq, notifyPassed_eq, route?_rename hσ]
  cases r.route? id with
  | none => rfl
  | some route =>
    exact Signal.dispatch_translate (Event.rename σ) (Event.passed · request)
      (fun onPass => modify_rename hσ (f := Route.putPass onPass) (fun _ => rfl) r id)
      route.onPass

theorem notifyRoute_rename (extra : List α) (m : Match) (r : Router) :
    notifyRoute extra (m.rename σ) (r.rename σ) = renamed σ (notifyRoute extra m r) := by
  have hfound : (r.rename σ).route? (m.rename σ).id = (r.route? m.id).map (Route.rename σ) :=
    route?_rename hσ r m.id
  rw [notifyRoute, notifyRoute, hfound]
  cases r.route? m.id with
  | none => rfl
  | some route =>
    exact Signal.dispatch_translate (Event.rename σ) (Event.matched · extra m.arguments)
      (fun onMatch => modify_rename hσ (f := Route.putMatch onMatch) (fun _ => rfl) r m.id)
      route.onMatch

theorem notifyMatched_rename (extra : List α) (request : String) (m : Match × Bool)
    (r : Router) :
    notifyMatched extra request (m.1.rename σ, m.2) (r.rename σ) =
      renamed σ (notifyMatched extra request m r) := by
  obtain ⟨m, isFirst⟩ := m
  have hrouter : ∀ s : Router, notifyRouter extra request (m.rename σ) isFirst (s.rename σ) =
      renamed σ (notifyRouter extra request m isFirst s) := by
    intro s
    exact Signal.dispatch_translate (Event.rename σ)
      (Event.routed · extra request m.id m.arguments isFirst) (fun _ => rfl) s.onMatch
  rw [notifyMatched_eq, notifyMatched_eq, notifyRoute_rename hσ]
  exact Delivery.translate_andThen _ _ hrouter

theorem passPhase_rename (request : String) (r : Router) :
    passPhase (α := α) request (r.rename σ) = renamed σ (passPhase request r) :=
  Delivery.forEach_translate (rename σ) (Event.rename σ) σ
    (fun id s => notifyPassed_rename hσ request id s) r.previous r

theorem matchPhase_rename (extra : List α) (request : String) (ms : List Match) (r : Router) :
    matchPhase extra request (ms.map (Match.rename σ)) (r.rename σ) =
      renamed σ (matchPhase extra request ms r) := by
  have hprevious : (ms.map (Match.rename σ)).map (·.id) = (ms.map (·.id)).map σ := by
    rw [List.map_map, List.map_map]
    rfl
  have hstart : { r.rename σ with previous := (ms.map (Match.rename σ)).map (·.id) } =
      ({ r with previous := ms.map (·.id) } : Router).rename σ := by
    rw [hprevious]
    rfl
  rw [matchPhase, matchPhase, markFirst_rename, hstart]
  exact Delivery.forEach_translate (rename σ) (Event.rename σ) _
    (notifyMatched_rename hσ extra request) (markFirst ms) _

/-! ## Whole parses -/

/-- A parse of the renamed router is the parse of the router, told under the new names. -/
theorem parse_rename (r : Router) (request : String) (extra : List α) :
    (r.rename σ).parse request extra = renamed σ (r.parse request extra) := by
  have hfound := matches?_rename (σ := σ) r request
  have hcalls : ((r.rename σ).matches? request).calls = (r.matches? request).calls := by
    rw [hfound]
    rfl
  have hresult : ((r.rename σ).matches? request).result =
      (r.matches? request).result.map (·.map (Match.rename σ)) := by
    rw [hfound]
    rfl
  have hasked : ((r.matches? request).calls.map Event.predicate).map (Event.rename (α := α) σ) =
      (r.matches? request).calls.map Event.predicate := by
    rw [List.map_map]
    rfl
  rw [renamed]
  cases h : (r.matches? request).result with
  | error reason =>
    rw [h] at hresult
    rw [parse_of_failure h, parse_of_failure hresult, hcalls, Delivery.translate, hasked]
  | ok ms =>
    rw [h] at hresult
    cases ms with
    | nil =>
      have hbypassed : notifyBypassed extra request (r.rename σ) =
          renamed σ (notifyBypassed extra request r) :=
        Signal.dispatch_translate (Event.rename σ) (Event.bypassed · extra request)
          (fun _ => rfl) r.onDefault
      rw [parse_of_no_match h, parse_of_no_match hresult, hcalls, Delivery.translate_after,
        hasked, hbypassed, renamed]
    | cons m ms =>
      have hphases := Delivery.translate_andThen (rename σ) (Event.rename (α := α) σ)
        (d := passPhase request r) (matchPhase_rename hσ extra request (m :: ms))
      rw [parse_of_matches h (List.cons_ne_nil _ _), parse_of_matches hresult (by simp), hcalls,
        Delivery.translate_after, hasked, ← hphases, passPhase_rename hσ, renamed]

theorem deliveries_rename (r : Router) (calls : List (Request α)) :
    (r.rename σ).deliveries calls = (r.deliveries calls).map (renamed σ) := by
  induction calls generalizing r with
  | nil => rfl
  | cons q calls ih =>
    rw [deliveries, deliveries, parse_rename hσ, List.map_cons]
    exact congrArg (_ :: ·) (ih _)

end

end Router

end RouteDispatch
