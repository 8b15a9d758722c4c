/-
# A parse, one call after the other

`plan` lists the calls to listeners that a parse makes if none of them fails, each
with the seat that it goes to.  The plan is read off the router before the
parse, and so is everything that the parse leaves behind: `after` says what becomes
of the listeners once their seats have been called so often.

The main statement, `parse_follows`, is that a parse goes through its plan call by
call, up to the first that fails.  Where that is decides nothing but how far
it comes and which result is remembered.
-/
import RouteDispatch.Proofs.Delivery.Seats
import RouteDispatch.Proofs.Router.Parse

namespace RouteDispatch

/-- The lists of listeners of a router. -/
inductive Channel where
  | passed (id : RouteId)
  | matched (id : RouteId)
  | routed
  | bypassed
deriving DecidableEq

/-- The listeners of this list hear of matches. -/
def Channel.ofMatch : Channel → Bool
  | matched _ | routed => true
  | passed _ | bypassed => false

/-- The place of a listener in its list. -/
structure Seat where
  channel : Channel
  place : Nat
deriving DecidableEq

/-- The route after its listeners have been called so often. -/
def Route.after (counts : Seat → Nat) (route : Route) : Route :=
  { route with
    onMatch := route.onMatch.after fun place => counts ⟨.matched route.id, place⟩
    onPass := route.onPass.after fun place => counts ⟨.passed route.id, place⟩ }

namespace Router

variable {α : Type}

/-- The listeners of a list. -/
def signal (r : Router) : Channel → Signal
  | .passed id => ((r.route? id).map (·.onPass)).getD {}
  | .matched id => ((r.route? id).map (·.onMatch)).getD {}
  | .routed => r.onMatch
  | .bypassed => r.onDefault

/-- Why a call to a seat fails, if it does, with this many calls to it made already. -/
def fails (r : Router) (seat : Seat) (n : Nat) : Option String :=
  (r.signal seat.channel).fails seat.place n

/-- The router after its listeners have been called so often. -/
def after (r : Router) (counts : Seat → Nat) : Router :=
  { r with
    routes := r.routes.map (Route.after counts)
    onMatch := r.onMatch.after fun place => counts ⟨.routed, place⟩
    onDefault := r.onDefault.after fun place => counts ⟨.bypassed, place⟩ }

/-! ## The plan -/

/-- The calls to those listeners of a list that are wanted. -/
def roll (r : Router) (channel : Channel) (wanted : Listener → Bool) (event : String → Event α) :
    List (Notice Seat (Event α)) :=
  ((r.signal channel).listeners.zipIdx.filter fun p => wanted p.1).map fun p =>
    ⟨⟨channel, p.2⟩, event p.1.name⟩

/-- The calls of the first phase. -/
def passPlan (r : Router) (request : String) : List (Notice Seat (Event α)) :=
  r.previous.flatMap fun id => r.roll (.passed id) (fun _ => true) (.passed · request)

/-- The calls for one match.  Listeners of the router that are called once hear of the first match
only. -/
def matchPlanOf (r : Router) (extra : List α) (request : String) (m : Match × Bool) :
    List (Notice Seat (Event α)) :=
  r.roll (.matched m.1.id) (fun _ => true) (.matched · extra m.1.arguments) ++
    r.roll .routed (fun l => m.2 || ! l.once) (.routed · extra request m.1.id m.1.arguments m.2)

/-- The calls of the second phase. -/
def matchPlan (r : Router) (extra : List α) (request : String) (ms : List Match) :
    List (Notice Seat (Event α)) :=
  (markFirst ms).flatMap (r.matchPlanOf extra request)

/-- The calls of a parse with these matches. -/
def plan (r : Router) (request : String) (extra : List α) :
    List Match → List (Notice Seat (Event α))
  | [] => r.roll .bypassed (fun _ => true) (.bypassed · extra request)
  | ms => r.passPlan request ++ r.matchPlan extra request ms

theorem channel_of_mem_roll {r : Router} {channel : Channel} {wanted : Listener → Bool}
    {event : String → Event α} {n : Notice Seat (Event α)} (h : n ∈ r.roll channel wanted event) :
    n.seat.channel = channel := by
  obtain ⟨p, -, rfl⟩ := List.mem_map.mp h
  rfl

theorem mem_roll_all (r : Router) (channel : Channel) (event : String → Event α) {place : Nat}
    (h : place < (r.signal channel).size) :
    ∃ n ∈ r.roll channel (fun _ => true) event, n.seat = ⟨channel, place⟩ := by
  have hmem : ((r.signal channel).listeners[place], place) ∈ (r.signal channel).listeners.zipIdx :=
    List.mem_zipIdx_iff_getElem?.mpr (List.getElem?_eq_getElem h)
  exact ⟨_, List.mem_map.mpr ⟨_, List.mem_filter.mpr ⟨hmem, rfl⟩, rfl⟩, rfl⟩

/-! ## The state behind some calls -/

theorem route?_after (r : Router) (counts : Seat → Nat) (id : RouteId) :
    (r.after counts).route? id = (r.route? id).map (Route.after counts) := by
  simp only [route?, after, List.find?_map]
  rfl

theorem signal_after (r : Router) (counts : Seat → Nat) (channel : Channel) :
    (r.after counts).signal channel = (r.signal channel).after fun place => counts ⟨channel, place⟩ := by
  cases channel with
  | routed => rfl
  | bypassed => rfl
  | passed id =>
    rw [signal, signal, route?_after]
    cases hroute : r.route? id with
    | none => rfl
    | some route =>
      rw [← (route?_mem hroute).2]
      rfl
  | matched id =>
    rw [signal, signal, route?_after]
    cases hroute : r.route? id with
    | none => rfl
    | some route =>
      rw [← (route?_mem hroute).2]
      rfl

theorem after_zero (r : Router) : r.after (fun _ => 0) = r := by
  have hroutes : r.routes.map (Route.after fun _ => 0) = r.routes := by
    refine (List.map_congr_left fun route _ => ?_).trans (List.map_id _)
    rw [Route.after, Signal.after_zero, Signal.after_zero]
    rfl
  rw [after, hroutes, Signal.after_zero, Signal.after_zero]

/-- Calls change listeners and nothing else. -/
theorem bare_after (r : Router) (counts : Seat → Nat) : (r.after counts).bare = r.bare := by
  simp only [bare, after, List.map_map]
  rfl

/-! ## One list of listeners -/

/-- The counts, but these for one list. -/
def putCounts (counts : Seat → Nat) (channel : Channel) (n : Nat → Nat) : Seat → Nat :=
  fun seat => if seat.channel = channel then n seat.place else counts seat

theorem putCounts_self (counts : Seat → Nat) (channel : Channel) :
    putCounts counts channel (fun place => counts ⟨channel, place⟩) = counts := by
  funext ⟨other, place⟩
  rw [putCounts]
  split
  · next h => rw [← h]
  · rfl

theorem putCounts_same (counts : Seat → Nat) (channel : Channel) (n : Nat → Nat) :
    (fun place => putCounts counts channel n ⟨channel, place⟩) = n := by
  funext place
  exact if_pos rfl

theorem putCounts_other (counts : Seat → Nat) {channel other : Channel} (h : other ≠ channel)
    (n : Nat → Nat) :
    (fun place => putCounts counts channel n ⟨other, place⟩) = fun place => counts ⟨other, place⟩ := by
  funext place
  exact if_neg h

/-- The calls to the listeners that are left of a list. -/
def notices (r : Router) (counts : Seat → Nat) (channel : Channel) (event : String → Event α) :
    List (Notice Seat (Event α)) :=
  ((r.signal channel).notices (fun place => counts ⟨channel, place⟩) event).map fun n =>
    ⟨⟨channel, n.seat⟩, n.event⟩

/-- Calls to one list are the calls of its signal. -/
theorem calls_notices (r : Router) (counts : Seat → Nat) (channel : Channel)
    (event : String → Event α) :
    Delivery.forEach (call r.fails) (r.notices counts channel event) counts =
      (Delivery.forEach (call (r.signal channel).fails)
        ((r.signal channel).notices (fun place => counts ⟨channel, place⟩) event)
        fun place => counts ⟨channel, place⟩).within (putCounts counts channel) := by
  have hmirror := Delivery.forEach_map_within (call (r.signal channel).fails) (call r.fails)
    (fun n : Notice Nat (Event α) => ⟨⟨channel, n.seat⟩, n.event⟩)
    (putCounts counts channel)
    ((r.signal channel).notices (fun place => counts ⟨channel, place⟩) event) ?_
    fun place => counts ⟨channel, place⟩
  · rwa [putCounts_self] at hmirror
  · intro n _ s
    have hcount : putCounts counts channel s ⟨channel, n.seat⟩ = s n.seat := if_pos rfl
    have hbump : bump (putCounts counts channel s) ⟨channel, n.seat⟩ =
        putCounts counts channel (bump s n.seat) := by
      funext ⟨other, place⟩
      simp only [bump, putCounts, Seat.mk.injEq]
      by_cases hc : other = channel
      · simp [hc]
      · simp [hc]
    simp only [call, Delivery.within, hcount, hbump]
    rfl

theorem notices_eq_roll {r : Router} {counts : Seat → Nat} {channel : Channel}
    {wanted : Listener → Bool} (event : String → Event α)
    (h : ∀ l place, (l, place) ∈ (r.signal channel).listeners.zipIdx →
      (l.after (counts ⟨channel, place⟩)).isSome = wanted l) :
    r.notices counts channel event = r.roll channel wanted event := by
  rw [notices, Signal.notices, Signal.noticesFrom, roll, List.map_map]
  rw [List.filter_congr fun p hp => h p.1 p.2 hp]
  rfl

/-- A list to which no call was made is called as a whole. -/
theorem notices_of_zero {r : Router} {counts : Seat → Nat} {channel : Channel}
    (event : String → Event α) (h : ∀ place, counts ⟨channel, place⟩ = 0) :
    r.notices counts channel event = r.roll channel (fun _ => true) event := by
  refine notices_eq_roll event ?_
  intro l place _
  rw [h, Listener.after_zero]
  rfl

/-- Of a list that was called before, those are left that are called more than once. -/
theorem notices_of_pos {r : Router} {counts : Seat → Nat} {channel : Channel}
    (event : String → Event α)
    (h : ∀ place, place < (r.signal channel).size → 0 < counts ⟨channel, place⟩) :
    r.notices counts channel event = r.roll channel (fun l => ! l.once) event := by
  refine notices_eq_roll event ?_
  intro l place hmem
  obtain ⟨hlt, -⟩ := List.getElem?_eq_some_iff.mp (List.mem_zipIdx_iff_getElem?.mp hmem)
  have hne : (counts ⟨channel, place⟩ != 0) = true := by
    have hpos := h place hlt
    simpa using Nat.ne_of_gt hpos
  cases ho : l.once <;> simp [Listener.after, hne, ho]

/-- What the listeners of the router have heard of matches so far: nothing before the first one, and
at least one later. -/
def Heard (r : Router) (counts : Seat → Nat) : (isFirst : Bool) → Prop
  | true => ∀ place, counts ⟨.routed, place⟩ = 0
  | false => ∀ place, place < (r.signal .routed).size → 0 < counts ⟨.routed, place⟩

theorem Heard.notices_eq {r : Router} {counts : Seat → Nat} {isFirst : Bool}
    (h : r.Heard counts isFirst) (event : String → Event α) :
    r.notices counts .routed event = r.roll .routed (fun l => isFirst || ! l.once) event := by
  cases isFirst with
  | true => exact notices_of_zero event h
  | false => exact notices_of_pos event h

/-- Other calls do not matter to what the router has heard. -/
theorem Heard.of_other_calls {r : Router} {counts : Seat → Nat} {isFirst : Bool}
    (h : r.Heard counts isFirst) {others : List (Notice Seat (Event α))}
    (hothers : ∀ n ∈ others, n.seat.channel ≠ .routed) : r.Heard (tally counts others) isFirst := by
  have hsame : ∀ place, tally counts others ⟨.routed, place⟩ = counts ⟨.routed, place⟩ := by
    intro place
    refine tally_of_not_mem counts ?_
    intro n hn hseat
    exact hothers n hn (congrArg Seat.channel hseat)
  cases isFirst with
  | true => exact fun place => (hsame place).trans (h place)
  | false => exact fun place hplace => (hsame place).symm ▸ h place hplace

/-- Once all were told of a match, the next one is not the first. -/
theorem Heard.next {r : Router} {counts : Seat → Nat} {isFirst : Bool}
    (h : r.Heard counts isFirst) (event : String → Event α) :
    r.Heard (tally counts (r.roll .routed (fun l => isFirst || ! l.once) event)) false := by
  intro place hplace
  cases isFirst with
  | false => exact Nat.lt_of_lt_of_le (h place hplace) (le_tally _ _ _)
  | true =>
    obtain ⟨n, hn, hseat⟩ := mem_roll_all r .routed event hplace
    rw [tally_eq]
    exact Nat.add_pos_right _ (List.count_pos_iff.mpr (List.mem_map.mpr ⟨n, hn, hseat⟩))

/-! ## Single notifications -/

section
variable {r : Router} (hr : (r.routes.map (·.id)).Nodup) (counts : Seat → Nat)
include hr

/-- New counts for one list of a route concern this route alone. -/
theorem after_putCounts_route {id : RouteId} {route : Route} (hroute : r.route? id = some route)
    {channel : Channel} (n : Nat → Nat) (change : Route → Route)
    (hchannel : channel = .passed id ∨ channel = .matched id)
    (hchange : change (route.after counts) = route.after (putCounts counts channel n)) :
    (r.after counts).modify id change = r.after (putCounts counts channel n) := by
  have hrouted : Channel.routed ≠ channel := by rcases hchannel with rfl | rfl <;> simp
  have hbypassed : Channel.bypassed ≠ channel := by rcases hchannel with rfl | rfl <;> simp
  simp only [modify, after, putCounts_other counts hrouted, putCounts_other counts hbypassed,
    List.map_map]
  congr 1
  refine List.map_congr_left ?_
  intro other hother
  simp only [Function.comp]
  by_cases hid : other.id = id
  · have hsame := route?_eq_some_of_mem hr hother
    rw [hid, hroute] at hsame
    cases hsame
    rw [if_pos (by simpa [Route.after] using hid), hchange]
  · have hpassed : Channel.passed other.id ≠ channel := by
      rcases hchannel with rfl | rfl <;> simp [hid]
    have hmatched : Channel.matched other.id ≠ channel := by
      rcases hchannel with rfl | rfl <;> simp [hid]
    rw [if_neg (by simpa [Route.after] using hid), Route.after, Route.after,
      putCounts_other counts hpassed, putCounts_other counts hmatched]

omit hr in
/-- A dispatch to one list, whatever its signal is put back into. -/
theorem dispatch_signal_after (channel : Channel) (event : String → Event α)
    {put : Signal → Router}
    (hput : ∀ n, put ((r.signal channel).after n) = r.after (putCounts counts channel n)) :
    (((r.after counts).signal channel).dispatch event).within put =
      (Delivery.forEach (call r.fails) (r.notices counts channel event) counts).within r.after := by
  rw [signal_after, Signal.dispatch_after, calls_notices]
  simp only [Delivery.within, hput]

/-- A dispatch to one list of a route, if that is still there. -/
theorem dispatch_route_after {id : RouteId} {channel : Channel}
    (hchannel : channel = .passed id ∨ channel = .matched id) (read : Route → Signal)
    (put : Signal → Route → Route) (event : String → Event α)
    (hsignal : ∀ s : Router, s.signal channel = ((s.route? id).map read).getD {})
    (hput : ∀ route : Route, route.id = id → ∀ n,
      put ((read route).after n) (route.after counts) =
        route.after (putCounts counts channel n)) :
    (match (r.after counts).route? id with
      | none => .done (r.after counts)
      | some route =>
        ((read route).dispatch event).within fun s => (r.after counts).modify id (put s)) =
      (Delivery.forEach (call r.fails) (r.notices counts channel event) counts).within r.after := by
  have hold := hsignal r
  have hnew := hsignal (r.after counts)
  rw [route?_after] at hnew ⊢
  cases hroute : r.route? id with
  | none =>
    rw [hroute] at hold
    rw [notices, hold]
    rfl
  | some route =>
    rw [hroute] at hold hnew
    simp only [Option.map_some, Option.getD_some] at hold hnew ⊢
    rw [← hnew]
    refine dispatch_signal_after counts channel event ?_
    intro n
    rw [hold]
    exact after_putCounts_route hr counts hroute n _ hchannel (hput route (route?_mem hroute).2 n)

theorem notifyPassed_after (request : String) (id : RouteId) :
    notifyPassed (α := α) request id (r.after counts) =
      (Delivery.forEach (call r.fails)
        (r.notices counts (.passed id) (Event.passed · request)) counts).within r.after := by
  refine dispatch_route_after hr counts (Or.inl rfl) Route.onPass Route.putPass
    (Event.passed · request) (fun _ => rfl) ?_
  rintro route rfl n
  have hmatch : Channel.matched route.id ≠ .passed route.id := by simp
  rw [Route.after, Route.after, putCounts_other counts hmatch, putCounts_same]
  rfl

theorem notifyRoute_after (extra : List α) (m : Match) :
    notifyRoute extra m (r.after counts) =
      (Delivery.forEach (call r.fails)
        (r.notices counts (.matched m.id) (Event.matched · extra m.arguments)) counts).within
          r.after := by
  refine dispatch_route_after hr counts (Or.inr rfl) Route.onMatch Route.putMatch
    (Event.matched · extra m.arguments) (fun _ => rfl) ?_
  intro route hid n
  have hpass : Channel.passed route.id ≠ .matched m.id := by simp
  rw [Route.after, Route.after, putCounts_other counts hpass, hid, putCounts_same]
  rfl

omit hr in
/-- New counts for a list of the router leave its routes alone. -/
theorem routes_putCounts {channel : Channel} (hchannel : channel = .routed ∨ channel = .bypassed)
    (n : Nat → Nat) :
    r.routes.map (Route.after (putCounts counts channel n)) =
      r.routes.map (Route.after counts) := by
  refine List.map_congr_left ?_
  intro route _
  have hpassed : Channel.passed route.id ≠ channel := by rcases hchannel with rfl | rfl <;> simp
  have hmatched : Channel.matched route.id ≠ channel := by rcases hchannel with rfl | rfl <;> simp
  rw [Route.after, Route.after, putCounts_other counts hpassed, putCounts_other counts hmatched]

omit hr in
theorem notifyRouter_after (extra : List α) (request : String) (m : Match) (isFirst : Bool) :
    notifyRouter extra request m isFirst (r.after counts) =
      (Delivery.forEach (call r.fails)
        (r.notices counts .routed (Event.routed · extra request m.id m.arguments isFirst))
          counts).within r.after := by
  refine dispatch_signal_after counts .routed
    (Event.routed · extra request m.id m.arguments isFirst) ?_
  intro n
  have hother : Channel.bypassed ≠ .routed := by simp
  rw [after, after, routes_putCounts counts (Or.inl rfl), putCounts_same,
    putCounts_other counts hother]
  rfl

omit hr in
theorem notifyBypassed_after (extra : List α) (request : String) :
    notifyBypassed extra request (r.after counts) =
      (Delivery.forEach (call r.fails)
        (r.notices counts .bypassed (Event.bypassed · extra request)) counts).within r.after := by
  refine dispatch_signal_after counts .bypassed (Event.bypassed · extra request) ?_
  intro n
  have hother : Channel.routed ≠ .bypassed := by simp
  rw [after, after, routes_putCounts counts (Or.inr rfl), putCounts_same,
    putCounts_other counts hother]
  rfl

/-- A match that its route has not heard of yet. -/
theorem notifyMatched_after (extra : List α) (request : String) {m : Match} {isFirst : Bool}
    (hroute : ∀ place, counts ⟨.matched m.id, place⟩ = 0) (hrouter : r.Heard counts isFirst) :
    notifyMatched extra request (m, isFirst) (r.after counts) =
      (Delivery.forEach (call r.fails) (r.matchPlanOf extra request (m, isFirst)) counts).within
        r.after := by
  rw [notifyMatched_eq, notifyRoute_after hr, notices_of_zero _ hroute, matchPlanOf,
    Delivery.forEach_append]
  refine Delivery.within_andThen _ r.after fun hquiet => ?_
  rw [notifyRouter_after, calls_state_of_quiet hquiet, Heard.notices_eq]
  refine hrouter.of_other_calls ?_
  intro n hn
  rw [channel_of_mem_roll hn]
  simp

/-! ## Whole phases -/

theorem passPhase_calls (hprevious : r.previous.Nodup) (request : String) :
    passPhase (α := α) request r =
      (Delivery.forEach (call r.fails) (r.passPlan request) fun _ => 0).within r.after := by
  -- Routes that are still to be told were not called in this parse.
  let Untold (ids : List RouteId) (counts : Seat → Nat) : Prop :=
    ids.Nodup ∧ ∀ id ∈ ids, ∀ place, counts ⟨.passed id, place⟩ = 0
  have hrow := Delivery.forEach_flatMap_within (notifyPassed (α := α) request) (call r.fails)
    (fun id => r.roll (.passed id) (fun _ => true) (.passed · request)) r.after (P := Untold) ?_
    r.previous (s := fun _ => 0) ⟨hprevious, fun _ _ _ => rfl⟩
  · rwa [after_zero] at hrow
  · rintro id ids counts ⟨hnodup, huntold⟩
    obtain ⟨hid, hids⟩ := List.nodup_cons.mp hnodup
    refine ⟨?_, fun hquiet => ⟨hids, ?_⟩⟩
    · rw [notifyPassed_after hr, notices_of_zero _ (huntold id List.mem_cons_self)]
    · intro other hother place
      rw [calls_state_of_quiet hquiet, tally_of_not_mem]
      · exact huntold other (List.mem_cons_of_mem _ hother) place
      · intro n hn hseat
        have hchannel := channel_of_mem_roll hn
        rw [hseat] at hchannel
        cases hchannel
        exact hid hother

/-- Matches that are still to be told, the first of them being the first of all or not. -/
structure ToTell (r : Router) (ms : List (Match × Bool)) (counts : Seat → Nat) : Prop where
  ids_nodup : (ms.map (·.1.id)).Nodup
  untold : ∀ m ∈ ms, ∀ place, counts ⟨.matched m.1.id, place⟩ = 0
  heard : ∀ m ∈ ms.head?, r.Heard counts m.2
  later : ∀ m ∈ ms.tail, m.2 = false

theorem forEach_notifyMatched_calls (extra : List α) (request : String) (ms : List (Match × Bool))
    (h : r.ToTell ms counts) :
    Delivery.forEach (notifyMatched extra request) ms (r.after counts) =
      (Delivery.forEach (call r.fails) (ms.flatMap (r.matchPlanOf extra request)) counts).within
        r.after := by
  refine Delivery.forEach_flatMap_within _ _ _ _ ?_ ms h
  rintro ⟨m, isFirst⟩ ms counts ⟨hnodup, huntold, hheard, hlater⟩
  obtain ⟨hm, hms⟩ := List.nodup_cons.mp hnodup
  have hheard : r.Heard counts isFirst := hheard _ rfl
  refine ⟨notifyMatched_after hr counts extra request (huntold _ List.mem_cons_self) hheard, ?_⟩
  intro hquiet
  rw [calls_state_of_quiet hquiet]
  refine ⟨hms, ?_, ?_, fun other hother => hlater other (List.mem_of_mem_tail hother)⟩
  · intro other hother place
    rw [tally_of_not_mem]
    · exact huntold other (List.mem_cons_of_mem _ hother) place
    · intro n hn hseat
      have hne : other.1.id ≠ m.id := fun heq => hm (List.mem_map.mpr ⟨other, hother, heq⟩)
      rcases List.mem_append.mp hn with hn | hn
      · have hchannel := channel_of_mem_roll hn
        rw [hseat] at hchannel
        exact hne (Channel.matched.inj hchannel)
      · have hchannel := channel_of_mem_roll hn
        rw [hseat] at hchannel
        cases hchannel
  · intro other hother
    rw [hlater other (List.mem_of_mem_head? hother), matchPlanOf, tally_append]
    refine Heard.next (hheard.of_other_calls ?_) _
    intro n hn
    rw [channel_of_mem_roll hn]
    simp

/-- The second phase, from a state in which no listener heard of a match yet. -/
theorem matchPhase_calls {ms : List Match} (hms : (ms.map (·.id)).Nodup) (extra : List α)
    (request : String)
    (hmatched : ∀ seat, seat.channel.ofMatch = true → counts seat = 0) :
    matchPhase extra request ms (r.after counts) =
      (Delivery.forEach (call r.fails) (r.matchPlan extra request ms) counts).within
        (after { r with previous := ms.map (·.id) }) := by
  refine forEach_notifyMatched_calls (r := { r with previous := ms.map (·.id) }) hr counts extra
    request (markFirst ms)
    ⟨(map_id_markFirst ms).symm ▸ hms, fun _ _ _ => hmatched _ rfl, ?_, ?_⟩
  · intro m hm
    cases ms with
    | nil => cases hm
    | cons first ms =>
      cases hm
      exact fun _ => hmatched _ rfl
  · intro m hm
    cases ms with
    | nil => cases hm
    | cons first ms =>
      obtain ⟨other, -, rfl⟩ := List.mem_map.mp hm
      rfl

end

/-! ## Parses -/

theorem channel_of_mem_passPlan {r : Router} {request : String} {n : Notice Seat (Event α)}
    (h : n ∈ r.passPlan request) : n.seat.channel.ofMatch = false := by
  obtain ⟨id, -, hn⟩ := List.mem_flatMap.mp h
  rw [channel_of_mem_roll hn]
  rfl

theorem channel_of_mem_matchPlan {r : Router} {extra : List α} {request : String}
    {ms : List Match} {n : Notice Seat (Event α)} (h : n ∈ r.matchPlan extra request ms) :
    n.seat.channel.ofMatch = true := by
  obtain ⟨m, -, hn⟩ := List.mem_flatMap.mp h
  rcases List.mem_append.mp hn with hn | hn
  · rw [channel_of_mem_roll hn]
    rfl
  · rw [channel_of_mem_roll hn]
    rfl

/-- The router behind these calls, with this result remembered. -/
def behind (r : Router) (calls : List (Notice Seat (Event α))) (previous : List RouteId) : Router :=
  { r.after (tally (fun _ => 0) calls) with previous }

theorem plan_of_ne_nil (r : Router) (request : String) (extra : List α) {ms : List Match}
    (h : ms ≠ []) : r.plan request extra ms = r.passPlan request ++ r.matchPlan extra request ms := by
  obtain ⟨m, ms, rfl⟩ := List.exists_cons_of_ne_nil h
  rfl

/-- How a parse goes through its plan: `asked` are the calls to predicates before it, and `d` is
what came of the parse.  Either no call fails and all are made, or they are made up to the first
that fails, and then the new result is remembered if that call was about a match. -/
def Follows (r : Router) (plan : List (Notice Seat (Event α))) (asked : List (Event α))
    (ms : List Match) (d : Delivery (Event α) Router) : Prop :=
  (Unfailing r.fails (fun _ => 0) plan ∧
    d = ⟨r.behind plan (if ms.isEmpty then r.previous else ms.map (·.id)),
      asked ++ plan.map (·.event), none⟩) ∨
  ∃ earlier last later reason, plan = earlier ++ last :: later ∧
    Unfailing r.fails (fun _ => 0) earlier ∧
    r.fails last.seat (tally (fun _ => 0) earlier last.seat) = some reason ∧
    d = ⟨r.behind (earlier ++ [last])
        (if last.seat.channel.ofMatch then ms.map (·.id) else r.previous),
      asked ++ (earlier ++ [last]).map (·.event), some reason⟩

theorem Follows.after {r : Router} {plan : List (Notice Seat (Event α))} {ms : List Match}
    {d : Delivery (Event α) Router} (h : r.Follows plan [] ms d) (asked : List (Event α)) :
    r.Follows plan asked ms (d.after asked) := by
  rcases h with ⟨hall, rfl⟩ | ⟨earlier, last, later, reason, hplan, hearlier, hlast, rfl⟩
  · exact Or.inl ⟨hall, rfl⟩
  · exact Or.inr ⟨earlier, last, later, reason, hplan, hearlier, hlast, rfl⟩

theorem bypass_follows (r : Router) (request : String) (extra : List α) :
    r.Follows (r.plan request extra []) [] [] (notifyBypassed extra request r) := by
  have hstart := notifyBypassed_after (r := r) (fun _ => 0) extra request
  rw [after_zero, notices_of_zero _ fun _ => rfl] at hstart
  rw [hstart]
  rcases calls_cases r.fails (r.plan request extra []) fun _ => 0 with
    ⟨hf, he, hs, hall⟩ | ⟨earlier, last, later, reason, hplan, hf, he, hs, hlast, hearlier⟩
  · refine Or.inl ⟨hall, ?_⟩
    rw [plan] at hf he hs
    simp only [Delivery.within, hf, he, hs]
    rfl
  · have hmem : last ∈ r.plan request extra [] :=
      hplan ▸ List.mem_append_right _ List.mem_cons_self
    rw [plan] at hmem
    have hchannel : last.seat.channel = .bypassed := channel_of_mem_roll hmem
    refine Or.inr ⟨earlier, last, later, reason, hplan, hearlier, hlast, ?_⟩
    rw [plan] at hf he hs
    simp only [Delivery.within, hf, he, hs, hchannel]
    rfl

theorem phases_follow {r : Router} (hr : r.Sound) {request : String} {ms : List Match}
    (h : (r.matches? request).result = .ok ms) (hne : ms ≠ []) (extra : List α) :
    r.Follows (r.plan request extra ms) [] ms
      ((passPhase request r).andThen (matchPhase extra request ms)) := by
  rw [passPhase_calls hr.ids_nodup hr.previous_nodup, plan_of_ne_nil r request extra hne]
  rcases calls_cases r.fails (r.passPlan (α := α) request) fun _ => 0 with
    ⟨hf, he, hs, hall⟩ | ⟨earlier, last, later, reason, hplan, hf, he, hs, hlast, hearlier⟩
  · have hmatched : ∀ seat, seat.channel.ofMatch = true →
        tally (fun _ => 0) (r.passPlan (α := α) request) seat = 0 := by
      intro seat hseat
      refine tally_of_not_mem _ ?_
      rintro n hn rfl
      rw [channel_of_mem_passPlan hn] at hseat
      cases hseat
    have hphase := matchPhase_calls hr.ids_nodup (tally (fun _ => 0) (r.passPlan (α := α) request))
      (matches?_nodup hr h) extra request hmatched
    rcases calls_cases r.fails (r.matchPlan extra request ms)
        (tally (fun _ => 0) (r.passPlan (α := α) request)) with
      ⟨hf', he', hs', hall'⟩ | ⟨earlier, last, later, reason, hplan, hf', he', hs', hlast, hearlier⟩
    · refine Or.inl ⟨hall.append hall', ?_⟩
      simp only [Delivery.andThen, Delivery.within, hf, hs, hphase, he, hf', he', hs', behind,
        tally_append, List.map_append]
      simp [hne]
      rfl
    · have hchannel : last.seat.channel.ofMatch = true :=
        channel_of_mem_matchPlan (hplan ▸ List.mem_append_right _ List.mem_cons_self : last ∈ _)
      refine Or.inr ⟨r.passPlan request ++ earlier, last, later, reason, ?_, hall.append hearlier,
        ?_, ?_⟩
      · rw [hplan, List.append_assoc]
      · rwa [tally_append]
      · simp only [Delivery.andThen, Delivery.within, hf, hs, hphase, he, hf', he', hs', behind,
          tally_append, List.map_append, List.append_assoc, hchannel]
        rfl
  · have hchannel : last.seat.channel.ofMatch = false :=
      channel_of_mem_passPlan (hplan ▸ List.mem_append_right _ List.mem_cons_self : last ∈ _)
    refine Or.inr ⟨earlier, last, later ++ r.matchPlan extra request ms, reason, ?_, hearlier,
      hlast, ?_⟩
    · rw [hplan, List.append_assoc, List.cons_append]
    · rw [Delivery.andThen_of_failure _ (by simp [Delivery.within, hf])]
      simp only [Delivery.within, hf, he, hs, hchannel]
      rfl

/-- A parse that comes to its listeners goes through its plan, call by call. -/
theorem parse_follows {r : Router} (hr : r.Sound) {request : String} {ms : List Match}
    (h : (r.matches? request).result = .ok ms) (extra : List α) :
    r.Follows (r.plan request extra ms) ((r.matches? request).calls.map .predicate) ms
      (r.parse request extra) := by
  cases ms with
  | nil =>
    rw [parse_of_no_match h]
    exact (bypass_follows r request extra).after _
  | cons m ms =>
    rw [parse_of_matches h (List.cons_ne_nil m ms)]
    exact (phases_follow hr h (List.cons_ne_nil m ms) extra).after _

end Router

end RouteDispatch
