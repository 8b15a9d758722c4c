/-
# A table is applied as a whole or not at all

Putting a table into a router takes two rounds.  The first compiles the rules and
looks at nothing else; the second registers the entries and cannot fail.  So an
error leaves the router as it was, also where the work is done on the router itself
(`applyInPlace_eq`), and the error is about the first rule that does not compile.

An entry that is registered is a route that is added and then changed like any
other (`register_eq_run`), so applying a table comes to a run of ordinary operations.

All of this holds of any engine.  Which expressions it rejects is up to it; that of the
library is one of them.
-/
import Mathlib.Data.List.Forall2
import RouteDispatch.Proofs.Router.Ledger
import RouteDispatch.Proofs.Router.RuleOrder

namespace RouteDispatch

open Text

/-! ## What does not compile -/

/-- Either all succeed, or there is a first that fails, and its failure is that of all. -/
theorem mapM_cases {ε β γ : Type} {f : β → Except ε γ} {R : β → γ → Prop} {Bad : β → ε → Prop}
    (hf : ∀ b, (∃ c, f b = .ok c ∧ R b c) ∨ ∃ e, f b = .error e ∧ Bad b e) (bs : List β) :
    (∃ cs, bs.mapM f = .ok cs ∧ List.Forall₂ R bs cs) ∨
      ∃ front b back e, bs = front ++ b :: back ∧ (∀ a ∈ front, ∃ c, R a c) ∧ Bad b e ∧
        bs.mapM f = .error e := by
  induction bs with
  | nil => exact Or.inl ⟨[], rfl, .nil⟩
  | cons b bs ih =>
    rw [List.mapM_cons]
    rcases hf b with ⟨c, hc, hR⟩ | ⟨e, he, hbad⟩
    · rcases ih with ⟨cs, hcs, hall⟩ | ⟨front, a, back, e, rfl, hfront, hbad, he⟩
      · refine Or.inl ⟨c :: cs, ?_, .cons hR hall⟩
        rw [hc, hcs]
        rfl
      · refine Or.inr ⟨b :: front, a, back, e, rfl, ?_, hbad, ?_⟩
        · intro other hother
          rcases List.mem_cons.mp hother with rfl | hother
          · exact ⟨c, hR⟩
          · exact hfront other hother
        · rw [hc, he]
          rfl
    · refine Or.inr ⟨[], b, bs, e, rfl, fun _ ha => absurd ha List.not_mem_nil,
        hbad, ?_⟩
      rw [he]
      rfl

section
variable (engine : Regex.Engine)

/-- The rule is an expression that does not compile. -/
def RuleSource.Invalid : RuleSource → Prop
  | .pattern source => ∃ rejection, engine source = .error rejection
  | .oneOf _ => False

theorem RuleSource.invalid_iff (source : RuleSource) :
    source.Invalid engine ↔ ∃ rejection, source.compile engine = .error rejection := by
  cases source with
  | oneOf allowed =>
    refine iff_of_false id ?_
    rintro ⟨rejection, h⟩
    cases h
  | pattern source =>
    rw [RuleSource.Invalid, RuleSource.compile, Rule.ofSource]
    cases engine source with
    | ok re =>
      refine exists_congr fun rejection => iff_of_false ?_ ?_
      · intro h
        cases h
      · intro h
        cases h
    | error rejection => exact iff_of_true ⟨rejection, rfl⟩ ⟨rejection, rfl⟩

/-- This is the rule, compiled, under its name. -/
def CompiledRule (source : String × RuleSource) (rule : String × Rule) : Prop :=
  rule.1 = source.1 ∧ source.2.compile engine = .ok rule.2

namespace RouteEntry

/-- No rule of the entry is an expression that does not compile. -/
def Valid (entry : RouteEntry) : Prop := ∀ rule ∈ entry.rules, ¬ rule.2.Invalid engine

/-- These are the rules of the entry, compiled. -/
def CompilesTo (entry : RouteEntry) (rules : List (String × Rule)) : Prop :=
  List.Forall₂ (CompiledRule engine) entry.rules rules

/-- This is the failure of the entry: it is about the first rule that does not compile. -/
def FailsWith (entry : RouteEntry) (e : InvalidRule) : Prop :=
  ∃ earlier name source later, entry.rules = earlier ++ (name, source) :: later ∧
    (∀ rule ∈ earlier, ¬ rule.2.Invalid engine) ∧ source.Invalid engine ∧
      e = ⟨name, entry.pattern⟩

/-- One rule of the entry, compiled. -/
def compileRule (entry : RouteEntry) (rule : String × RuleSource) :
    Except InvalidRule (String × Rule) :=
  match rule.2.compile engine with
  | .ok compiled => .ok (rule.1, compiled)
  | .error _ => .error ⟨rule.1, entry.pattern⟩

end RouteEntry

/-- These are the entries of the table, each with its rules compiled. -/
def RouteTable.CompilesTo (t : RouteTable) (compiled : List (RouteEntry × List (String × Rule))) :
    Prop :=
  List.Forall₂ (fun entry p => p.1 = entry ∧ entry.CompilesTo engine p.2) t.routes compiled

end

variable {engine : Regex.Engine}

theorem CompiledRule.valid {source : String × RuleSource} {rule : String × Rule}
    (h : CompiledRule engine source rule) : ¬ source.2.Invalid engine := by
  rw [RuleSource.invalid_iff, h.2]
  rintro ⟨rejection, he⟩
  cases he

namespace RouteEntry

theorem CompilesTo.valid {entry : RouteEntry} {rules : List (String × Rule)}
    (h : entry.CompilesTo engine rules) : entry.Valid engine :=
  ((List.forall₂_and_left _ _).mp (h.imp fun _ _ hrule => ⟨hrule.valid, hrule⟩)).1

/-- Compiling keeps the names, and with them their order. -/
theorem CompilesTo.ordered {entry : RouteEntry} {rules : List (String × Rule)}
    (h : entry.CompilesTo engine rules) :
    (rules.map fun rule => bytes rule.1).Pairwise (· < ·) := by
  have hnames : List.Forall₂ (· = ·) (entry.rules.map fun rule => bytes rule.1)
      (rules.map fun rule => bytes rule.1) :=
    List.forall₂_map_left_iff.mpr (List.forall₂_map_right_iff.mpr
      (h.imp fun _ _ hrule => congrArg bytes hrule.1.symm))
  rw [List.forall₂_eq_eq_eq] at hnames
  exact hnames ▸ entry.ordered

theorem compileRules_eq (entry : RouteEntry) :
    entry.compileRules engine = entry.rules.mapM (entry.compileRule engine) := rfl

theorem compileRule_cases (entry : RouteEntry) (rule : String × RuleSource) :
    (∃ compiled, entry.compileRule engine rule = .ok compiled ∧
        CompiledRule engine rule compiled) ∨
      ∃ e, entry.compileRule engine rule = .error e ∧
        rule.2.Invalid engine ∧ e = ⟨rule.1, entry.pattern⟩ := by
  rw [compileRule]
  cases hrule : rule.2.compile engine with
  | ok compiled => exact Or.inl ⟨(rule.1, compiled), rfl, rfl, hrule⟩
  | error rejection =>
    exact Or.inr ⟨_, rfl, (rule.2.invalid_iff engine).mpr ⟨rejection, hrule⟩, rfl⟩

theorem compileRules_cases (entry : RouteEntry) :
    (∃ rules, entry.compileRules engine = .ok rules ∧ entry.CompilesTo engine rules) ∨
      ∃ e, entry.compileRules engine = .error e ∧ entry.FailsWith engine e := by
  rw [compileRules_eq]
  rcases mapM_cases entry.compileRule_cases entry.rules with hok |
    ⟨earlier, ⟨name, source⟩, later, e, hsplit, hearlier, ⟨hinvalid, rfl⟩, he⟩
  · exact Or.inl hok
  · refine Or.inr ⟨_, he, earlier, name, source, later, hsplit, ?_, hinvalid, rfl⟩
    intro rule hrule
    obtain ⟨compiled, hcompiled⟩ := hearlier rule hrule
    exact hcompiled.valid

/-- The first rule that does not compile has the least name of all that do not. -/
theorem FailsWith.least {entry : RouteEntry} {e : InvalidRule} (h : entry.FailsWith engine e) :
    ∃ source, (e.name, source) ∈ entry.rules ∧ source.Invalid engine ∧
      e.pattern = entry.pattern ∧
        ∀ rule ∈ entry.rules, bytes rule.1 < bytes e.name → ¬ rule.2.Invalid engine := by
  obtain ⟨earlier, name, source, later, hsplit, hearlier, hinvalid, rfl⟩ := h
  refine ⟨source, ?_, hinvalid, rfl, ?_⟩
  · rw [hsplit]
    exact List.mem_append_right _ List.mem_cons_self
  · intro rule hrule hlt
    have hordered := entry.ordered
    rw [Ordered, hsplit, List.map_append, List.map_cons] at hordered
    obtain ⟨hnext, -⟩ := List.pairwise_cons.mp (List.pairwise_append.mp hordered).2.1
    rw [hsplit] at hrule
    rcases List.mem_append.mp hrule with hbefore | hbehind
    · exact hearlier rule hbefore
    · exfalso
      rcases List.mem_cons.mp hbehind with rfl | hbehind
      · exact List.lt_irrefl _ hlt
      · exact List.lt_asymm hlt (hnext _ (List.mem_map_of_mem hbehind))

end RouteEntry

namespace RouteTable

/-- Either all rules of a table compile and all entries are registered, or the failure is that of
the first entry that has one. -/
theorem apply_first (t : RouteTable) (r : Router) :
    (∃ compiled, t.apply r engine = .ok (registerAll compiled r) ∧ t.CompilesTo engine compiled) ∨
      ∃ front entry back e, t.routes = front ++ entry :: back ∧
        (∀ other ∈ front, other.Valid engine) ∧
          entry.FailsWith engine e ∧ t.apply r engine = .error e := by
  have hentry : ∀ entry : RouteEntry,
      (∃ p, (do return (entry, ← entry.compileRules engine) : Except InvalidRule _) = .ok p ∧
        p.1 = entry ∧ entry.CompilesTo engine p.2) ∨
      ∃ e, (do return (entry, ← entry.compileRules engine) : Except InvalidRule _) = .error e ∧
        entry.FailsWith engine e := by
    intro entry
    rcases entry.compileRules_cases with ⟨rules, hok, hrules⟩ | ⟨e, he, hfails⟩
    · rw [hok]
      exact Or.inl ⟨(entry, rules), rfl, rfl, hrules⟩
    · rw [he]
      exact Or.inr ⟨e, rfl, hfails⟩
  rw [apply]
  rcases mapM_cases hentry t.routes with ⟨compiled, hok, hall⟩ |
    ⟨front, entry, back, e, hsplit, hfront, hfails, he⟩
  · rw [hok]
    exact Or.inl ⟨compiled, rfl, hall⟩
  · rw [he]
    refine Or.inr ⟨front, entry, back, e, hsplit, ?_, hfails, rfl⟩
    intro other hother
    obtain ⟨p, -, hrules⟩ := hfront other hother
    exact hrules.valid

theorem CompilesTo.valid {t : RouteTable} {compiled : List (RouteEntry × List (String × Rule))}
    (h : t.CompilesTo engine compiled) : ∀ entry ∈ t.routes, entry.Valid engine :=
  ((List.forall₂_and_left _ _).mp (h.imp fun _ _ hentry => ⟨hentry.2.valid, hentry⟩)).1

theorem CompilesTo.ordered {t : RouteTable} {compiled : List (RouteEntry × List (String × Rule))}
    (h : t.CompilesTo engine compiled) :
    ∀ p ∈ compiled, (p.2.map fun rule => bytes rule.1).Pairwise (· < ·) :=
  ((List.forall₂_and_left _ _).mp
    (h.flip.imp fun _ _ hentry => ⟨hentry.2.ordered, hentry⟩)).1

end RouteTable

/-! ## By hand -/

namespace Router

variable {α : Type}

theorem modify_modify (r : Router) (id : RouteId) {f : Route → Route} (g : Route → Route)
    (hf : ∀ route, (f route).id = route.id) :
    (r.modify id f).modify id g = r.modify id fun route => g (f route) := by
  simp only [modify, List.map_map]
  congr 1
  refine List.map_congr_left ?_
  intro route _
  simp only [Function.comp]
  by_cases h : route.id = id <;> simp [h, hf]

theorem modify_self (r : Router) (id : RouteId) : r.modify id (fun route => route) = r := by
  simp only [modify, ite_self, List.map_id']

theorem run_addRules (r : Router) (id : RouteId) (rules : List (String × Rule)) :
    r.run (rules.map fun rule => (.change id (.addRule rule.1 rule.2) : Operation α)) =
      r.modify id fun route => route.addRules rules := by
  induction rules generalizing r with
  | nil => exact (r.modify_self id).symm
  | cons rule rules ih =>
    refine (ih (r.modify id fun route => route.addRule rule.1 rule.2)).trans ?_
    refine modify_modify _ _ _ ?_
    exact fun _ => rfl

end Router

variable {α : Type}

/-- What it takes to register an entry by hand: the route is added, and then it gets its greed and
its rules, one after the other. -/
def RouteEntry.steps (entry : RouteEntry) (id : RouteId) (rules : List (String × Rule)) :
    List (Operation α) :=
  .add (.template entry.pattern) entry.priority :: .change id (.setGreedy entry.greedy) ::
    rules.map fun rule => .change id (.addRule rule.1 rule.2)

theorem RouteEntry.register_eq_run (entry : RouteEntry) (rules : List (String × Rule))
    (r : Router) :
    entry.register rules r =
      (⟨r.nextId⟩, r.run (entry.steps ⟨r.nextId⟩ rules : List (Operation α))) := by
  refine congrArg (Prod.mk _) (Eq.symm ?_)
  refine (Router.run_addRules _ ⟨r.nextId⟩ rules).trans ?_
  refine Router.modify_modify _ _ _ ?_
  exact fun _ => rfl

namespace RouteTable

/-- What it takes to register entries by hand, the first of them getting this number. -/
def steps : Nat → List (RouteEntry × List (String × Rule)) → List (Operation α)
  | _, [] => []
  | next, (entry, rules) :: compiled => entry.steps ⟨next⟩ rules ++ steps (next + 1) compiled

theorem registerAll_eq_run (compiled : List (RouteEntry × List (String × Rule))) (r : Router) :
    registerAll compiled r = ((List.range' r.nextId compiled.length).map RouteId.mk,
      r.run (steps r.nextId compiled : List (Operation α))) := by
  have hstate : (registerAll compiled r).2 =
      r.run (steps r.nextId compiled : List (Operation α)) := by
    induction compiled generalizing r with
    | nil => rfl
    | cons first compiled ih =>
      have hfirst : (first.1.register first.2 r).2 =
          r.run (first.1.steps ⟨r.nextId⟩ first.2 : List (Operation α)) :=
        congrArg Prod.snd (first.1.register_eq_run first.2 r)
      have hrest := ih (first.1.register first.2 r).2
      have hnext : (first.1.register first.2 r).2.nextId = r.nextId + 1 := rfl
      rw [hnext] at hrest
      rw [steps, Router.run_append, ← hfirst, ← hrest]
      rfl
  exact Prod.ext (Router.registerAll_ids compiled r).1 hstate

end RouteTable

/-! ## On the router itself -/

/-- Compiles the rules of an entry while there is a router at hand. -/
def RouteEntry.compileInPlace (engine : Regex.Engine) (entry : RouteEntry) :
    EStateM InvalidRule Router (List (String × Rule)) :=
  entry.rules.mapM fun (name, source) =>
    match source.compile engine with
    | .ok rule => return (name, rule)
    | .error _ => throw ⟨name, entry.pattern⟩

/-- Registers an entry on the router at hand, one change after the other. -/
def RouteEntry.registerInPlace (entry : RouteEntry) (rules : List (String × Rule)) :
    EStateM InvalidRule Router RouteId := do
  let id ← modifyGet fun r => r.add (.template entry.pattern) entry.priority
  modify fun r => r.modify id fun route => { route with greedy := entry.greedy }
  rules.forM fun (name, rule) => modify fun r => r.modify id fun route => route.addRule name rule
  return id

/-- Applies a table to the router at hand, which keeps all changes made so far where there is an
error. -/
def RouteTable.applyInPlace (t : RouteTable) (engine : Regex.Engine := Regex.compile) :
    EStateM InvalidRule Router (List RouteId) := do
  let compiled ← t.routes.mapM fun entry => do return (entry, ← entry.compileInPlace engine)
  compiled.mapM fun (entry, rules) => entry.registerInPlace rules

/-- The result, with the state as it was. -/
def unmoved {ε σ β : Type} (result : Except ε β) (s : σ) : EStateM.Result ε σ β :=
  match result with
  | .ok b => .ok b s
  | .error e => .error e s

theorem mapM_unmoved {ε σ β γ : Type} {f : β → Except ε γ} {g : β → EStateM ε σ γ}
    (h : ∀ b s, (g b).run s = unmoved (f b) s) (bs : List β) (s : σ) :
    (bs.mapM g).run s = unmoved (bs.mapM f) s := by
  induction bs with
  | nil => rfl
  | cons b bs ih =>
    rw [List.mapM_cons, List.mapM_cons, EStateM.run_bind, h]
    cases f b with
    | error e => rfl
    | ok c =>
      simp only [unmoved]
      rw [EStateM.run_bind, ih]
      cases bs.mapM f <;> rfl

namespace RouteEntry

theorem compileInPlace_eq (entry : RouteEntry) (r : Router) :
    (entry.compileInPlace engine).run r = unmoved (entry.compileRules engine) r := by
  refine mapM_unmoved ?_ entry.rules r
  intro rule s
  simp only
  cases rule.2.compile engine <;> rfl

theorem forM_addRule (id : RouteId) (rules : List (String × Rule)) (r : Router) :
    (rules.forM fun rule => (modify fun s : Router => s.modify id fun route =>
      route.addRule rule.1 rule.2 : EStateM InvalidRule Router PUnit)).run r =
      .ok ⟨⟩ (r.modify id fun route => route.addRules rules) := by
  induction rules generalizing r with
  | nil => exact congrArg (EStateM.Result.ok _) (r.modify_self id).symm
  | cons rule rules ih =>
    refine (ih (r.modify id fun route => route.addRule rule.1 rule.2)).trans ?_
    refine congrArg (EStateM.Result.ok _) (Router.modify_modify _ _ _ ?_)
    exact fun _ => rfl

theorem registerInPlace_eq (entry : RouteEntry) (rules : List (String × Rule)) (r : Router) :
    (entry.registerInPlace rules).run r =
      .ok (entry.register rules r).1 (entry.register rules r).2 := by
  let added := r.add (.template entry.pattern) entry.priority
  let greedy := added.2.modify added.1 fun route => { route with greedy := entry.greedy }
  have hrest : (entry.registerInPlace rules).run r =
      (do
        rules.forM fun rule => modify fun s : Router => s.modify added.1 fun route =>
          route.addRule rule.1 rule.2
        return added.1 : EStateM InvalidRule Router RouteId).run greedy := rfl
  rw [hrest, EStateM.run_bind, forM_addRule]
  refine congrArg (EStateM.Result.ok added.1) (Router.modify_modify _ _ _ ?_)
  exact fun _ => rfl

end RouteEntry

namespace RouteTable

theorem registerAll_inPlace (compiled : List (RouteEntry × List (String × Rule))) (r : Router) :
    (compiled.mapM (fun (entry, rules) => entry.registerInPlace rules :
      RouteEntry × List (String × Rule) → EStateM InvalidRule Router RouteId)).run r =
      .ok (registerAll compiled r).1 (registerAll compiled r).2 := by
  induction compiled generalizing r with
  | nil => rfl
  | cons first compiled ih =>
    rw [List.mapM_cons, EStateM.run_bind, RouteEntry.registerInPlace_eq]
    simp only
    rw [EStateM.run_bind, ih]
    rfl

/-- Nothing is done to the router before all rules have compiled. -/
theorem applyInPlace_eq (t : RouteTable) (r : Router) :
    (t.applyInPlace engine).run r =
      match t.apply r engine with
      | .ok (ids, after) => .ok ids after
      | .error e => .error e r := by
  have hcompile : ∀ (entry : RouteEntry) (s : Router),
      (do return (entry, ← entry.compileInPlace engine) : EStateM InvalidRule Router _).run s =
        unmoved (do return (entry, ← entry.compileRules engine)) s := by
    intro entry s
    rw [EStateM.run_bind, entry.compileInPlace_eq]
    cases entry.compileRules engine <;> rfl
  rw [applyInPlace, EStateM.run_bind, mapM_unmoved hcompile, apply]
  cases t.routes.mapM fun entry => do return (entry, ← entry.compileRules engine) with
  | error e => rfl
  | ok compiled => exact registerAll_inPlace compiled r

/-- Whatever engine compiles the expressions, a table is applied as a whole or not at all, and as a
whole it does what can be done by hand, where the rules of an entry come in the order of the bytes
of their names. -/
theorem apply_whole_or_not (engine : Regex.Engine) (t : RouteTable) (r : Router) :
    ((∃ entry ∈ t.routes, ∃ rule ∈ entry.rules, rule.2.Invalid engine) →
      ∃ front entry back name source, t.routes = front ++ entry :: back ∧
        (∀ other ∈ front, ∀ rule ∈ other.rules, ¬ rule.2.Invalid engine) ∧
        (name, source) ∈ entry.rules ∧ source.Invalid engine ∧
        (∀ rule ∈ entry.rules, bytes rule.1 < bytes name → ¬ rule.2.Invalid engine) ∧
        let e : InvalidRule := ⟨name, entry.pattern⟩
        e.message = "Invalid rule '" ++ name ++ "' on route '" ++ entry.pattern ++ "'" ∧
          t.apply r engine = .error e ∧ (t.applyInPlace engine).run r = .error e r) ∧
      ((∀ entry ∈ t.routes, ∀ rule ∈ entry.rules, ¬ rule.2.Invalid engine) →
        ∃ compiled, t.CompilesTo engine compiled ∧
          (∀ p ∈ compiled, (p.2.map fun rule => bytes rule.1).Pairwise (· < ·)) ∧
          let ids := (List.range' r.nextId t.routes.length).map RouteId.mk
          let after := r.run (steps r.nextId compiled : List (Operation α))
          t.apply r engine = .ok (ids, after) ∧
            (t.applyInPlace engine).run r = .ok ids after) := by
  rw [applyInPlace_eq]
  rcases t.apply_first r with ⟨compiled, hok, hcompiled⟩ |
    ⟨front, entry, back, e, hsplit, hfront, hfails, he⟩
  · refine ⟨?_, fun _ => ⟨compiled, hcompiled, hcompiled.ordered, ?_⟩⟩
    · rintro ⟨entry, hentry, rule, hrule, hinvalid⟩
      exact (hcompiled.valid entry hentry rule hrule hinvalid).elim
    · have hlength : compiled.length = t.routes.length := hcompiled.length_eq.symm
      rw [hok, registerAll_eq_run (α := α), hlength]
      exact ⟨rfl, rfl⟩
  · have hentry : entry ∈ t.routes := hsplit ▸ List.mem_append_right _ List.mem_cons_self
    obtain ⟨source, hrule, hinvalid, hpattern, hleast⟩ := hfails.least
    have hname : e = ⟨e.name, entry.pattern⟩ := by rw [← hpattern]
    refine ⟨fun _ => ?_, fun hvalid => (hvalid entry hentry _ hrule hinvalid).elim⟩
    refine ⟨front, entry, back, e.name, source, hsplit, hfront, hrule, hinvalid, hleast, rfl, ?_⟩
    rw [he, ← hname]
    exact ⟨rfl, rfl⟩

/-- Two entries, of which the second has rules that do not compile. -/
def unbalanced : RouteTable where
  routes := [{ pattern := "/news/:id:", priority := 1, rules := [("id", .pattern "^[0-9]+$")] },
    { pattern := "/:section:/:slug:", greedy := true,
      rules := [("section", .oneOf ["news"]), ("slug", .pattern "(")] }]

theorem apply_whole_or_not_unbalanced :
    (∃ e : InvalidRule, unbalanced.apply { nextId := 3 } = .error e ∧
        unbalanced.applyInPlace.run { nextId := 3 } = .error e { nextId := 3 }) ∧
      ∃ after, RouteTable.apply ⟨none, unbalanced.routes.take 1⟩ { nextId := 3 } =
        .ok ([⟨3⟩], after) := by
  have hslug : (RuleSource.pattern "(").Invalid Regex.compile := by
    have hfails : (Regex.compile "(").isOk = false := by decide +kernel
    cases h : Regex.compile "(" with
    | ok re =>
      rw [h] at hfails
      cases hfails
    | error rejection => exact ⟨rejection, h⟩
  have hid : ¬ (RuleSource.pattern "^[0-9]+$").Invalid Regex.compile := by
    have hok : (Regex.compile "^[0-9]+$").isOk = true := by decide +kernel
    rintro ⟨rejection, h⟩
    rw [h] at hok
    cases hok
  obtain ⟨hnot, -⟩ := apply_whole_or_not (α := Unit) Regex.compile unbalanced { nextId := 3 }
  obtain ⟨_, _, _, _, _, -, -, -, -, -, -, he, hplace⟩ :=
    hnot ⟨_, List.mem_cons_of_mem _ List.mem_cons_self, ("slug", .pattern "("),
      List.mem_cons_of_mem _ List.mem_cons_self, hslug⟩
  obtain ⟨-, hwhole⟩ := apply_whole_or_not (α := Unit) Regex.compile
    ⟨none, unbalanced.routes.take 1⟩ { nextId := 3 }
  obtain ⟨_, -, -, hall, -⟩ := hwhole (by simpa [unbalanced] using hid)
  exact ⟨⟨_, he, hplace⟩, _, hall⟩

end RouteTable

end RouteDispatch
