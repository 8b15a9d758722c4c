/-
# Two keys for one part

A rule may be given under the name of the part that it concerns, or under the number of
its place.  Both keys lead to the same value (`Params.get_declared`,
`Params.get_position`), so it makes no difference which of them is taken, but for one
thing: an optional part that is absent or empty excuses the rule under its name only.
Under its number the rule is asked even then (`Template.accepts_by_either_key`), and one
that no absent value passes refuses the request (`Template.position_not_excused`).
-/
import RouteDispatch.Proofs.Router.RuleMap
import RouteDispatch.Proofs.Template.Refilling
import RouteDispatch.Proofs.Template.Room

namespace RouteDispatch

/-! ## Keys -/

theorem isDigit_of_mem_toString {n : Nat} {c : Char} (h : c ∈ (toString n).toList) :
    c.isDigit = true := by
  rw [Nat.toString_eq_repr, Nat.toList_repr] at h
  exact Nat.isDigit_of_mem_toDigits (by decide) (by decide) h

theorem not_isDigit_of_isAlpha {c : Char} (h : c.isAlpha = true) : ¬ c.isDigit = true := by
  have hletter : 65 ≤ c.toNat := by
    rcases Bool.or_eq_true_iff.mp h with hlarge | hsmall
    · exact (of_decide_eq_true hlarge).1
    · have hfrom : 97 ≤ c.toNat := of_decide_eq_true (Bool.and_eq_true_iff.mp hsmall).1
      omega
  rw [Char.isDigit_iff_toNat]
  rintro ⟨-, hdigit⟩
  exact absurd (Nat.le_trans hletter hdigit) (by decide)

/-- A position is read as it is written, unless it is too large for a position. -/
theorem position?_toString {n : Nat} (h : n < UInt64.size) : position? (toString n) = some n := by
  have hdecimal : Text.decimal (Nat.toDigits 10 n) = n :=
    Nat.ofDigitChars_ten_toDigits
  have hdigits : ∀ c ∈ Nat.toDigits 10 n, c.isDigit = true :=
    fun c hc => Nat.isDigit_of_mem_toDigits (by decide) (by decide) hc
  rw [position?, Nat.toString_eq_repr, Nat.toList_repr]
  split
  · next digits hsign => exact absurd (hdigits '+' (hsign ▸ List.mem_cons_self)) (by decide)
  · rw [if_neg, hdecimal]
    rw [List.isEmpty_iff, hdecimal, List.all_eq_true]
    rintro (hempty | hother | hlarge)
    · exact Nat.toDigits_ne_nil hempty
    · exact hother hdigits
    · exact Nat.not_le.mpr h hlarge

namespace Params

/-- A number that is no name stands for the place that it numbers. -/
theorem get_position {p : Params} {n : Nat} (h : n < UInt64.size) (hids : toString n ∉ p.ids) :
    p.get (toString n) = p.getIndex n := by
  have hkey : toString n ≠ requestKey := by
    intro heq
    have hmem : '_' ∈ (toString n).toList := heq ▸ (by decide)
    exact absurd (isDigit_of_mem_toString hmem) (by decide)
  rw [get, if_neg hkey, if_neg hids, position?_toString h, Option.bind_some]

/-- A name that is declared once stands for the place where it is declared. -/
theorem get_declared {p : Params} (h : p.ids.Nodup) {i : Nat} (hi : i < p.ids.length)
    (hkey : p.ids[i] ≠ requestKey) : p.get p.ids[i] = p.getIndex i := by
  rw [get, if_neg hkey, if_pos (List.getElem_mem hi), getNamed, Template.idxOf?_getElem h hi,
    Option.bind_some]

end Params

theorem Traced.bind_answer {ε : Type} (t : Traced ε Bool) :
    (t >>= fun b => if b then pure true else pure false) = t := by
  show t.bind (fun b => if b then Traced.pure true else Traced.pure false) = t
  obtain ⟨calls, result⟩ := t
  rcases result with reason | answer
  · rfl
  · cases answer <;> exact congrArg (Traced.mk · _) (List.append_nil calls)

/-- With one rule only, its check decides. -/
theorem Route.accepts_single {route : Route} (h : route.rules = []) (key : String) (rule : Rule)
    (request : String) :
    (route.addRule key rule).accepts request =
      match route.params? request with
      | none => pure false
      | some params => route.checkRule key rule params := by
  have hparams : (route.addRule key rule).params? request = route.params? request := rfl
  have hrules : (route.addRule key rule).rules = [(key, rule)] := by
    rw [addRule, h]
    rfl
  rw [accepts, hparams, hrules]
  cases route.params? request with
  | none => rfl
  | some params => exact Traced.bind_answer (route.checkRule key rule params)

theorem Route.params?_eq_some {route : Route} {request : String} {params : Params}
    (h : route.params? request = some params) :
    params.ids = route.paramIds ∧ ∃ re, route.matcher = some re := by
  obtain ⟨re, hmatcher, hvalues⟩ := Option.bind_eq_some_iff.mp h
  obtain ⟨values, -, hparams⟩ := Option.bind_eq_some_iff.mp hvalues
  cases hparams
  exact ⟨rfl, re, hmatcher⟩

namespace Template

/-! ## Names of letters -/

/-- The names of the parts consist of letters, and no two parts share one. -/
structure Plain.Lettered (t : Plain) : Prop where
  letters : ∀ p ∈ t.parts, ∀ c ∈ p.name, c.isAlpha = true
  distinct : (t.parts.map (·.name)).Nodup

theorem Part.mem_label_iff {p : Part} {c : Char} :
    c ∈ p.label ↔
      c ∈ p.name ∨ (p.reach = .rest ∧ c = '*') ∨ (p.reach = .query ∧ c = '?') := by
  rw [label]
  cases p.reach with
  | segment => simp
  | rest => simp
  | query => simp [or_comm]

/-- The name is what is left of a label without its mark. -/
theorem Part.filter_label (p : Part) : p.label.filter isNameChar = p.name := by
  have hname : p.name.filter isNameChar = p.name := List.filter_eq_self.mpr p.name_chars
  have hstar : isNameChar '*' = false := by decide
  have hmark : isNameChar '?' = false := by decide
  rw [label]
  cases p.reach with
  | segment => exact hname
  | rest => simp [hname, hstar]
  | query => simp [hname, hmark]

namespace Plain.Lettered

variable {t : Plain} (h : t.Lettered)
include h

theorem labels : t.Distinct := by
  have hnames := h.distinct
  have hfilter : t.parts.map (·.name) = (t.parts.map Part.label).map (·.filter isNameChar) := by
    rw [List.map_map]
    exact List.map_congr_left fun p _ => p.filter_label.symm
  rw [hfilter] at hnames
  exact hnames.of_map

/-- No label is the key of the request. -/
theorem label_ne_requestKey {p : Part} (hp : p ∈ t.parts) :
    String.ofList p.label ≠ Params.requestKey := by
  intro heq
  have hmem : '_' ∈ p.label := by
    rw [← String.toList_ofList (l := p.label), heq]
    decide
  rcases Part.mem_label_iff.mp hmem with hname | ⟨-, hstar⟩ | ⟨-, hmark⟩
  · exact absurd (h.letters p hp '_' hname) (by decide)
  · exact absurd hstar (by decide)
  · exact absurd hmark (by decide)

/-- No label is a number. -/
theorem label_ne_toString {p : Part} (hp : p ∈ t.parts) (n : Nat) :
    String.ofList p.label ≠ toString n := by
  intro heq
  obtain ⟨c, hc⟩ := List.exists_mem_of_ne_nil _ p.name_ne
  have hmem : c ∈ (toString n).toList := by
    rw [← heq, String.toList_ofList]
    exact Part.mem_label_iff.mpr (Or.inl hc)
  exact not_isDigit_of_isAlpha (h.letters p hp c hc) (isDigit_of_mem_toString hmem)

/-- Of an optional part only, the name is among the optional ones. -/
theorem mem_optionalParamIds {p : Part} (hp : p ∈ t.parts) :
    String.ofList p.label ∈ optionalParamIds (.ofList t.text) ↔ p.required = false := by
  rw [optionalParamIds_of_plain, List.mem_map]
  constructor
  · rintro ⟨q, hq, heq⟩
    obtain ⟨hmem, hoptional⟩ := List.mem_filter.mp hq
    have hsame : q = p := List.inj_on_of_nodup_map h.labels hmem hp (String.ofList_injective heq)
    rw [← hsame]
    simpa using hoptional
  · intro hoptional
    exact ⟨p, List.mem_filter.mpr ⟨hp, by rw [hoptional]; rfl⟩, rfl⟩

/-! ## The check of a rule -/

section
variable (id : RouteId) (priority : Int) (mode : SlashMode) (rule : Rule) {params : Params}
  (hids : params.ids = paramIds (.ofList t.text))
include hids

/-- Under the number of its place, a rule is asked whatever the value is. -/
theorem checkRule_number {i : Nat} (hi : i < UInt64.size) :
    (Route.ofPattern id (.template (.ofList t.text)) priority mode).checkRule (toString i) rule
        params = rule.check (params.getIndex i) params := by
  have hlabels : toString i ∉ t.parts.map (String.ofList ·.label) := by
    intro hmem
    obtain ⟨p, hp, heq⟩ := List.mem_map.mp hmem
    exact h.label_ne_toString hp i heq
  rw [paramIds_of_plain] at hids
  have hoptional : toString i ∉ optionalParamIds (.ofList t.text) := by
    rw [optionalParamIds_of_plain]
    exact fun hmem => hlabels ((List.filter_sublist.map _).subset hmem)
  have hexcused : (Route.ofPattern id (.template (.ofList t.text)) priority
      mode).optionalParamIds.contains (toString i) = false := by
    rw [List.contains_eq_mem]
    exact decide_eq_false hoptional
  rw [Route.checkRule, hexcused, Bool.and_false, Params.get_position hi (hids ▸ hlabels)]
  rfl

/-- Under the name of its part, a rule is excused where the part is optional and absent or empty. -/
theorem checkRule_label {i : Nat} (hi : i < t.parts.length) :
    (Route.ofPattern id (.template (.ofList t.text)) priority mode).checkRule
        (.ofList t.parts[i].label) rule params =
      if t.parts[i].required = false ∧ (params.getIndex i = none ∨ params.getIndex i = some "") then
        pure true
      else rule.check (params.getIndex i) params := by
  have hnodup : params.ids.Nodup := hids ▸ h.labels.paramIds_nodup
  rw [paramIds_of_plain] at hids
  have hid : i < params.ids.length := by
    rw [hids, List.length_map]
    exact hi
  have hname : params.ids[i] = String.ofList t.parts[i].label := by
    simp only [hids, List.getElem_map]
  have hmem := List.getElem_mem hi
  have hvalue : params.get (.ofList t.parts[i].label) = params.getIndex i := by
    rw [← hname]
    exact Params.get_declared hnodup hid (hname ▸ h.label_ne_requestKey hmem)
  have hoptional : (Route.ofPattern id (.template (.ofList t.text)) priority
      mode).optionalParamIds.contains (.ofList t.parts[i].label) = true ↔
      t.parts[i].required = false := List.contains_iff_mem.trans (h.mem_optionalParamIds hmem)
  rw [Route.checkRule, hvalue]
  simp only [Bool.and_eq_true, Route.all_isEmpty_iff, hoptional, and_comm]

end

end Plain.Lettered

/-- In a template that compiles, every part has a place whose number can be written. -/
theorem lt_size_of_compile {mode : SlashMode} {t : Plain} {i : Nat} (hi : i < t.parts.length)
    {re : Regex} (hcompile : (compile mode (.ofList t.text)).toOption = some re) :
    i < UInt64.size := by
  have hne : t.text ≠ [] := by
    rw [Plain.parts, List.length_map] at hi
    obtain ⟨cell, cells, hcells⟩ := List.exists_cons_of_length_pos (Nat.zero_lt_of_lt hi)
    rw [Plain.text, hcells, List.flatMap_cons, Cell.text, Part.text]
    simp
  by_contra hlarge
  have hparts : Regex.weightLimit < 1000 * t.parts.length := by
    have hsize : UInt64.size = 18446744073709551616 := rfl
    have hlimit : Regex.weightLimit = 10485760 := rfl
    omega
  rw [oversized_of_parts mode hne hparts] at hcompile
  cases hcompile

/-- It makes no difference whether a rule is given under the name of a part or under the number of
its place, unless the part is optional and absent or empty: that excuses the rule under the name,
while under the number it is asked all the same. -/
theorem accepts_by_either_key (mode : SlashMode) {t : Plain} (ht : t.Lettered) {i : Nat}
    (hi : i < t.parts.length) (rule : Rule) (id : RouteId) (priority : Int) (request : String) :
    let route := Route.ofPattern id (.template (.ofList t.text)) priority mode
    ∃ name, route.paramIds[i]? = some name ∧
      let byNumber := (route.addRule (toString i) rule).accepts request
      let byName := (route.addRule name rule).accepts request
      match route.params? request with
      | none => byNumber = pure false ∧ byName = pure false
      | some params =>
        let value := params.getIndex i
        byNumber = rule.check value params ∧
          byName = if t.parts[i].required = false ∧ (value = none ∨ value = some "") then pure true
            else rule.check value params := by
  intro route
  have hids : route.paramIds = t.parts.map (String.ofList ·.label) := paramIds_of_plain t
  refine ⟨.ofList t.parts[i].label, by rw [hids, List.getElem?_map, List.getElem?_eq_getElem hi]; rfl,
    ?_⟩
  rw [Route.accepts_single rfl, Route.accepts_single rfl]
  cases hparams : route.params? request with
  | none => exact ⟨rfl, rfl⟩
  | some params =>
    obtain ⟨hsame, re, hcompile⟩ := Route.params?_eq_some hparams
    exact ⟨ht.checkRule_number id priority mode rule hsame (lt_size_of_compile hi hcompile),
      ht.checkRule_label id priority mode rule hsame hi⟩

theorem lettered_usersPage : Plain.usersPage.Lettered := by
  have hparts : Plain.usersPage.parts.map (·.name) = ["id".toList, "page".toList] := rfl
  refine ⟨fun p hp => ?_, by rw [hparts]; decide⟩
  have hname : p.name ∈ ["id".toList, "page".toList] := hparts ▸ List.mem_map_of_mem hp
  rcases List.mem_cons.mp hname with heq | hname
  · exact heq ▸ forall_mem_of_all rfl
  · exact List.mem_singleton.mp hname ▸ forall_mem_of_all rfl

theorem accepts_by_either_key_usersPage :
    let route := Route.ofPattern ⟨0⟩ (.template (.ofList Plain.usersPage.text)) 0 .loose
    let params : Params := ⟨"users/7", ["id", "page"], [some "7", none]⟩
    Plain.usersPage.Lettered ∧ 1 < Plain.usersPage.parts.length ∧
      route.params? "users/7" = some params ∧
      ∃ name, route.paramIds[1]? = some name ∧
        (route.addRule (toString 1) (.oneOf ["2"])).accepts "users/7" =
          (Rule.oneOf ["2"]).check none params ∧
        (route.addRule name (.oneOf ["2"])).accepts "users/7" = pure true := by
  intro route params
  have hlength : 1 < Plain.usersPage.parts.length := by decide
  have hparams : route.params? "users/7" = some params := by decide +kernel
  obtain ⟨name, hname, hkeys⟩ := accepts_by_either_key .loose lettered_usersPage hlength
    (.oneOf ["2"]) ⟨0⟩ 0 "users/7"
  refine ⟨lettered_usersPage, hlength, hparams, name, hname, ?_⟩
  rw [hparams] at hkeys
  exact hkeys

/-- A rule under the number of an optional part refuses a request without that part, while the same
rule under the name of the part accepts it. -/
theorem position_not_excused :
    let route := Route.ofPattern ⟨0⟩ (.template (.ofList Plain.usersPage.text)) 0 .loose
    Plain.usersPage.Lettered ∧ 1 < Plain.usersPage.parts.length ∧
      route.paramIds[1]? = some "page" ∧
      ((route.addRule "page" (.oneOf ["2"])).accepts "/users/7").result.toOption = some true ∧
      ((route.addRule "1" (.oneOf ["2"])).accepts "/users/7").result.toOption = some false :=
  ⟨lettered_usersPage, by decide +kernel⟩

end Template

end RouteDispatch
