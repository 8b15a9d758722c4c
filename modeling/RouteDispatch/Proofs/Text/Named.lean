/-
# Lists of named values

A list of values with names stands for a map in two ways.  What is given under a name
may be the first value of that name (`List.lookup`), which is how a list that is kept is
read, or the last one (`lastNamed?`), which is how a list of things said one after the
other is meant.
-/
import Mathlib.Data.List.Basic
import Mathlib.Data.List.Nodup

namespace RouteDispatch

variable {β : Type}

theorem lookup_cons_eq (first : String × β) (named : List (String × β)) (name : String) :
    (first :: named).lookup name = if name = first.1 then some first.2 else named.lookup name := by
  rw [List.lookup_cons]
  by_cases h : name = first.1
  · rw [beq_iff_eq.mpr h, if_pos h]
  · rw [beq_false_of_ne h, if_neg h]

/-- Where no name comes twice, every value is found under its name. -/
theorem mem_iff_lookup {named : List (String × β)} (h : (named.map (·.1)).Nodup) {name : String}
    {b : β} : (name, b) ∈ named ↔ named.lookup name = some b := by
  rw [List.lookup_eq_some_iff]
  constructor
  · intro hmem
    obtain ⟨front, back, rfl⟩ := List.append_of_mem hmem
    refine ⟨front, back, rfl, ?_⟩
    intro other hother
    rw [List.map_append] at h
    have hne := (List.nodup_append.mp h).2.2 other.1 (List.mem_map_of_mem hother) name
      (List.mem_map_of_mem List.mem_cons_self)
    exact bne_iff_ne.mpr hne.symm
  · rintro ⟨front, back, rfl, -⟩
    exact List.mem_append_right _ List.mem_cons_self

/-- The last value with this name. -/
def lastNamed? (named : List (String × β)) (name : String) : Option β :=
  named.reverse.lookup name

theorem lastNamed?_cons (first : String × β) (named : List (String × β)) (name : String) :
    lastNamed? (first :: named) name =
      (lastNamed? named name).or (if name = first.1 then some first.2 else none) := by
  rw [lastNamed?, List.reverse_cons, List.lookup_append, lookup_cons_eq]
  rfl

theorem mem_of_lastNamed? {named : List (String × β)} {name : String} {b : β}
    (h : lastNamed? named name = some b) : (name, b) ∈ named := by
  obtain ⟨front, back, hsplit, -⟩ := List.lookup_eq_some_iff.mp h
  exact List.mem_reverse.mp (hsplit ▸ List.mem_append_right _ List.mem_cons_self)

end RouteDispatch
