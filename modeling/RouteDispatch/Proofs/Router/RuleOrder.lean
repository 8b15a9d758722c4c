/-
# The order of the rules of an entry

The rules of an entry are in the order of their names.  This is the order of the bytes
of the names, in which the rules are compiled and registered (`RouteEntry.ordered`).
-/
import RouteDispatch.Proofs.Text.ByteOrder
import RouteDispatch.RouteTable

namespace RouteDispatch

open Text

theorem inOrder_iff {rules : List (String × RuleSource)} :
    InOrder rules ↔ (rules.map fun rule => bytes rule.1).Pairwise (· < ·) := by
  refine Iff.trans ?_ List.pairwise_map.symm
  exact ⟨fun h => h.imp fun hlt => (bytes_lt_iff _ _).mpr hlt,
    fun h => h.imp fun hlt => (bytes_lt_iff _ _).mp hlt⟩

/-- The rules stand in the order of the bytes of their names. -/
def RouteEntry.Ordered (entry : RouteEntry) : Prop :=
  (entry.rules.map fun rule => bytes rule.1).Pairwise (· < ·)

theorem RouteEntry.ordered (entry : RouteEntry) : entry.Ordered := inOrder_iff.mp entry.inOrder

end RouteDispatch
