/-
Sets of code points as tables of Unicode data give them: the ascending list
of the points where membership changes. `contains` counts how many of them a
code point has passed.
-/

namespace AclTree.Text

/-- A set of code points: outside it below the first boundary, inside it from
there to the second, and so on in turn. -/
structure CodeSet where
  boundaries : List Nat
  deriving DecidableEq

namespace CodeSet

/-- A code point is in the set if it has passed an odd number of boundaries. -/
def contains (set : CodeSet) (point : Nat) : Bool :=
  (set.boundaries.takeWhile (· ≤ point)).length % 2 == 1

/-- Nothing lies below the first boundary. -/
theorem contains_of_lt_head {b point : Nat} {rest : List Nat} (h : point < b) :
    contains ⟨b :: rest⟩ point = false := by
  simp [contains, Nat.not_le.2 h]

/-- Passing a boundary turns membership around. -/
theorem contains_cons_of_le {b point : Nat} {rest : List Nat} (h : b ≤ point) :
    contains ⟨b :: rest⟩ point = !contains ⟨rest⟩ point := by
  simp only [contains, List.takeWhile_cons, decide_eq_true h, if_true, List.length_cons]
  rcases Nat.mod_two_eq_zero_or_one (rest.takeWhile (· ≤ point)).length with h | h <;>
    simp [Nat.add_mod, h]

end CodeSet
end AclTree.Text
