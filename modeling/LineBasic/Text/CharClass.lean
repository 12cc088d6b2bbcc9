/-!
# Ranges of code points

A character class beyond ASCII is a list of ranges, both ends included.
-/

namespace LineBasic.Text

structure CodeRange where
  first : Nat
  last : Nat
deriving DecidableEq, Repr

namespace CodeRange

def has (r : CodeRange) (n : Nat) : Bool :=
  r.first ≤ n && n ≤ r.last

theorem has_iff {r : CodeRange} {n : Nat} : r.has n = true ↔ r.first ≤ n ∧ n ≤ r.last := by
  simp [has]

end CodeRange

end LineBasic.Text
