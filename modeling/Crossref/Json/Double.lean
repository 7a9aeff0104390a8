/-!
# Doubles

A double keeps the 53 leading bits of a number. A number between two doubles is rounded to the
nearer one, and half-way between them to the one whose last bit is zero.
-/

namespace Crossref.Json

/-- The quotient of two numbers, rounded to the nearest; a tie goes to the even neighbour. -/
def nearestQuotient (n unit : Nat) : Nat :=
  let q := n / unit
  let r := n % unit
  if 2 * r < unit ∨ (2 * r = unit ∧ q % 2 = 0) then q else q + 1

/-- The double nearest to a number, as if doubles had no greatest. -/
def nearestDouble (n : Nat) : Nat :=
  let unit := Nat.pow 2 (n.log2 + 1 - 53)
  nearestQuotient n unit * unit

/-- The least number that rounds to infinity. -/
def doubleLimit : Nat := Nat.pow 2 1024 - Nat.pow 2 970

end Crossref.Json
