/-!
# Sorted lists

Units and traits are listed in increasing order and without repeats: units by their code points,
traits by their segments.
-/

namespace Crossref

/-- The elements of a list in increasing order, each of them once. -/
def sortDistinct {α : Type} [LE α] [DecidableLE α] [BEq α] (list : List α) : List α :=
  (list.mergeSort fun a b => decide (a ≤ b)).eraseReps

end Crossref
