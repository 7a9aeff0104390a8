/-!
# Cutting at separators
-/

namespace Crossref.Text

variable {α : Type} [DecidableEq α]

/-- The parts before and behind the last `sep` of a list, if there is one. -/
def cutLast? (sep : α) (list : List α) : Option (List α × List α) :=
  match list.reverse.dropWhile (· != sep) with
  | [] => none
  | _ :: before => some (before.reverse, (list.reverse.takeWhile (· != sep)).reverse)

/-- The pieces of a text between its leftmost double colons; a colon belongs to one of them only. -/
def cutColons : List Char → List (List Char)
  | [] => [[]]
  | ':' :: ':' :: r => [] :: cutColons r
  | c :: r =>
    match cutColons r with
    | [] => [[c]]
    | p :: ps => (c :: p) :: ps

theorem cutColons_ne_nil (s : List Char) : cutColons s ≠ [] := by
  fun_induction cutColons s <;> simp_all

end Crossref.Text
