/-!
# Leading parts

Main statement: `stripLead?_eq_some_iff`, what is left behind a leading part makes the whole with
it.
-/

namespace Crossref.Text

variable {α : Type} [DecidableEq α]

/-- What is left of a list behind its leading part `lead`, if it begins with it. -/
def stripLead? : (lead list : List α) → Option (List α)
  | [], s => some s
  | _ :: _, [] => none
  | c :: lead, d :: s => if c = d then stripLead? lead s else none

theorem stripLead?_eq_some_iff {lead s r : List α} :
    stripLead? lead s = some r ↔ s = lead ++ r := by
  fun_induction stripLead? lead s with
  | case1 => simp [eq_comm]
  | case2 => simp
  | case3 _ _ _ ih => simp [ih]
  | case4 c lead d s hc => simp [Ne.symm hc]

theorem ne_append_of_stripLead? {lead s : List α} (h : stripLead? lead s = none) (r : List α) :
    s ≠ lead ++ r := fun he => by
  rw [stripLead?_eq_some_iff.mpr he] at h
  cases h

end Crossref.Text
