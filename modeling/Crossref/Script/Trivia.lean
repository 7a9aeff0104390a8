import Crossref.Text.Blank

/-!
# Trivia

Blank characters and comments may stand between any two tokens of a page script. A line comment
ends before the line feed, a block comment at the first closing mark behind its opening; either may
also run to the end of the text.
-/

namespace Crossref.Script

open Text (isBlank)

/-- Where skipping stands: outside comments, in a line comment, or in a block comment. -/
inductive Zone where
  | between
  | line
  | block
deriving Repr, DecidableEq

/-- What is left when the trivia that begins in the given zone has been skipped. -/
def afterZone : Zone → List Char → List Char
  | _, [] => []
  | .between, '/' :: '/' :: r => afterZone .line r
  | .between, '/' :: '*' :: r => afterZone .block r
  | .between, c :: r => if isBlank c then afterZone .between r else c :: r
  | .line, c :: r => if c = '\n' then afterZone .between r else afterZone .line r
  | .block, '*' :: '/' :: r => afterZone .between r
  | .block, _ :: r => afterZone .block r

/-- What is left behind all leading trivia. -/
def afterTrivia (s : List Char) : List Char := afterZone .between s

/-- A comment, closed or not, begins here. -/
def startsComment : List Char → Bool
  | '/' :: '/' :: _ => true
  | '/' :: '*' :: _ => true
  | _ => false

theorem afterZone_suffix (z : Zone) (s : List Char) : afterZone z s <:+ s := by
  fun_induction afterZone z s with
  | case1 => exact List.nil_suffix
  | case2 _ ih => exact ih.trans ((List.suffix_cons _ _).trans (List.suffix_cons _ _))
  | case3 _ ih => exact ih.trans ((List.suffix_cons _ _).trans (List.suffix_cons _ _))
  | case4 _ _ _ _ _ ih => exact ih.trans (List.suffix_cons _ _)
  | case5 => exact List.suffix_refl _
  | case6 _ ih => exact ih.trans (List.suffix_cons _ _)
  | case7 _ _ _ ih => exact ih.trans (List.suffix_cons _ _)
  | case8 _ ih => exact ih.trans ((List.suffix_cons _ _).trans (List.suffix_cons _ _))
  | case9 _ _ _ ih => exact ih.trans (List.suffix_cons _ _)

theorem afterTrivia_suffix (s : List Char) : afterTrivia s <:+ s := afterZone_suffix .between s

/-- Where a comment begins, skipping moves on. -/
theorem length_afterTrivia_lt {s : List Char} (h : startsComment s = true) :
    (afterTrivia s).length < s.length := by
  unfold startsComment at h
  split at h
  · rename_i r
    have := (afterZone_suffix .line r).length_le
    simp only [afterTrivia, afterZone, List.length_cons]
    omega
  · rename_i r
    have := (afterZone_suffix .block r).length_le
    simp only [afterTrivia, afterZone, List.length_cons]
    omega
  · cases h

end Crossref.Script
