import Crossref.Script.Trivia

/-!
# Unknown statements

A lenient reader passes over statements that it does not know. Such a statement ends at a semicolon
outside all brackets, or at the brace that closes its outermost block. Quoted strings and comments
are stepped over whole, so that nothing in them ends a statement.
-/

namespace Crossref.Script

/-- Single and double quotes, and the back quote, whose strings may span lines. -/
def isQuote (c : Char) : Bool := c == '"' || c == '\'' || c == '\x60'

def isOpening (c : Char) : Bool := c == '(' || c == '[' || c == '{'

def isClosing (c : Char) : Bool := c == ')' || c == ']' || c == '}'

/-- What is left behind the string whose opening quote is gone. An unclosed string ends with its
line, or with the text. -/
def afterQuoted (quote : Char) : List Char → List Char
  | [] => []
  | ['\\'] => []
  | '\\' :: _ :: r => afterQuoted quote r
  | c :: r => if c = quote ∨ (c = '\n' ∧ quote ≠ '\x60') then r else afterQuoted quote r

theorem afterQuoted_suffix (quote : Char) (s : List Char) : afterQuoted quote s <:+ s := by
  fun_induction afterQuoted quote s with
  | case1 => exact List.suffix_refl _
  | case2 => exact List.nil_suffix
  | case3 _ _ ih => exact ih.trans ((List.suffix_cons _ _).trans (List.suffix_cons _ _))
  | case4 => exact List.suffix_cons _ _
  | case5 _ _ _ _ _ ih => exact ih.trans (List.suffix_cons _ _)

/-- What is left behind the statement, of which `depth` brackets are open here. Skipping stops in
front of a closing bracket that nothing opened. -/
def afterStatementAt (depth : Nat) (s : List Char) : List Char :=
  match s with
  | [] => []
  | c :: r =>
    if _hc : startsComment (c :: r) then afterStatementAt depth (afterTrivia (c :: r))
    else if isQuote c then afterStatementAt depth (afterQuoted c r)
    else if isOpening c then afterStatementAt (depth + 1) r
    else if isClosing c then
      if depth = 0 then c :: r
      else if depth = 1 ∧ c = '}' then
        if r.head? = some ';' then r.tail else r
      else afterStatementAt (depth - 1) r
    else if c = ';' ∧ depth = 0 then r
    else afterStatementAt depth r
termination_by s.length
decreasing_by
  · exact length_afterTrivia_lt _hc
  · have := (afterQuoted_suffix c r).length_le
    simp only [List.length_cons]
    omega
  all_goals simp

/-- What is left behind one unknown statement, or behind one closing bracket that nothing opened. -/
def afterStatement : List Char → List Char
  | [] => []
  | c :: r => if isClosing c then r else afterStatementAt 0 (c :: r)

theorem afterStatementAt_suffix (depth : Nat) (s : List Char) : afterStatementAt depth s <:+ s := by
  fun_induction afterStatementAt depth s with
  | case1 => exact List.suffix_refl _
  | case2 _ c r _ ih => exact ih.trans (afterTrivia_suffix (c :: r))
  | case3 _ c r _ _ ih => exact (ih.trans (afterQuoted_suffix c r)).trans (List.suffix_cons c r)
  | case4 _ c r _ _ _ ih => exact ih.trans (List.suffix_cons c r)
  | case5 => exact List.suffix_refl _
  | case6 _ _ r => exact (List.tail_suffix r).trans (List.suffix_cons _ _)
  | case7 => exact List.suffix_cons _ _
  | case8 _ _ _ _ _ _ _ _ _ ih => exact ih.trans (List.suffix_cons _ _)
  | case9 => exact List.suffix_cons _ _
  | case10 _ _ _ _ _ _ _ _ ih => exact ih.trans (List.suffix_cons _ _)

theorem afterStatement_suffix (s : List Char) : afterStatement s <:+ s := by
  match s with
  | [] => exact List.suffix_refl _
  | c :: r =>
    simp only [afterStatement]
    split
    · exact List.suffix_cons _ _
    · exact afterStatementAt_suffix 0 (c :: r)

/-- Skipping a statement moves on, unless the text has ended. -/
theorem length_afterStatement_lt (c : Char) (r : List Char) :
    (afterStatement (c :: r)).length < (c :: r).length := by
  simp only [afterStatement]
  split
  · simp
  · unfold afterStatementAt
    split
    · rename_i hc
      exact Nat.lt_of_le_of_lt (afterStatementAt_suffix 0 _).length_le (length_afterTrivia_lt hc)
    · split
      · have h1 := (afterStatementAt_suffix 0 (afterQuoted c r)).length_le
        have h2 := (afterQuoted_suffix c r).length_le
        simp only [List.length_cons]
        omega
      · split
        · exact Nat.lt_succ_of_le (afterStatementAt_suffix _ r).length_le
        · split
          · simp
          · exact Nat.lt_succ_of_le (afterStatementAt_suffix _ r).length_le

end Crossref.Script
