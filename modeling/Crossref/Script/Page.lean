import Crossref.Index
import Crossref.Script.Assignment
import Crossref.Script.Statement

/-!
# Page scripts

A page script declares an empty table, assigns lists to its units, and may at last register the
table. The function wrapped around it and the registration carry no data: the table ends at the
registration, at the tail of the wrapper, or with the text. A strict reader accepts nothing besides;
a lenient one passes over statements that it does not know and does without the declaration.
-/

namespace Crossref.Script

/-- The registration or the tail of the wrapper stands here; what follows carries no data. -/
def endsTable (s : List Char) : Bool :=
  (Token.takeAll? registration s).isSome || (Token.takeAll? wrapperTail s).isSome

/-- Reads assignments up to the end of the table. -/
def readAssignments (strict : Bool) (s : List Char) : Except Failure (List Assignment) :=
  match _hs : afterTrivia s with
  | [] => .ok []
  | c :: t =>
    match _hh : Token.takeAll? assignmentHead (c :: t) with
    | some r =>
      match _ha : readAssignment r with
      | .error f => .error f
      | .ok (a, r') =>
        match readAssignments strict r' with
        | .error f => .error f
        | .ok as => .ok (a :: as)
    | none =>
      if endsTable (c :: t) then .ok []
      else if strict then .error ⟨.unexpectedStatement (some c), c :: t⟩
      else readAssignments strict (afterStatement (c :: t))
termination_by s.length
decreasing_by
  · have h1 := (afterTrivia_suffix s).length_le
    have h2 := (Token.takeAll?_suffix _hh).length_le
    have h3 := (suffix_of_readAssignment _ha).2
    rw [_hs] at h1
    omega
  · have h1 := (afterTrivia_suffix s).length_le
    have h2 := length_afterStatement_lt c t
    rw [_hs] at h1
    omega

/-- Reads the assignments of a whole script. -/
def readScript (strict : Bool) (s : List Char) : Except Failure (List Assignment) :=
  let s := afterTrivia s
  let s := afterTrivia ((Token.takeAll? wrapperHead s).getD s)
  match Token.takeAll? declaration s with
  | some r => readAssignments strict (afterSemicolon r)
  | none =>
    if strict then .error ⟨.missingDeclaration s.head?, s⟩ else readAssignments strict s

/-- The index that assignments make in their order. -/
def tabulate (as : List Assignment) : Index Markup :=
  .ofList (as.map fun a => (a.unit, a.implementors))

/-- The table of a page script, or the fault and its place. -/
def read (strict : Bool) (source : String) : Except Error (Index Markup) :=
  match readScript strict source.toList with
  | .ok as => .ok (tabulate as)
  | .error f => .error (f.inSource source.toList)

end Crossref.Script
