import Crossref.Text.Position

/-!
# What can be wrong with a page script

A reader that fails gives the fault and the text that is left at its place; against the whole source
that text is a line and a column.
-/

namespace Crossref.Script

open Text (Position)

/-- A cause of failure. Where something is found in the stead of what was expected, that is the next
character, or nothing at the end of the text. -/
inductive Fault where
  | missingDeclaration (found : Option Char)
  | unexpectedStatement (found : Option Char)
  | missingMark (mark : Char) (found : Option Char)
  | unfinishedList (found : Option Char)
  | missingLiteral (found : Option Char)
  | unterminatedLiteral
  | unterminatedCodePoint
  | invalidCodePoint (digits : List Char)
  | missingHexDigits (count : Nat) (found : Option Char)
deriving Repr, DecidableEq

/-- The name of a character in messages, or of the end of the text. -/
def describe : Option Char → String
  | some c => "`" ++ String.ofList [c] ++ "`"
  | none => "end of input"

def Fault.message : Fault → String
  | missingDeclaration x => "expected `var implementors = \x7b\x7d;`, found " ++ describe x
  | unexpectedStatement x => "unexpected statement starting with " ++ describe x
  | missingMark m x => "expected `" ++ String.ofList [m] ++ "`, found " ++ describe x
  | unfinishedList x => "expected `,` or `]`, found " ++ describe x
  | missingLiteral x => "expected string literal, found " ++ describe x
  | unterminatedLiteral => "unterminated string literal"
  | unterminatedCodePoint => "unterminated `\\u\x7b...\x7d` escape"
  | invalidCodePoint digits => "invalid unicode escape `" ++ String.ofList digits ++ "`"
  | missingHexDigits n x => "expected " ++ toString n ++ " hex digits, found " ++ describe x

/-- A fault, and the text that is left where it lies. -/
structure Failure where
  fault : Fault
  rest : List Char
deriving Repr, DecidableEq

/-- A fault, and its place in the source. -/
structure Error where
  position : Position
  fault : Fault
deriving Repr, DecidableEq

def Failure.inSource (source : List Char) (f : Failure) : Error :=
  ⟨.ofRest source f.rest, f.fault⟩

def Error.message (e : Error) : String :=
  "syntax error at " ++ toString e.position.line ++ ":" ++ toString e.position.column ++ ": "
    ++ e.fault.message

/-- The outcome of reading: what was read and what is left, or why reading failed. -/
abbrev Reading (α : Type) := Except Failure (α × List Char)

/-- Two readings in a row succeed when both do. -/
theorem bind_eq_ok {α β : Type} {x : Except Failure α} {f : α → Except Failure β} {b : β} :
    (x >>= f) = .ok b ↔ ∃ a, x = .ok a ∧ f a = .ok b := by
  cases x <;> simp [bind, Except.bind]

end Crossref.Script
