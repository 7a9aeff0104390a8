/-!
# What can be wrong with a JSON table
-/

namespace Crossref.Json

/-- A table is read from left to right, and the first fault met is the one reported. -/
inductive Fault where
  /-- The text is no JSON. -/
  | malformed
  /-- A value stands where one of another type is needed. -/
  | wrongType
  /-- The text ends inside the value. -/
  | truncated
deriving Repr, DecidableEq

/-- The outcome of reading: what was read and what is left, or why reading failed. -/
abbrev Reading (α : Type) := Except Fault (α × List Char)

end Crossref.Json
