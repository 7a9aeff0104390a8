/-!
# TOML values

Tables and arrays remember how they were written, for that decides who may add to them: a table in
braces and an array in brackets are closed, a table made by dotted keys is open to dotted keys only,
and a table that a header merely passed through may still get a header of its own.
-/

namespace Crossref.Toml

/-- How a table came to be: by its own header, on the way to another table, by dotted keys, or in
braces. The root counts as a table with a header. -/
inductive TableKind where
  | header
  | implied
  | dotted
  | inline
deriving Repr, DecidableEq

inductive Value where
  | string (text : String)
  /-- A scalar that begins like an integer, with its number if it goes on like one. -/
  | integer (n : Option Int)
  | float (written : String)
  | boolean (b : Bool)
  | dateTime (written : String)
  | array (items : List Value)
  /-- The tables under a repeated header, each of them a table. -/
  | tables (items : List Value)
  | table (kind : TableKind) (entries : List (String × Value))
deriving Repr

/-- The keys of a table with their values, in the order of their first appearance. -/
abbrev Entries := List (String × Value)

end Crossref.Toml
