import Crossref.Text.Lead
import Crossref.Toml.Document
import Crossref.Toml.Scalar
import Crossref.Toml.Text

/-!
# Reading TOML

Version 1.1 of the format: tables in braces may span lines, hold comments anywhere but within a key,
and end in a comma; times may lack their seconds.
-/

namespace Crossref.Toml

/-- Reads items up to a closing bracket. Commas part them, and one may stand behind the last. -/
def readItems {α : Type} (item : List Char → Reading α) (close : Char) (s : List Char) :
    Reading (List α) :=
  match afterGaps false s with
  | none => none
  | some [] => none
  | some (c :: t) =>
    if c = close then some ([], t)
    else
      match item (c :: t) with
      | none => none
      | some (x, r) =>
        match afterGaps false r with
        | some (d :: r') =>
          if d = close then some ([x], r')
          else if d = ',' then
            if _h : r'.length < s.length then
              (readItems item close r').map fun (xs, rest) => (x :: xs, rest)
            else none
          else none
        | _ => none
termination_by s.length

/-- Reads a key, the equals sign and a value. What may stand on either side of the sign, `skip`
passes over. -/
def readPair (skip : List Char → Option (List Char)) (value : List Char → Reading Value)
    (s : List Char) : Reading (List String × Value) :=
  match readKeyPath s with
  | none => none
  | some (path, r) =>
    match skip r with
    | some ('=' :: r') =>
      ((skip r').bind value).map fun (v, rest) => ((path, v), rest)
    | _ => none

/-- Arrays and tables in braces nest at most so deep. -/
def nestingLimit : Nat := 80

/-- Reads a value that holds at most `depth` arrays and tables in one another. -/
def readValue : (depth : Nat) → List Char → Reading Value
  | depth, s =>
    match s with
    | [] => none
    | c :: r =>
      if c = '"' ∨ c = '\'' then
        (readString s).map fun (t, rest) => (.string (String.ofList t), rest)
      else if c = '[' then
        match depth with
        | 0 => none
        | depth + 1 =>
          (readItems (readValue depth) ']' r).map fun (items, rest) => (.array items, rest)
      else if c = '\x7b' then
        match depth with
        | 0 => none
        | depth + 1 =>
          let pair := readPair (afterGaps false) (readValue depth)
          (readItems pair '\x7d' r).bind fun (pairs, rest) =>
            (buildInline pairs).map fun es => (.table .inline es, rest)
      else readScalar s

/-- Reads the path and the closing brackets of a header. -/
def readHeader (close : List Char) (s : List Char) : Reading (List String) :=
  match readKeyPath (afterSpace s) with
  | none => none
  | some (path, r) => (Text.stripLead? close (afterSpace r)).map fun rest => (path, rest)

/-- Reads one statement. -/
def readStatement : List Char → Reading Statement
  | '[' :: '[' :: r => (readHeader [']', ']'] r).map fun (path, rest) => (.element path, rest)
  | '[' :: r => (readHeader [']'] r).map fun (path, rest) => (.table path, rest)
  | s =>
    (readPair (some ∘ afterSpace) (readValue nestingLimit) s).map fun ((path, v), rest) =>
      (.assign path v, rest)

/-- Reads the statements of a document, at most one on a line. -/
def readStatements (s : List Char) : Option (List Statement) :=
  match afterGaps false s with
  | none => none
  | some [] => some []
  | some (c :: t) =>
    match readStatement (c :: t) with
    | none => none
    | some (statement, r) =>
      match afterLine r with
      | none => none
      | some r' =>
        if _h : r'.length < s.length then (readStatements r').map (statement :: ·) else none
termination_by s.length

/-- The root table of a written document. A byte order mark may stand before it. -/
def read (source : String) : Option Entries :=
  let s := source.toList
  (readStatements (if s.head? = some '\uFEFF' then s.tail else s)).bind build

end Crossref.Toml
