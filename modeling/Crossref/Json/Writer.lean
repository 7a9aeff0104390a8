import Crossref.Index
import Crossref.Markup
import Crossref.Text.Hex

/-!
# Writing JSON

An index is written without any space, its units in order. Only quotes, backslashes and control
characters are escaped; everything else stands as it is.
-/

namespace Crossref.Json

/-- The letter of a control character that has a short escape. -/
def shortLetter? : Char → Option Char
  | '\x08' => some 'b'
  | '\t' => some 't'
  | '\n' => some 'n'
  | '\x0c' => some 'f'
  | '\r' => some 'r'
  | _ => none

/-- The written form of one character of a string. -/
def writeChar (c : Char) : List Char :=
  if c = '"' ∨ c = '\\' then ['\\', c]
  else if c < ' ' then
    match shortLetter? c with
    | some d => ['\\', d]
    | none => ['\\', 'u', '0', '0', Nat.digitChar (c.toNat / 16), Nat.digitChar (c.toNat % 16)]
  else [c]

def writeText (t : List Char) : List Char := '"' :: t.flatMap writeChar ++ ['"']

/-- Writes items with commas between them. -/
def writeSeparated (items : List (List Char)) : List Char := [','].intercalate items

def writeList (list : List Markup) : List Char :=
  '[' :: writeSeparated (list.map fun m => writeText m.source.toList) ++ [']']

def writeMember (m : String × List Markup) : List Char :=
  writeText m.1.toList ++ ':' :: writeList m.2

/-- The compact JSON object of an index. -/
def write (index : Index Markup) : String :=
  String.ofList ('\x7b' :: writeSeparated (index.entries.map writeMember) ++ ['\x7d'])

end Crossref.Json
