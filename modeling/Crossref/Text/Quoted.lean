import Crossref.Text.Hex
import Crossref.Text.Shown

/-!
# Quoted text

A name of any content is shown on one line and in double quotes. What could not be told from its
surroundings is escaped: the quote and the backslash, the common controls by a letter, and every
other character that is not shown by its code point.
-/

namespace Crossref.Text

/-- The letter of a character that has an escape of its own. -/
def escapeLetter? : Char → Option Char
  | '\x00' => some '0'
  | '\t' => some 't'
  | '\r' => some 'r'
  | '\n' => some 'n'
  | '"' => some '"'
  | '\\' => some '\\'
  | _ => none

def quoteChar (c : Char) : List Char :=
  match escapeLetter? c with
  | some letter => ['\\', letter]
  | none => if isShown c then [c] else ['\\', 'u', '\x7b'] ++ hexDigits c.toNat ++ ['\x7d']

def quoted (s : String) : String := String.ofList ('"' :: s.toList.flatMap quoteChar ++ ['"'])

end Crossref.Text
