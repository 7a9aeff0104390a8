/-!
# Places in a source

A reader knows a place by the text that is left there. People want a line and a column, both
counted from one; a line ends at a line feed only, and every character takes one column.
-/

namespace Crossref.Text

structure Position where
  line : Nat
  column : Nat
deriving Repr, DecidableEq

namespace Position

def start : Position := ⟨1, 1⟩

/-- The place one character further on. -/
def next (p : Position) (c : Char) : Position :=
  if c = '\n' then ⟨p.line + 1, 1⟩ else ⟨p.line, p.column + 1⟩

/-- The place behind the characters of `before`. -/
def after (before : List Char) : Position := before.foldl next start

/-- The place in `source` at which `rest` is left. -/
def ofRest (source rest : List Char) : Position :=
  after (source.take (source.length - rest.length))

end Position

end Crossref.Text
