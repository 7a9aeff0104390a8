import Crossref.Path

/-!
# Formats of a page

The extension of a page's file tells how its table is written.
-/

namespace Crossref

inductive TableFormat where
  | script
  | json
deriving Repr, DecidableEq

namespace TableFormat

def ofExtension? (extension : String) : Option TableFormat :=
  if extension = "js" then some .script
  else if extension = "json" then some .json
  else none

def ofPath? (p : Path) : Option TableFormat :=
  p.extension?.bind fun e => (Text.decodeUtf8? e).bind ofExtension?

end TableFormat

end Crossref
