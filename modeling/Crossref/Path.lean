import Crossref.Text.Cut
import Crossref.Text.Lead
import Crossref.Text.Utf8

/-!
# Paths

A path is a string of bytes in which slashes part the components. Repeated slashes, a slash at the
end and a dot that is not the first component mean nothing; two dots are never resolved here. Paths
order by their components: the root, the dot, the two dots, then names by their bytes.
-/

namespace Crossref

structure Path where
  bytes : List UInt8
deriving Repr, DecidableEq

namespace Path

open Text (cutLast? stripLead? decodeUtf8? decodeLossy encodeUtf8)

def slash : UInt8 := 0x2f

def dot : UInt8 := 0x2e

def ofString (s : String) : Path := ⟨encodeUtf8 s⟩

/-- A path for people. Where it is no text, its ill-formed parts become U+FFFD. -/
def text (p : Path) : String := (decodeUtf8? p.bytes).getD (decodeLossy p.bytes)

inductive Component where
  | root
  | current
  | parent
  | name (bytes : List UInt8)
deriving Repr, DecidableEq

/-- What a piece between slashes stands for, when it is not the first. -/
def componentOf? (piece : List UInt8) : Option Component :=
  if piece = [] ∨ piece = [dot] then none
  else if piece = [dot, dot] then some .parent
  else some (.name piece)

/-- The pieces between slashes. -/
def pieces (p : Path) : List (List UInt8) := p.bytes.splitOn slash

def components (p : Path) : List Component :=
  match p.pieces with
  | [] => []
  | first :: rest =>
    if first = [] ∧ p.bytes ≠ [] then .root :: rest.filterMap componentOf?
    else if first = [dot] then .current :: rest.filterMap componentOf?
    else (first :: rest).filterMap componentOf?

/-- The rank of a component, as a list of numbers that orders like it. -/
def Component.rank : Component → List Nat
  | root => [0]
  | current => [1]
  | parent => [2]
  | name bytes => 3 :: bytes.map UInt8.toNat

def Component.precedes (a b : Component) : Bool :=
  List.lex a.rank b.rank fun m n => decide (m < n)

/-- Of two paths, the one with the lesser component where they first differ, or the one that
ends. -/
def precedes (a b : Path) : Bool := List.lex a.components b.components Component.precedes

instance : LE Path := ⟨fun a b => b.precedes a = false⟩

instance : DecidableLE Path := fun a b => inferInstanceAs (Decidable (b.precedes a = false))

/-- The path of an entry of the folder `p`. -/
def join (p : Path) (name : List UInt8) : Path :=
  match p.bytes.getLast? with
  | none => ⟨name⟩
  | some b => if b = slash then ⟨p.bytes ++ name⟩ else ⟨p.bytes ++ slash :: name⟩

/-- The name of the file that a path leads to. -/
def fileName? (p : Path) : Option (List UInt8) :=
  match p.components.getLast? with
  | some (.name bytes) => some bytes
  | _ => none

/-- What stands behind the last dot of the file name. A dot at its beginning does not count. -/
def extension? (p : Path) : Option (List UInt8) :=
  p.fileName?.bind fun name =>
    match cutLast? dot name with
    | some (_ :: _, extension) => some extension
    | _ => none

/-- The components of a path below `root`, or all of them if it does not lie there. -/
def below (p root : Path) : List Component :=
  (stripLead? root.components p.components).getD p.components

end Path

end Crossref
