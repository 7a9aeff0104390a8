import Crossref.Text.Cut

/-!
# Trait names

A trait is named in full by the modules that lead to it and its own name, written with double
colons: `core::ops::Shr`. A name has at least one segment, and no segment is empty.
-/

namespace Crossref

structure TraitName where
  segments : List String
  ne_nil : segments ≠ []
  no_empty : "" ∉ segments
deriving DecidableEq

namespace TraitName

/-- The name with these segments, if they make one. -/
def ofSegments? (segments : List String) : Option TraitName :=
  if h : segments ≠ [] ∧ "" ∉ segments then some ⟨segments, h.1, h.2⟩ else none

/-- Reads a written name. -/
def parse? (s : String) : Option TraitName :=
  ofSegments? ((Text.cutColons s.toList).map String.ofList)

/-- The written name. -/
def toString (t : TraitName) : String :=
  String.ofList ([':', ':'].intercalate (t.segments.map String.toList))

/-- The trait's own name, without its modules. -/
def last (t : TraitName) : String := t.segments.getLast t.ne_nil

/-- The unit that defines the trait. -/
def definer (t : TraitName) : String := t.segments.head t.ne_nil

/-- Of two names, the one with the lesser segment where they first differ, or the one that ends. -/
def precedes (a b : TraitName) : Bool :=
  List.lex a.segments b.segments fun s t => decide (s < t)

/-- Names order by their segments, not by their written form. -/
instance : LE TraitName := ⟨fun a b => b.precedes a = false⟩

instance : DecidableLE TraitName := fun a b => inferInstanceAs (Decidable (b.precedes a = false))

end TraitName

end Crossref
