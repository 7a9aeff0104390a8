import Crossref.Toml.Value

/-!
# Records in TOML

A record is written as a table that names some of its fields, in any order, or as an array that
gives its first fields in theirs. Either overlays a starting record: what is not given stays. A
table may not name anything else; items of an array beyond the fields are passed over.
-/

namespace Crossref.Toml

/-- A field of a record: its key, and how its value is set if it has the right type. -/
structure RecordField (σ : Type) where
  key : String
  set : σ → Value → Option σ

variable {σ : Type}

/-- Sets the field with this key. -/
def setField (fields : List (RecordField σ)) (s : σ) (entry : String × Value) : Option σ :=
  (fields.find? fun f => f.key == entry.1).bind fun f => f.set s entry.2

/-- Overlays a record with the entries of a table. -/
def overlayEntries (fields : List (RecordField σ)) (s : σ) (entries : Entries) : Option σ :=
  entries.foldlM (setField fields) s

/-- Overlays a record with a list of values, in the order of the fields. -/
def overlayItems (fields : List (RecordField σ)) (s : σ) (items : List Value) : Option σ :=
  (fields.zip items).foldlM (fun s p => p.1.set s p.2) s

/-- Overlays a record with a value. -/
def overlay (fields : List (RecordField σ)) (s : σ) : Value → Option σ
  | .table _ entries => overlayEntries fields s entries
  | .array items => overlayItems fields s items
  | .tables items => overlayItems fields s items
  | _ => none

/-! ## Values of the right type -/

namespace Value

def boolean? : Value → Option Bool
  | boolean b => some b
  | _ => none

def string? : Value → Option String
  | string t => some t
  | _ => none

/-- A count that fits in 64 bits. -/
def count? : Value → Option Nat
  | integer (some n) => if 0 ≤ n ∧ n.toNat < UInt64.size then some n.toNat else none
  | _ => none

def strings? : Value → Option (List String)
  | array items => items.mapM string?
  | tables items => items.mapM string?
  | _ => none

end Value

end Crossref.Toml
