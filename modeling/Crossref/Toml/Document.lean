import Crossref.Toml.Value

/-!
# Building a document

A document is a list of statements: headers that open a table, headers that add a table to an array
of them, and assignments to dotted keys of the table opened last. Each is applied to the entries of
the root. A key is assigned once, a table gets one header, and closed tables and arrays stay as they
are.
-/

namespace Crossref.Toml

inductive Statement where
  | table (path : List String)
  | element (path : List String)
  | assign (path : List String) (value : Value)

/-! ## Changing entries -/

/-- Puts what `change` makes of the value of a key in its place, if it makes anything. -/
def alter (key : String) (change : Option Value → Option Value) : Entries → Option Entries
  | [] => (change none).map fun v => [(key, v)]
  | (k, v) :: es =>
    if k = key then (change (some v)).map fun v' => (k, v') :: es
    else (alter key change es).map ((k, v) :: ·)

/-- Changes the last item of a list, if there is one. -/
def alterLast (change : Value → Option Value) : List Value → Option (List Value)
  | [] => none
  | [v] => (change v).map fun v' => [v']
  | v :: vs => (alterLast change vs).map (v :: ·)

/-- Changes the entries of the table that a path leads to, making the tables on the way. A header
path passes through every table but a closed one; a dotted key passes only through tables that no
header defines. Either enters an array of tables at its last element. -/
def alterWithin (dotted : Bool) (change : TableKind → Entries → Option Entries) :
    List String → TableKind → Entries → Option Entries
  | [], kind, es => change kind es
  | key :: keys, _, es =>
    let enter (kind : TableKind) (es : Entries) : Option Value :=
      if kind = .inline ∨ (dotted ∧ kind = .header) then none
      else (alterWithin dotted change keys kind es).map (.table kind)
    alter key (fun
      | none =>
        let kind := if dotted then .dotted else .implied
        (alterWithin dotted change keys kind []).map (.table kind)
      | some (.table kind es) => enter kind es
      | some (.tables items) =>
        (alterLast (fun
          | .table kind es => (alterWithin dotted change keys kind es).map (.table kind)
          | _ => none) items).map .tables
      | some _ => none) es

/-! ## Statements -/

/-- Assigns a dotted key. A path of tables must end in one that dotted keys made; a key alone goes
into any other table. -/
def assign (path : List String) (value : Value) (kind : TableKind) (es : Entries) :
    Option Entries :=
  match path.getLast? with
  | none => none
  | some key =>
    alterWithin true (fun k es =>
      if k = .dotted ↔ path.length = 1 then none
      else alter key (fun
        | none => some value
        | some _ => none) es) path.dropLast kind es

/-- Opens a table by its header. -/
def openTable (path : List String) (es : Entries) : Option Entries :=
  match path.getLast? with
  | none => none
  | some key =>
    alterWithin false (fun _ es =>
      alter key (fun
        | none => some (.table .header [])
        | some (.table .implied es) => some (.table .header es)
        | some _ => none) es) path.dropLast .header es

/-- Adds a table to an array of tables by its header. -/
def openElement (path : List String) (es : Entries) : Option Entries :=
  match path.getLast? with
  | none => none
  | some key =>
    alterWithin false (fun _ es =>
      alter key (fun
        | none => some (.tables [.table .header []])
        | some (.tables items) => some (.tables (items ++ [.table .header []]))
        | some _ => none) es) path.dropLast .header es

/-- The entries of the root, and the path of the table opened last. -/
structure Draft where
  entries : Entries := []
  opened : List String := []

def Draft.apply (d : Draft) : Statement → Option Draft
  | .table path => (openTable path d.entries).map fun es => ⟨es, path⟩
  | .element path => (openElement path d.entries).map fun es => ⟨es, path⟩
  | .assign path value =>
    (alterWithin false (assign path value) d.opened .header d.entries).map fun es =>
      { d with entries := es }

/-- The root table of a document. -/
def build (statements : List Statement) : Option Entries :=
  (statements.foldlM Draft.apply {}).map (·.entries)

/-- The entries of a table in braces. -/
def buildInline (pairs : List (List String × Value)) : Option Entries :=
  pairs.foldlM (fun es p => assign p.1 p.2 .inline es) []

end Crossref.Toml
