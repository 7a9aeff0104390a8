import Crossref.Registry.Report
import Crossref.Text.Quoted

/-!
# The registry

A registry merges tables into one index and hands the whole of it to a single consumer. Producers
and the consumer may come in any order: what is merged while no consumer is attached waits in the
registry itself, and the first consumer receives it at once. From then on the consumer receives the
whole index after every merge.

| slot | merge | attach | detach |
|---|---|---|---|
| `empty` | `buffered` | `attached` | nothing |
| `buffered` | `buffered` | deliver; `attached` | nothing |
| `attached` | deliver; `attached` | replace, no delivery; `attached` | `empty` |
-/

namespace Crossref

/-- Who waits on the consumer's side: nobody and nothing, a merged index, or a consumer. -/
inductive Slot where
  | empty
  | buffered
  | attached (consumer : String)
deriving Repr, DecidableEq

/-- The shape of a slot, whoever is attached. -/
inductive SlotShape where
  | empty
  | buffered
  | attached
deriving Repr, DecidableEq

def Slot.shape : Slot → SlotShape
  | empty => .empty
  | buffered => .buffered
  | attached _ => .attached

/-- One delivery: the consumer, and the whole index that it received. -/
structure Delivery (α : Type) where
  consumer : String
  index : Index α
deriving DecidableEq

structure Registry (α : Type) where
  settings : RegistrySettings := {}
  label : String := "implementors"
  index : Index α := ∅
  slot : Slot := .empty
  log : List Warning := []
  deliveries : Nat := 0
deriving DecidableEq

/-- What one call leaves behind: the registry, the answer, and the delivery made within the call. -/
structure Registry.Step (α β : Type) where
  registry : Registry α
  answer : β
  delivery : Option (Delivery α) := none

/-- A merge between two units of its table: the index and the log by now, what was done to the units
so far, and the number of warnings raised. -/
structure Merging (α : Type) where
  index : Index α
  log : List Warning
  units : List UnitMerge := []
  warnings : Nat := 0

namespace Merging

variable {α : Type}

/-- A warning counts if it is raised, whether or not it is recorded. -/
def warn (s : RegistrySettings) (m : Merging α) (w : Warning) : Merging α :=
  { m with log := s.warn m.log w, warnings := m.warnings + (s.warnings.raises w).toNat }

/-- Merges the list of one unit. -/
def mergeUnit (s : RegistrySettings) (m : Merging α) (e : String × List α) : Merging α :=
  let (index, effect) := m.index.merge e.1 e.2
  let unit : UnitMerge := ⟨e.1, effect, e.2.length⟩
  let merged := { m with index := index, units := m.units ++ [unit] }
  match unit.warning? with
  | some w => merged.warn s w
  | none => merged

end Merging

namespace Registry

variable {α : Type}

/-- Merges a table unit by unit, then delivers the whole index to the consumer or leaves it
waiting. -/
def merge (r : Registry α) (table : Index α) : Step α MergeReport :=
  let begun : Merging α := { index := r.index, log := r.log }
  let opened := if table.isEmpty then begun.warn r.settings .emptyTable else begun
  let done := table.entries.foldl (Merging.mergeUnit r.settings) opened
  let merged := { r with index := done.index, log := done.log }
  match r.slot with
  | .attached consumer =>
    { registry := { merged with deliveries := r.deliveries + 1 }
      answer := ⟨done.units, .delivered, done.warnings⟩
      delivery := some ⟨consumer, done.index⟩ }
  | _ =>
    { registry := { merged with slot := .buffered }
      answer := ⟨done.units, .buffered, done.warnings⟩ }

/-- Makes `consumer` the only consumer. It receives what was waiting; what another consumer received
before is not delivered again. -/
def attach (r : Registry α) (consumer : String) : Step α Attachment :=
  let attached := { r with slot := .attached consumer }
  match r.slot with
  | .empty => { registry := attached, answer := .waiting }
  | .buffered =>
    { registry := { attached with deliveries := r.deliveries + 1 }
      answer := .delivered
      delivery := some ⟨consumer, r.index⟩ }
  | .attached _ =>
    { registry := { attached with log := r.settings.warn r.log .consumerReplaced }
      answer := .replaced }

/-- Lets the consumer go, if there is one. The index stays. -/
def detach (r : Registry α) : Step α Bool :=
  match r.slot with
  | .attached _ => { registry := { r with slot := .empty }, answer := true }
  | _ => { registry := r, answer := false }

/-- Forgets everything but the settings and the label. -/
def reset (r : Registry α) : Registry α := { settings := r.settings, label := r.label }

/-- Hands over the recorded warnings. -/
def drainLog (r : Registry α) : Step α (List Warning) :=
  { registry := { r with log := [] }, answer := r.log }

def shape (r : Registry α) : SlotShape := r.slot.shape

def hasConsumer (r : Registry α) : Bool := r.shape == .attached

/-- The index that waits for a consumer. -/
def pending? (r : Registry α) : Option (Index α) :=
  if r.shape = .buffered then some r.index else none

/-- One line on the registry for people. -/
def describe (r : Registry α) : String :=
  let shape := match r.shape with
    | .empty => "Empty"
    | .buffered => "Buffered"
    | .attached => "Attached"
  "Registry \x7b label: " ++ Text.quoted r.label ++ ", state: " ++ shape ++ ", units: "
    ++ toString r.index.size ++ ", deliveries: " ++ toString r.deliveries ++ " \x7d"

end Registry

end Crossref
