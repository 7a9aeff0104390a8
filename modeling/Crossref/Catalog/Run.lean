import Crossref.Catalog

/-!
# Runs of a catalog

The calls that change a catalog as data, each on the registry of one trait. A merge or an attachment
makes the registry if it is not there. Any other call looks it up, and finds nothing to do where
there is none.
-/

namespace Crossref

namespace Catalog

variable {α β γ : Type}

/-- A call on the registry of a trait. -/
structure Call (α : Type) where
  trait : String
  command : Command α
deriving DecidableEq

/-- What one call of a run did. Without a registry there is no answer. -/
structure Event (α : Type) where
  answer : Option Answer
  delivery : Option (Delivery α)
deriving DecidableEq

/-- The same step with another answer. -/
def Step.map (f : β → γ) (s : Step α β) : Step α γ :=
  { catalog := s.catalog, answer := f s.answer, delivery := s.delivery }

def step (c : Catalog α) (call : Call α) : Step α (Option Answer) :=
  match call.command with
  | .merge table => (c.merge call.trait table).map fun report => some (.report report)
  | .attach consumer => (c.attach call.trait consumer).map fun outcome => some (.attached outcome)
  | .detach => (c.update? call.trait Registry.detach).map fun a => a.map .detached
  | .reset => c.update? call.trait fun r => r.step .reset
  | .drainLog => (c.update? call.trait Registry.drainLog).map fun a => a.map .warnings

def run (c : Catalog α) : List (Call α) → Catalog α × List (Event α)
  | [] => (c, [])
  | call :: calls =>
    let s := c.step call
    let (last, events) := run s.catalog calls
    (last, ⟨s.answer, s.delivery⟩ :: events)

end Catalog

end Crossref
