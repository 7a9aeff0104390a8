import Crossref.Registry.Basic

/-!
# Runs of a registry

The calls that change a registry as data. A run of calls gives the registry that they leave behind
and, call by call, the answer and the delivery that each of them made.
-/

namespace Crossref

inductive Command (α : Type) where
  | merge (table : Index α)
  | attach (consumer : String)
  | detach
  | reset
  | drainLog
deriving DecidableEq

inductive Answer where
  | report (report : MergeReport)
  | attached (outcome : Attachment)
  | detached (removed : Bool)
  | done
  | warnings (list : List Warning)
deriving Repr, DecidableEq

/-- What one call of a run did. -/
structure Event (α : Type) where
  answer : Answer
  delivery : Option (Delivery α)
deriving DecidableEq

variable {α β : Type}

namespace Registry

/-- The same step with another answer. -/
def Step.map (f : β → Answer) (s : Step α β) : Step α Answer :=
  { registry := s.registry, answer := f s.answer, delivery := s.delivery }

def step (r : Registry α) : Command α → Step α Answer
  | .merge table => (r.merge table).map .report
  | .attach consumer => (r.attach consumer).map .attached
  | .detach => r.detach.map .detached
  | .reset => { registry := r.reset, answer := .done }
  | .drainLog => r.drainLog.map .warnings

def run (r : Registry α) : List (Command α) → Registry α × List (Event α)
  | [] => (r, [])
  | c :: cs =>
    let s := r.step c
    let (last, events) := run s.registry cs
    (last, ⟨s.answer, s.delivery⟩ :: events)

end Registry

end Crossref
