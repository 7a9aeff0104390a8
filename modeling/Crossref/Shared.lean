import Crossref.Registry.Run

/-!
# Shared registries

Several holders may share one registry, each through a handle of its own. Calls are made one at a
time and whole, so it does not matter through which handle a call is made.
-/

namespace Crossref

/-- A registry, and the number of handles that have been given out on it. -/
structure Shared (α : Type) where
  registry : Registry α := {}
  handles : Nat := 1

namespace Shared

variable {α : Type}

/-- Gives out one more handle. -/
def clone (s : Shared α) : Shared α × Nat := ({ s with handles := s.handles + 1 }, s.handles)

/-- A whole call through a handle; none can be made through a handle that was never given out. -/
def call? (s : Shared α) (handle : Nat) (c : Command α) : Option (Shared α × Event α) :=
  if handle < s.handles then
    let step := s.registry.step c
    some ({ s with registry := step.registry }, ⟨step.answer, step.delivery⟩)
  else none

/-- The index as it is now, seen through a handle. -/
def snapshot? (s : Shared α) (handle : Nat) : Option (Index α) :=
  if handle < s.handles then some s.registry.index else none

/-- Calls one after the other, each through a handle, and what each of them did. -/
def run? (s : Shared α) : List (Nat × Command α) → Option (Shared α × List (Event α))
  | [] => some (s, [])
  | c :: cs => do
    let (next, event) ← s.call? c.1 c.2
    let (last, events) ← next.run? cs
    return (last, event :: events)

/-- One line on the registry for people, told through a handle. -/
def describe (s : Shared α) : String := "SharedRegistry(" ++ s.registry.describe ++ ")"

/-- The same line while a call is being made, which nobody else can look into. -/
def describeLocked (_ : Shared α) : String := "SharedRegistry(<locked>)"

end Shared

end Crossref
