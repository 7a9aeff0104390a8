import Crossref.Index
import Crossref.Registry.Warning

/-!
# Reports

Each call on a registry says what it did.
-/

namespace Crossref

/-- What merging did to one unit. -/
inductive MergeEffect where
  | inserted
  | replaced (previous : Nat)
deriving Repr, DecidableEq

/-- One unit of a merged table: what merging did to it, and the length of its list now. -/
structure UnitMerge where
  key : String
  effect : MergeEffect
  length : Nat
deriving Repr, DecidableEq

/-- Whether a merged index reached a consumer or waits for one. -/
inductive Handoff where
  | delivered
  | buffered
deriving Repr, DecidableEq

/-- What attaching a consumer did: it waits for the next table, it received what was waiting, or it
took the place of another. -/
inductive Attachment where
  | waiting
  | delivered
  | replaced
deriving Repr, DecidableEq

/-- The units of a merged table in its order, where the index went, and the number of warnings that
merging raised. -/
structure MergeReport where
  units : List UnitMerge
  handoff : Handoff
  warnings : Nat
deriving Repr, DecidableEq

namespace MergeReport

/-- The units that the table brought in, in its order. -/
def inserted (r : MergeReport) : List String :=
  (r.units.filter fun u => u.effect == .inserted).map (·.key)

/-- The units that the table found already there, in its order. -/
def replaced (r : MergeReport) : List String :=
  (r.units.filter fun u => u.effect != .inserted).map (·.key)

end MergeReport

variable {α : Type}

/-- Writes the list of one unit into an index: the index behind it, and what that did to the
unit. -/
def Index.merge (index : Index α) (key : String) (list : List α) : Index α × MergeEffect :=
  let effect := match index.get? key with
    | some previous => .replaced previous.length
    | none => .inserted
  (index.insert key list, effect)

/-- The warning that merging a unit deserves. -/
def UnitMerge.warning? (u : UnitMerge) : Option Warning :=
  match u.effect with
  | .inserted => none
  | .replaced previous =>
    if 0 < previous ∧ u.length = 0 then some (.emptiedUnit u.key previous) else none

end Crossref
