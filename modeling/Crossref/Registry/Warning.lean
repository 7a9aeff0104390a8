import Crossref.Registry.Settings

/-!
# Warnings

A warning marks a place where merging does something that a reader may not expect. It never changes
what a consumer receives. Raised warnings are kept in a log that drops the oldest when it is full.
-/

namespace Crossref

inductive Warning where
  /-- A unit that had implementors was given an empty list. -/
  | emptiedUnit (key : String) (previous : Nat)
  /-- A consumer took the place of another. -/
  | consumerReplaced
  /-- A table without units was merged. -/
  | emptyTable
deriving Repr, DecidableEq

def Warning.message : Warning → String
  | emptiedUnit key previous =>
    "unit `" ++ key ++ "` emptied: " ++ toString previous
      ++ " implementor(s) replaced by an empty list"
  | consumerReplaced => "attached consumer replaced"
  | emptyTable => "empty partial index ingested"

def WarningToggles.raises (t : WarningToggles) : Warning → Bool
  | .emptiedUnit _ _ => t.emptiedUnit
  | .consumerReplaced => t.consumerReplaced
  | .emptyTable => t.emptyTable

/-- The log with one more warning at its end. A full log drops its oldest warning for it. -/
def RegistrySettings.record (s : RegistrySettings) (log : List Warning) (w : Warning) :
    List Warning :=
  if s.recordWarnings && decide (0 < s.warningCapacity) then
    (if log.length = s.warningCapacity then log.tail else log) ++ [w]
  else log

/-- The log behind a warning. A kind that is not enabled is not raised at all. -/
def RegistrySettings.warn (s : RegistrySettings) (log : List Warning) (w : Warning) :
    List Warning :=
  if s.warnings.raises w then s.record log w else log

end Crossref
