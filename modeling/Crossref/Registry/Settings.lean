/-!
# Settings of a registry

A registry may be told which warnings to raise, whether to keep them, and how many to keep at most.
-/

namespace Crossref

/-- Which warnings are raised; all of them unless told otherwise. -/
structure WarningToggles where
  emptiedUnit : Bool := true
  consumerReplaced : Bool := true
  emptyTable : Bool := true
deriving Repr, DecidableEq

structure RegistrySettings where
  warnings : WarningToggles := {}
  recordWarnings : Bool := true
  warningCapacity : Nat := 256
deriving Repr, DecidableEq

/-- A setting that cannot be honoured. -/
inductive InvalidSetting where
  | noCapacity
  | noExtensions
  | unsupportedExtension (extension : String)
deriving Repr, DecidableEq

namespace InvalidSetting

/-- The name of the setting at fault. -/
def field : InvalidSetting → String
  | noCapacity => "warning_capacity"
  | noExtensions => "extensions"
  | unsupportedExtension _ => "extensions"

def reason : InvalidSetting → String
  | noCapacity => "must be non-zero while record_warnings is enabled"
  | noExtensions => "at least one page extension is required"
  | unsupportedExtension e =>
    "unsupported page extension `" ++ e ++ "`, expected `js` or `json`"

def message (i : InvalidSetting) : String :=
  "invalid value for `" ++ i.field ++ "`: " ++ i.reason

end InvalidSetting

/-- Warnings cannot be kept without room for one. -/
def RegistrySettings.check (s : RegistrySettings) : Except InvalidSetting Unit :=
  if s.recordWarnings && s.warningCapacity == 0 then .error .noCapacity else .ok ()

end Crossref
