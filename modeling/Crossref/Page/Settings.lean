import Crossref.Page.Format
import Crossref.Registry.Settings

/-!
# Settings of a load

A load may be told how strictly to read, which files are pages, and how to set up the registries.
-/

namespace Crossref

structure LoadSettings where
  /-- Unknown statements and failing pages stop the load. -/
  strict : Bool := false
  /-- The beginning of a page's file name, before the name of its trait. -/
  marker : String := "trait."
  /-- The extensions of pages. -/
  extensions : List String := ["js", "json"]
  /-- A first folder that is no part of the trait's path. -/
  rootDir : String := "implementors"
  registry : RegistrySettings := {}
deriving Repr, DecidableEq

/-- Some extension is needed, each must name a format, and the registries must be possible. -/
def LoadSettings.check (s : LoadSettings) : Except InvalidSetting Unit :=
  if s.extensions.isEmpty then .error .noExtensions
  else
    match s.extensions.find? fun e => (TableFormat.ofExtension? e).isNone with
    | some e => .error (.unsupportedExtension e)
    | none => s.registry.check

end Crossref
