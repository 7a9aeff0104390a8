import Crossref.FileTree
import Crossref.Page.Settings
import Crossref.Toml.Reader
import Crossref.Toml.Record

/-!
# Configuration documents

Settings are read from a TOML document that overlays the defaults. A document with a key that is no
field, or with a value of the wrong type, is malformed; one whose settings cannot be honoured
together is invalid.
-/

namespace Crossref

open Toml (RecordField overlay overlayEntries)

/-! ## Fields, in the order in which an array gives them -/

def WarningToggles.fields : List (RecordField WarningToggles) :=
  [⟨"emptied_unit", fun s v => v.boolean?.map fun b => { s with emptiedUnit := b }⟩,
    ⟨"consumer_replaced", fun s v => v.boolean?.map fun b => { s with consumerReplaced := b }⟩,
    ⟨"empty_partial", fun s v => v.boolean?.map fun b => { s with emptyTable := b }⟩]

def RegistrySettings.fields : List (RecordField RegistrySettings) :=
  [⟨"warnings", fun s v => (overlay WarningToggles.fields {} v).map fun w =>
      { s with warnings := w }⟩,
    ⟨"record_warnings", fun s v => v.boolean?.map fun b => { s with recordWarnings := b }⟩,
    ⟨"warning_capacity", fun s v => v.count?.map fun n => { s with warningCapacity := n }⟩]

def LoadSettings.fields : List (RecordField LoadSettings) :=
  [⟨"strict", fun s v => v.boolean?.map fun b => { s with strict := b }⟩,
    ⟨"page_prefix", fun s v => v.string?.map fun t => { s with marker := t }⟩,
    ⟨"extensions", fun s v => v.strings?.map fun ts => { s with extensions := ts }⟩,
    ⟨"root_dir", fun s v => v.string?.map fun t => { s with rootDir := t }⟩,
    ⟨"registry", fun s v => (overlay RegistrySettings.fields {} v).map fun r =>
      { s with registry := r }⟩]

/-! ## Documents -/

inductive SettingsError where
  | malformed
  | unreadable (path : Path) (fault : ReadFault)
  | invalid (setting : InvalidSetting)
deriving Repr, DecidableEq

/-- The words for an error, where they are told. -/
def SettingsError.message? : SettingsError → Option String
  | malformed => none
  | unreadable path fault => some ("I/O error reading " ++ path.text ++ ": " ++ fault.message)
  | invalid setting => some setting.message

/-- The settings of a document: the defaults where it is silent, and only if they pass the check. -/
def readSettings {σ : Type} (fields : List (RecordField σ)) (default : σ)
    (check : σ → Except InvalidSetting Unit) (document : String) : Except SettingsError σ :=
  match (Toml.read document).bind (overlayEntries fields default) with
  | none => .error .malformed
  | some s =>
    match check s with
    | .error i => .error (.invalid i)
    | .ok () => .ok s

def RegistrySettings.ofDocument (document : String) : Except SettingsError RegistrySettings :=
  readSettings fields {} check document

def LoadSettings.ofDocument (document : String) : Except SettingsError LoadSettings :=
  readSettings fields {} check document

/-- The settings of the document in a file. -/
def settingsOfFile {σ : Type} (ofDocument : String → Except SettingsError σ) (t : FileTree)
    (path : Path) : Except SettingsError σ :=
  match t.readText path with
  | .error f => .error (.unreadable path f)
  | .ok document => ofDocument document

end Crossref
