import Mathlib.Algebra.Group.Nat.Defs
import Crossref.Config
import Crossref.Proofs.Toml.Record
import Crossref.Proofs.Toml.Nesting

/-!
# What configuration documents mean

A choice gives some of the settings a value and leaves the others alone. Every
document that writes a choice, in any order and layout, is read as the defaults
with the chosen values in their place, or refused for the setting that cannot be
honoured; a key that is no field is refused whatever else the document says
(`documents_overlay_defaults`).
-/

namespace Crossref

open Toml (Assigns Entries Governs Literal Literals Sets Value Writes exists_overlayEntries
  mem_valuesIn_append mem_valuesIn_cons nil_not_mem_valuesIn overlay overlayEntries
  overlayEntries_eq_none setField setField_of_not_mem spares_put tidy_table_iff valuesIn)

/-! ## Choices -/

structure ToggleChoice where
  emptiedUnit : Option Bool := none
  consumerReplaced : Option Bool := none
  emptyTable : Option Bool := none

structure RegistryChoice where
  warnings : ToggleChoice := {}
  recordWarnings : Option Bool := none
  warningCapacity : Option Nat := none
  /-- It is an integer of the format. -/
  capacity_lt : ∀ n ∈ warningCapacity, n < 2 ^ 63 := by simp

structure LoadChoice where
  strict : Option Bool := none
  marker : Option String := none
  extensions : Option (List String) := none
  rootDir : Option String := none
  registry : RegistryChoice := {}

/-- The entry of a key, if a value is chosen for it. -/
def chosen {α : Type} (key : String) (literal : α → Literal) (o : Option α) : Literals :=
  o.toList.map fun a => (key, literal a)

/-- The entries that a choice asks for, without those of tables in the table. -/
def ToggleChoice.entries (c : ToggleChoice) : Literals :=
  chosen "emptied_unit" .boolean c.emptiedUnit
    ++ chosen "consumer_replaced" .boolean c.consumerReplaced
    ++ chosen "empty_partial" .boolean c.emptyTable

def RegistryChoice.entries (c : RegistryChoice) : Literals :=
  chosen "record_warnings" .boolean c.recordWarnings
    ++ chosen "warning_capacity" .count c.warningCapacity

def LoadChoice.entries (c : LoadChoice) : Literals :=
  chosen "strict" .boolean c.strict
    ++ chosen "page_prefix" .string c.marker
    ++ chosen "extensions" .strings c.extensions
    ++ chosen "root_dir" .string c.rootDir

/-- All values that a choice asks for, each with its path. -/
def ToggleChoice.values (c : ToggleChoice) : List (List String × Value) := valuesIn [] c.entries

def RegistryChoice.values (c : RegistryChoice) : List (List String × Value) :=
  valuesIn [] c.entries ++ valuesIn ["warnings"] c.warnings.entries

def LoadChoice.values (c : LoadChoice) : List (List String × Value) :=
  valuesIn [] c.entries ++ (valuesIn ["registry"] c.registry.entries
    ++ valuesIn ["registry", "warnings"] c.registry.warnings.entries)

/-- The defaults with the chosen values in their place. -/
def ToggleChoice.settings (c : ToggleChoice) : WarningToggles :=
  let s : WarningToggles := {}
  { emptiedUnit := c.emptiedUnit.getD s.emptiedUnit
    consumerReplaced := c.consumerReplaced.getD s.consumerReplaced
    emptyTable := c.emptyTable.getD s.emptyTable }

def RegistryChoice.settings (c : RegistryChoice) : RegistrySettings :=
  let s : RegistrySettings := {}
  { warnings := c.warnings.settings
    recordWarnings := c.recordWarnings.getD s.recordWarnings
    warningCapacity := c.warningCapacity.getD s.warningCapacity }

def LoadChoice.settings (c : LoadChoice) : LoadSettings :=
  let s : LoadSettings := {}
  { strict := c.strict.getD s.strict
    marker := c.marker.getD s.marker
    extensions := c.extensions.getD s.extensions
    rootDir := c.rootDir.getD s.rootDir
    registry := c.registry.settings }

variable {p : List String} {v : Value} {key : String}

@[simp] theorem mem_valuesIn_chosen {α : Type} {literal : α → Literal} {o : Option α} {k : String} :
    ([k], v) ∈ valuesIn [] (chosen key literal o) ↔
      k = key ∧ ∃ a, o = some a ∧ (literal a).value = v := by
  cases o <;> simp [valuesIn, chosen, eq_comm]

theorem chosen_eq_nil {α : Type} {literal : α → Literal} {o : Option α} :
    chosen key literal o = [] ↔ o = none := by
  cases o <;> simp [chosen]

theorem valuesIn_eq_nil {header : List String} {ls : Literals} :
    valuesIn header ls = [] ↔ ls = [] :=
  List.map_eq_nil_iff

/-! ## Toggles -/

section

variable {kind : Toml.TableKind} {es : Entries}

theorem governs_emptiedUnit :
    Governs WarningToggles.fields "emptied_unit" WarningToggles.emptiedUnit Value.boolean? :=
  .of_put (by decide) (List.mem_of_getElem? (i := 0) rfl) (fun _ _ => rfl)
    ⟨.inl rfl, .inr (spares_put fun _ _ => rfl), .inr (spares_put fun _ _ => rfl)⟩

theorem governs_consumerReplaced :
    Governs WarningToggles.fields "consumer_replaced" WarningToggles.consumerReplaced
      Value.boolean? :=
  .of_put (by decide) (List.mem_of_getElem? (i := 1) rfl) (fun _ _ => rfl)
    ⟨.inr (spares_put fun _ _ => rfl), .inl rfl, .inr (spares_put fun _ _ => rfl)⟩

theorem governs_emptyTable :
    Governs WarningToggles.fields "empty_partial" WarningToggles.emptyTable Value.boolean? :=
  .of_put (by decide) (List.mem_of_getElem? (i := 2) rfl) (fun _ _ => rfl)
    ⟨.inr (spares_put fun _ _ => rfl), .inr (spares_put fun _ _ => rfl), .inl rfl⟩

theorem ToggleChoice.overlay {c : ToggleChoice} (hkeys : (es.map Prod.fst).Nodup)
    (h : Assigns (Value.table kind es).Leads [[]] c.values) :
    overlayEntries WarningToggles.fields {} es = some c.settings := by
  have hset : ∀ e ∈ es, ∀ s, ∃ s', setField WarningToggles.fields s e = some s' := by
    rintro ⟨key, v⟩ hmem
    have hsaid := (h.entry hmem).resolve_right fun htable => by simpa using htable.1
    simp only [values, entries, mem_valuesIn_append, mem_valuesIn_chosen] at hsaid
    rcases hsaid with (⟨rfl, b, -, rfl⟩ | ⟨rfl, b, -, rfl⟩) | ⟨rfl, b, -, rfl⟩
    · exact governs_emptiedUnit.sets rfl
    · exact governs_consumerReplaced.sets rfl
    · exact governs_emptyTable.sets rfl
  obtain ⟨s', hover⟩ := exists_overlayEntries hset {}
  have h1 := governs_emptiedUnit.setting_eq hkeys hover h (by decide) c.emptiedUnit
    (fun b => (Literal.boolean b).value) (by simp [values, entries]) (fun _ _ => rfl)
  have h2 := governs_consumerReplaced.setting_eq hkeys hover h (by decide) c.consumerReplaced
    (fun b => (Literal.boolean b).value) (by simp [values, entries]) (fun _ _ => rfl)
  have h3 := governs_emptyTable.setting_eq hkeys hover h (by decide) c.emptyTable
    (fun b => (Literal.boolean b).value) (by simp [values, entries]) (fun _ _ => rfl)
  rw [hover, settings, ← h1, ← h2, ← h3]

theorem ToggleChoice.settings_of_values {c : ToggleChoice} (h : c.values = []) :
    c.settings = {} := by
  simp only [values, valuesIn_eq_nil, entries, List.append_eq_nil_iff, chosen_eq_nil] at h
  obtain ⟨⟨h1, h2⟩, h3⟩ := h
  rw [settings, h1, h2, h3]
  rfl

/-! ## Registries -/

theorem governs_warnings :
    Governs RegistrySettings.fields "warnings" RegistrySettings.warnings
      (overlay WarningToggles.fields {}) :=
  .of_put (by decide) (List.mem_of_getElem? (i := 0) rfl) (fun _ _ => rfl)
    ⟨.inl rfl, .inr (spares_put fun _ _ => rfl), .inr (spares_put fun _ _ => rfl)⟩

theorem governs_recordWarnings :
    Governs RegistrySettings.fields "record_warnings" RegistrySettings.recordWarnings
      Value.boolean? :=
  .of_put (by decide) (List.mem_of_getElem? (i := 1) rfl) (fun _ _ => rfl)
    ⟨.inr (spares_put fun _ _ => rfl), .inl rfl, .inr (spares_put fun _ _ => rfl)⟩

theorem governs_warningCapacity :
    Governs RegistrySettings.fields "warning_capacity" RegistrySettings.warningCapacity
      Value.count? :=
  .of_put (by decide) (List.mem_of_getElem? (i := 2) rfl) (fun _ _ => rfl)
    ⟨.inr (spares_put fun _ _ => rfl), .inr (spares_put fun _ _ => rfl), .inl rfl⟩

/-- An integer of the format that is not negative is a count. -/
theorem count?_of_lt {n : Nat} (h : n < 2 ^ 63) : (Literal.count n).value.count? = some n := by
  have hsize : n < UInt64.size := by
    unfold UInt64.size
    omega
  show (if 0 ≤ (n : Int) ∧ (n : Int).toNat < UInt64.size then some (n : Int).toNat else none) = _
  rw [if_pos ⟨Int.natCast_nonneg n, by rwa [Int.toNat_natCast]⟩, Int.toNat_natCast]

theorem RegistryChoice.mem_values_warnings {c : RegistryChoice} :
    ("warnings" :: p, v) ∈ c.values ↔ (p, v) ∈ c.warnings.values := by
  cases p <;> simp [values, entries, ToggleChoice.values, valuesIn, chosen]

theorem RegistryChoice.overlay {c : RegistryChoice} (htidy : (Value.table kind es).Tidy)
    (h : Assigns (Value.table kind es).Leads [[], ["warnings"]] c.values) :
    overlayEntries RegistrySettings.fields {} es = some c.settings := by
  obtain ⟨hkeys, htidy⟩ := tidy_table_iff.mp htidy
  have hwarnings : ∀ p w, ("warnings" :: p, w) ∈ c.values ↔ (p, w) ∈ c.warnings.values :=
    fun _ _ => mem_values_warnings
  have hsub : ∀ kind' sub, ("warnings", .table kind' sub) ∈ es →
      Toml.overlay WarningToggles.fields {} (.table kind' sub) = some c.warnings.settings := by
    intro kind' sub hmem
    have hbelow : Assigns (Value.table kind' sub).Leads [[]] c.warnings.values :=
      h.below hkeys hmem (by simp) hwarnings
    exact ToggleChoice.overlay (tidy_table_iff.mp (htidy _ hmem)).1 hbelow
  have hset : ∀ e ∈ es, ∀ s, ∃ s', setField RegistrySettings.fields s e = some s' := by
    rintro ⟨key, v⟩ hmem
    rcases h.entry hmem with hsaid | ⟨htable, kind', sub, rfl⟩
    · simp only [values, entries, List.mem_append, mem_valuesIn_append, mem_valuesIn_chosen,
        mem_valuesIn_cons, nil_not_mem_valuesIn, and_false, or_false] at hsaid
      rcases hsaid with ⟨rfl, b, -, rfl⟩ | ⟨rfl, n, hn, rfl⟩
      · exact governs_recordWarnings.sets rfl
      · exact governs_warningCapacity.sets (count?_of_lt (c.capacity_lt n hn))
    · obtain rfl : key = "warnings" := by simpa using htable
      exact governs_warnings.sets (hsub kind' sub hmem)
  obtain ⟨s', hover⟩ := exists_overlayEntries hset {}
  have h1 := governs_warnings.setting_eq_of_table hkeys hover h (by simp [values, entries]) hsub
    fun hfree => (ToggleChoice.settings_of_values (h.eq_nil hfree hwarnings)).symm
  have h2 := governs_recordWarnings.setting_eq hkeys hover h (by decide) c.recordWarnings
    (fun b => (Literal.boolean b).value) (by simp [values, entries]) (fun _ _ => rfl)
  have h3 := governs_warningCapacity.setting_eq hkeys hover h (by decide) c.warningCapacity
    (fun n => (Literal.count n).value) (by simp [values, entries])
    fun n hn => count?_of_lt (c.capacity_lt n hn)
  rw [hover, settings, ← h1, ← h2, ← h3]

theorem RegistryChoice.settings_of_values {c : RegistryChoice} (h : c.values = []) :
    c.settings = {} := by
  simp only [values, valuesIn_eq_nil, entries, List.append_eq_nil_iff, chosen_eq_nil] at h
  obtain ⟨⟨h1, h2⟩, h3⟩ := h
  have hwarnings : c.warnings.values = [] := valuesIn_eq_nil.mpr h3
  rw [settings, h1, h2, ToggleChoice.settings_of_values hwarnings]
  rfl

/-! ## Loads -/

theorem governs_strict :
    Governs LoadSettings.fields "strict" LoadSettings.strict Value.boolean? :=
  .of_put (by decide) (List.mem_of_getElem? (i := 0) rfl) (fun _ _ => rfl)
    ⟨.inl rfl, .inr (spares_put fun _ _ => rfl), .inr (spares_put fun _ _ => rfl),
      .inr (spares_put fun _ _ => rfl), .inr (spares_put fun _ _ => rfl)⟩

theorem governs_marker :
    Governs LoadSettings.fields "page_prefix" LoadSettings.marker Value.string? :=
  .of_put (by decide) (List.mem_of_getElem? (i := 1) rfl) (fun _ _ => rfl)
    ⟨.inr (spares_put fun _ _ => rfl), .inl rfl, .inr (spares_put fun _ _ => rfl),
      .inr (spares_put fun _ _ => rfl), .inr (spares_put fun _ _ => rfl)⟩

theorem governs_extensions :
    Governs LoadSettings.fields "extensions" LoadSettings.extensions Value.strings? :=
  .of_put (by decide) (List.mem_of_getElem? (i := 2) rfl) (fun _ _ => rfl)
    ⟨.inr (spares_put fun _ _ => rfl), .inr (spares_put fun _ _ => rfl), .inl rfl,
      .inr (spares_put fun _ _ => rfl), .inr (spares_put fun _ _ => rfl)⟩

theorem governs_rootDir :
    Governs LoadSettings.fields "root_dir" LoadSettings.rootDir Value.string? :=
  .of_put (by decide) (List.mem_of_getElem? (i := 3) rfl) (fun _ _ => rfl)
    ⟨.inr (spares_put fun _ _ => rfl), .inr (spares_put fun _ _ => rfl),
      .inr (spares_put fun _ _ => rfl), .inl rfl, .inr (spares_put fun _ _ => rfl)⟩

theorem governs_registry :
    Governs LoadSettings.fields "registry" LoadSettings.registry
      (overlay RegistrySettings.fields {}) :=
  .of_put (by decide) (List.mem_of_getElem? (i := 4) rfl) (fun _ _ => rfl)
    ⟨.inr (spares_put fun _ _ => rfl), .inr (spares_put fun _ _ => rfl),
      .inr (spares_put fun _ _ => rfl), .inr (spares_put fun _ _ => rfl), .inl rfl⟩

theorem strings?_of_strings (ts : List String) : (Literal.strings ts).value.strings? = some ts := by
  show (ts.map Value.string).mapM Value.string? = some ts
  induction ts with
  | nil => rfl
  | cons t ts ih => simp [ih, Value.string?]

theorem LoadChoice.mem_values_registry {c : LoadChoice} :
    ("registry" :: p, v) ∈ c.values ↔ (p, v) ∈ c.registry.values := by
  cases p <;> simp [values, entries, RegistryChoice.values, valuesIn, chosen]

theorem LoadChoice.overlay {c : LoadChoice} (htidy : (Value.table kind es).Tidy)
    (h : Assigns (Value.table kind es).Leads [[], ["registry"], ["registry", "warnings"]]
      c.values) : overlayEntries LoadSettings.fields {} es = some c.settings := by
  obtain ⟨hkeys, htidy⟩ := tidy_table_iff.mp htidy
  have hregistry : ∀ p w, ("registry" :: p, w) ∈ c.values ↔ (p, w) ∈ c.registry.values :=
    fun _ _ => mem_values_registry
  have hsub : ∀ kind' sub, ("registry", .table kind' sub) ∈ es →
      Toml.overlay RegistrySettings.fields {} (.table kind' sub) = some c.registry.settings := by
    intro kind' sub hmem
    have hbelow : Assigns (Value.table kind' sub).Leads [[], ["warnings"]] c.registry.values :=
      h.below hkeys hmem (by simp) hregistry
    exact RegistryChoice.overlay (htidy _ hmem) hbelow
  have hset : ∀ e ∈ es, ∀ s, ∃ s', setField LoadSettings.fields s e = some s' := by
    rintro ⟨key, v⟩ hmem
    rcases h.entry hmem with hsaid | ⟨htable, kind', sub, rfl⟩
    · simp only [values, entries, List.mem_append, mem_valuesIn_append, mem_valuesIn_chosen,
        mem_valuesIn_cons, nil_not_mem_valuesIn, and_false, or_false] at hsaid
      rcases hsaid with ((⟨rfl, b, -, rfl⟩ | ⟨rfl, t, -, rfl⟩) | ⟨rfl, ts, -, rfl⟩) |
        ⟨rfl, t, -, rfl⟩
      · exact governs_strict.sets rfl
      · exact governs_marker.sets rfl
      · exact governs_extensions.sets (strings?_of_strings ts)
      · exact governs_rootDir.sets rfl
    · obtain rfl : key = "registry" := by simpa using htable
      exact governs_registry.sets (hsub kind' sub hmem)
  obtain ⟨s', hover⟩ := exists_overlayEntries hset {}
  have h1 := governs_strict.setting_eq hkeys hover h (by decide) c.strict
    (fun b => (Literal.boolean b).value) (by simp [values, entries]) (fun _ _ => rfl)
  have h2 := governs_marker.setting_eq hkeys hover h (by decide) c.marker
    (fun t => (Literal.string t).value) (by simp [values, entries]) (fun _ _ => rfl)
  have h3 := governs_extensions.setting_eq hkeys hover h (by decide) c.extensions
    (fun ts => (Literal.strings ts).value) (by simp [values, entries])
    (fun ts _ => strings?_of_strings ts)
  have h4 := governs_rootDir.setting_eq hkeys hover h (by decide) c.rootDir
    (fun t => (Literal.string t).value) (by simp [values, entries]) (fun _ _ => rfl)
  have h5 := governs_registry.setting_eq_of_table hkeys hover h (by simp [values, entries]) hsub
    fun hfree => (RegistryChoice.settings_of_values (h.eq_nil hfree hregistry)).symm
  rw [hover, settings, ← h1, ← h2, ← h3, ← h4, ← h5]

end

/-! ## Keys that are no fields -/

/-- The tables of the settings, each with the keys of its fields. -/
def RegistrySettings.tables : List (List String × List String) :=
  [([], ["warnings", "record_warnings", "warning_capacity"]),
    (["warnings"], ["emptied_unit", "consumer_replaced", "empty_partial"])]

def LoadSettings.tables : List (List String × List String) :=
  [([], ["strict", "page_prefix", "extensions", "root_dir", "registry"]),
    (["registry"], ["warnings", "record_warnings", "warning_capacity"]),
    (["registry", "warnings"], ["emptied_unit", "consumer_replaced", "empty_partial"])]

section

variable {kind : Toml.TableKind} {es : Entries} {n : Toml.Node}

theorem overlayEntries_unknown {σ : Type} {fields : List (Toml.RecordField σ)}
    (hkey : key ∉ fields.map Toml.RecordField.key)
    (h : (Value.table kind es).Leads (key :: p) n) (s : σ) : overlayEntries fields s es = none := by
  obtain ⟨v, hmem, -⟩ := h
  exact overlayEntries_eq_none hmem (fun _ => setField_of_not_mem hkey) s

/-- A field that is a record refuses a table that this record refuses. -/
theorem overlayEntries_below {σ τ : Type} {fields : List (Toml.RecordField σ)}
    {below : List (Toml.RecordField τ)} {t : τ} {setting : σ → τ}
    (hgov : Governs fields key setting (overlay below t)) {key' : String}
    (h : (Value.table kind es).Leads (key :: key' :: p) n)
    (hbelow : ∀ kind' sub, (Value.table kind' sub).Leads (key' :: p) n →
      overlayEntries below t sub = none) (s : σ) : overlayEntries fields s es = none := by
  obtain ⟨v, hmem, hleads⟩ := h
  obtain ⟨kind', sub, rfl⟩ := hleads.exists_table
  exact overlayEntries_eq_none hmem (hgov.setField_eq_none (hbelow kind' sub hleads)) s

theorem RegistrySettings.overlay_unknown {path keys : List String} (htable : (path, keys) ∈ tables)
    (hkey : key ∉ keys) (h : (Value.table kind es).Leads (path ++ [key]) n) (s : RegistrySettings) :
    overlayEntries fields s es = none := by
  simp only [tables, List.mem_cons, Prod.mk.injEq, List.not_mem_nil, or_false] at htable
  rcases htable with ⟨rfl, rfl⟩ | ⟨rfl, rfl⟩
  · exact overlayEntries_unknown hkey h s
  · exact overlayEntries_below governs_warnings h
      (fun _ _ hleads => overlayEntries_unknown hkey hleads _) s

theorem LoadSettings.overlay_unknown {path keys : List String} (htable : (path, keys) ∈ tables)
    (hkey : key ∉ keys) (h : (Value.table kind es).Leads (path ++ [key]) n) (s : LoadSettings) :
    overlayEntries fields s es = none := by
  simp only [tables, List.mem_cons, Prod.mk.injEq, List.not_mem_nil, or_false] at htable
  rcases htable with ⟨rfl, rfl⟩ | ⟨rfl, rfl⟩ | ⟨rfl, rfl⟩
  · exact overlayEntries_unknown hkey h s
  · exact overlayEntries_below governs_registry h
      (fun _ _ hleads => overlayEntries_unknown hkey hleads _) s
  · refine overlayEntries_below governs_registry h ?_ s
    intro kind' sub hleads
    have hwarnings : (["warnings"], ["emptied_unit", "consumer_replaced", "empty_partial"]) ∈
        RegistrySettings.tables := by decide
    exact RegistrySettings.overlay_unknown hwarnings hkey hleads _

end

/-! ## Documents -/

/-- Warnings cannot be kept without room for one. -/
def RegistrySettings.outcome (s : RegistrySettings) : Except SettingsError RegistrySettings :=
  if s.recordWarnings = true ∧ s.warningCapacity = 0 then .error (.invalid .noCapacity) else .ok s

/-- The extensions are looked at before the capacity. -/
def LoadSettings.outcome (s : LoadSettings) : Except SettingsError LoadSettings :=
  if s.extensions = [] then .error (.invalid .noExtensions)
  else
    match s.extensions.find? fun e => e ≠ "js" ∧ e ≠ "json" with
    | some e => .error (.invalid (.unsupportedExtension e))
    | none =>
      if s.registry.recordWarnings = true ∧ s.registry.warningCapacity = 0 then
        .error (.invalid .noCapacity)
      else .ok s

theorem readSettings_of_refused {σ : Type} {fields : List (Toml.RecordField σ)} {default : σ}
    {check : σ → Except InvalidSetting Unit} {document : String}
    (h : ∀ es, Toml.read document = some es → overlayEntries fields default es = none) :
    readSettings fields default check document = .error .malformed := by
  rw [readSettings]
  cases hread : Toml.read document with
  | none => rfl
  | some es => rw [Option.bind_some, h es hread]

theorem readSettings_registry {document : String} {es : Entries} {s : RegistrySettings}
    (hread : Toml.read document = some es)
    (hover : overlayEntries RegistrySettings.fields {} es = some s) :
    RegistrySettings.ofDocument document = s.outcome := by
  rw [RegistrySettings.ofDocument, readSettings, hread, Option.bind_some, hover]
  simp only [RegistrySettings.check, RegistrySettings.outcome, Bool.and_eq_true, beq_iff_eq]
  by_cases h : s.recordWarnings = true ∧ s.warningCapacity = 0
  · rw [if_pos h, if_pos h]
  · rw [if_neg h, if_neg h]

theorem isNone_ofExtension? (e : String) :
    (TableFormat.ofExtension? e).isNone = decide (e ≠ "js" ∧ e ≠ "json") := by
  unfold TableFormat.ofExtension?
  grind

theorem readSettings_load {document : String} {es : Entries} {s : LoadSettings}
    (hread : Toml.read document = some es)
    (hover : overlayEntries LoadSettings.fields {} es = some s) :
    LoadSettings.ofDocument document = s.outcome := by
  rw [LoadSettings.ofDocument, readSettings, hread, Option.bind_some, hover]
  unfold LoadSettings.check RegistrySettings.check LoadSettings.outcome
  simp only [isNone_ofExtension?, List.isEmpty_iff, Bool.and_eq_true, beq_iff_eq]
  by_cases hempty : s.extensions = []
  · rw [if_pos hempty, if_pos hempty]
  rw [if_neg hempty, if_neg hempty]
  cases s.extensions.find? fun e => e ≠ "js" ∧ e ≠ "json" with
  | some e => rfl
  | none =>
      by_cases h : s.registry.recordWarnings = true ∧ s.registry.warningCapacity = 0
      · simp only [if_pos h]
      · simp only [if_neg h]

/-! ## Documents of choices -/

theorem map_fst_chosen {α : Type} (key : String) (literal : α → Literal) (o : Option α) :
    ((chosen key literal o).map Prod.fst).Sublist [key] := by
  cases o with
  | none => exact List.nil_sublist _
  | some a => exact List.Sublist.refl _

theorem ToggleChoice.keys_sublist (c : ToggleChoice) :
    (c.entries.map Prod.fst).Sublist ["emptied_unit", "consumer_replaced", "empty_partial"] := by
  rw [entries, List.map_append, List.map_append]
  exact ((map_fst_chosen ..).append (map_fst_chosen ..)).append (map_fst_chosen ..)

theorem RegistryChoice.keys_sublist (c : RegistryChoice) :
    (c.entries.map Prod.fst).Sublist ["record_warnings", "warning_capacity"] := by
  rw [entries, List.map_append]
  exact (map_fst_chosen ..).append (map_fst_chosen ..)

theorem LoadChoice.keys_sublist (c : LoadChoice) :
    (c.entries.map Prod.fst).Sublist ["strict", "page_prefix", "extensions", "root_dir"] := by
  rw [entries, List.map_append, List.map_append, List.map_append]
  exact (((map_fst_chosen ..).append (map_fst_chosen ..)).append (map_fst_chosen ..)).append
    (map_fst_chosen ..)

/-- A document that writes the choice, with a header for each table. -/
def RegistryChoice.document (c : RegistryChoice) : String :=
  Toml.documentOf (Toml.nestLines [] c.entries [("warnings", c.warnings.entries)])

def LoadChoice.document (c : LoadChoice) : String :=
  Toml.documentOf (Toml.nestLines [] c.entries
    [("registry", c.registry.entries), ("warnings", c.registry.warnings.entries)])

theorem bare_of_sublist {ls : Literals} {keys : List String}
    (h : (ls.map Prod.fst).Sublist keys) (hkeys : ∀ key ∈ keys, Toml.IsBare key) :
    ∀ e ∈ ls, Toml.IsBare e.1 :=
  fun _ he => hkeys _ (h.subset (List.mem_map_of_mem he))

theorem RegistryChoice.writes_document (c : RegistryChoice) :
    Writes c.document (RegistrySettings.tables.map Prod.fst) c.values := by
  refine Toml.writes_nest _ _ ⟨?_, ?_⟩ ?_ ?_ (show 1 ≤ Toml.keyLimit by decide)
  · exact (c.keys_sublist.append_right ["warnings"]).nodup (by decide)
  · exact c.warnings.keys_sublist.nodup (by decide)
  · exact bare_of_sublist c.keys_sublist (by decide)
  · intro t ht
    obtain rfl := List.mem_singleton.mp ht
    exact ⟨(by decide : Toml.IsBare "warnings"),
      bare_of_sublist c.warnings.keys_sublist (by decide)⟩

theorem LoadChoice.writes_document (c : LoadChoice) :
    Writes c.document (LoadSettings.tables.map Prod.fst) c.values := by
  refine Toml.writes_nest _ _ ⟨?_, ?_, ?_⟩ ?_ ?_ (show 2 ≤ Toml.keyLimit by decide)
  · exact (c.keys_sublist.append_right ["registry"]).nodup (by decide)
  · exact (c.registry.keys_sublist.append_right ["warnings"]).nodup (by decide)
  · exact c.registry.warnings.keys_sublist.nodup (by decide)
  · exact bare_of_sublist c.keys_sublist (by decide)
  · intro t ht
    rcases List.mem_cons.mp ht with rfl | ht
    · exact ⟨(by decide : Toml.IsBare "registry"),
        bare_of_sublist c.registry.keys_sublist (by decide)⟩
    · obtain rfl := List.mem_singleton.mp ht
      exact ⟨(by decide : Toml.IsBare "warnings"),
        bare_of_sublist c.registry.warnings.keys_sublist (by decide)⟩

/-! ## The meaning of documents -/

/-- A document that writes a choice is read as the defaults with the chosen values in their place,
if these settings can be honoured together, and is otherwise refused for what cannot. A document
that sets a key which is no field of its table is malformed, whatever else it says. -/
theorem documents_overlay_defaults (document : String) :
    (∀ c : LoadChoice, Writes document (LoadSettings.tables.map Prod.fst) c.values →
      LoadSettings.ofDocument document = c.settings.outcome) ∧
    (∀ path keys key, (path, keys) ∈ LoadSettings.tables → key ∉ keys → Sets document path key →
      LoadSettings.ofDocument document = .error .malformed) ∧
    (∀ c : RegistryChoice, Writes document (RegistrySettings.tables.map Prod.fst) c.values →
      RegistrySettings.ofDocument document = c.settings.outcome) ∧
    (∀ path keys key, (path, keys) ∈ RegistrySettings.tables → key ∉ keys →
      Sets document path key → RegistrySettings.ofDocument document = .error .malformed) := by
  refine ⟨?_, ?_, ?_, ?_⟩
  · intro c hwrites
    obtain ⟨es, hread, htidy, hassigns⟩ := hwrites.read (by decide)
    exact readSettings_load hread (c.overlay htidy hassigns)
  · intro path keys key htable hkey hsets
    refine readSettings_of_refused fun es hread => ?_
    obtain ⟨n, hleads⟩ := hsets.leads hread
    exact LoadSettings.overlay_unknown htable hkey hleads {}
  · intro c hwrites
    obtain ⟨es, hread, htidy, hassigns⟩ := hwrites.read (by decide)
    exact readSettings_registry hread (c.overlay htidy hassigns)
  · intro path keys key htable hkey hsets
    refine readSettings_of_refused fun es hread => ?_
    obtain ⟨n, hleads⟩ := hsets.leads hread
    exact RegistrySettings.overlay_unknown htable hkey hleads {}

/-- A load with one page extension, a registry without room for a warning, and a key that is no
field. -/
theorem documents_overlay_defaults_written :
    LoadSettings.ofDocument ("strict = true\nextensions = [\"js\"]\n[registry]\n" ++
      "warning_capacity = 32\n[registry.warnings]\n") =
        .ok { strict := true, extensions := ["js"], registry := { warningCapacity := 32 } } ∧
    LoadSettings.ofDocument "[registry]\ndeliver_diffs = true\n" = .error .malformed ∧
    RegistrySettings.ofDocument "warning_capacity = 0\n[warnings]\n" =
      .error (.invalid .noCapacity) ∧
    RegistrySettings.ofDocument "deliver_diffs = true\n" = .error .malformed := by
  refine ⟨?_, ?_, ?_, ?_⟩
  · have hwrites := LoadChoice.writes_document
      { strict := some true, extensions := some ["js"]
        registry := { warningCapacity := some 32, capacity_lt := by decide } }
    exact (documents_overlay_defaults _).1 _ hwrites
  · have hwrites : Writes "[registry]\ndeliver_diffs = true\n" [[], ["registry"]]
        [(["registry", "deliver_diffs"], .boolean true)] :=
      Toml.writes_nest [] [("registry", [("deliver_diffs", .boolean true)])]
        (show ["registry"].Nodup ∧ ["deliver_diffs"].Nodup by decide) (by decide) (by decide)
        (by decide)
    exact (documents_overlay_defaults _).2.1 ["registry"] _ "deliver_diffs"
      (List.mem_of_getElem? (i := 1) rfl) (by decide) (hwrites.sets List.mem_cons_self)
  · have hwrites := RegistryChoice.writes_document
      { warningCapacity := some 0, capacity_lt := by decide }
    exact (documents_overlay_defaults _).2.2.1 _ hwrites
  · have hwrites : Writes "deliver_diffs = true\n" [[]] [(["deliver_diffs"], .boolean true)] :=
      Toml.writes_nest [("deliver_diffs", .boolean true)] []
        (show ["deliver_diffs"].Nodup by decide) (by decide) (by decide) (by decide)
    exact (documents_overlay_defaults _).2.2.2 [] _ "deliver_diffs"
      (List.mem_of_getElem? (i := 0) rfl) (by decide) (hwrites.sets List.mem_cons_self)

end Crossref
