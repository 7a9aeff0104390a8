import Crossref.Config
import Crossref.Page.File
import Crossref.Proofs.Path
import Crossref.Proofs.Text.Cut
import Crossref.Proofs.Text.Utf8

/-!
# The root directory of the pages

A page has a path below the root directory: the modules of its trait, then the
marker, the trait's own name and an extension. Read back, the path gives these
segments, and in front of them the names of the root directory, unless it is
written as the bare name that it leads to (`segments_of_pagePath`). Written in any
other way, say with a slash at the end, the root directory is never left out
(`rootDir_kept_with_slash`).
-/

namespace Crossref

open Text (cutLast?_append_cons stripLead? stripLead?_eq_some_iff decodeUtf8?_encodeUtf8 encodeUtf8
  encodeUtf8_of_decodeUtf8? encodeUtf8_append encodeUtf8_inj mem_of_mem_encodeUtf8)

/-! ## Settings that a document gives -/

theorem check_of_readSettings {σ : Type} {fields : List (Toml.RecordField σ)} {default s : σ}
    {check : σ → Except InvalidSetting Unit} {document : String}
    (h : readSettings fields default check document = .ok s) : check s = .ok () := by
  unfold readSettings at h
  split at h
  · cases h
  · split at h
    · cases h
    · cases h
      assumption

/-- The extensions of settings that pass their check name formats. -/
theorem LoadSettings.extension_of_check {s : LoadSettings} (h : s.check = .ok ()) {ext : String}
    (hext : ext ∈ s.extensions) : ext = "js" ∨ ext = "json" := by
  have hformat : TableFormat.ofExtension? ext ≠ none := by
    unfold check at h
    split at h
    · cases h
    · split at h
      · cases h
      · rename_i hfind
        simpa using List.find?_eq_none.mp hfind ext hext
  unfold TableFormat.ofExtension? at hformat
  grind

/-! ## Names below a directory -/

theorem namesBelow?_append {cs : List Path.Component} {names : List String}
    (h : namesBelow? cs = some names) (ds : List Path.Component) :
    namesBelow? (cs ++ ds) = (namesBelow? ds).map (names ++ ·) := by
  fun_induction namesBelow? cs generalizing names with
  | case1 =>
      cases h
      simp
  | case2 cs ih => exact ih h
  | case3 bytes cs name hname ih =>
      obtain ⟨rest, hrest, rfl⟩ := Option.map_eq_some_iff.mp h
      rw [List.cons_append, namesBelow?, hname, ih hrest]
      simp [Function.comp_def]
  | case4 => cases h
  | case5 => cases h
  | case6 => cases h

/-- The bytes of a component that is a name. -/
def Path.Component.name? : Path.Component → Option (List UInt8)
  | .name bytes => some bytes
  | .root | .current | .parent => none

theorem namesBelow?_eq_some_iff {cs : List Path.Component} {names : List String} :
    namesBelow? cs = some names ↔
      .root ∉ cs ∧ .parent ∉ cs ∧ cs.filterMap Path.Component.name? = names.map encodeUtf8 := by
  fun_induction namesBelow? cs generalizing names with
  | case1 => simp [eq_comm]
  | case2 cs ih => simp [ih, List.filterMap_cons, Path.Component.name?]
  | case3 bytes cs name hname ih =>
      rw [← encodeUtf8_of_decodeUtf8? hname]
      cases names with
      | nil => simp [Path.Component.name?]
      | cons n names => simp [Path.Component.name?, ih, encodeUtf8_inj, and_left_comm]
  | case4 bytes cs hname =>
      have hnone : ∀ n, bytes ≠ encodeUtf8 n := by
        rintro n rfl
        rw [decodeUtf8?_encodeUtf8] at hname
        cases hname
      cases names <;> simp [Path.Component.name?, hnone]
  | case5 cs => simp
  | case6 cs => simp

theorem namesBelow?_map_name (names : List String) :
    namesBelow? ((names.map encodeUtf8).map .name) = some names := by
  induction names with
  | nil => rfl
  | cons name names ih =>
      rw [List.map_cons, List.map_cons, namesBelow?, decodeUtf8?_encodeUtf8]
      simp only [ih, Option.map_some]

theorem mem_of_namesBelow? {cs : List Path.Component} {names : List String}
    (h : namesBelow? cs = some names) {name : String} (hname : name ∈ names) :
    .name (encodeUtf8 name) ∈ cs := by
  obtain ⟨-, -, hbytes⟩ := namesBelow?_eq_some_iff.mp h
  have hmem : encodeUtf8 name ∈ cs.filterMap Path.Component.name? :=
    hbytes ▸ List.mem_map_of_mem hname
  obtain ⟨c, hc, hcname⟩ := List.mem_filterMap.mp hmem
  cases c with
  | name bytes =>
      cases hcname
      exact hc
  | root => cases hcname
  | current => cases hcname
  | parent => cases hcname

/-- A text that is one name leads to itself. -/
theorem eq_singleton_of_mem_namesBelow? {text : String} {names : List String}
    (h : namesBelow? (Path.ofString text).components = some names) (htext : text ∈ names) :
    names = [text] := by
  have hname : Path.IsName (encodeUtf8 text) :=
    Path.isName_of_mem_components (mem_of_namesBelow? h htext)
  rw [Path.ofString, Path.components_of_name hname] at h
  simpa [namesBelow?, eq_comm] using h

theorem Path.IsName.ne_empty {name : String} (h : Path.IsName (encodeUtf8 name)) : name ≠ "" := by
  rintro rfl
  exact h.ne_nil rfl

theorem TraitName.ofSegments?_of_isName {segments : List String} (hne : segments ≠ [])
    (h : ∀ name ∈ segments, Path.IsName (encodeUtf8 name)) :
    (ofSegments? segments).map TraitName.segments = some segments := by
  have hempty : "" ∉ segments := fun hmem => (h "" hmem).ne_empty rfl
  rw [ofSegments?, dif_pos ⟨hne, hempty⟩, Option.map_some]

/-! ## The paths of pages -/

namespace LoadSettings

/-- The file name of a page for a trait of this name. -/
def pageName (s : LoadSettings) (last ext : String) : String := s.marker ++ last ++ "." ++ ext

/-- The path of a page below the root directory. -/
def pagePath (s : LoadSettings) (folders : List String) (last ext : String) : Path :=
  ((folders ++ [s.pageName last ext]).map encodeUtf8).foldl Path.join (.ofString s.rootDir)

variable {s : LoadSettings} {folders names : List String} {last ext : String}

theorem traitName?_pageName (hlast : last ≠ "") (hext : ext ∈ s.extensions)
    (hdot : '.' ∉ ext.toList) : s.traitName? (s.pageName last ext) = some last := by
  have hfile : (s.pageName last ext).toList =
      (s.marker.toList ++ last.toList) ++ '.' :: ext.toList := by
    simp [pageName, String.toList_append]
  have hname : stripLead? s.marker.toList (s.marker.toList ++ last.toList) = some last.toList :=
    stripLead?_eq_some_iff.mpr rfl
  have hne : last.toList ≠ [] := by simpa using hlast
  rw [traitName?, hfile, cutLast?_append_cons _ hdot]
  simp [hext, hname, hne]

theorem isName_pageName (hmarker : '/' ∉ s.marker.toList) (hlast : Path.IsName (encodeUtf8 last))
    (hext : ext = "js" ∨ ext = "json") : Path.IsName (encodeUtf8 (s.pageName last ext)) := by
  have hbytes : encodeUtf8 (s.pageName last ext) =
      encodeUtf8 s.marker ++ encodeUtf8 last ++ (encodeUtf8 "." ++ encodeUtf8 ext) := by
    simp [pageName, encodeUtf8_append]
  have hlength : 3 ≤ (encodeUtf8 (s.pageName last ext)).length := by
    have hend : 3 ≤ (encodeUtf8 "." ++ encodeUtf8 ext).length := by
      rcases hext with rfl | rfl <;> decide +kernel
    rw [hbytes, List.length_append]
    omega
  have hend : Path.slash ∉ encodeUtf8 "." ++ encodeUtf8 ext := by
    rcases hext with rfl | rfl <;> decide +kernel
  have hmarker' : Path.slash ∉ encodeUtf8 s.marker := fun h =>
    hmarker (mem_of_mem_encodeUtf8 (by decide) h)
  constructor
  case no_slash =>
    rw [hbytes, List.mem_append, List.mem_append, not_or, not_or]
    exact ⟨⟨hmarker', hlast.no_slash⟩, hend⟩
  all_goals
    intro h
    simp [h] at hlength

/-- The names of the root directory come first, then those of the page. -/
theorem namesBelow?_pagePath (hroot : namesBelow? (Path.ofString s.rootDir).components = some names)
    (hsegments : ∀ name ∈ folders ++ [last], Path.IsName (encodeUtf8 name))
    (hfile : Path.IsName (encodeUtf8 (s.pageName last ext))) :
    namesBelow? (s.pagePath folders last ext).components =
      some (names ++ folders ++ [s.pageName last ext]) := by
  have hpath : ∀ name ∈ (folders ++ [s.pageName last ext]).map encodeUtf8, Path.IsName name := by
    have hfolders : ∀ name ∈ folders, Path.IsName (encodeUtf8 name) := fun name hname =>
      hsegments name (List.mem_append_left _ hname)
    simpa [or_imp, forall_and] using ⟨hfolders, hfile⟩
  rw [pagePath, Path.components_foldl_join _ hpath, namesBelow?_append hroot,
    namesBelow?_map_name, Option.map_some, List.append_assoc]

/-- The names of the root directory are left out where they are one and it is
written as that name. -/
theorem modules_append (hroot : namesBelow? (Path.ofString s.rootDir).components = some names)
    (hne : names ≠ []) (folders : List String) :
    s.modules (names ++ folders) = (if names = [s.rootDir] then [] else names) ++ folders := by
  obtain ⟨first, rest, rfl⟩ := List.exists_cons_of_ne_nil hne
  by_cases hfirst : first = s.rootDir
  · obtain rfl : rest = [] := by
      have hone := eq_singleton_of_mem_namesBelow? hroot (hfirst ▸ List.mem_cons_self)
      simpa using congrArg List.tail hone
    simp [modules, hfirst]
  · simp [modules, hfirst]

/-- A page below the root directory is read back with the names of the root
directory in front of its modules, unless the root directory is written as the
one name that it is. So a page gives its segments back exactly in this case. -/
theorem segments_of_pagePath {document : String} (hs : ofDocument document = .ok s)
    (hroot : namesBelow? (Path.ofString s.rootDir).components = some names) (hne : names ≠ [])
    (hmarker : '/' ∉ s.marker.toList)
    (hsegments : ∀ name ∈ folders ++ [last], Path.IsName (encodeUtf8 name))
    (hext : ext ∈ s.extensions) :
    (s.traitOf? (s.pagePath folders last ext).components).map TraitName.segments =
        some ((if names = [s.rootDir] then [] else names) ++ folders ++ [last]) ∧
      ((s.traitOf? (s.pagePath folders last ext).components).map TraitName.segments =
        some (folders ++ [last]) ↔ names = [s.rootDir]) := by
  have hformat := extension_of_check (check_of_readSettings hs) hext
  have hlast : Path.IsName (encodeUtf8 last) := hsegments last (by simp)
  have hnames := namesBelow?_pagePath hroot hsegments (isName_pageName hmarker hlast hformat)
  have hsegments' : ∀ name ∈ (if names = [s.rootDir] then [] else names) ++ folders ++ [last],
      Path.IsName (encodeUtf8 name) := by
    have hrootNames : ∀ name ∈ if names = [s.rootDir] then [] else names,
        Path.IsName (encodeUtf8 name) := by
      intro name hname
      split at hname
      · cases hname
      · exact Path.isName_of_mem_components (mem_of_namesBelow? hroot hname)
    rw [List.append_assoc]
    exact List.forall_mem_append.mpr ⟨hrootNames, hsegments⟩
  have htrait : (s.traitOf? (s.pagePath folders last ext).components).map TraitName.segments =
      some ((if names = [s.rootDir] then [] else names) ++ folders ++ [last]) := by
    have hdot : '.' ∉ ext.toList := by
      rcases hformat with rfl | rfl <;> decide
    have hname := traitName?_pageName hlast.ne_empty hext hdot
    rw [traitOf?, hnames, Option.bind_some, List.getLast?_concat, Option.bind_some, hname,
      Option.bind_some, List.dropLast_concat, modules_append hroot hne,
      TraitName.ofSegments?_of_isName (by simp) hsegments']
  refine ⟨htrait, ?_⟩
  rw [htrait]
  split <;> simp_all

/-- The default root directory is one name, and is left out. -/
theorem segments_of_pagePath_implementors :
    ofDocument "" = .ok {} ∧
      pagePath {} ["core", "ops"] "Shr" "js" = .ofString "implementors/core/ops/trait.Shr.js" ∧
      (traitOf? {} (pagePath {} ["core", "ops"] "Shr" "js").components).map TraitName.segments =
        some ["core", "ops", "Shr"] := by
  have hs : ofDocument "" = .ok {} := by decide +kernel
  have hroot : namesBelow? (Path.ofString "implementors").components = some ["implementors"] := by
    decide +kernel
  have hsegments : ∀ name ∈ ["core", "ops"] ++ ["Shr"], Path.IsName (encodeUtf8 name) := by
    decide +kernel
  have hread := segments_of_pagePath hs hroot (by decide) (by decide) hsegments
    (List.mem_cons_self : "js" ∈ ["js", "json"])
  exact ⟨hs, by decide +kernel, hread.2.mpr rfl⟩

/-- The root directory written with a slash behind its name: the page for
`core::ops::Shr` below it is taken for one of `implementors::core::ops::Shr`. -/
theorem rootDir_kept_with_slash :
    ∃ s, ofDocument "root_dir = \"implementors/\"" = .ok s ∧
      namesBelow? (Path.ofString s.rootDir).components = some ["implementors"] ∧
      '/' ∉ s.marker.toList ∧
      (∀ name ∈ ["core", "ops", "Shr"], Path.IsName (encodeUtf8 name)) ∧ "js" ∈ s.extensions ∧
      s.pagePath ["core", "ops"] "Shr" "js" = .ofString "implementors/core/ops/trait.Shr.js" ∧
      (s.traitOf? (s.pagePath ["core", "ops"] "Shr" "js").components).map TraitName.segments =
        some ["implementors", "core", "ops", "Shr"] :=
  ⟨{ rootDir := "implementors/" }, by decide +kernel⟩

end LoadSettings

end Crossref
