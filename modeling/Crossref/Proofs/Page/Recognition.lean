import Crossref.Proofs.Page.Filing
import Crossref.Proofs.Page.RootDir

/-!
# Which paths lead to pages

A path leads to a page if its names are those of folders and of a page file, and
nothing leads out of where it starts; then the names tell the trait. Slashes and
dots that mean nothing to a path mean nothing here (`page_path_recognised`).

The file name of a page is taken apart twice, for the trait as text and for the
format as bytes, the first time below the root and the second time at the end of
the whole path. Both come upon the same file name (`fileName?_of_namesBelow?`) and
cut it at the same dot (`cutLast?_encodeUtf8`), so a path that tells a trait always
tells a format (`format_of_page_path`).
-/

namespace Crossref

open Text (cutLast? cutLast?_append_cons cutLast?_eq_some_iff stripLead?_eq_some_iff
  encodeUtf8 encodeUtf8_append encodeUtf8_inj mem_of_mem_encodeUtf8)

/-! ## The names of a path -/

namespace Path

/-- A path is rooted if its first piece is empty, unless there is no other. -/
theorem head?_bytes_eq_slash_iff {p : Path} {first : List UInt8} {rest : List (List UInt8)}
    (h : p.pieces = first :: rest) :
    p.bytes.head? = some slash ↔ first = [] ∧ p.bytes ≠ [] := by
  obtain ⟨bytes⟩ := p
  cases bytes with
  | nil => simp
  | cons b bytes =>
      rw [pieces, List.splitOn_cons_eq_if_modifyHead] at h
      by_cases hb : b = slash
      · rw [if_pos (by simpa using hb)] at h
        obtain ⟨rfl, -⟩ := List.cons.inj h
        simp [hb]
      · rw [if_neg (by simpa using hb)] at h
        obtain ⟨piece, more, hsplit⟩ := List.exists_cons_of_ne_nil (List.splitOn_ne_nil slash bytes)
        rw [hsplit, List.modifyHead_cons] at h
        obtain ⟨rfl, -⟩ := List.cons.inj h
        simp [hb]

/-- Only a root makes the first piece mean more to the names than the others do. -/
theorem namesBelow?_components (p : Path) :
    namesBelow? p.components =
      if p.bytes.head? = some slash then none
      else namesBelow? (p.pieces.filterMap componentOf?) := by
  obtain ⟨first, rest, hpieces⟩ := List.exists_cons_of_ne_nil p.pieces_ne_nil
  rw [components, hpieces]
  dsimp only
  simp only [head?_bytes_eq_slash_iff hpieces]
  split
  · rfl
  · split
    · rename_i hdot
      rw [namesBelow?, List.filterMap_cons_none (by rw [hdot]; rfl)]
    · rfl

end Path

/-! ## The trait of a path -/

namespace LoadSettings

variable {s : LoadSettings}

/-- A file name tells a trait's name if and only if it is that of a page. -/
theorem traitName?_eq_some_iff {file name : String} :
    s.traitName? file = some name ↔
      name ≠ "" ∧ ∃ ext ∈ s.extensions, '.' ∉ ext.toList ∧ file = s.pageName name ext := by
  constructor
  · intro h
    obtain ⟨⟨stem, ext⟩, hcut, h⟩ := Option.bind_eq_some_iff.mp h
    obtain ⟨hfile, hdot⟩ := cutLast?_eq_some_iff.mp hcut
    dsimp only at h
    split at h
    · rename_i hext
      obtain ⟨rest, hstem, h⟩ := Option.bind_eq_some_iff.mp h
      split at h
      · cases h
      · rename_i hne
        cases h
        refine ⟨by simpa using hne, String.ofList ext, hext, by simpa using hdot, ?_⟩
        rw [← String.toList_inj, hfile, stripLead?_eq_some_iff.mp hstem]
        simp [pageName, String.toList_append]
    · cases h
  · rintro ⟨hne, ext, hext, hdot, rfl⟩
    exact traitName?_pageName hne hext hdot

/-- A path to a page: it stays below where it starts, and its names are those of
folders and at last that of a page file, with a marker, the name of a trait, a dot
and an extension that holds no dot. -/
structure IsPage (s : LoadSettings) (p : Path) (folders : List String) (name ext : String) :
    Prop where
  no_root : .root ∉ p.components
  no_parent : .parent ∉ p.components
  names : p.components.filterMap Path.Component.name? =
    (folders ++ [s.pageName name ext]).map encodeUtf8
  name_ne : name ≠ ""
  ext_mem : ext ∈ s.extensions
  ext_no_dot : '.' ∉ ext.toList

theorem IsPage.namesBelow?_eq {p : Path} {folders : List String} {name ext : String}
    (h : s.IsPage p folders name ext) :
    namesBelow? p.components = some (folders ++ [s.pageName name ext]) :=
  namesBelow?_eq_some_iff.mpr ⟨h.no_root, h.no_parent, h.names⟩

theorem IsPage.folder_ne {p : Path} {folders : List String} {name ext : String}
    (h : s.IsPage p folders name ext) {folder : String} (hfolder : folder ∈ folders) :
    folder ≠ "" := by
  have hmem := mem_of_namesBelow? h.namesBelow?_eq (List.mem_append_left _ hfolder)
  exact (Path.isName_of_mem_components hmem).ne_empty

theorem modules_eq (s : LoadSettings) (folders : List String) :
    s.modules folders = if folders.head? = some s.rootDir then folders.tail else folders := by
  cases folders with
  | nil => rfl
  | cons folder folders => simp [modules]

/-- The segments of the trait are the names of the folders and that of the trait. -/
theorem segments_traitOf?_iff {p : Path} {segments : List String} :
    (s.traitOf? p.components).map TraitName.segments = some segments ↔
      ∃ folders name ext, s.IsPage p folders name ext ∧
        segments = s.modules folders ++ [name] := by
  constructor
  · intro h
    obtain ⟨trait, htrait, rfl⟩ := Option.map_eq_some_iff.mp h
    obtain ⟨names, hnames, hfile⟩ := Option.bind_eq_some_iff.mp htrait
    obtain ⟨file, hlast, hname⟩ := Option.bind_eq_some_iff.mp hfile
    obtain ⟨name, htell, hsegments⟩ := Option.bind_eq_some_iff.mp hname
    obtain ⟨hne, ext, hext, hdot, rfl⟩ := traitName?_eq_some_iff.mp htell
    obtain ⟨folders, rfl⟩ := List.getLast?_eq_some_iff.mp hlast
    obtain ⟨hroot, hparent, hbytes⟩ := namesBelow?_eq_some_iff.mp hnames
    rw [List.dropLast_concat, TraitName.ofSegments?_eq_some_iff] at hsegments
    exact ⟨folders, name, ext, ⟨hroot, hparent, hbytes, hne, hext, hdot⟩, hsegments.symm⟩
  · rintro ⟨folders, name, ext, h, rfl⟩
    have hname := traitName?_pageName h.name_ne h.ext_mem h.ext_no_dot
    have hfolders : "" ∉ s.modules folders := by
      rw [modules_eq]
      intro hmem
      split at hmem
      · exact h.folder_ne (List.mem_of_mem_tail hmem) rfl
      · exact h.folder_ne hmem rfl
    have hsegments : "" ∉ s.modules folders ++ [name] := by
      simp [hfolders, h.name_ne.symm]
    let trait : TraitName := ⟨s.modules folders ++ [name], by simp, hsegments⟩
    have htrait : TraitName.ofSegments? (s.modules folders ++ [name]) = some trait :=
      TraitName.ofSegments?_eq_some_iff.mpr rfl
    rw [traitOf?, h.namesBelow?_eq, Option.bind_some, List.getLast?_concat, Option.bind_some, hname,
      Option.bind_some, List.dropLast_concat, htrait, Option.map_some]

/-- What the pieces between the slashes of a path mean decides what trait it tells. -/
theorem traitOf?_of_pieces {p q : Path}
    (hroot : p.bytes.head? = some Path.slash ↔ q.bytes.head? = some Path.slash)
    (hpieces : p.pieces.filterMap Path.componentOf? = q.pieces.filterMap Path.componentOf?) :
    s.traitOf? p.components = s.traitOf? q.components := by
  simp only [traitOf?, Path.namesBelow?_components, hroot, hpieces]

/-- A piece that means nothing may be left out between two others. -/
theorem traitOf?_blank_piece (before after : List UInt8) {piece : List UInt8}
    (hslash : Path.slash ∉ piece) (hblank : Path.componentOf? piece = none) :
    s.traitOf? (Path.mk (before ++ Path.slash :: (piece ++ Path.slash :: after))).components =
      s.traitOf? (Path.mk (before ++ Path.slash :: after)).components := by
  refine traitOf?_of_pieces ?_ ?_
  · cases before <;> rfl
  · have hpiece : (Path.mk piece).pieces = [piece] := List.splitOn_eq_singleton hslash
    simp only [Path.pieces_append, hpiece, List.filterMap_append, List.filterMap_cons_none hblank,
      List.filterMap_nil, List.nil_append]

/-- A path tells a trait if and only if it is that of a page; then the segments
are the names of the folders, without the first one if that is the root directory,
and the name of the trait. A slash more, a dot between slashes or in front of a
path without a root, and a slash at the end change nothing. -/
theorem page_path_recognised (s : LoadSettings) :
    let trait? := fun bytes : List UInt8 => s.traitOf? (Path.mk bytes).components
    (∀ (p : Path) (segments : List String),
      (s.traitOf? p.components).map TraitName.segments = some segments ↔
        ∃ folders name ext, s.IsPage p folders name ext ∧
          segments =
            (if folders.head? = some s.rootDir then folders.tail else folders) ++ [name]) ∧
      (∀ u v, trait? (u ++ Path.slash :: Path.slash :: v) = trait? (u ++ Path.slash :: v)) ∧
      (∀ u v, trait? (u ++ Path.slash :: Path.dot :: Path.slash :: v) =
        trait? (u ++ Path.slash :: v)) ∧
      (∀ v, v.head? ≠ some Path.slash → trait? (Path.dot :: Path.slash :: v) = trait? v) ∧
      ∀ u, trait? (u ++ [Path.slash]) = trait? u := by
  intro trait?
  refine ⟨fun p segments => ?_, fun u v => ?_, fun u v => ?_, fun v hv => ?_, fun u => ?_⟩
  · simp only [segments_traitOf?_iff, modules_eq]
  · exact traitOf?_blank_piece u v List.not_mem_nil rfl
  · have hdot : Path.slash ∉ [Path.dot] := by decide
    exact traitOf?_blank_piece u v hdot rfl
  · have hlead : (Path.mk (Path.dot :: Path.slash :: v)).pieces =
        [Path.dot] :: (Path.mk v).pieces := Path.pieces_append [Path.dot] v
    refine traitOf?_of_pieces ⟨fun h => ?_, fun h => absurd h hv⟩ ?_
    · exact absurd (Option.some.inj h) (show Path.dot ≠ Path.slash by decide)
    · rw [hlead, List.filterMap_cons_none rfl]
  · cases u with
    | nil => simp [trait?, traitOf?, Path.namesBelow?_components, Path.pieces, Path.componentOf?,
        namesBelow?]
    | cons b u =>
        refine traitOf?_of_pieces Iff.rfl ?_
        have hend : (Path.mk (b :: u ++ [Path.slash])).pieces =
            (Path.mk (b :: u)).pieces ++ [[]] := Path.pieces_append (b :: u) []
        rw [hend, List.filterMap_append, List.filterMap_cons_none rfl, List.filterMap_nil,
          List.append_nil]

end LoadSettings

/-! ## The format of a page -/

/-- The extension that is cut off where the trait of a page is told. -/
def cutExtension? (cs : List Path.Component) : Option String :=
  (namesBelow? cs).bind fun names => names.getLast?.bind fun file =>
    (cutLast? '.' file.toList).map fun cut => String.ofList cut.2

namespace Path

theorem componentOf?_ne_current (piece : List UInt8) : componentOf? piece ≠ some .current := by
  unfold componentOf?
  split
  · simp
  · split <;> simp

/-- A dot is a component only at the beginning of a path. -/
theorem current_not_mem_tail (p : Path) : .current ∉ p.components.tail := by
  have hrest : ∀ pieces : List (List UInt8), .current ∉ pieces.filterMap componentOf? := by
    intro pieces hmem
    obtain ⟨piece, -, hpiece⟩ := List.mem_filterMap.mp hmem
    exact componentOf?_ne_current piece hpiece
  unfold components
  cases p.pieces with
  | nil => simp
  | cons first rest =>
      dsimp only
      split
      · exact hrest rest
      · split
        · exact hrest rest
        · exact fun hmem => hrest _ (List.mem_of_mem_tail hmem)

theorem eq_nil_of_components_concat_current {p : Path} {cs : List Component}
    (h : p.components = cs ++ [.current]) : cs = [] := by
  cases cs with
  | nil => rfl
  | cons c cs =>
      have htail : .current ∈ p.components.tail := by simp [h]
      exact absurd htail p.current_not_mem_tail

theorem below_suffix (p root : Path) : p.below root <:+ p.components := by
  unfold below
  cases h : Text.stripLead? root.components p.components with
  | none => exact List.suffix_refl _
  | some rest => exact ⟨root.components, (stripLead?_eq_some_iff.mp h).symm⟩

/-- The last name below a root is the file name of the path. -/
theorem fileName?_of_namesBelow? {p root : Path} {names : List String} {file : String}
    (hnames : namesBelow? (p.below root) = some names) (hfile : names.getLast? = some file) :
    p.fileName? = some (encodeUtf8 file) := by
  obtain ⟨hroot, hparent, hbytes⟩ := namesBelow?_eq_some_iff.mp hnames
  obtain ⟨folders, rfl⟩ := List.getLast?_eq_some_iff.mp hfile
  obtain ⟨front, hbelow⟩ := p.below_suffix root
  rcases List.eq_nil_or_concat' (p.below root) with hnil | ⟨init, last, hlast⟩
  · rw [hnil] at hbytes
    simp at hbytes
  · rw [hlast, List.filterMap_append] at hbytes
    have hcomponents : p.components = (front ++ init) ++ [last] := by
      rw [← hbelow, hlast, List.append_assoc]
    have hname : last = .name (encodeUtf8 file) := by
      cases last with
      | root => exact absurd (by simp [hlast]) hroot
      | parent => exact absurd (by simp [hlast]) hparent
      | current =>
          -- A dot at the end is all there is, and then there are no names.
          have hfront := eq_nil_of_components_concat_current hcomponents
          obtain ⟨-, rfl⟩ := List.append_eq_nil_iff.mp hfront
          simp [List.filterMap_cons, Component.name?] at hbytes
      | name bytes =>
          have hends : init.filterMap Component.name? = folders.map encodeUtf8 ∧
              bytes = encodeUtf8 file := by simpa [Component.name?] using hbytes
          rw [hends.2]
    rw [fileName?, hcomponents, List.getLast?_concat, hname]

end Path

/-- A text and its bytes are cut at the same dot. -/
theorem cutLast?_encodeUtf8 {file : String} {stem ext : List Char}
    (h : cutLast? '.' file.toList = some (stem, ext)) :
    cutLast? Path.dot (encodeUtf8 file) =
      some (encodeUtf8 (String.ofList stem), encodeUtf8 (String.ofList ext)) := by
  obtain ⟨hfile, hdot⟩ := cutLast?_eq_some_iff.mp h
  have htext : file = String.ofList stem ++ "." ++ String.ofList ext := by
    rw [← String.toList_inj, hfile]
    simp [String.toList_append]
  have hbytes : encodeUtf8 "." = [Path.dot] := by decide +kernel
  have hdot' : Path.dot ∉ encodeUtf8 (String.ofList ext) := fun hmem => by
    have hchar : '.' ∈ (String.ofList ext).toList := mem_of_mem_encodeUtf8 (by decide) hmem
    rw [String.toList_ofList] at hchar
    exact hdot hchar
  rw [htext, encodeUtf8_append, encodeUtf8_append, hbytes, List.append_assoc]
  exact cutLast?_append_cons _ hdot'

namespace LoadSettings

/-- Where a path tells a trait, its format is that of the extension cut off on the way. -/
theorem ofPath?_of_traitOf? {s : LoadSettings} {root path : Path} {trait : TraitName}
    (h : s.traitOf? (path.below root) = some trait) :
    ∃ ext ∈ s.extensions, cutExtension? (path.below root) = some ext ∧
      TableFormat.ofPath? path = TableFormat.ofExtension? ext := by
  obtain ⟨names, hnames, hrest⟩ := Option.bind_eq_some_iff.mp h
  obtain ⟨file, hfile, hname⟩ := Option.bind_eq_some_iff.mp hrest
  obtain ⟨name, htell, -⟩ := Option.bind_eq_some_iff.mp hname
  obtain ⟨hne, ext, hext, hdot, rfl⟩ := traitName?_eq_some_iff.mp htell
  have hcut : cutLast? '.' (s.pageName name ext).toList =
      some (s.marker.toList ++ name.toList, ext.toList) := by
    refine cutLast?_eq_some_iff.mpr ⟨?_, hdot⟩
    simp [pageName, String.toList_append]
  refine ⟨ext, hext, ?_, ?_⟩
  · simp [cutExtension?, hnames, hfile, hcut]
  · have hstem : encodeUtf8 (String.ofList (s.marker.toList ++ name.toList)) ≠ encodeUtf8 "" := by
      rw [Ne, encodeUtf8_inj, ← String.toList_inj]
      simp [hne]
    obtain ⟨b, bytes, hbytes⟩ := List.exists_cons_of_ne_nil hstem
    rw [TableFormat.ofPath?, Path.extension?, Path.fileName?_of_namesBelow? hnames hfile,
      Option.bind_some, cutLast?_encodeUtf8 hcut, hbytes]
    simp

/-- The pages of settings that a document gives, wherever their root is. A path
that tells a trait below the root is always a page: its format is that of the
extension that was cut off for the trait, and there is one. Any other path is told
to be no page, as it was given. -/
theorem format_of_page_path {document : String} {s : LoadSettings}
    (hs : ofDocument document = .ok s) (root path : Path) :
    match s.traitOf? (path.below root) with
    | none => pageAt s root path = .error (.notAPage path)
    | some trait => ∃ format, TableFormat.ofPath? path = some format ∧
        pageAt s root path = .ok ⟨path, trait, format⟩ ∧
        (format = .script ↔ cutExtension? (path.below root) = some "js") ∧
        (format = .json ↔ cutExtension? (path.below root) = some "json") := by
  cases htrait : s.traitOf? (path.below root) with
  | none => simp only [pageAt, PageFile.of?, htrait]
  | some trait =>
      obtain ⟨ext, hext, hcut, hformat⟩ := ofPath?_of_traitOf? htrait
      have hknown := extension_of_check (check_of_readSettings hs) hext
      have hpage : ∀ format, TableFormat.ofPath? path = some format →
          pageAt s root path = .ok ⟨path, trait, format⟩ := fun format h => by
        simp only [pageAt, PageFile.of?, htrait, h]
      rcases hknown with rfl | rfl
      · exact ⟨.script, hformat, hpage _ hformat, by simp [hcut], by simp [hcut]⟩
      · exact ⟨.json, hformat, hpage _ hformat, by simp [hcut], by simp [hcut]⟩

/-- A marker and a trait's name that begin with dots, below a root that is written
with more than it needs. -/
theorem format_of_page_path_dotted :
    ∃ s page, ofDocument "page_prefix = \".\"\nextensions = [\"json\"]" = .ok s ∧
      pageAt s (.ofString "out/./") (.ofString "out//core/..a.json/.") = .ok page ∧
      page.trait.segments = ["core", ".a"] ∧ page.format = .json := by
  let s : LoadSettings := { marker := ".", extensions := ["json"] }
  let root := Path.ofString "out/./"
  let path := Path.ofString "out//core/..a.json/."
  have hs : ofDocument "page_prefix = \".\"\nextensions = [\"json\"]" = .ok s := by decide +kernel
  have hsegments : (s.traitOf? (path.below root)).map TraitName.segments = some ["core", ".a"] := by
    decide +kernel
  have hcut : cutExtension? (path.below root) = some "json" := by decide +kernel
  obtain ⟨trait, htrait, hnamed⟩ := Option.map_eq_some_iff.mp hsegments
  have hpage := format_of_page_path hs root path
  rw [htrait] at hpage
  obtain ⟨format, -, hok, -, hjson⟩ := hpage
  exact ⟨s, _, hs, hok, hnamed, hjson.mpr hcut⟩

end LoadSettings

end Crossref
