import Crossref.Catalog
import Crossref.FileTree
import Crossref.Json.Reader
import Crossref.Page.File
import Crossref.Script.Page

/-!
# Loading pages

A directory of pages is loaded into a catalog page by page, in the order of their paths, each page
into the registry of its trait. A strict load stops at the first page that fails; a lenient one
lists the pages that failed and goes on. What was merged before a load stopped stays in the catalog.
-/

namespace Crossref

/-- Why a page, or a folder of them, cannot be read. -/
inductive PageError where
  | unreadable (path : Path) (fault : ReadFault)
  | script (error : Script.Error)
  | json (fault : Json.Fault)
  | unlistable (root : Path)
  | notAPage (path : Path)
deriving Repr, DecidableEq

/-- The words for an error, where they are told. -/
def PageError.message? : PageError → Option String
  | unreadable path fault => some ("I/O error reading " ++ path.text ++ ": " ++ fault.message)
  | script error => some error.message
  | json _ => none
  | unlistable _ => none
  | notAPage path => some ("not an implementor page: " ++ path.text)

/-! ## One page -/

/-- The table of a page's text. -/
def tableOf (s : LoadSettings) (format : TableFormat) (text : String) :
    Except PageError (Index Markup) :=
  match format with
  | .script => (Script.read s.strict text).mapError .script
  | .json => (Json.read text).mapError .json

/-- The table of a page file. -/
def readPage (t : FileTree) (s : LoadSettings) (page : PageFile) :
    Except PageError (Index Markup) :=
  match t.readText page.path with
  | .error f => .error (.unreadable page.path f)
  | .ok text => tableOf s page.format text

/-- The page file at `path`, if that is one. -/
def pageAt (s : LoadSettings) (root path : Path) : Except PageError PageFile :=
  match PageFile.of? s root path with
  | none => .error (.notAPage path)
  | some page => .ok page

/-- The trait and the table of the page file at `path`. -/
def readPageAt (t : FileTree) (s : LoadSettings) (root path : Path) :
    Except PageError (TraitName × Index Markup) :=
  match pageAt s root path with
  | .error e => .error e
  | .ok page => (readPage t s page).map fun table => (page.trait, table)

/-! ## The pages below a root -/

/-- The name that stands for the standard input, below which there are no files. -/
def standardInput : List Path.Component := [.name [0x2d]]

/-- The page files below a root, in the order of their paths. -/
def pagesBelow (t : FileTree) (s : LoadSettings) (root : Path) :
    Except PageError (List PageFile) :=
  if root.components = standardInput then .ok []
  else
    match t.locate root with
    | .error _ => if s.strict then .error (.unlistable root) else .ok []
    | .ok loc =>
      let paths := (t.filesBelow loc).map fun names => names.foldl Path.join root
      .ok ((paths.filterMap (PageFile.of? s root)).mergeSort fun a b => decide (a.path ≤ b.path))

/-! ## A directory of pages -/

/-- The pages that a load merged, with the report on each, and those that failed, in load order. -/
structure LoadReport where
  loaded : List (Path × MergeReport) := []
  failures : List (Path × PageError) := []
deriving DecidableEq

namespace LoadReport

def pages (s : LoadReport) : Nat := s.loaded.length

/-- The number of warnings that merging raised. -/
def warnings (s : LoadReport) : Nat := s.loaded.foldr (fun p n => p.2.warnings + n) 0

end LoadReport

/-- What a load leaves behind: the catalog, the deliveries made on the way, and the outcome. -/
structure Loading where
  catalog : Catalog Markup
  deliveries : List (Delivery Markup)
  outcome : Except PageError LoadReport

/-- Loads pages one after the other. -/
def loadAll (t : FileTree) (s : LoadSettings) (c : Catalog Markup) : List PageFile → Loading
  | [] => ⟨c, [], .ok {}⟩
  | page :: pages =>
    match readPage t s page with
    | .ok table =>
      let step := c.merge page.trait.toString table
      let rest := loadAll t s step.catalog pages
      { rest with
        deliveries := step.delivery.toList ++ rest.deliveries
        outcome := rest.outcome.map fun o =>
          { o with loaded := (page.path, step.answer) :: o.loaded } }
    | .error e =>
      if s.strict then ⟨c, [], .error e⟩
      else
        let rest := loadAll t s c pages
        { rest with
          outcome := rest.outcome.map fun o =>
            { o with failures := (page.path, e) :: o.failures } }

/-- Loads every page below a root into a catalog. -/
def loadBelow (t : FileTree) (s : LoadSettings) (root : Path) (c : Catalog Markup) : Loading :=
  match pagesBelow t s root with
  | .error e => ⟨c, [], .error e⟩
  | .ok pages => loadAll t s c pages

end Crossref
