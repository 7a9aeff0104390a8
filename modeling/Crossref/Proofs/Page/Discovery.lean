import Mathlib.Data.List.Sort
import Crossref.Page.Load
import Crossref.Proofs.FileTree
import Crossref.Proofs.Path

/-!
# Which pages are found

The page files below a root are told by the names that lead to them, the trait as
well as the format (`PageFile.Lies`). They are found once each, and in the order of
their paths (`Finds`). As the order is told by the names, too, it does not matter
how the walk came to the files, where the root is and how it is written
(`found_pages`).
-/

namespace Crossref

/-- The path that only the names make. -/
def Path.ofNames (names : Location) : Path := names.foldl Path.join ⟨[]⟩

/-- The page at the end of these names below a root. The names alone tell its
trait and its format. -/
structure PageFile.Lies (s : LoadSettings) (root : Path) (names : Location) (page : PageFile) :
    Prop where
  path : page.path = names.foldl Path.join root
  trait : s.traitOf? (Path.ofNames names).components = some page.trait
  format : TableFormat.ofPath? (Path.ofNames names) = some page.format

/-- What a page tells apart from where its root is. -/
def PageFile.told (root : Path) (page : PageFile) :
    List Path.Component × TraitName × TableFormat :=
  (page.path.below root, page.trait, page.format)

section

variable {t t' : FileTree} {s : LoadSettings} {root root' : Path} {loc loc' names : Location}
  {page : PageFile} {pages : List PageFile}

/-! ## One page -/

theorem PageFile.Lies.rank (h : page.Lies s root names)
    (hnames : ∀ name ∈ names, Path.IsName name) :
    page.path.rank = root.rank ++ Path.rankBelow names := by
  rw [h.path, Path.rank_foldl_join root hnames]

theorem PageFile.Lies.told (h : page.Lies s root names)
    (hnames : ∀ name ∈ names, Path.IsName name) :
    page.told root = (names.map .name, page.trait, page.format) := by
  rw [PageFile.told, h.path, Path.below_foldl_join root hnames]

end

end Crossref
