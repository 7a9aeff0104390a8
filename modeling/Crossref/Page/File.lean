import Crossref.Page.Settings
import Crossref.TraitName

/-!
# Page files

The path of a page tells its trait: `implementors/core/ops/trait.Shr.js` is a page for
`core::ops::Shr`. The folders are the modules, apart from a first one that is the root directory of
the pages; the file is the marker, the trait's name, a dot and an extension.
-/

namespace Crossref

open Text (cutLast? stripLead? decodeUtf8?)

/-- The names of a path that stays below where it starts, if all of them are text. -/
def namesBelow? : List Path.Component → Option (List String)
  | [] => some []
  | .current :: cs => namesBelow? cs
  | .name bytes :: cs =>
    match decodeUtf8? bytes with
    | some s => (namesBelow? cs).map (s :: ·)
    | none => none
  | .root :: _ => none
  | .parent :: _ => none

/-- The name of the trait in the file name of a page. -/
def LoadSettings.traitName? (s : LoadSettings) (file : String) : Option String :=
  (cutLast? '.' file.toList).bind fun (stem, extension) =>
    if String.ofList extension ∈ s.extensions then
      (stripLead? s.marker.toList stem).bind fun name =>
        if name = [] then none else some (String.ofList name)
    else none

/-- The folders of a page that are modules. -/
def LoadSettings.modules (s : LoadSettings) : List String → List String
  | [] => []
  | d :: ds => if d = s.rootDir then ds else d :: ds

/-- The trait of a page, from the components of its path. -/
def LoadSettings.traitOf? (s : LoadSettings) (components : List Path.Component) :
    Option TraitName :=
  (namesBelow? components).bind fun names =>
    names.getLast?.bind fun file =>
      (s.traitName? file).bind fun name =>
        TraitName.ofSegments? (s.modules names.dropLast ++ [name])

/-- A page file: where it lies, its trait, and its format. -/
structure PageFile where
  path : Path
  trait : TraitName
  format : TableFormat
deriving DecidableEq

/-- The page at `path`, whose trait is told from its path below `root`. -/
def PageFile.of? (s : LoadSettings) (root path : Path) : Option PageFile :=
  match s.traitOf? (path.below root), TableFormat.ofPath? path with
  | some trait, some format => some ⟨path, trait, format⟩
  | _, _ => none

end Crossref
