import Crossref.Path

/-!
# File trees

A tree of files is a list of nodes with their locations, the names that lead to them from the top. A
path is walked name by name: a folder must stand wherever the walk goes on, two dots lead back from
where the walk really is, and a link is walked in place of its name. Nothing outside the tree is
known.
-/

namespace Crossref

/-- The names from the top of the tree. -/
abbrev Location := List (List UInt8)

inductive Node where
  | file (content : List UInt8)
  | folder
  | link (target : Path)
deriving Repr, DecidableEq

structure FileTree where
  nodes : List (Location × Node)
  distinct : (nodes.map Prod.fst).Nodup
deriving DecidableEq

/-- Why a file cannot be read. -/
inductive ReadFault where
  | notFound
  | isFolder
  | notFolder
  | tooManyLinks
  | nulInName
  | notText
deriving Repr, DecidableEq

def ReadFault.message : ReadFault → String
  | notFound => "No such file or directory (os error 2)"
  | isFolder => "Is a directory (os error 21)"
  | notFolder => "Not a directory (os error 20)"
  | tooManyLinks => "Too many levels of symbolic links (os error 40)"
  | nulInName => "file name contained an unexpected NUL byte"
  | notText => "stream did not contain valid UTF-8"

/-- One move of a walk: stay, go back, or go on to a name. -/
inductive Move where
  | stay
  | back
  | onTo (name : List UInt8)
deriving Repr, DecidableEq

/-- The moves of a path that does not start at a root. A slash at the end asks for a folder. -/
def Path.moves (p : Path) : List Move :=
  let named := p.pieces.filterMap fun piece =>
    if piece = [] then none
    else if piece = [Path.dot] then some .stay
    else if piece = [Path.dot, Path.dot] then some .back
    else some (.onTo piece)
  if p.bytes.getLast? = some Path.slash then named ++ [.stay] else named

/-- A path that starts at a root leads out of any tree. -/
def Path.isAbsolute (p : Path) : Bool := p.bytes.head? == some Path.slash

namespace FileTree

/-! ## Walking -/

/-- A walk may follow so many links. -/
def linkLimit : Nat := 40

/-- The node at a location; the top is a folder. -/
def node? (t : FileTree) (loc : Location) : Option Node :=
  if loc = [] then some .folder else t.nodes.lookup loc

/-- Walks from a location, following at most `links` links. -/
def walk (t : FileTree) (links : Nat) (loc : Location) (moves : List Move) :
    Except ReadFault Location :=
  match moves with
  | [] => .ok loc
  | m :: ms =>
    if t.node? loc = some .folder then
      match m with
      | .stay => t.walk links loc ms
      | .back => if loc = [] then .error .notFound else t.walk links loc.dropLast ms
      | .onTo name =>
        match t.node? (loc ++ [name]) with
        | none => .error .notFound
        | some (.link target) =>
          match links with
          | 0 => .error .tooManyLinks
          | links + 1 =>
            if target.isAbsolute then .error .notFound
            else t.walk links loc (target.moves ++ ms)
        | some _ => t.walk links (loc ++ [name]) ms
    else .error .notFolder
termination_by (links, moves.length)

/-- Where a path leads. -/
def locate (t : FileTree) (p : Path) : Except ReadFault Location :=
  if 0 ∈ p.bytes then .error .nulInName
  else if p.bytes = [] ∨ p.isAbsolute then .error .notFound
  else t.walk linkLimit [] p.moves

/-! ## Reading -/

/-- The text of the file that a path leads to. -/
def readText (t : FileTree) (p : Path) : Except ReadFault String :=
  match t.locate p with
  | .error f => .error f
  | .ok loc =>
    match t.node? loc with
    | some (.file content) =>
      match Text.decodeUtf8? content with
      | some s => .ok s
      | none => .error .notText
    | some _ => .error .isFolder
    | none => .error .notFound

/-- The names that lead from the folder at a location to each file below it. Links are not followed,
and are no files. -/
def filesBelow (t : FileTree) (root : Location) : List Location :=
  t.nodes.filterMap fun (loc, node) =>
    match node with
    | .file _ => Text.stripLead? root loc
    | _ => none

/-! ## Building -/

def empty : FileTree := ⟨[], List.nodup_nil⟩

/-- Puts a node at a location, in place of what was there. -/
def set (t : FileTree) (loc : Location) (node : Node) : FileTree where
  nodes := t.nodes.filter (fun e => decide (e.1 ≠ loc)) ++ [(loc, node)]
  distinct := by
    rw [List.map_append, List.nodup_append]
    refine ⟨(List.filter_sublist.map Prod.fst).nodup t.distinct, by simp, ?_⟩
    intro a ha b hb
    obtain ⟨e, he, rfl⟩ := List.mem_map.1 ha
    have := (List.mem_filter.1 he).2
    simp at this hb
    exact hb ▸ this

/-- Puts a node at the end of a chain of names, making the folders on the way. -/
def add (t : FileTree) (loc : Location) (names : List (List UInt8)) (node : Node) : FileTree :=
  match names with
  | [] => t
  | [name] =>
    if node = .folder ∧ (t.node? (loc ++ [name])).isSome then t else t.set (loc ++ [name]) node
  | name :: names =>
    match t.node? (loc ++ [name]) with
    | none => (t.set (loc ++ [name]) .folder).add (loc ++ [name]) names node
    | some _ =>
      match t.walk linkLimit loc [.onTo name] with
      | .ok there => t.add there names node
      | .error _ => t

/-- Puts a node where a path names it. -/
def addAt (t : FileTree) (p : Path) (node : Node) : FileTree :=
  t.add [] (p.components.filterMap fun
    | .name bytes => some bytes
    | _ => none) node

end FileTree

end Crossref
