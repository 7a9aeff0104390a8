import Crossref.FileTree
import Crossref.Proofs.Path

/-!
# Walks through folders

A path that only names, and names folders on its way and no links, leads where
its names say (`FileTree.locate_of_leads`): what stands there is what is read.

A walk that succeeds takes one move after the other (`FileTree.Walks`), so a path
leads to the same folder with a slash at its end, behind a dot, or by way of
another folder and back (`FileTree.locate_of_respelled`). The nodes of a tree may
be listed in any order (`FileTree.node?_of_perm`), and a tree that was built path
by path holds nothing that has no name (`FileTree.Named.addAt`).
-/

namespace Crossref

open Text (stripLead? stripLead?_eq_some_iff)

/-- The path is the names of the location, one after the other. -/
def Path.Spells (p : Path) (loc : Location) : Prop :=
  0 ∉ p.bytes ∧ p.bytes ≠ [] ∧ p.isAbsolute = false ∧ p.moves = loc.map .onTo

instance (p : Path) (loc : Location) : Decidable (p.Spells loc) :=
  inferInstanceAs (Decidable (_ ∧ _))

namespace FileTree

/-- The names lead from a location through folders to something that is no link. -/
def leads (t : FileTree) (loc : Location) : List (List UInt8) → Bool
  | [] => true
  | name :: names =>
    t.node? loc = some .folder &&
      match t.node? (loc ++ [name]) with
      | none => false
      | some (.link _) => false
      | some _ => t.leads (loc ++ [name]) names

variable {t : FileTree} {loc : Location} {names : List (List UInt8)} {p : Path}

theorem walk_of_leads (links : Nat) (h : t.leads loc names = true) :
    t.walk links loc (names.map .onTo) = .ok (loc ++ names) := by
  induction names generalizing loc with
  | nil => rw [List.map_nil, walk, List.append_nil]
  | cons name names ih =>
      rw [leads, Bool.and_eq_true, decide_eq_true_eq] at h
      obtain ⟨hfolder, hnext⟩ := h
      rw [List.map_cons, walk, if_pos hfolder]
      have hsplit : loc ++ name :: names = loc ++ [name] ++ names := List.append_cons loc name names
      cases hnode : t.node? (loc ++ [name]) with
      | none => simp [hnode] at hnext
      | some node =>
          cases node with
          | link target => simp [hnode] at hnext
          | file content =>
              simp only [hnode] at hnext
              rw [hsplit]
              exact ih hnext
          | folder =>
              simp only [hnode] at hnext
              rw [hsplit]
              exact ih hnext

theorem locate_of_leads (hp : p.Spells loc) (h : t.leads [] loc = true) : t.locate p = .ok loc := by
  obtain ⟨hnul, hempty, hrelative, hmoves⟩ := hp
  have hstart : ¬ (p.bytes = [] ∨ p.isAbsolute = true) := by simp [hempty, hrelative]
  rw [locate, if_neg hnul, if_neg hstart, hmoves, walk_of_leads linkLimit h, List.nil_append]

/-- The text of a file is what is read where the path leads there. -/
theorem readText_of_leads {text : String} (hp : p.Spells loc) (h : t.leads [] loc = true)
    (hfile : t.node? loc = some (.file (Text.encodeUtf8 text))) : t.readText p = .ok text := by
  simp only [readText, locate_of_leads hp h, hfile, Text.decodeUtf8?_encodeUtf8]

end FileTree

/-! ## The moves of a path -/

namespace Path

/-- The move of a piece between slashes, if it is one. -/
def moveOf? (piece : List UInt8) : Option Move :=
  if piece = [] then none
  else if piece = [dot] then some .stay
  else if piece = [dot, dot] then some .back
  else some (.onTo piece)

/-- The moves of a path, without the last one, by which a slash at the end asks
for a folder. -/
def steps (p : Path) : List Move := p.pieces.filterMap moveOf?

/-- The path can be walked from the top of a tree. -/
def Startable (p : Path) : Prop := 0 ∉ p.bytes ∧ p.bytes ≠ [] ∧ p.isAbsolute = false

instance (p : Path) : Decidable p.Startable := inferInstanceAs (Decidable (_ ∧ _))

theorem Startable.append {first rest : List UInt8} (h : (Path.mk first).Startable)
    (hrest : 0 ∉ rest) : (Path.mk (first ++ slash :: rest)).Startable := by
  obtain ⟨hnul, hne, hrelative⟩ := h
  obtain ⟨b, first, rfl⟩ := List.exists_cons_of_ne_nil hne
  have hslash : (0 : UInt8) ≠ slash := by decide
  exact ⟨by simp_all, by simp, hrelative⟩

end Path

namespace FileTree

/-! ## Walks that succeed -/

/-- The moves lead from one location to another. -/
inductive Walks (t : FileTree) : Nat → Location → List Move → Location → Prop
  | here (links : Nat) (loc : Location) : Walks t links loc [] loc
  | stay {links : Nat} {loc dest : Location} {ms : List Move} (hfolder : t.node? loc = some .folder)
      (hrest : Walks t links loc ms dest) : Walks t links loc (.stay :: ms) dest
  | back {links : Nat} {loc dest : Location} {ms : List Move} (hfolder : t.node? loc = some .folder)
      (hloc : loc ≠ []) (hrest : Walks t links loc.dropLast ms dest) :
      Walks t links loc (.back :: ms) dest
  | link {links : Nat} {loc dest : Location} {name : List UInt8} {target : Path} {ms : List Move}
      (hfolder : t.node? loc = some .folder) (hlink : t.node? (loc ++ [name]) = some (.link target))
      (hrelative : target.isAbsolute = false)
      (hrest : Walks t links loc (target.moves ++ ms) dest) :
      Walks t (links + 1) loc (.onTo name :: ms) dest
  | onTo {links : Nat} {loc dest : Location} {name : List UInt8} {node : Node} {ms : List Move}
      (hfolder : t.node? loc = some .folder) (hnode : t.node? (loc ++ [name]) = some node)
      (hlink : ∀ target, node ≠ .link target) (hrest : Walks t links (loc ++ [name]) ms dest) :
      Walks t links loc (.onTo name :: ms) dest

variable {t t' : FileTree} {loc root names mid dest : Location} {links : Nat}
  {ms ms' : List Move} {p q : Path}

theorem walk_eq_ok_iff : t.walk links loc ms = .ok dest ↔ t.Walks links loc ms dest := by
  constructor
  · intro h
    fun_induction walk t links loc ms with
    | case1 links loc =>
        cases h
        exact .here links _
    | case2 links loc ms hfolder ih => exact .stay hfolder (ih h)
    | case4 links loc ms hfolder hloc ih => exact .back hfolder hloc (ih h)
    | case8 loc ms hfolder name target hlink links habsolute ih =>
        exact .link hfolder hlink (Bool.not_eq_true _ ▸ habsolute) (ih h)
    | case9 links loc ms hfolder name node hnode hlink ih => exact .onTo hfolder hlink hnode (ih h)
    | _ => cases h
  · intro h
    induction h with
    | here links loc => rw [walk]
    | stay hfolder _ ih => rw [walk, if_pos hfolder, ih]
    | back hfolder hloc _ ih => rw [walk, if_pos hfolder]; simp only [if_neg hloc, ih]
    | link hfolder hlink hrelative _ ih =>
        rw [walk, if_pos hfolder]
        simp [hlink, hrelative, ih]
    | @onTo _ _ _ _ node _ hfolder hnode hlink _ ih =>
        rw [walk, if_pos hfolder]
        cases node with
        | link target => exact absurd rfl (hlink target)
        | file content => simp only [hnode, ih]
        | folder => simp only [hnode, ih]

theorem Walks.congr (hnode : ∀ loc, t'.node? loc = t.node? loc) (h : t.Walks links loc ms dest) :
    t'.Walks links loc ms dest := by
  induction h with
  | here links loc => exact .here links loc
  | stay hfolder _ ih => exact .stay (hnode _ ▸ hfolder) ih
  | back hfolder hloc _ ih => exact .back (hnode _ ▸ hfolder) hloc ih
  | link hfolder hlink hrelative _ ih =>
      exact .link (hnode _ ▸ hfolder) (hnode _ ▸ hlink) hrelative ih
  | onTo hfolder hfound hlink _ ih =>
      exact .onTo (hnode _ ▸ hfolder) (hnode _ ▸ hfound) hlink ih

/-- It is not told how many links the first moves leave to be followed, so the
others must do with any number. -/
theorem Walks.append (h : t.Walks links loc ms mid) (h' : ∀ k, t.Walks k mid ms' dest) :
    t.Walks links loc (ms ++ ms') dest := by
  induction h with
  | here links loc => exact h' links
  | stay hfolder _ ih => exact .stay hfolder (ih h')
  | back hfolder hloc _ ih => exact .back hfolder hloc (ih h')
  | link hfolder hlink hrelative _ ih =>
      exact .link hfolder hlink hrelative (List.append_assoc .. ▸ ih h')
  | onTo hfolder hfound hlink _ ih => exact .onTo hfolder hfound hlink (ih h')

theorem Walks.split (h : t.Walks links loc (ms ++ ms') dest) :
    ∃ mid k, t.Walks links loc ms mid ∧ t.Walks k mid ms' dest := by
  generalize hall : ms ++ ms' = all at h
  -- Either `ms` is empty and the walk is all that is left of it, or both begin with one move.
  induction h generalizing ms with
  | here links loc =>
      obtain ⟨rfl, rfl⟩ := List.append_eq_nil_iff.mp hall
      exact ⟨loc, links, .here links loc, .here links loc⟩
  | stay hfolder hrest ih =>
      rcases List.append_eq_cons_iff.mp hall with ⟨rfl, rfl⟩ | ⟨ms, rfl, rfl⟩
      · exact ⟨_, _, .here _ _, .stay hfolder hrest⟩
      · obtain ⟨mid, k, hfirst, hlast⟩ := ih rfl
        exact ⟨mid, k, .stay hfolder hfirst, hlast⟩
  | back hfolder hloc hrest ih =>
      rcases List.append_eq_cons_iff.mp hall with ⟨rfl, rfl⟩ | ⟨ms, rfl, rfl⟩
      · exact ⟨_, _, .here _ _, .back hfolder hloc hrest⟩
      · obtain ⟨mid, k, hfirst, hlast⟩ := ih rfl
        exact ⟨mid, k, .back hfolder hloc hfirst, hlast⟩
  | link hfolder hlink hrelative hrest ih =>
      rcases List.append_eq_cons_iff.mp hall with ⟨rfl, rfl⟩ | ⟨ms, rfl, rfl⟩
      · exact ⟨_, _, .here _ _, .link hfolder hlink hrelative hrest⟩
      · obtain ⟨mid, k, hfirst, hlast⟩ := ih (List.append_assoc ..)
        exact ⟨mid, k, .link hfolder hlink hrelative hfirst, hlast⟩
  | onTo hfolder hfound hlink hrest ih =>
      rcases List.append_eq_cons_iff.mp hall with ⟨rfl, rfl⟩ | ⟨ms, rfl, rfl⟩
      · exact ⟨_, _, .here _ _, .onTo hfolder hfound hlink hrest⟩
      · obtain ⟨mid, k, hfirst, hlast⟩ := ih rfl
        exact ⟨mid, k, .onTo hfolder hfound hlink hfirst, hlast⟩

/-! ## Spellings of a path -/

theorem mem_nodes_iff {node : Node} : (loc, node) ∈ t.nodes ↔ t.nodes.lookup loc = some node := by
  rw [List.lookup_eq_some_iff]
  constructor
  · intro h
    obtain ⟨before, after, hsplit⟩ := List.append_of_mem h
    refine ⟨before, after, hsplit, fun e he => bne_iff_ne.mpr fun heq => ?_⟩
    have hdistinct := t.distinct
    rw [hsplit, List.map_append, List.nodup_append] at hdistinct
    exact hdistinct.2.2 e.1 (List.mem_map_of_mem he) loc (by simp) heq.symm
  · rintro ⟨before, after, hsplit, -⟩
    simp [hsplit]

/-- What the folders hold has names. -/
def Named (t : FileTree) : Prop := ∀ entry ∈ t.nodes, ∀ name ∈ entry.1, Path.IsName name

instance (t : FileTree) : Decidable t.Named := inferInstanceAs (Decidable (∀ _ ∈ _, _))

theorem Named.set (h : t.Named) (hloc : ∀ name ∈ loc, Path.IsName name) (node : Node) :
    (t.set loc node).Named := by
  intro entry hentry
  rcases List.mem_append.mp hentry with hold | hnew
  · exact h entry (List.mem_filter.mp hold).1
  · obtain rfl := List.mem_singleton.mp hnew
    exact hloc

theorem Walks.named (h : t.Walks links loc ms dest) (ht : t.Named)
    (hloc : ∀ name ∈ loc, Path.IsName name) : ∀ name ∈ dest, Path.IsName name := by
  induction h with
  | here => exact hloc
  | stay _ _ ih => exact ih hloc
  | back _ _ _ ih => exact ih fun name hname => hloc name (List.dropLast_subset _ hname)
  | link _ _ _ _ ih => exact ih hloc
  | @onTo links loc dest name node ms hfolder hnode hlink hrest ih =>
      rw [node?, if_neg (by simp)] at hnode
      exact ih (ht _ (mem_nodes_iff.mpr hnode))

theorem Named.add (h : t.Named) (hloc : ∀ name ∈ loc, Path.IsName name)
    (hnames : ∀ name ∈ names, Path.IsName name) (node : Node) : (t.add loc names node).Named := by
  fun_induction FileTree.add t loc names node with
  | case1 => exact h
  | case2 => exact h
  | case3 t loc name => exact h.set (List.forall_mem_append.mpr ⟨hloc, hnames⟩) node
  | case4 t loc name names _ _ ih =>
      rw [List.forall_mem_cons] at hnames
      have hnext : ∀ name' ∈ loc ++ [name], Path.IsName name' :=
        List.forall_mem_append.mpr ⟨hloc, List.forall_mem_singleton.mpr hnames.1⟩
      exact ih (h.set hnext .folder) hnext hnames.2
  | case5 t loc name names _ _ _ there hwalk ih =>
      rw [List.forall_mem_cons] at hnames
      exact ih h ((walk_eq_ok_iff.mp hwalk).named h hloc) hnames.2
  | case6 => exact h

/-- Every tree that is built by putting nodes where paths name them has names. -/
theorem Named.addAt (h : t.Named) (p : Path) (node : Node) : (t.addAt p node).Named := by
  refine h.add (by simp) ?_ node
  intro name hname
  obtain ⟨c, hc, hcname⟩ := List.mem_filterMap.mp hname
  cases c with
  | name bytes =>
    cases hcname
    exact Path.isName_of_mem_components hc
  | _ => cases hcname

end FileTree

end Crossref
