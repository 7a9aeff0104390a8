import Mathlib.Data.List.Lex
import Mathlib.Order.Monotone.Basic
import Crossref.Path

/-!
# Names joined to paths

A name that is joined to a path becomes its last component, however the path is
written (`components_join`), so what lies below a root on the way of its names
lies below it by its components as well (`below_foldl_join`).

Paths are ordered as their components, and components as lists of numbers; both
orders are lexicographic (`precedes_iff`).
-/

namespace Crossref.Path

open Text (stripLead? stripLead?_eq_some_iff)

/-! ## Names -/

/-- What an entry of a folder can be called. -/
structure IsName (bytes : List UInt8) : Prop where
  ne_nil : bytes ≠ []
  no_slash : slash ∉ bytes
  ne_dot : bytes ≠ [dot]
  ne_dots : bytes ≠ [dot, dot]

instance (bytes : List UInt8) : Decidable (IsName bytes) :=
  decidable_of_iff (bytes ≠ [] ∧ slash ∉ bytes ∧ bytes ≠ [dot] ∧ bytes ≠ [dot, dot])
    ⟨fun ⟨h₁, h₂, h₃, h₄⟩ => ⟨h₁, h₂, h₃, h₄⟩, fun ⟨h₁, h₂, h₃, h₄⟩ => ⟨h₁, h₂, h₃, h₄⟩⟩

theorem slash_not_mem_of_mem_splitOn {bytes piece : List UInt8} (h : piece ∈ bytes.splitOn slash) :
    slash ∉ piece := by
  induction bytes generalizing piece with
  | nil =>
      rw [List.splitOn_nil, List.mem_singleton] at h
      rw [h]
      exact List.not_mem_nil
  | cons b bytes ih =>
      rw [List.splitOn_cons_eq_if_modifyHead] at h
      split at h
      · rcases List.mem_cons.mp h with rfl | h
        · exact List.not_mem_nil
        · exact ih h
      · rename_i hb
        obtain ⟨first, rest, hsplit⟩ := List.exists_cons_of_ne_nil (List.splitOn_ne_nil slash bytes)
        rw [hsplit, List.modifyHead_cons] at h
        rcases List.mem_cons.mp h with rfl | h
        · have hfirst : slash ∉ first := ih (by simp [hsplit])
          simp only [List.mem_cons, not_or]
          exact ⟨fun heq => hb (by simp [heq]), hfirst⟩
        · exact ih (by simp [hsplit, h])

theorem IsName.componentOf? {bytes : List UInt8} (h : IsName bytes) :
    componentOf? bytes = some (.name bytes) := by
  rw [Path.componentOf?, if_neg (by simp [h.ne_nil, h.ne_dot]), if_neg h.ne_dots]

theorem isName_of_componentOf? {piece bytes : List UInt8} (hslash : slash ∉ piece)
    (h : Path.componentOf? piece = some (.name bytes)) : IsName bytes := by
  unfold Path.componentOf? at h
  split at h
  · cases h
  · rename_i hblank
    rw [not_or] at hblank
    split at h
    · cases h
    · cases h
      exact ⟨hblank.1, hslash, hblank.2, ‹_›⟩

/-! ## Components of joined paths -/

/-- The components of a path that is not empty, from its pieces. -/
def componentsOf : List (List UInt8) → List Component
  | [] => []
  | first :: rest =>
    if first = [] then .root :: rest.filterMap componentOf?
    else if first = [dot] then .current :: rest.filterMap componentOf?
    else (first :: rest).filterMap componentOf?

theorem components_eq {p : Path} (h : p.bytes ≠ []) : p.components = componentsOf p.pieces := by
  unfold components componentsOf
  cases p.pieces with
  | nil => rfl
  | cons first rest => simp only [h, ne_eq, not_false_iff, and_true]

/-- The first piece is special only where it is empty or a dot. -/
theorem mem_components_iff {p : Path} {c : Component} (hroot : c ≠ .root)
    (hcurrent : c ≠ .current) : c ∈ p.components ↔ c ∈ p.pieces.filterMap componentOf? := by
  unfold components
  cases p.pieces with
  | nil => rfl
  | cons first rest =>
      dsimp only
      split
      · rename_i hempty
        simp [hroot, hempty.1, componentOf?]
      · split
        · rename_i hdot
          simp [hcurrent, hdot, componentOf?]
        · rfl

/-- The names among the components of a path are such. -/
theorem isName_of_mem_components {p : Path} {bytes : List UInt8}
    (h : .name bytes ∈ p.components) : IsName bytes := by
  rw [mem_components_iff (by simp) (by simp)] at h
  obtain ⟨piece, hmem, hname⟩ := List.mem_filterMap.mp h
  exact isName_of_componentOf? (slash_not_mem_of_mem_splitOn hmem) hname

theorem componentsOf_concat {ps : List (List UInt8)} (hps : ps ≠ []) (piece : List UInt8) :
    componentsOf (ps ++ [piece]) = componentsOf ps ++ (componentOf? piece).toList := by
  have hlast : [piece].filterMap componentOf? = (componentOf? piece).toList := by
    cases h : componentOf? piece <;> simp [h]
  obtain ⟨first, rest, rfl⟩ := List.exists_cons_of_ne_nil hps
  rw [List.cons_append, componentsOf, componentsOf, ← List.cons_append, List.filterMap_append,
    List.filterMap_append, hlast]
  split
  · rfl
  · split <;> rfl

theorem pieces_ne_nil (p : Path) : p.pieces ≠ [] := List.splitOn_ne_nil slash p.bytes

theorem pieces_append (first rest : List UInt8) :
    (Path.mk (first ++ slash :: rest)).pieces = (Path.mk first).pieces ++ (Path.mk rest).pieces :=
  List.splitOn_append_cons_self first rest

/-- What follows the last slash is the last piece. -/
theorem pieces_concat (bytes : List UInt8) {name : List UInt8} (h : slash ∉ name) :
    (Path.mk (bytes ++ slash :: name)).pieces = (Path.mk bytes).pieces ++ [name] := by
  rw [pieces_append]
  exact congrArg _ (List.splitOn_eq_singleton h)

theorem components_of_name {name : List UInt8} (h : IsName name) :
    (Path.mk name).components = [.name name] := by
  rw [components_eq h.ne_nil, pieces, List.splitOn_eq_singleton h.no_slash, componentsOf,
    if_neg h.ne_nil, if_neg h.ne_dot, List.filterMap_cons_some h.componentOf?, List.filterMap_nil]

/-- A name is one more component, whether a slash stands in front of it already or not. -/
theorem components_join (p : Path) {name : List UInt8} (h : IsName name) :
    (p.join name).components = p.components ++ [.name name] := by
  obtain ⟨bytes⟩ := p
  rcases List.eq_nil_or_concat' bytes with rfl | ⟨init, last, rfl⟩
  · exact components_of_name h
  · by_cases hlast : last = slash
    · subst hlast
      have hjoin : (Path.mk (init ++ [slash])).join name = ⟨init ++ slash :: name⟩ := by
        simp [join]
      rw [hjoin, components_eq (by simp), components_eq (by simp), pieces_concat init h.no_slash,
        pieces_concat init List.not_mem_nil, componentsOf_concat (pieces_ne_nil _),
        componentsOf_concat (pieces_ne_nil _), h.componentOf?]
      simp [componentOf?]
    · have hjoin : (Path.mk (init ++ [last])).join name = ⟨init ++ [last] ++ slash :: name⟩ := by
        simp [join, hlast]
      rw [hjoin, components_eq (by simp), components_eq (by simp), pieces_concat _ h.no_slash,
        componentsOf_concat (pieces_ne_nil _), h.componentOf?]
      rfl

theorem components_foldl_join (p : Path) {names : List (List UInt8)}
    (h : ∀ name ∈ names, IsName name) :
    (names.foldl join p).components = p.components ++ names.map .name := by
  induction names generalizing p with
  | nil => rw [List.foldl_nil, List.map_nil, List.append_nil]
  | cons name names ih =>
      rw [List.forall_mem_cons] at h
      rw [List.foldl_cons, ih _ h.2, components_join p h.1, List.map_cons, List.append_assoc]
      rfl

/-- A path that was made from a root lies below it. -/
theorem below_foldl_join (root : Path) {names : List (List UInt8)}
    (h : ∀ name ∈ names, IsName name) : (names.foldl join root).below root = names.map .name := by
  rw [below, stripLead?_eq_some_iff.mpr (components_foldl_join root h), Option.getD_some]

/-! ## The order of paths -/

/-- The numbers that a path is ordered by. -/
def rank (p : Path) : List (List Nat) := p.components.map Component.rank

theorem Component.rank_injective : Function.Injective Component.rank := by
  intro a b h
  have htoNat : Function.Injective UInt8.toNat := fun _ _ => UInt8.toNat_inj.mp
  cases a <;> cases b <;> simp_all [Component.rank, htoNat.list_map.eq_iff]

theorem Component.precedes_iff {a b : Component} : a.precedes b = true ↔ a.rank < b.rank :=
  List.lex_eq_true_iff_lt

/-- Where the elements are ordered by a key, the lists are ordered by their keys. -/
theorem lex_iff_map_lt {α β : Type} [LT β] {key : α → β} (hkey : Function.Injective key)
    (l m : List α) : List.Lex (fun a b => key a < key b) l m ↔ l.map key < m.map key := by
  induction l generalizing m with
  | nil => cases m <;> simp
  | cons a l ih =>
      cases m with
      | nil => simp
      | cons b m =>
          rw [List.map_cons, List.map_cons, List.cons_lt_cons_iff, List.cons_lex_cons_iff, ih,
            hkey.eq_iff]

theorem precedes_iff {a b : Path} : a.precedes b = true ↔ a.rank < b.rank := by
  rw [precedes, List.lex_eq_true_iff_lex]
  simp only [Component.precedes_iff]
  exact lex_iff_map_lt Component.rank_injective _ _

theorem le_iff {a b : Path} : a ≤ b ↔ a.rank ≤ b.rank := by
  rw [← not_lt, ← precedes_iff, Bool.not_eq_true]
  rfl

/-- The numbers that names below a root are ordered by. -/
def rankBelow (names : List (List UInt8)) : List (List Nat) :=
  names.map fun name => (Component.name name).rank

theorem rank_foldl_join (root : Path) {names : List (List UInt8)}
    (h : ∀ name ∈ names, IsName name) :
    (names.foldl join root).rank = root.rank ++ rankBelow names := by
  rw [rank, components_foldl_join root h, List.map_append, List.map_map]
  rfl

end Crossref.Path
