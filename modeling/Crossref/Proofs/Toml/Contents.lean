import Mathlib.Data.List.Nodup
import Crossref.Proofs.Toml.Tree
import Crossref.Toml.Reader

/-!
# The contents of a document

A document that writes certain values and names certain tables has a tree of just
these (`Writes.read`). No table in it holds a key twice, since every operation on
entries changes the value of a key that is there, or adds one that is not
(`tidy_of_statements?`).
-/

namespace Crossref.Toml

/-- Neither this table nor any that it leads to holds a key twice. -/
inductive Value.Tidy : Value → Prop
  | table {kind : TableKind} {es : Entries} (hkeys : (es.map Prod.fst).Nodup)
      (hes : ∀ e ∈ es, e.2.Tidy) : Tidy (.table kind es)
  | other {v : Value} (hv : v.node ≠ .table) : Tidy v

variable {kind kind' : TableKind} {es es' : Entries} {u v : Value} {key : String}
  {keys path : List String} {s r : List Char}

theorem tidy_table_iff :
    (Value.table kind es).Tidy ↔ (es.map Prod.fst).Nodup ∧ ∀ e ∈ es, e.2.Tidy := by
  constructor
  · rintro (⟨hkeys, hes⟩ | ⟨hv⟩)
    · exact ⟨hkeys, hes⟩
    · exact absurd rfl hv
  · rintro ⟨hkeys, hes⟩
    exact .table hkeys hes

theorem tidy_empty : (Value.table kind []).Tidy :=
  .table List.nodup_nil fun _ hmem => (nomatch hmem)

/-! ## Changes of entries -/

theorem tidy_concat (hes : (Value.table kind es).Tidy) (hfree : key ∉ es.map Prod.fst)
    (hv : v.Tidy) : (Value.table kind' (es ++ [(key, v)])).Tidy := by
  obtain ⟨hkeys, hes⟩ := tidy_table_iff.mp hes
  refine .table ?_ ?_
  · rw [List.map_append, List.map_singleton, ← List.concat_eq_append]
    exact hkeys.concat hfree
  · intro e he
    rcases List.mem_append.mp he with he | he
    · exact hes e he
    · obtain rfl := List.mem_singleton.mp he
      exact hv

theorem tidy_replace {l r : Entries} (hes : (Value.table kind (l ++ (key, u) :: r)).Tidy)
    (hv : v.Tidy) : (Value.table kind' (l ++ (key, v) :: r)).Tidy := by
  obtain ⟨hkeys, hes⟩ := tidy_table_iff.mp hes
  refine .table ?_ ?_
  · rw [List.map_append, List.map_cons] at hkeys ⊢
    exact hkeys
  · intro e he
    rcases List.mem_append.mp he with he | he
    · exact hes e (List.mem_append_left _ he)
    · rcases List.mem_cons.mp he with rfl | he
      · exact hv
      · exact hes e (List.mem_append_right _ (List.mem_cons_of_mem _ he))

theorem tidy_of_mem_replace {l r : Entries}
    (hes : (Value.table kind (l ++ (key, u) :: r)).Tidy) : u.Tidy :=
  (tidy_table_iff.mp hes).2 (key, u) (List.mem_append_right _ List.mem_cons_self)

theorem tidy_alter {change : Option Value → Option Value} (hes : (Value.table kind es).Tidy)
    (hnew : ∀ v, change none = some v → v.Tidy)
    (hold : ∀ u v, u.Tidy → change (some u) = some v → v.Tidy)
    (h : alter key change es = some es') : (Value.table kind' es').Tidy := by
  rcases alter_eq_some h with ⟨v, hfree, hv, rfl⟩ | ⟨l, u, r, v, rfl, hv, rfl⟩
  · exact tidy_concat hes hfree (hnew v hv)
  · exact tidy_replace hes (hold u v (tidy_of_mem_replace hes) hv)

theorem tidy_alterWithin {dotted : Bool} {change : TableKind → Entries → Option Entries}
    (hchange : ∀ kind es es', (Value.table kind es).Tidy → change kind es = some es' →
      (Value.table kind es').Tidy)
    (hes : (Value.table kind es).Tidy) (h : alterWithin dotted change keys kind es = some es') :
    (Value.table kind es').Tidy := by
  induction keys generalizing kind es es' with
  | nil => exact hchange kind es es' hes h
  | cons key keys ih =>
      rcases alterWithin_cons h with ⟨kind', sub, hfree, hsub, rfl⟩ |
        ⟨l, kind', sub, sub', r, rfl, hsub, rfl⟩ | ⟨l, items, items', r, rfl, -, rfl⟩
      · exact tidy_concat hes hfree (ih tidy_empty hsub)
      · exact tidy_replace hes (ih (tidy_of_mem_replace hes) hsub)
      · exact tidy_replace hes (.other nofun)

theorem Operates.tidy {dotted : Bool} {fresh : Value → Prop} {step : Value → Value → Prop}
    (h : Operates dotted fresh step path kind es es') (hfresh : ∀ v, fresh v → v.Tidy)
    (hstep : ∀ u v, u.Tidy → step u v → v.Tidy) (hes : (Value.table kind es).Tidy) :
    (Value.table kind es').Tidy := by
  cases h with
  | intro hchange hnew hold h =>
      refine tidy_alterWithin (fun kind es es' hes hchanged => ?_) hes h
      exact tidy_alter hes (fun v hv => hfresh v (hnew v hv))
        (fun u v hu hv => hstep u v hu (hold u v hv)) (hchange kind es es' hchanged)

theorem tidy_assign (hv : v.Tidy) (hes : (Value.table kind es).Tidy)
    (h : assign path v kind es = some es') : (Value.table kind es').Tidy := by
  refine (operates_assign h).tidy ?_ ?_ hes
  · rintro w rfl
    exact hv
  · exact fun u w _ hstep => hstep.elim

theorem tidy_openTable (hes : (Value.table .header es).Tidy) (h : openTable path es = some es') :
    (Value.table .header es').Tidy := by
  refine (operates_openTable h).tidy ?_ ?_ hes
  · rintro v rfl
    exact tidy_empty
  · rintro u v hu ⟨es, rfl, rfl⟩
    exact tidy_table_iff.mpr (tidy_table_iff.mp hu)

theorem tidy_openElement (hes : (Value.table .header es).Tidy)
    (h : openElement path es = some es') : (Value.table .header es').Tidy := by
  refine (operates_openElement h).tidy ?_ ?_ hes
  · rintro v ⟨items, rfl⟩
    exact .other nofun
  · rintro u v - ⟨-, items, rfl⟩
    exact .other nofun

/-! ## Whole tables -/

theorem tidy_apply {d d' : Draft} {st : Statement} (hst : st.value.Tidy) (hd : d.root.Tidy)
    (h : d.apply st = some d') : d'.root.Tidy := by
  cases st with
  | table path =>
      obtain ⟨es, hes, rfl⟩ := Option.map_eq_some_iff.mp h
      exact tidy_openTable hd hes
  | element path =>
      obtain ⟨es, hes, rfl⟩ := Option.map_eq_some_iff.mp h
      exact tidy_openElement hd hes
  | assign path v =>
      obtain ⟨es, hes, rfl⟩ := Option.map_eq_some_iff.mp h
      exact tidy_alterWithin (fun kind es es' hes h => tidy_assign hst hes h) hd hes

/-- A property that each step of a fold keeps, the fold keeps. -/
theorem tidy_foldlM {α β : Type} {step : β → α → Option β} {P : β → Prop} {Q : α → Prop}
    (hstep : ∀ b a b', P b → Q a → step b a = some b' → P b') {as : List α} {b b' : β}
    (hb : P b) (has : ∀ a ∈ as, Q a) (h : as.foldlM step b = some b') : P b' := by
  induction as generalizing b with
  | nil =>
      cases h
      exact hb
  | cons a as ih =>
      obtain ⟨b₁, hfirst, h⟩ := Option.bind_eq_some_iff.mp h
      have hb₁ := hstep b a b₁ hb (has a List.mem_cons_self) hfirst
      exact ih hb₁ (fun a ha => has a (List.mem_cons_of_mem _ ha)) h

theorem tidy_build {sts : List Statement} (hsts : ∀ st ∈ sts, st.value.Tidy)
    (h : build sts = some es) : (Value.table .header es).Tidy := by
  obtain ⟨d, hrun, rfl⟩ := Option.map_eq_some_iff.mp h
  exact tidy_foldlM (P := fun d => d.root.Tidy) (fun _ _ _ hd hst h => tidy_apply hst hd h)
    tidy_empty hsts hrun

theorem tidy_buildInline {pairs : List (List String × Value)} (hpairs : ∀ p ∈ pairs, p.2.Tidy)
    (h : buildInline pairs = some es) : (Value.table .inline es).Tidy :=
  tidy_foldlM (P := fun es => (Value.table .inline es).Tidy)
    (fun _ _ _ hes hp h => tidy_assign hp hes h) tidy_empty hpairs h

/-! ## Reading -/

/-- What a reader of items reads has what every item has. -/
theorem forall_of_readItems {α : Type} {item : List Char → Reading α} {close : Char} {P : α → Prop}
    (hitem : ∀ s x r, item s = some (x, r) → P x) {xs : List α}
    (h : readItems item close s = some (xs, r)) : ∀ x ∈ xs, P x := by
  fun_induction readItems item close s generalizing xs with
  | case1 => cases h
  | case2 => cases h
  | case3 =>
      cases h
      exact nofun
  | case4 => cases h
  | case5 s c t hgaps hclose x r hitem' r' hend =>
      cases h
      intro x' hx
      obtain rfl := List.mem_singleton.mp hx
      exact hitem _ _ _ hitem'
  | case6 s c t hgaps hclose x r hitem' r' hne hlen hnext ih =>
      obtain ⟨p, hread, heq⟩ := Option.map_eq_some_iff.mp h
      cases heq
      intro x' hx
      rcases List.mem_cons.mp hx with rfl | hx
      · exact hitem _ _ _ hitem'
      · exact ih hread x' hx
  | case7 => cases h
  | case8 => cases h
  | case9 => cases h

theorem value_of_readPair {skip : List Char → Option (List Char)}
    {value : List Char → Reading Value} {pair : List String × Value}
    (h : readPair skip value s = some (pair, r)) : ∃ t, value t = some (pair.2, r) := by
  unfold readPair at h
  split at h
  · cases h
  split at h
  · obtain ⟨p, hp, heq⟩ := Option.map_eq_some_iff.mp h
    cases heq
    obtain ⟨t, -, ht⟩ := Option.bind_eq_some_iff.mp hp
    exact ⟨t, ht⟩
  · cases h

theorem tidy_scalar? (h : scalar? s = some v) : v.Tidy := by
  refine .other fun hnode => ?_
  obtain ⟨kind, es, rfl⟩ : ∃ kind es, v = .table kind es := by
    cases v with
    | table kind es => exact ⟨kind, es, rfl⟩
    | _ => cases hnode
  unfold scalar? based? digitScalar? at h
  grind

theorem tidy_readValue {depth : Nat} (h : readValue depth s = some (v, r)) : v.Tidy := by
  induction depth using Nat.strongRecOn generalizing s v r with
  | ind depth ih =>
      rw [readValue.eq_def] at h
      dsimp only at h
      split at h
      · cases h
      rename_i c t
      split at h
      · obtain ⟨p, -, heq⟩ := Option.map_eq_some_iff.mp h
        cases heq
        exact .other nofun
      split at h
      · split at h
        · cases h
        · obtain ⟨p, -, heq⟩ := Option.map_eq_some_iff.mp h
          cases heq
          exact .other nofun
      split at h
      · split at h
        · cases h
        rename_i depth
        obtain ⟨⟨pairs, rest⟩, hpairs, h⟩ := Option.bind_eq_some_iff.mp h
        obtain ⟨es, hes, heq⟩ := Option.map_eq_some_iff.mp h
        cases heq
        refine tidy_buildInline (forall_of_readItems (fun s pair r hpair => ?_) hpairs) hes
        obtain ⟨t, ht⟩ := value_of_readPair hpair
        exact ih depth (Nat.lt_succ_self depth) ht
      · obtain ⟨w, hw, heq⟩ := Option.map_eq_some_iff.mp h
        cases heq
        exact tidy_scalar? hw

theorem tidy_readStatement {st : Statement} (h : readStatement s = some (st, r)) :
    st.value.Tidy := by
  unfold readStatement at h
  split at h
  · obtain ⟨p, -, heq⟩ := Option.map_eq_some_iff.mp h
    cases heq
    exact .other nofun
  · obtain ⟨p, -, heq⟩ := Option.map_eq_some_iff.mp h
    cases heq
    exact tidy_empty
  · obtain ⟨⟨⟨path, v⟩, rest⟩, hpair, heq⟩ := Option.map_eq_some_iff.mp h
    cases heq
    obtain ⟨t, ht⟩ := value_of_readPair hpair
    exact tidy_readValue ht

theorem tidy_readStatements {sts : List Statement} (h : readStatements s = some sts) :
    ∀ st ∈ sts, st.value.Tidy := by
  fun_induction readStatements s generalizing sts with
  | case1 => cases h
  | case2 =>
      cases h
      exact nofun
  | case3 => cases h
  | case4 => cases h
  | case5 s c t hgaps st r hst r' hline hlen ih =>
      obtain ⟨sts, hsts, rfl⟩ := Option.map_eq_some_iff.mp h
      intro st' hmem
      rcases List.mem_cons.mp hmem with rfl | hmem
      · exact tidy_readStatement hst
      · exact ih hsts st' hmem
  | case6 => cases h

/-- The statements of a written document. A byte order mark may stand before them. -/
def statements? (source : String) : Option (List Statement) :=
  let s := source.toList
  readStatements (if s.head? = some '\uFEFF' then s.tail else s)

theorem read_eq (source : String) : read source = (statements? source).bind build := rfl

/-- No table of a document holds a key twice. -/
theorem tidy_of_statements? {source : String} {sts : List Statement}
    (h : statements? source = some sts) (hbuild : build sts = some es) :
    (Value.table .header es).Tidy :=
  tidy_build (tidy_readStatements h) hbuild

/-! ## What a document writes -/

/-- A document writes these values, each at its path, and names no tables but these. -/
def Writes (document : String) (tables : List (List String))
    (values : List (List String × Value)) : Prop :=
  ∃ statements, statements? document = some statements ∧ (build statements).isSome ∧
    Assigns (Says [] statements) tables values

/-- A document sets a key in the table at a path. -/
def Sets (document : String) (path : List String) (key : String) : Prop :=
  ∃ statements n, statements? document = some statements ∧ Says [] statements (path ++ [key]) n ∧
    ∀ p, p <+: path → ¬ Says [] statements p .tables

theorem Writes.read {document : String} {tables : List (List String)}
    {values : List (List String × Value)} (h : Writes document tables values)
    (hroot : [] ∈ tables) : ∃ es, Toml.read document = some es ∧
      (Value.table .header es).Tidy ∧ Assigns (Value.table .header es).Leads tables values := by
  obtain ⟨sts, hsts, hbuild, hassigns⟩ := h
  obtain ⟨es, hes⟩ := Option.isSome_iff_exists.mp hbuild
  refine ⟨es, ?_, tidy_of_statements? hsts hes, hassigns.of_build hroot hes⟩
  rw [read_eq, hsts, Option.bind_some, hes]

/-- A document sets the keys of the values that it writes. -/
theorem Writes.sets {document : String} {tables : List (List String)}
    {values : List (List String × Value)} (h : Writes document tables values)
    (hmem : (path ++ [key], v) ∈ values) : Sets document path key := by
  obtain ⟨sts, hsts, -, hassigns⟩ := h
  exact ⟨sts, .leaf v, hsts, (hassigns.leaf _ _).mpr hmem, fun p _ => hassigns.array p⟩

/-- A key that a document sets is in its tree, if it has one. -/
theorem Sets.leads {document : String} (h : Sets document path key)
    (hread : Toml.read document = some es) :
    ∃ n, (Value.table .header es).Leads (path ++ [key]) n := by
  obtain ⟨sts, n, hsts, hsaid, hclear⟩ := h
  rw [read_eq, hsts, Option.bind_some] at hread
  by_cases harray : Says [] sts (path ++ [key]) .tables
  · refine ⟨.tables, leads_of_says hread harray fun p hp hp' => ?_⟩
    rcases List.prefix_concat_iff.mp hp with rfl | hp
    · exact ⟨rfl, rfl⟩
    · exact absurd hp' (hclear p hp)
  · refine ⟨n, leads_of_says hread hsaid fun p hp hp' => ?_⟩
    rcases List.prefix_concat_iff.mp hp with rfl | hp
    · exact absurd hp' harray
    · exact absurd hp' (hclear p hp)

end Crossref.Toml
