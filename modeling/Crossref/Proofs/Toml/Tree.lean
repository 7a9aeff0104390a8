import Mathlib.Data.List.Nodup
import Crossref.Toml.Document

/-!
# The tree of a document

A path of keys leads through tables to a node: a table, an array of tables, or a
value that is neither. The statements of a document say where paths lead, each
under the header before it, and the tree that is built from them leads there and
nowhere else (`says_of_leads`, `leads_of_says`). So their order does not count,
nor does the way in which a table is laid out: by its header, by dotted keys, or
in braces.
-/

namespace Crossref.Toml

/-! ## Paths -/

/-- What stands at the end of a path. -/
inductive Node where
  | table
  | tables
  | leaf (v : Value)

def Value.node : Value → Node
  | .table _ _ => .table
  | .tables _ => .tables
  | v => .leaf v

/-- A path leads through tables to a node. -/
def Value.Leads : Value → List String → Node → Prop
  | v, [], n => v.node = n
  | .table _ es, key :: path, n => ∃ v, (key, v) ∈ es ∧ v.Leads path n
  | _, _ :: _, _ => False

variable {kind kind' : TableKind} {es es' : Entries} {u v : Value} {key : String}
  {keys path p q way : List String} {n : Node}

theorem leads_nil : v.Leads [] n ↔ v.node = n := by
  cases v <;> rfl

theorem leads_cons :
    (Value.table kind es).Leads (key :: p) n ↔ ∃ v, (key, v) ∈ es ∧ v.Leads p n :=
  Iff.rfl

/-- Only a table leads on. -/
theorem Value.Leads.exists_table (h : v.Leads (key :: p) n) : ∃ kind es, v = .table kind es := by
  cases v with
  | table kind es => exact ⟨kind, es, rfl⟩
  | _ => exact h.elim

/-- How a table came to be does not change where it leads. -/
theorem leads_kind (kind' : TableKind) :
    (Value.table kind es).Leads p n ↔ (Value.table kind' es).Leads p n := by
  cases p <;> rfl

theorem leads_empty : (Value.table kind []).Leads p n ↔ p = [] ∧ n = .table := by
  cases p with
  | nil => exact ⟨fun h => ⟨rfl, Eq.symm h⟩, fun h => h.2.symm⟩
  | cons key p => exact ⟨fun ⟨_, hmem, _⟩ => (nomatch hmem), fun h => (nomatch h.1)⟩

/-- All that a path passes is a table. -/
theorem Value.Leads.table_of_prefix (h : v.Leads q n) (hpath : p <+: q) (hne : p ≠ q) :
    v.Leads p .table := by
  induction p generalizing v q with
  | nil =>
      obtain ⟨key, q, rfl⟩ := List.exists_cons_of_ne_nil hne.symm
      obtain ⟨kind, es, rfl⟩ := h.exists_table
      exact leads_nil.mpr rfl
  | cons key p ih =>
      obtain ⟨r, rfl⟩ := hpath
      obtain ⟨kind, es, rfl⟩ := h.exists_table
      obtain ⟨v, hmem, h⟩ := h
      exact ⟨v, hmem, ih h ⟨r, rfl⟩ fun heq => hne (congrArg (key :: ·) heq)⟩

/-! ## Changes of entries -/

/-- A change of one key adds it at the end, or replaces its value. -/
theorem alter_eq_some {change : Option Value → Option Value}
    (h : alter key change es = some es') :
    (∃ v, key ∉ es.map Prod.fst ∧ change none = some v ∧ es' = es ++ [(key, v)]) ∨
      ∃ l u r v, es = l ++ (key, u) :: r ∧ change (some u) = some v ∧
        es' = l ++ (key, v) :: r := by
  fun_induction alter key change es generalizing es' with
  | case1 =>
      obtain ⟨v, hv, rfl⟩ := Option.map_eq_some_iff.mp h
      exact .inl ⟨v, List.not_mem_nil, hv, rfl⟩
  | case2 u es =>
      obtain ⟨v, hv, rfl⟩ := Option.map_eq_some_iff.mp h
      exact .inr ⟨[], u, es, v, rfl, hv, rfl⟩
  | case3 k w es hne ih =>
      obtain ⟨es', halter, rfl⟩ := Option.map_eq_some_iff.mp h
      rcases ih halter with ⟨v, hfree, hv, rfl⟩ | ⟨l, u, r, v, rfl, hv, rfl⟩
      · exact .inl ⟨v, by simp [Ne.symm hne, hfree], hv, rfl⟩
      · exact .inr ⟨(k, w) :: l, u, r, v, rfl, hv, rfl⟩

theorem alterLast_eq_some {change : Value → Option Value} {items items' : List Value}
    (h : alterLast change items = some items') :
    ∃ l u v, items = l ++ [u] ∧ change u = some v ∧ items' = l ++ [v] := by
  fun_induction alterLast change items generalizing items' with
  | case1 => cases h
  | case2 u =>
      obtain ⟨v, hv, rfl⟩ := Option.map_eq_some_iff.mp h
      exact ⟨[], u, v, rfl, hv, rfl⟩
  | case3 w items _ ih =>
      obtain ⟨items', hlast, rfl⟩ := Option.map_eq_some_iff.mp h
      obtain ⟨l, u, v, rfl, hv, rfl⟩ := ih hlast
      exact ⟨w :: l, u, v, rfl, hv, rfl⟩

/-- A change below the first key of a path makes a table for it, goes on in the table that is there,
or goes on in a table of the array that is there. -/
theorem alterWithin_cons {dotted : Bool} {change : TableKind → Entries → Option Entries}
    (h : alterWithin dotted change (key :: keys) kind es = some es') :
    (∃ kind' sub, key ∉ es.map Prod.fst ∧ alterWithin dotted change keys kind' [] = some sub ∧
      es' = es ++ [(key, .table kind' sub)]) ∨
    (∃ l kind' sub sub' r, es = l ++ (key, .table kind' sub) :: r ∧
      alterWithin dotted change keys kind' sub = some sub' ∧
      es' = l ++ (key, .table kind' sub') :: r) ∨
    ∃ l items items' r, es = l ++ (key, .tables items) :: r ∧
      (∃ kind' sub sub', alterWithin dotted change keys kind' sub = some sub') ∧
      es' = l ++ (key, .tables items') :: r := by
  rw [alterWithin] at h
  rcases alter_eq_some h with ⟨v, hfree, hv, rfl⟩ | ⟨l, u, r, v, rfl, hv, rfl⟩
  · obtain ⟨sub, hsub, rfl⟩ := Option.map_eq_some_iff.mp hv
    exact .inl ⟨_, sub, hfree, hsub, rfl⟩
  · cases u with
    | table kind' sub =>
        dsimp only at hv
        split at hv
        · cases hv
        · obtain ⟨sub', hsub, rfl⟩ := Option.map_eq_some_iff.mp hv
          exact .inr (.inl ⟨l, kind', sub, sub', r, rfl, hsub, rfl⟩)
    | tables items =>
        obtain ⟨items', hitems, rfl⟩ := Option.map_eq_some_iff.mp hv
        obtain ⟨_, w, _, -, hw, -⟩ := alterLast_eq_some hitems
        refine .inr (.inr ⟨l, items, items', r, rfl, ?_, rfl⟩)
        cases w with
        | table kind' sub =>
            obtain ⟨sub', hsub, -⟩ := Option.map_eq_some_iff.mp hw
            exact ⟨kind', sub, sub', hsub⟩
        | _ => cases hw
    | _ => cases hv

/-- What happens at the end of a path happens to some table. -/
theorem exists_of_alterWithin {dotted : Bool} {change : TableKind → Entries → Option Entries}
    (h : alterWithin dotted change keys kind es = some es') :
    ∃ kind es es', change kind es = some es' := by
  induction keys generalizing kind es es' with
  | nil => exact ⟨kind, es, es', h⟩
  | cons key keys ih =>
      rcases alterWithin_cons h with ⟨_, _, -, hsub, -⟩ | ⟨_, _, _, _, _, -, hsub, -⟩ |
        ⟨_, _, _, _, -, ⟨_, _, _, hsub⟩, -⟩
      · exact ih hsub
      · exact ih hsub
      · exact ih hsub

/-- An operation changes the last key of a path, below the tables of the others: where the key is
free it gets a `fresh` value, else its value makes a `step`. -/
inductive Operates (dotted : Bool) (fresh : Value → Prop) (step : Value → Value → Prop) :
    List String → TableKind → Entries → Entries → Prop
  | intro {keys : List String} {key : String} {base : Option Value → Option Value}
      {change : TableKind → Entries → Option Entries} {kind : TableKind} {es es' : Entries}
      (hchange : ∀ kind es es', change kind es = some es' → alter key base es = some es')
      (hfresh : ∀ v, base none = some v → fresh v)
      (hstep : ∀ u v, base (some u) = some v → step u v)
      (h : alterWithin dotted change keys kind es = some es') :
      Operates dotted fresh step (keys ++ [key]) kind es es'

theorem Operates.ne_nil {dotted : Bool} {fresh : Value → Prop} {step : Value → Value → Prop}
    (h : Operates dotted fresh step path kind es es') : path ≠ [] := by
  cases h with
  | intro => exact List.concat_ne_nil _ _

theorem operates_openTable (h : openTable path es = some es') :
    Operates false (· = .table .header [])
      (fun u v => ∃ es, u = .table .implied es ∧ v = .table .header es) path .header es es' := by
  unfold openTable at h
  split at h
  · cases h
  rename_i key hkey
  obtain ⟨keys, rfl⟩ := List.getLast?_eq_some_iff.mp hkey
  rw [List.dropLast_concat] at h
  refine .intro (fun kind es es' h => h) ?_ ?_ h
  · intro v hv
    exact (Option.some.inj hv).symm
  · intro u v hv
    split at hv
    · contradiction
    · rename_i es hu
      exact ⟨es, Option.some.inj hu, (Option.some.inj hv).symm⟩
    · cases hv

theorem operates_openElement (h : openElement path es = some es') :
    Operates false (fun v => ∃ items, v = .tables items)
      (fun u v => (∃ items, u = .tables items) ∧ ∃ items, v = .tables items) path .header es
      es' := by
  unfold openElement at h
  split at h
  · cases h
  rename_i key hkey
  obtain ⟨keys, rfl⟩ := List.getLast?_eq_some_iff.mp hkey
  rw [List.dropLast_concat] at h
  refine .intro (fun kind es es' h => h) ?_ ?_ h
  · intro v hv
    exact ⟨_, (Option.some.inj hv).symm⟩
  · intro u v hv
    split at hv
    · contradiction
    · rename_i items hu
      exact ⟨⟨items, Option.some.inj hu⟩, _, (Option.some.inj hv).symm⟩
    · cases hv

/-- A key is assigned once. -/
theorem operates_assign (h : assign path v kind es = some es') :
    Operates true (· = v) (fun _ _ => False) path kind es es' := by
  unfold assign at h
  split at h
  · cases h
  rename_i key hkey
  obtain ⟨keys, rfl⟩ := List.getLast?_eq_some_iff.mp hkey
  rw [List.dropLast_concat] at h
  refine .intro (fun kind es es' h => (Option.ite_none_left_eq_some.mp h).2) ?_ ?_ h
  · intro w hw
    exact (Option.some.inj hw).symm
  · intro u w hw
    cases hw

/-! ## What a change adds -/

/-- A tree grows by what is added below a way, unless an array of tables that stands on this way
takes it in. -/
def Grows (way : List String) (added : List String → Node → Prop) (v v' : Value) : Prop :=
  (∃ p, p <+: way ∧ v.Leads p .tables ∧ ∀ q n, v'.Leads q n ↔ v.Leads q n) ∨
    ∀ q n, v'.Leads q n ↔ v.Leads q n ∨ added q n

theorem leads_concat (kind : TableKind) : (Value.table kind' (es ++ [(key, v)])).Leads p n ↔
    (Value.table kind es).Leads p n ∨ ∃ q, p = key :: q ∧ v.Leads q n := by
  cases p with
  | nil => simp [leads_nil, Value.node]
  | cons k p =>
      simp only [leads_cons, List.mem_append, List.mem_singleton, Prod.mk.injEq, List.cons.injEq]
      constructor
      · rintro ⟨w, hw | ⟨rfl, rfl⟩, h⟩
        · exact .inl ⟨w, hw, h⟩
        · exact .inr ⟨p, ⟨rfl, rfl⟩, h⟩
      · rintro (⟨w, hw, h⟩ | ⟨_, ⟨rfl, rfl⟩, h⟩)
        · exact ⟨w, .inl hw, h⟩
        · exact ⟨v, .inr ⟨rfl, rfl⟩, h⟩

theorem leads_replace {l r : Entries} {added : List String → Node → Prop}
    (h : ∀ q n, v.Leads q n ↔ u.Leads q n ∨ added q n) :
    (Value.table kind' (l ++ (key, v) :: r)).Leads p n ↔
      (Value.table kind (l ++ (key, u) :: r)).Leads p n ∨ ∃ q, p = key :: q ∧ added q n := by
  cases p with
  | nil => simp [leads_nil, Value.node]
  | cons k p =>
      simp only [leads_cons, List.mem_append, List.mem_cons, Prod.mk.injEq, List.cons.injEq]
      constructor
      · rintro ⟨w, hw | ⟨rfl, rfl⟩ | hw, hleads⟩
        · exact .inl ⟨w, .inl hw, hleads⟩
        · rcases (h p n).mp hleads with hleads | hadded
          · exact .inl ⟨u, .inr (.inl ⟨rfl, rfl⟩), hleads⟩
          · exact .inr ⟨p, ⟨rfl, rfl⟩, hadded⟩
        · exact .inl ⟨w, .inr (.inr hw), hleads⟩
      · rintro (⟨w, hw | ⟨rfl, rfl⟩ | hw, hleads⟩ | ⟨_, ⟨rfl, rfl⟩, hadded⟩)
        · exact ⟨w, .inl hw, hleads⟩
        · exact ⟨v, .inr (.inl ⟨rfl, rfl⟩), (h p n).mpr (.inl hleads)⟩
        · exact ⟨w, .inr (.inr hw), hleads⟩
        · exact ⟨v, .inr (.inl ⟨rfl, rfl⟩), (h p n).mpr (.inr hadded)⟩

theorem leads_replace_same {l r : Entries} (h : ∀ q n, v.Leads q n ↔ u.Leads q n) :
    (Value.table kind' (l ++ (key, v) :: r)).Leads p n ↔
      (Value.table kind (l ++ (key, u) :: r)).Leads p n := by
  have hsame : ∀ q n, v.Leads q n ↔ u.Leads q n ∨ False := fun q n => by rw [h, or_false]
  rw [leads_replace hsame]
  exact or_iff_left fun ⟨_, _, hfalse⟩ => hfalse

/-- A change of one key that adds to what stands there adds below this key. -/
theorem leads_alter {change : Option Value → Option Value} {added : List String → Node → Prop}
    (hnew : ∀ v, change none = some v → ∀ q n, v.Leads q n ↔ added q n)
    (hold : ∀ u v, change (some u) = some v → ∀ q n, v.Leads q n ↔ u.Leads q n ∨ added q n)
    (h : alter key change es = some es') :
    (Value.table kind' es').Leads p n ↔
      (Value.table kind es).Leads p n ∨ ∃ q, p = key :: q ∧ added q n := by
  rcases alter_eq_some h with ⟨v, -, hv, rfl⟩ | ⟨l, u, r, v, rfl, hv, rfl⟩
  · rw [leads_concat kind]
    simp only [hnew v hv]
  · exact leads_replace (hold u v hv)

/-- What is added at the end of a path of tables. -/
def Placed (keys : List String) (added : List String → Node → Prop) (p : List String) (n : Node) :
    Prop :=
  (n = .table ∧ p <+: keys) ∨ ∃ q, p = keys ++ q ∧ added q n

theorem placed_nil {added : List String → Node → Prop} :
    Placed [] added p n ↔ (p = [] ∧ n = .table) ∨ added p n := by
  simp [Placed, and_comm]

theorem placed_cons {added : List String → Node → Prop} :
    Placed (key :: keys) added p n ↔
      (p = [] ∧ n = .table) ∨ ∃ q, p = key :: q ∧ Placed keys added q n := by
  cases p with
  | nil => simp [Placed]
  | cons k p =>
      simp only [Placed, List.cons_prefix_cons, List.cons_append, List.cons.injEq, reduceCtorEq,
        false_and, false_or]
      constructor
      · rintro (⟨hn, rfl, hp⟩ | ⟨q, ⟨rfl, rfl⟩, hadded⟩)
        · exact ⟨p, ⟨rfl, rfl⟩, .inl ⟨hn, hp⟩⟩
        · exact ⟨keys ++ q, ⟨rfl, rfl⟩, .inr ⟨q, rfl, hadded⟩⟩
      · rintro ⟨_, ⟨rfl, rfl⟩, ⟨hn, hp⟩ | ⟨q, rfl, hadded⟩⟩
        · exact .inl ⟨hn, rfl, hp⟩
        · exact .inr ⟨q, ⟨rfl, rfl⟩, hadded⟩

/-- The root is there already. -/
theorem leads_or_placed_cons {added : List String → Node → Prop} :
    (Value.table kind es).Leads p n ∨ Placed (key :: keys) added p n ↔
      (Value.table kind es).Leads p n ∨ ∃ q, p = key :: q ∧ Placed keys added q n := by
  rw [placed_cons, ← or_assoc]
  refine or_congr_left (or_iff_left_of_imp ?_)
  rintro ⟨rfl, rfl⟩
  exact leads_nil.mpr rfl

/-- The tables that a path passes are made where they are missing, and the change is made at its
end. -/
theorem grows_alterWithin {dotted : Bool} {change : TableKind → Entries → Option Entries}
    {added : List String → Node → Prop}
    (hchange : ∀ kind es es', change kind es = some es' →
      Grows way added (.table kind es) (.table kind es'))
    (h : alterWithin dotted change keys kind es = some es') :
    Grows (keys ++ way) (Placed keys added) (.table kind es) (.table kind es') := by
  induction keys generalizing kind es es' with
  | nil =>
      refine (hchange kind es es' h).imp_right fun hgrown q n => ?_
      rw [hgrown, placed_nil, ← or_assoc]
      refine or_congr_left (or_iff_left_of_imp ?_).symm
      rintro ⟨rfl, rfl⟩
      exact leads_nil.mpr rfl
  | cons key keys ih =>
      rcases alterWithin_cons h with ⟨kind', sub, -, hsub, rfl⟩ |
        ⟨l, kind', sub, sub', r, rfl, hsub, rfl⟩ | ⟨l, items, items', r, rfl, -, rfl⟩
      · refine .inr fun p n => ?_
        rcases ih hsub with ⟨q, -, hq, -⟩ | hgrown
        · cases (leads_empty.mp hq).2
        have hnew (q : List String) (n : Node) :
            (Value.table kind' sub).Leads q n ↔ Placed keys added q n := by
          rw [hgrown, leads_empty]
          refine or_iff_right_of_imp ?_
          rintro ⟨rfl, hn⟩
          exact .inl ⟨hn, List.nil_prefix⟩
        rw [leads_or_placed_cons, leads_concat kind]
        simp only [hnew]
      · rcases ih hsub with ⟨q, hq, hleads, hsame⟩ | hgrown
        · refine .inl ⟨key :: q, ?_, ?_, fun p n => leads_replace_same hsame⟩
          · exact List.cons_prefix_cons.mpr ⟨rfl, hq⟩
          · exact ⟨_, List.mem_append_right _ List.mem_cons_self, hleads⟩
        · refine .inr fun p n => ?_
          rw [leads_or_placed_cons]
          exact leads_replace hgrown
      · refine .inl ⟨[key], ⟨keys ++ way, rfl⟩, ?_, fun p n => leads_replace_same ?_⟩
        · exact ⟨_, List.mem_append_right _ List.mem_cons_self, rfl⟩
        · intro q n
          cases q <;> rfl

theorem placed_append {ks ls : List String} {added : List String → Node → Prop} :
    Placed (ks ++ ls) added p n ↔ Placed ks (Placed ls added) p n := by
  induction ks generalizing p with
  | nil =>
      rw [placed_nil, List.nil_append]
      refine (or_iff_right_of_imp ?_).symm
      rintro ⟨rfl, hn⟩
      exact .inl ⟨hn, List.nil_prefix⟩
  | cons key ks ih =>
      rw [List.cons_append, placed_cons, placed_cons]
      simp only [ih]

/-! ## What statements say -/

/-- A value stands at the end of a path of tables. -/
def Reaches (path : List String) (v : Value) (p : List String) (n : Node) : Prop :=
  (n = .table ∧ p <+: path ∧ p ≠ path) ∨ ∃ q, p = path ++ q ∧ v.Leads q n

/-- The path that a statement gives a value, under the header opened last. -/
def Statement.target (opened : List String) : Statement → List String
  | .table path => path
  | .element path => path
  | .assign path _ => opened ++ path

/-- The value that a statement gives: an empty table or array by a header, else its own. -/
def Statement.value : Statement → Value
  | .table _ => .table .header []
  | .element _ => .tables []
  | .assign _ v => v

/-- The header opened last behind a statement. -/
def Statement.opens (opened : List String) : Statement → List String
  | .table path => path
  | .element path => path
  | .assign _ _ => opened

/-- What a statement says under a header. -/
def Statement.Says (opened : List String) (st : Statement) : List String → Node → Prop :=
  Reaches (st.target opened) st.value

/-- What statements say behind a header. -/
def Says (opened : List String) : List Statement → List String → Node → Prop
  | [], _, _ => False
  | st :: sts, p, n => st.Says opened p n ∨ Says (st.opens opened) sts p n

theorem reaches_concat (keys : List String) (key : String) (v : Value) :
    Reaches (keys ++ [key]) v = Placed keys fun p n => ∃ q, p = key :: q ∧ v.Leads q n := by
  funext p n
  unfold Reaches Placed
  have hinit : p <+: keys ++ [key] ∧ p ≠ keys ++ [key] ↔ p <+: keys := by
    rw [List.prefix_concat_iff]
    refine ⟨fun h => h.1.resolve_left h.2, fun h => ⟨.inr h, ?_⟩⟩
    rintro rfl
    have hlen := h.length_le
    rw [List.length_append, List.length_singleton] at hlen
    omega
  rw [hinit]
  refine propext (or_congr_right ⟨?_, ?_⟩)
  · rintro ⟨q, rfl, h⟩
    exact ⟨key :: q, by simp, q, rfl, h⟩
  · rintro ⟨_, rfl, q, rfl, h⟩
    exact ⟨q, by simp, h⟩

theorem placed_reaches (hpath : path ≠ []) (opened : List String) (v : Value) :
    Placed opened (Reaches path v) = Reaches (opened ++ path) v := by
  obtain ⟨keys, key, rfl⟩ := (List.eq_nil_or_concat path).resolve_left hpath
  rw [List.concat_eq_append, reaches_concat, ← List.append_assoc, reaches_concat]
  funext p n
  exact propext placed_append.symm

theorem Operates.grows {dotted : Bool} {fresh : Value → Prop} {step : Value → Value → Prop}
    (h : Operates dotted fresh step path kind es es')
    (hfresh : ∀ w, fresh w → ∀ q n, w.Leads q n ↔ v.Leads q n)
    (hstep : ∀ u w, step u w → ∀ q n, w.Leads q n ↔ u.Leads q n ∨ v.Leads q n) :
    Grows path.dropLast (Reaches path v) (.table kind es) (.table kind es') := by
  cases h with
  | @intro keys key base change _ _ _ hchange hnew hold h =>
      have hbase (kind : TableKind) (es es' : Entries) (hes : change kind es = some es') :
          Grows [] (fun p n => ∃ q, p = key :: q ∧ v.Leads q n) (.table kind es)
            (.table kind es') :=
        .inr fun p n => leads_alter (fun w hw => hfresh w (hnew w hw))
          (fun u w hw => hstep u w (hold u w hw)) (hchange kind es es' hes)
      have hgrows := grows_alterWithin hbase h
      rw [List.append_nil, ← reaches_concat] at hgrows
      rwa [List.dropLast_concat]

theorem grows_openTable (h : openTable path es = some es') :
    Grows path.dropLast (Reaches path (.table .header [])) (.table .header es)
      (.table .header es') := by
  refine (operates_openTable h).grows ?_ ?_
  · rintro w rfl q n
    exact Iff.rfl
  · rintro u w ⟨es, rfl, rfl⟩ q n
    rw [leads_kind .implied, leads_empty]
    refine (or_iff_left_of_imp ?_).symm
    rintro ⟨rfl, rfl⟩
    exact leads_nil.mpr rfl

/-- An array of tables leads nowhere else, whatever its items. -/
theorem leads_tables {items : List Value} :
    (Value.tables items).Leads p n ↔ p = [] ∧ n = .tables := by
  cases p with
  | nil => exact ⟨fun h => ⟨rfl, Eq.symm h⟩, fun h => h.2.symm⟩
  | cons key p => exact ⟨fun h => h.elim, fun h => (nomatch h.1)⟩

theorem grows_openElement (h : openElement path es = some es') :
    Grows path.dropLast (Reaches path (.tables [])) (.table .header es) (.table .header es') := by
  refine (operates_openElement h).grows ?_ ?_
  · rintro w ⟨items, rfl⟩ q n
    rw [leads_tables, leads_tables]
  · rintro u w ⟨⟨items, rfl⟩, items', rfl⟩ q n
    rw [leads_tables, leads_tables, leads_tables, or_self]

theorem grows_assign (h : assign path v kind es = some es') :
    Grows path.dropLast (Reaches path v) (.table kind es) (.table kind es') := by
  refine (operates_assign h).grows ?_ ?_
  · rintro w rfl q n
    exact Iff.rfl
  · exact fun u w hstep => hstep.elim

/-! ## What a document says -/

/-- The root table of a draft. -/
def Draft.root (d : Draft) : Value := .table .header d.entries

theorem grows_apply {d d' : Draft} {st : Statement} (h : d.apply st = some d') :
    d'.opened = st.opens d.opened ∧
      Grows (st.target d.opened).dropLast (st.Says d.opened) d.root d'.root := by
  cases st with
  | table path =>
      obtain ⟨es, hes, rfl⟩ := Option.map_eq_some_iff.mp h
      exact ⟨rfl, grows_openTable hes⟩
  | element path =>
      obtain ⟨es, hes, rfl⟩ := Option.map_eq_some_iff.mp h
      exact ⟨rfl, grows_openElement hes⟩
  | assign path v =>
      obtain ⟨es, hes, rfl⟩ := Option.map_eq_some_iff.mp h
      refine ⟨rfl, ?_⟩
      obtain ⟨_, _, _, hassign⟩ := exists_of_alterWithin hes
      have hpath := (operates_assign hassign).ne_nil
      have hgrows := grows_alterWithin (fun kind es es' h => grows_assign h) hes
      rwa [← List.dropLast_append_of_ne_nil hpath, placed_reaches hpath] at hgrows

/-- Where a statement says that a path leads, it leads, unless an array of tables stands on it. -/
theorem Grows.leads {target : List String} {v' : Value} {w : Value}
    (h : Grows target.dropLast (Reaches target w) v v') (hp : Reaches target w p n)
    (hclear : ∀ q, q <+: p → v.Leads q .tables → q = p ∧ n = .tables) : v'.Leads p n := by
  rcases h with ⟨q, hq, hblocked, hsame⟩ | hgrown
  · rw [hsame]
    have hq := hq.trans (List.dropLast_prefix target)
    rcases hp with ⟨rfl, hp, -⟩ | ⟨q', rfl, -⟩
    · rcases List.prefix_or_prefix_of_prefix hp hq with hle | hle
      · refine hblocked.table_of_prefix hle ?_
        rintro rfl
        cases (hclear p hle hblocked).2
      · cases (hclear q hle hblocked).2
    · obtain ⟨rfl, rfl⟩ := hclear q (hq.trans (List.prefix_append target q')) hblocked
      exact hblocked
  · exact (hgrown p n).mpr (.inr hp)

theorem Grows.mono {v' : Value} {added : List String → Node → Prop} (h : Grows way added v v')
    (hp : v.Leads p n) : v'.Leads p n := by
  rcases h with ⟨_, _, _, hsame⟩ | hgrown
  · exact (hsame p n).mpr hp
  · exact (hgrown p n).mpr (.inl hp)

theorem Grows.or_of_leads {v' : Value} {added : List String → Node → Prop}
    (h : Grows way added v v') (hp : v'.Leads p n) : v.Leads p n ∨ added p n := by
  rcases h with ⟨_, _, _, hsame⟩ | hgrown
  · exact .inl ((hsame p n).mp hp)
  · exact (hgrown p n).mp hp

/-- What the tree of a draft leads to, its statements say. -/
theorem says_of_leads_run {d d' : Draft} {sts : List Statement}
    (h : sts.foldlM Draft.apply d = some d') (hleads : d'.root.Leads p n) :
    d.root.Leads p n ∨ Says d.opened sts p n := by
  induction sts generalizing d with
  | nil =>
      cases h
      exact .inl hleads
  | cons st sts ih =>
      obtain ⟨d₁, hst, h⟩ := Option.bind_eq_some_iff.mp h
      obtain ⟨hopened, hgrows⟩ := grows_apply hst
      rcases ih h with h | h
      · exact (hgrows.or_of_leads h).imp_right .inl
      · rw [hopened] at h
        exact .inr (.inr h)

theorem leads_of_says_run {d d' : Draft} {sts : List Statement}
    (h : sts.foldlM Draft.apply d = some d')
    (hsaid : d.root.Leads p n ∨ Says d.opened sts p n)
    (hclear : ∀ q, q <+: p → d.root.Leads q .tables ∨ Says d.opened sts q .tables →
      q = p ∧ n = .tables) : d'.root.Leads p n := by
  induction sts generalizing d with
  | nil =>
      cases h
      exact hsaid.resolve_right id
  | cons st sts ih =>
      obtain ⟨d₁, hst, h⟩ := Option.bind_eq_some_iff.mp h
      obtain ⟨hopened, hgrows⟩ := grows_apply hst
      refine ih h ?_ fun q hq harray => hclear q hq ?_
      · rw [hopened]
        rcases hsaid with hleads | hsaid | hsaid
        · exact .inl (hgrows.mono hleads)
        · exact .inl (hgrows.leads hsaid fun q hq hleads => hclear q hq (.inl hleads))
        · exact .inr hsaid
      · rw [hopened] at harray
        rcases harray with hleads | hsaid
        · exact (hgrows.or_of_leads hleads).imp_right .inl
        · exact .inr (.inr hsaid)

/-- The tree of a document leads nowhere but where its statements say. -/
theorem says_of_leads {sts : List Statement} (h : build sts = some es)
    (hleads : (Value.table .header es).Leads p n) : (p = [] ∧ n = .table) ∨ Says [] sts p n := by
  obtain ⟨d, hrun, rfl⟩ := Option.map_eq_some_iff.mp h
  exact (says_of_leads_run hrun hleads).imp_left leads_empty.mp

/-- The tree of a document leads where its statements say, but for what arrays of tables take in. -/
theorem leads_of_says {sts : List Statement} (h : build sts = some es) (hsaid : Says [] sts p n)
    (hclear : ∀ q, q <+: p → Says [] sts q .tables → q = p ∧ n = .tables) :
    (Value.table .header es).Leads p n := by
  obtain ⟨d, hrun, rfl⟩ := Option.map_eq_some_iff.mp h
  refine leads_of_says_run hrun (.inr hsaid) fun q hq harray => hclear q hq ?_
  refine harray.resolve_left fun hleads => ?_
  cases (leads_empty.mp hleads).2

/-! ## Exact contents -/

/-- Paths lead to these values and to no other, to no table but these, and to no array of tables. -/
structure Assigns (leads : List String → Node → Prop) (tables : List (List String))
    (values : List (List String × Value)) : Prop where
  leaf : ∀ p v, leads p (.leaf v) ↔ (p, v) ∈ values
  table : ∀ p, leads p .table → p ∈ tables
  array : ∀ p, ¬ leads p .tables

/-- The tree of a document holds what its statements assign, in any order and layout. -/
theorem Assigns.of_build {sts : List Statement} {tables : List (List String)}
    {values : List (List String × Value)} (h : Assigns (Says [] sts) tables values)
    (hroot : [] ∈ tables) (hbuild : build sts = some es) :
    Assigns (Value.table .header es).Leads tables values where
  leaf p v := by
    rw [← h.leaf]
    constructor
    · intro hleads
      exact (says_of_leads hbuild hleads).resolve_left fun hroot => (nomatch hroot.2)
    · intro hsaid
      exact leads_of_says hbuild hsaid fun q _ harray => absurd harray (h.array q)
  table p hleads := by
    rcases says_of_leads hbuild hleads with ⟨rfl, -⟩ | hsaid
    · exact hroot
    · exact h.table p hsaid
  array p hleads := by
    rcases says_of_leads hbuild hleads with ⟨-, hn⟩ | hsaid
    · cases hn
    · exact h.array p hsaid

/-- What a tree holds below one of its keys. -/
theorem Assigns.below {tables tables' : List (List String)}
    {values values' : List (List String × Value)}
    (h : Assigns (Value.table kind es).Leads tables values) (hkeys : (es.map Prod.fst).Nodup)
    (hmem : (key, v) ∈ es) (htables : ∀ p, key :: p ∈ tables → p ∈ tables')
    (hvalues : ∀ p w, (key :: p, w) ∈ values ↔ (p, w) ∈ values') :
    Assigns v.Leads tables' values' := by
  have hleads (p : List String) (n : Node) :
      v.Leads p n ↔ (Value.table kind es).Leads (key :: p) n := by
    constructor
    · intro h
      exact ⟨v, hmem, h⟩
    · rintro ⟨w, hw, h⟩
      obtain ⟨-, rfl⟩ := Prod.mk.inj (List.inj_on_of_nodup_map hkeys hw hmem rfl)
      exact h
  constructor
  · intro p w
    rw [hleads, h.leaf, hvalues]
  · intro p hp
    exact htables p (h.table _ ((hleads p _).mp hp))
  · intro p hp
    exact h.array _ ((hleads p _).mp hp)

end Crossref.Toml
