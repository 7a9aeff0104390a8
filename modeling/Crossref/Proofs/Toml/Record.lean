import Crossref.Proofs.Toml.Tree
import Crossref.Toml.Record

/-!
# Overlaying a record

Each field of a record governs one of its settings (`Governs`), and no entry but
the field's own changes this setting. So a table without repeated keys gives each
setting what the field's entry says, in whatever order the entries stand, and
leaves it as it was without one (`Governs.of_mem`, `Governs.of_not_mem`).
-/

namespace Crossref.Toml

variable {σ α : Type} {fields : List (RecordField σ)} {setting : σ → α} {read : Value → Option α}
  {s s' : σ} {kind : TableKind} {es : Entries} {key : String} {v : Value}
  {tables : List (List String)} {values : List (List String × Value)}

/-! ## Single entries -/

/-- What sets an entry is the field with its key. -/
theorem setField_eq_some {e : String × Value} (h : setField fields s e = some s') :
    ∃ f ∈ fields, f.key = e.1 ∧ f.set s e.2 = some s' := by
  obtain ⟨f, hfind, hset⟩ := Option.bind_eq_some_iff.mp h
  have hkey := List.find?_some hfind
  exact ⟨f, List.mem_of_find?_eq_some hfind, beq_iff_eq.mp hkey, hset⟩

theorem setField_of_mem (hfields : (fields.map RecordField.key).Nodup) {f : RecordField σ}
    (hf : f ∈ fields) : setField fields s (f.key, v) = f.set s v := by
  have hsome : (fields.find? fun g => g.key == f.key).isSome :=
    List.find?_isSome.mpr ⟨f, hf, beq_self_eq_true f.key⟩
  obtain ⟨g, hfind⟩ := Option.isSome_iff_exists.mp hsome
  have hkey := List.find?_some hfind
  have hgf : g = f := List.inj_on_of_nodup_map hfields (List.mem_of_find?_eq_some hfind) hf
    (beq_iff_eq.mp hkey)
  rw [setField, hfind, hgf, Option.bind_some]

theorem setField_of_not_mem (h : key ∉ fields.map RecordField.key) :
    setField fields s (key, v) = none := by
  have hfind : fields.find? (fun g => g.key == key) = none := by
    rw [List.find?_eq_none]
    intro g hg heq
    exact h (List.mem_map.mpr ⟨g, hg, beq_iff_eq.mp heq⟩)
  rw [setField, hfind, Option.bind_none]

/-! ## All entries -/

/-- Entries that can each be set, whatever the record, can be set together. -/
theorem exists_overlayEntries (h : ∀ e ∈ es, ∀ s, ∃ s', setField fields s e = some s') (s : σ) :
    ∃ s', overlayEntries fields s es = some s' := by
  induction es generalizing s with
  | nil => exact ⟨s, rfl⟩
  | cons e es ih =>
      obtain ⟨s₁, hs₁⟩ := h e List.mem_cons_self s
      obtain ⟨s', hs'⟩ := ih (fun e he => h e (List.mem_cons_of_mem _ he)) s₁
      exact ⟨s', Option.bind_eq_some_iff.mpr ⟨s₁, hs₁, hs'⟩⟩

/-- One entry that cannot be set is enough to refuse all. -/
theorem overlayEntries_eq_none {e : String × Value} (he : e ∈ es)
    (h : ∀ s, setField fields s e = none) (s : σ) : overlayEntries fields s es = none := by
  induction es generalizing s with
  | nil => cases he
  | cons e' es ih =>
      refine Option.bind_eq_none_iff.mpr fun s₁ hs₁ => ?_
      rcases List.mem_cons.mp he with rfl | he
      · rw [h s] at hs₁
        cases hs₁
      · exact ih he s₁

/-! ## What a field governs -/

/-- A field sets one setting, to what is read of its value, if anything is, and no other field
changes it. -/
structure Governs (fields : List (RecordField σ)) (key : String) (setting : σ → α)
    (read : Value → Option α) : Prop where
  own : ∀ {s v s'}, setField fields s (key, v) = some s' → read v = some (setting s')
  sets : ∀ {v a}, read v = some a → ∀ s, ∃ s', setField fields s (key, v) = some s'
  frame : ∀ {s e s'}, e.1 ≠ key → setField fields s e = some s' → setting s' = setting s

/-- A field that leaves a setting alone. -/
def Spares (setting : σ → α) (f : RecordField σ) : Prop :=
  ∀ s v s', f.set s v = some s' → setting s' = setting s

theorem spares_put {β : Type} {read : Value → Option β} {put : σ → β → σ}
    (h : ∀ s b, setting (put s b) = setting s) :
    Spares setting ⟨key, fun s v => (read v).map (put s)⟩ := by
  intro s v s' hset
  obtain ⟨b, -, rfl⟩ := Option.map_eq_some_iff.mp hset
  exact h s b

/-- A field governs the setting that it puts what it reads in, if the others leave this setting
alone. -/
theorem Governs.of_put {put : σ → α → σ} (hfields : (fields.map RecordField.key).Nodup)
    (hmem : ⟨key, fun s v => (read v).map (put s)⟩ ∈ fields)
    (hput : ∀ s a, setting (put s a) = a)
    (hframe : fields.Forall fun f => f.key = key ∨ Spares setting f) :
    Governs fields key setting read where
  own {s v s'} h := by
    have hset := setField_of_mem (s := s) (v := v) hfields hmem
    obtain ⟨a, ha, rfl⟩ := Option.map_eq_some_iff.mp (hset.symm.trans h)
    rw [hput, ha]
  sets {v a} hread s :=
    ⟨put s a, (setField_of_mem hfields hmem).trans (congrArg (Option.map (put s)) hread)⟩
  frame {s e s'} hne h := by
    obtain ⟨f, hf, hkey, hset⟩ := setField_eq_some h
    have hspares := (List.forall_iff_forall_mem.mp hframe f hf).resolve_left (hkey ▸ hne)
    exact hspares s e.2 s' hset

theorem Governs.setField_eq_none (hgov : Governs fields key setting read) (hread : read v = none)
    (s : σ) : setField fields s (key, v) = none := by
  refine Option.eq_none_iff_forall_ne_some.mpr fun s' hset => ?_
  rw [hgov.own hset] at hread
  cases hread

theorem Governs.of_not_mem (hgov : Governs fields key setting read)
    (h : overlayEntries fields s es = some s') (hfree : key ∉ es.map Prod.fst) :
    setting s' = setting s := by
  induction es generalizing s with
  | nil =>
      cases h
      rfl
  | cons e es ih =>
      obtain ⟨s₁, hs₁, h⟩ := Option.bind_eq_some_iff.mp h
      rw [List.map_cons, List.mem_cons, not_or] at hfree
      rw [ih h hfree.2, hgov.frame (Ne.symm hfree.1) hs₁]

theorem Governs.of_mem (hgov : Governs fields key setting read) (hkeys : (es.map Prod.fst).Nodup)
    (h : overlayEntries fields s es = some s') (hmem : (key, v) ∈ es) :
    read v = some (setting s') := by
  induction es generalizing s with
  | nil => cases hmem
  | cons e es ih =>
      obtain ⟨s₁, hs₁, hrest⟩ := Option.bind_eq_some_iff.mp h
      rw [List.map_cons, List.nodup_cons] at hkeys
      rcases List.mem_cons.mp hmem with rfl | hmem
      · have hfree : key ∉ es.map Prod.fst := hkeys.1
        rw [hgov.of_not_mem hrest hfree]
        exact hgov.own hs₁
      · exact ih hkeys.2 hrest hmem

/-! ## Settings from assignments -/

/-- An entry is an assignment or a table. -/
theorem Assigns.entry (h : Assigns (Value.table kind es).Leads tables values)
    (hmem : (key, v) ∈ es) :
    ([key], v) ∈ values ∨ [key] ∈ tables ∧ ∃ kind' sub, v = .table kind' sub := by
  have hleads : (Value.table kind es).Leads [key] v.node := ⟨v, hmem, leads_nil.mpr rfl⟩
  cases v with
  | table kind' sub => exact .inr ⟨h.table _ hleads, kind', sub, rfl⟩
  | tables items => exact absurd hleads (h.array _)
  | _ => exact .inl ((h.leaf _ _).mp hleads)

theorem Assigns.mem (h : Assigns (Value.table kind es).Leads tables values)
    (hmem : ([key], v) ∈ values) : (key, v) ∈ es := by
  obtain ⟨w, hw, hleads⟩ := (h.leaf _ _).mpr hmem
  have hnode : w.node = .leaf v := leads_nil.mp hleads
  cases w with
  | table => cases hnode
  | tables => cases hnode
  | _ =>
      cases hnode
      exact hw

/-- A setting is what is assigned to its field, or stays. -/
theorem Governs.setting_eq (hgov : Governs fields key setting read)
    (hkeys : (es.map Prod.fst).Nodup) (hover : overlayEntries fields s es = some s')
    (h : Assigns (Value.table kind es).Leads tables values) (hkey : [key] ∉ tables)
    (o : Option α) (value : α → Value)
    (hvalues : ∀ v, ([key], v) ∈ values ↔ ∃ a, o = some a ∧ value a = v)
    (hread : ∀ a ∈ o, read (value a) = some a) : setting s' = o.getD (setting s) := by
  cases ho : o with
  | none =>
      refine hgov.of_not_mem hover fun hmem => ?_
      obtain ⟨⟨_, v⟩, hentry, rfl⟩ := List.mem_map.mp hmem
      have hsaid := (h.entry hentry).resolve_right fun htable => hkey htable.1
      obtain ⟨a, ha, -⟩ := (hvalues v).mp hsaid
      rw [ho] at ha
      cases ha
  | some a =>
      have hmem := h.mem ((hvalues (value a)).mpr ⟨a, ho, rfl⟩)
      have heq := hgov.of_mem hkeys hover hmem
      rw [hread a ho] at heq
      exact (Option.some.inj heq).symm

/-- A setting that is a record itself is what its table is read as, or stays. -/
theorem Governs.setting_eq_of_table (hgov : Governs fields key setting read)
    (hkeys : (es.map Prod.fst).Nodup) (hover : overlayEntries fields s es = some s')
    (h : Assigns (Value.table kind es).Leads tables values) (hkey : ∀ v, ([key], v) ∉ values)
    {a : α} (hsub : ∀ kind' sub, (key, .table kind' sub) ∈ es → read (.table kind' sub) = some a)
    (hfree : key ∉ es.map Prod.fst → setting s = a) : setting s' = a := by
  by_cases hmem : key ∈ es.map Prod.fst
  · obtain ⟨⟨_, v⟩, hentry, rfl⟩ := List.mem_map.mp hmem
    obtain ⟨-, kind', sub, rfl⟩ := (h.entry hentry).resolve_left (hkey v)
    have heq := hgov.of_mem hkeys hover hentry
    rw [hsub kind' sub hentry] at heq
    exact (Option.some.inj heq).symm
  · rw [hgov.of_not_mem hover hmem, hfree hmem]

/-- Nothing is assigned in a table that is missing. -/
theorem Assigns.eq_nil (h : Assigns (Value.table kind es).Leads tables values)
    (hfree : key ∉ es.map Prod.fst) {values' : List (List String × Value)}
    (hvalues : ∀ p w, (key :: p, w) ∈ values ↔ (p, w) ∈ values') : values' = [] := by
  refine List.eq_nil_iff_forall_not_mem.mpr fun ⟨p, w⟩ hmem => hfree ?_
  obtain ⟨v, hentry, -⟩ := (h.leaf (key :: p) w).mpr ((hvalues p w).mpr hmem)
  exact List.mem_map.mpr ⟨(key, v), hentry, rfl⟩

end Crossref.Toml
