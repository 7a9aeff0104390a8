import Crossref.Registry.Basic
import Crossref.Proofs.Index

/-!
# What merging a table does

A table is merged unit by unit, and each unit finds the index as the units
before it left it. No unit stands twice in a table, so none of them touches the
list that a later one finds: what is done to a unit, and the warning that it
deserves, can be told from the index as it was before the merge
(`Merging.foldl_mergeUnit`). So a merge is one insertion of the table, with a
report on each unit (`Registry.merge_eq`), and the report reconciles the index
before it with the one behind it (`Registry.report_reconciles`).
-/

namespace Crossref

variable {α : Type}

/-! ## What is done to a unit -/

/-- What merging the list of one unit into an index does. -/
def Index.unitMerge (i : Index α) (e : String × List α) : UnitMerge :=
  ⟨e.1, (i.merge e.1 e.2).2, e.2.length⟩

/-- What merging a table does to each of its units, told from the index before it. -/
def Index.unitMerges (before table : Index α) : List UnitMerge :=
  table.entries.map before.unitMerge

/-- The warnings that merging a table deserves, from what it does to the units. -/
def mergeWarnings (units : List UnitMerge) : List Warning :=
  (if units.isEmpty then [.emptyTable] else []) ++ units.filterMap UnitMerge.warning?

/-- The length of the list that was replaced; nothing is replaced where a unit comes in. -/
def UnitMerge.previous (u : UnitMerge) : Nat :=
  match u.effect with
  | .inserted => 0
  | .replaced n => n

/-- A length of each of the units, all together. -/
def UnitMerge.total (length : UnitMerge → Nat) (units : List UnitMerge) : Nat :=
  units.foldr (fun u n => length u + n) 0

namespace Index

theorem effect_unitMerge_eq_inserted_iff {i : Index α} {e : String × List α} :
    (i.unitMerge e).effect = .inserted ↔ i.get? e.1 = none := by
  simp only [unitMerge, merge]
  cases i.get? e.1 <;> simp

theorem effect_unitMerge_eq_replaced_iff {i : Index α} {e : String × List α} {n : Nat} :
    (i.unitMerge e).effect = .replaced n ↔ (i.get? e.1).map List.length = some n := by
  simp only [unitMerge, merge]
  cases i.get? e.1 <;> simp

theorem previous_unitMerge (i : Index α) (e : String × List α) :
    (i.unitMerge e).previous = ((i.get? e.1).map List.length).getD 0 := by
  simp only [UnitMerge.previous, unitMerge, merge]
  cases i.get? e.1 <;> rfl

/-- What is done to a unit does not depend on the lists of other units. -/
theorem unitMerge_insert (i : Index α) {key : String} (list : List α) {e : String × List α}
    (h : key ≠ e.1) : (i.insert key list).unitMerge e = i.unitMerge e := by
  simp only [unitMerge, merge, get?_insert, if_neg h]

theorem map_unitMerge_insert (i : Index α) {key : String} (list : List α)
    {es : List (String × List α)} (h : key ∉ es.map Prod.fst) :
    es.map (i.insert key list).unitMerge = es.map i.unitMerge :=
  List.map_congr_left fun _ he =>
    unitMerge_insert i list fun hk => h (hk ▸ List.mem_map_of_mem he)

/-- The lists that come in replace lists of the lengths that are told for them. -/
theorem descriptorCount_insertAll (i : Index α) {es : List (String × List α)}
    (h : (es.map Prod.fst).Nodup) :
    (i.insertAll es).descriptorCount + UnitMerge.total UnitMerge.previous (es.map i.unitMerge) =
      i.descriptorCount + UnitMerge.total UnitMerge.length (es.map i.unitMerge) := by
  induction es generalizing i with
  | nil => rfl
  | cons e es ih =>
      rw [List.map_cons, List.nodup_cons] at h
      have hhead := descriptorCount_insert i e.1 e.2
      have htail := ih (i.insert e.1 e.2) h.2
      rw [map_unitMerge_insert i e.2 h.1] at htail
      have hlength : (i.unitMerge e).length = e.2.length := rfl
      simp only [UnitMerge.total, List.map_cons, List.foldr_cons, previous_unitMerge,
        hlength] at htail ⊢
      change ((i.insert e.1 e.2).insertAll es).descriptorCount + _ = _
      omega

end Index

/-! ## The merge of a table -/

namespace Merging

theorem foldl_warn (s : RegistrySettings) (m : Merging α) (ws : List Warning) :
    ws.foldl (warn s) m =
      { m with
        log := (ws.filter s.warnings.raises).foldl s.record m.log
        warnings := m.warnings + (ws.filter s.warnings.raises).length } := by
  induction ws generalizing m with
  | nil => rfl
  | cons w ws ih =>
      rw [List.foldl_cons, ih]
      cases hw : s.warnings.raises w with
      | true => simp [warn, RegistrySettings.warn, hw, Nat.add_assoc, Nat.add_comm 1]
      | false => simp [warn, RegistrySettings.warn, hw]

theorem mergeUnit_eq (s : RegistrySettings) (m : Merging α) (e : String × List α) :
    m.mergeUnit s e = (m.index.unitMerge e).warning?.toList.foldl (warn s)
      { m with index := m.index.insert e.1 e.2, units := m.units ++ [m.index.unitMerge e] } := by
  simp only [mergeUnit, Index.unitMerge, Index.merge]
  split <;> rename_i hw <;> rw [hw] <;> rfl

/-- Every unit finds the list that it had before the merge began, as the units
before it are others. -/
theorem foldl_mergeUnit (s : RegistrySettings) (m : Merging α) {es : List (String × List α)}
    (h : (es.map Prod.fst).Nodup) :
    es.foldl (mergeUnit s) m =
      ((es.map m.index.unitMerge).filterMap UnitMerge.warning?).foldl (warn s)
        { m with
          index := m.index.insertAll es
          units := m.units ++ es.map m.index.unitMerge } := by
  induction es generalizing m with
  | nil => simp [Index.insertAll]
  | cons e es ih =>
      rw [List.map_cons, List.nodup_cons] at h
      have hwarnings : ((e :: es).map m.index.unitMerge).filterMap UnitMerge.warning? =
          (m.index.unitMerge e).warning?.toList ++
            (es.map m.index.unitMerge).filterMap UnitMerge.warning? := by
        rw [List.map_cons, List.filterMap_cons]
        cases (m.index.unitMerge e).warning? <;> rfl
      have hindex : (m.mergeUnit s e).index = m.index.insert e.1 e.2 := by
        rw [mergeUnit_eq, foldl_warn]
      rw [List.foldl_cons, ih _ h.2, hindex, Index.map_unitMerge_insert m.index e.2 h.1, hwarnings,
        List.foldl_append, mergeUnit_eq]
      simp only [foldl_warn, List.map_cons, List.append_assoc, List.singleton_append]
      rfl

theorem foldl_mergeUnit_entries (s : RegistrySettings) (r : Registry α) (table : Index α) :
    let begun : Merging α := { index := r.index, log := r.log }
    let units := r.index.unitMerges table
    let raised := (mergeWarnings units).filter s.warnings.raises
    table.entries.foldl (mergeUnit s) (if table.isEmpty then begun.warn s .emptyTable else begun) =
      { index := r.index.insertAll table.entries
        log := raised.foldl s.record r.log
        units := units
        warnings := raised.length } := by
  intro begun units raised
  have hempty : units.isEmpty = table.isEmpty := List.isEmpty_map
  have hopened : (if table.isEmpty then begun.warn s .emptyTable else begun) =
      (if units.isEmpty then [.emptyTable] else []).foldl (warn s) begun := by
    rw [hempty]
    split <;> rfl
  rw [hopened, foldl_warn, foldl_mergeUnit s _ table.distinct, foldl_warn]
  simp only [raised, mergeWarnings, List.filter_append, List.foldl_append, List.length_append]
  simp only [begun, units, Index.unitMerges, List.nil_append, Nat.zero_add]

end Merging

namespace Registry

/-- A merge at once: the table is inserted, each of its units is reported as the
index before tells, and the warnings that they deserve are raised in their order. -/
theorem merge_eq (r : Registry α) (table : Index α) :
    r.merge table =
      let units := r.index.unitMerges table
      let raised := (mergeWarnings units).filter r.settings.warnings.raises
      let index := r.index.insertAll table.entries
      let merged := { r with index := index, log := raised.foldl r.settings.record r.log }
      match r.slot with
      | .attached consumer =>
        { registry := { merged with deliveries := r.deliveries + 1 }
          answer := ⟨units, .delivered, raised.length⟩
          delivery := some ⟨consumer, index⟩ }
      | _ =>
        { registry := { merged with slot := .buffered }
          answer := ⟨units, .buffered, raised.length⟩ } := by
  cases hslot : r.slot <;> simp only [merge, hslot, Merging.foldl_mergeUnit_entries]

theorem units_merge (r : Registry α) (table : Index α) :
    (r.merge table).answer.units = r.index.unitMerges table := by
  rw [merge_eq]
  cases r.slot <;> rfl

theorem index_merge (r : Registry α) (table : Index α) :
    (r.merge table).registry.index = r.index.insertAll table.entries := by
  rw [merge_eq]
  cases r.slot <;> rfl

end Registry

/-! ## The report -/

namespace MergeReport

theorem inserted_unitMerges {report : MergeReport} {before table : Index α}
    (h : report.units = before.unitMerges table) :
    report.inserted = table.keys.filter fun k => !before.contains k := by
  have hentry : ∀ e ∈ table.entries,
      ((before.unitMerge e).effect == .inserted) = !before.contains e.1 := fun e _ => by
    rw [Bool.eq_iff_iff, beq_iff_eq, Index.effect_unitMerge_eq_inserted_iff]
    simp [Index.contains]
  rw [inserted, h, Index.unitMerges, List.filter_map, List.map_map, Index.keys, List.filter_map]
  exact congrArg (List.map Prod.fst) (List.filter_congr hentry)

theorem replaced_unitMerges {report : MergeReport} {before table : Index α}
    (h : report.units = before.unitMerges table) :
    report.replaced = table.keys.filter fun k => before.contains k := by
  have hentry : ∀ e ∈ table.entries,
      ((before.unitMerge e).effect != .inserted) = before.contains e.1 := fun e _ => by
    rw [Bool.eq_iff_iff, bne_iff_ne, ne_eq, Index.effect_unitMerge_eq_inserted_iff]
    simp [Index.contains, Option.ne_none_iff_isSome]
  rw [replaced, h, Index.unitMerges, List.filter_map, List.map_map, Index.keys, List.filter_map]
  exact congrArg (List.map Prod.fst) (List.filter_congr hentry)

end MergeReport

namespace Registry

/-- The report of a merge reconciles the index behind it with the one before. It
names the units of the table once each, in the table's order. A unit is inserted
if it was not there, and otherwise replaces a list of the length that is told;
the other length is that of its list now. The inserted units come behind all
units that were there, in the order of the table. The lengths told account for
the change in the number of descriptors, and a unit that is not in the table
keeps its place and its list. -/
theorem report_reconciles (r : Registry α) (table : Index α) :
    let before := r.index
    let after := (r.merge table).registry.index
    let report := (r.merge table).answer
    report.units.map UnitMerge.key = table.keys ∧
      (report.units.map UnitMerge.key).Nodup ∧
      (∀ u ∈ report.units,
        (u.effect = .inserted ↔ before.get? u.key = none) ∧
        (∀ n, u.effect = .replaced n ↔ (before.get? u.key).map List.length = some n) ∧
        (after.get? u.key).map List.length = some u.length) ∧
      report.inserted = (table.keys.filter fun k => !before.contains k) ∧
      report.replaced = (table.keys.filter fun k => before.contains k) ∧
      after.keys = before.keys ++ report.inserted ∧
      after.size = before.size + report.inserted.length ∧
      after.descriptorCount + UnitMerge.total UnitMerge.previous report.units =
        before.descriptorCount + UnitMerge.total UnitMerge.length report.units ∧
      ∀ (n : Nat) (key : String) (list : List α), key ∉ table.keys →
        before.entries[n]? = some (key, list) → after.entries[n]? = some (key, list) := by
  intro before after report
  have hunits : report.units = before.unitMerges table := units_merge r table
  have hafter : after = before.insertAll table.entries := index_merge r table
  have hnames : report.units.map UnitMerge.key = table.keys := by
    rw [hunits, Index.unitMerges, List.map_map]
    rfl
  have hinserted := MergeReport.inserted_unitMerges hunits
  have hkeys : after.keys = before.keys ++ report.inserted := by
    rw [hafter, Index.keys_insertAll_entries, hinserted]
  refine ⟨hnames, hnames ▸ table.distinct, fun u hu => ?_, hinserted,
    MergeReport.replaced_unitMerges hunits, hkeys, ?_, ?_, fun n key list hkey hold => ?_⟩
  · rw [hunits] at hu
    obtain ⟨e, he, rfl⟩ := List.mem_map.mp hu
    refine ⟨Index.effect_unitMerge_eq_inserted_iff,
      fun n => Index.effect_unitMerge_eq_replaced_iff, ?_⟩
    rw [hafter, Index.get?_insertAll_entries, Index.unitMerge, Index.get?_of_mem he]
    rfl
  · rw [Index.size_eq_length_keys, Index.size_eq_length_keys, hkeys, List.length_append]
  · rw [hafter, hunits]
    exact before.descriptorCount_insertAll table.distinct
  · rw [hafter]
    exact Index.getElem?_entries_insertAll hold hkey

end Registry

end Crossref
