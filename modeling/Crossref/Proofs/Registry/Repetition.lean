import Crossref.Proofs.Registry.WarningLog

/-!
# Merging a table again

A merge leaves the index as it is if and only if the index has the lists of the
table already (`Index.insertAll_eq_self_iff`). It has them behind a merge of that
table, and no call takes them away but a reset or the merge of another list for
one of the units (`Command.Spares.covers`). So a table that is merged a second
time is absorbed (`merge_again`): its units replace lists of equal lengths, none
of them is emptied, and all that an attached consumer notices is a delivery of
the index as it was.
-/

namespace Crossref

variable {α : Type}

/-! ## Tables that an index has already -/

namespace Index

/-- The index has the list of each unit of the table. -/
def Covers (i table : Index α) : Prop := ∀ e ∈ table.entries, i.get? e.1 = some e.2

variable {i table : Index α}

theorem Covers.get? (h : i.Covers table) {key : String} {list : List α}
    (hlist : table.get? key = some list) : i.get? key = some list :=
  h (key, list) (mem_entries_iff.mpr hlist)

theorem Covers.contains (h : i.Covers table) {key : String} (hkey : key ∈ table.keys) :
    i.contains key = true := by
  obtain ⟨e, he, rfl⟩ := List.mem_map.mp hkey
  rw [Index.contains, h e he]
  rfl

theorem covers_insertAll (i table : Index α) : (i.insertAll table.entries).Covers table := by
  intro e he
  rw [get?_insertAll_entries, get?_of_mem he, Option.some_or]

/-- To insert a table changes nothing only where there is nothing to change. -/
theorem insertAll_eq_self_iff : i.insertAll table.entries = i ↔ i.Covers table := by
  constructor
  · intro h
    have hcovers := covers_insertAll i table
    rwa [h] at hcovers
  · intro h
    refine eq_of_keys_of_get? ?keys fun key => ?lists
    case keys =>
      have hnone : (table.keys.filter fun k => !i.contains k) = [] :=
        List.filter_eq_nil_iff.mpr fun k hk => by simp [h.contains hk]
      rw [keys_insertAll_entries, hnone, List.append_nil]
    case lists =>
      rw [get?_insertAll_entries]
      cases hlist : table.get? key with
      | none => exact Option.none_or
      | some list => rw [h.get? hlist, Option.some_or]

/-- Each unit replaces a list that is as long as its own. -/
theorem unitMerges_of_covers (h : i.Covers table) :
    i.unitMerges table = table.entries.map fun e => ⟨e.1, .replaced e.2.length, e.2.length⟩ := by
  refine List.map_congr_left fun e he => ?_
  simp only [unitMerge, merge, h e he]

end Index

/-! ## Calls in between -/

/-- The call is no reset, and merges no list for a unit of the table. -/
structure Command.Spares (table : Index α) (c : Command α) : Prop where
  isReset : c.isReset = false
  pairs : ∀ e ∈ c.pairs, e.1 ∉ table.keys

theorem Command.Spares.covers {table : Index α} {c : Command α} (hc : c.Spares table)
    {i : Index α} (h : i.Covers table) : (c.indexAfter i).Covers table := by
  intro e he
  have hkey : e.1 ∈ table.keys := List.mem_map_of_mem he
  have hnone : c.pairs.reverse.lookup e.1 = none := by
    rw [lookup_eq_none_iff_not_mem, List.map_reverse, List.mem_reverse]
    intro hnamed
    obtain ⟨p, hp, hpair⟩ := List.mem_map.mp hnamed
    exact hc.pairs p hp (hpair ▸ hkey)
  rw [Command.indexAfter, hc.isReset, if_neg Bool.false_ne_true, Index.get?_insertAll, hnone,
    Option.none_or, h e he]

namespace Registry

theorem covers_run (r : Registry α) {table : Index α} {cs : List (Command α)}
    (hcs : ∀ c ∈ cs, c.Spares table) (h : r.index.Covers table) :
    (r.run cs).1.index.Covers table := by
  induction cs generalizing r with
  | nil => exact h
  | cons c cs ih =>
      rw [List.forall_mem_cons] at hcs
      refine ih (r.step c).registry hcs.2 ?_
      rw [index_step]
      exact hcs.1.covers h

/-! ## The second merge -/

/-- The table is absorbed by a merge. The index stays, and the report has a
replacement by a list of equal length for each unit. The only warning is that for
a table without units, and the only delivery that of the index as it was, to the
consumer if there is one. -/
structure Absorbs (r : Registry α) (table : Index α) : Prop where
  index : (r.merge table).registry.index = r.index
  units : (r.merge table).answer.units =
    table.entries.map fun e => ⟨e.1, .replaced e.2.length, e.2.length⟩
  log : (r.merge table).registry.log =
    if table.isEmpty then r.settings.warn r.log .emptyTable else r.log
  warnings : (r.merge table).answer.warnings =
    if table.isEmpty && r.settings.warnings.raises .emptyTable then 1 else 0
  delivered : ∀ consumer, r.slot = .attached consumer →
    (r.merge table).delivery = some ⟨consumer, r.index⟩ ∧
      (r.merge table).answer.handoff = .delivered ∧
      (r.merge table).registry.deliveries = r.deliveries + 1
  buffered : r.hasConsumer = false →
    (r.merge table).delivery = none ∧ (r.merge table).answer.handoff = .buffered ∧
      (r.merge table).registry.deliveries = r.deliveries

/-- A list that is replaced by itself is not emptied. -/
theorem deserved_of_covers {r : Registry α} {table : Index α} (h : r.index.Covers table) :
    r.deserved (.merge table) = if table.isEmpty then [.emptyTable] else [] := by
  have hunit : ∀ key ∈ table.keys,
      emptied? r.index (r.merge table).registry.index key = none := by
    intro key _
    rw [index_merge, Index.insertAll_eq_self_iff.mpr h, emptied?]
    cases r.index.get? key with
    | none => rfl
    | some list => cases list <;> rfl
  rw [deserved, List.filterMap_eq_nil_iff.mpr hunit]

theorem absorbs_of_covers {r : Registry α} {table : Index α} (h : r.index.Covers table) :
    r.Absorbs table := by
  have hindex : r.index.insertAll table.entries = r.index := Index.insertAll_eq_self_iff.mpr h
  have hdeserved := deserved_of_covers h
  constructor
  case index => rw [index_merge, hindex]
  case units => rw [units_merge, Index.unitMerges_of_covers h]
  case log =>
    have hlog : (r.merge table).registry.log =
        ((r.deserved (.merge table)).filter r.settings.warnings.raises).foldl
          r.settings.record r.log := log_step r (.merge table)
    rw [hlog, hdeserved]
    split
    · exact (r.settings.warn_eq r.log .emptyTable).symm
    · rfl
  case warnings =>
    rw [warnings_merge, hdeserved]
    cases table.isEmpty <;> cases hraises : r.settings.warnings.raises .emptyTable <;>
      simp [hraises]
  case delivered =>
    intro consumer hslot
    simp only [merge_eq, hslot, hindex, and_self]
  case buffered =>
    intro hconsumer
    rw [merge_eq]
    cases hslot : r.slot with
    | empty => exact ⟨rfl, rfl, rfl⟩
    | buffered => exact ⟨rfl, rfl, rfl⟩
    | attached consumer => simp [hasConsumer, shape, hslot, Slot.shape] at hconsumer

/-- A merge leaves the index as it is if and only if every unit of the table is
there with the same list. This is so behind a first merge of the table and any
calls that neither reset the registry nor merge one of the table's units; so the
table is absorbed when it is merged again. -/
theorem merge_again (r : Registry α) (table : Index α) :
    ((r.merge table).registry.index = r.index ↔
        ∀ e ∈ table.entries, r.index.get? e.1 = some e.2) ∧
      ∀ between : List (Command α), (∀ c ∈ between, c.Spares table) →
        ((r.merge table).registry.run between).1.Absorbs table := by
  constructor
  · rw [index_merge]
    exact Index.insertAll_eq_self_iff
  · intro between hbetween
    refine absorbs_of_covers (covers_run _ hbetween ?_)
    rw [index_merge]
    exact Index.covers_insertAll r.index table

/-- Another table and a new consumer come between the two merges of a table with
an empty list in it. -/
theorem merge_again_attached :
    let r : Registry Nat := ((fresh {} "t").run [.merge (.ofList [("b", [1])])]).1
    let table : Index Nat := .ofList [("a", [2, 3]), ("b", [])]
    let between : List (Command Nat) := [.merge (.ofList [("c", [])]), .attach "x"]
    let found := ((r.merge table).registry.run between).1
    (r.merge table).registry.index ≠ r.index ∧
      (∀ c ∈ between, c.isReset = false ∧ ∀ e ∈ c.pairs, e.1 ∉ table.keys) ∧
      found.log = [.emptiedUnit "b" 1] ∧
      (found.merge table).registry.log = found.log ∧
      (found.merge table).registry.index.entries = [("b", []), ("a", [2, 3]), ("c", [])] ∧
      (found.merge table).delivery = some ⟨"x", found.index⟩ := by
  intro r table between found
  have hspared : ∀ c ∈ between, c.isReset = false ∧ ∀ e ∈ c.pairs, e.1 ∉ table.keys := by decide
  have habsorbs : found.Absorbs table :=
    (merge_again r table).2 between fun c hc => ⟨(hspared c hc).1, (hspared c hc).2⟩
  have hindex : found.index.entries = [("b", []), ("a", [2, 3]), ("c", [])] := by decide
  refine ⟨by decide, hspared, by decide, habsorbs.log, ?_, (habsorbs.delivered "x" rfl).1⟩
  rw [habsorbs.index, hindex]

end Registry

end Crossref
