import Mathlib.Data.List.Nodup
import Crossref.Index

/-!
# What many insertions leave

An index is determined by the order of its units and by their lists
(`Index.eq_of_keys_of_get?`). Inserting pairs one after the other keeps the
first place of each unit (`Index.keys_ofList`) and its last list
(`Index.get?_ofList`); what was there before counts as inserted earlier. A whole
table, in which no unit stands twice, replaces lists in place and adds its other
units at the end (`Index.get?_insertAll_entries`, `Index.keys_insertAll_entries`).
-/

namespace Crossref

/-! ## Looking up a key -/

section

variable {β : Type} {es : List (String × β)}

theorem not_mem_keys_iff {key : String} :
    key ∉ es.map Prod.fst ↔ ∀ e ∈ es, (key != e.1) = true := by
  constructor
  · intro h e he
    exact bne_iff_ne.mpr fun heq => h (heq ▸ List.mem_map_of_mem he)
  · intro h hkey
    obtain ⟨e, he, rfl⟩ := List.mem_map.mp hkey
    exact absurd rfl (bne_iff_ne.mp (h e he))

theorem lookup_eq_none_iff_not_mem {key : String} :
    es.lookup key = none ↔ key ∉ es.map Prod.fst :=
  List.lookup_eq_none_iff.trans not_mem_keys_iff.symm

/-- As no key stands twice, the look-up of a key finds each entry. -/
theorem mem_iff_lookup_eq_some (h : (es.map Prod.fst).Nodup) {e : String × β} :
    e ∈ es ↔ es.lookup e.1 = some e.2 := by
  constructor
  · intro he
    induction es with
    | nil => cases he
    | cons f es ih =>
        rw [List.map_cons, List.nodup_cons] at h
        rcases List.mem_cons.mp he with rfl | htail
        · exact List.lookup_cons_self
        · have hne : (e.1 == f.1) = false :=
            beq_false_of_ne fun heq => h.1 (heq ▸ List.mem_map.mpr ⟨e, htail, rfl⟩)
          rw [List.lookup_cons, hne]
          exact ih h.2 htail
  · intro hlookup
    obtain ⟨before, behind, hes, -⟩ := List.lookup_eq_some_iff.mp hlookup
    rw [hes]
    exact List.mem_append_right before List.mem_cons_self

end

namespace Index

variable {α : Type}

/-! ## Indexes with equal views -/

theorem eraseDups_of_nodup {l : List String} (h : l.Nodup) : l.eraseDups = l := by
  induction l with
  | nil => rfl
  | cons k ks ih =>
      rw [List.nodup_cons] at h
      have hk : ks.filter (fun x => !x == k) = ks := by
        refine List.filter_eq_self.mpr fun x hx => ?_
        have hne : x ≠ k := fun he => h.1 (he ▸ hx)
        simpa using hne
      rw [List.eraseDups_cons, hk, ih h.2]

/-- Entries are told from their keys and the look-ups, as no key stands twice. -/
theorem entries_eq_map_keys {es : List (String × List α)}
    (h : (es.map Prod.fst).Nodup) :
    es = (es.map Prod.fst).map fun k => (k, (es.lookup k).getD []) := by
  induction es with
  | nil => rfl
  | cons e es ih =>
      obtain ⟨key, list⟩ := e
      rw [List.map_cons, List.nodup_cons] at h
      obtain ⟨hkey, hes⟩ := h
      have htail : (es.map Prod.fst).map (fun k => (k, (((key, list) :: es).lookup k).getD []))
          = (es.map Prod.fst).map fun k => (k, (es.lookup k).getD []) := by
        refine List.map_congr_left fun k hk => ?_
        have hne : (k == key) = false := beq_false_of_ne fun he => hkey (he ▸ hk)
        rw [List.lookup_cons, hne]
      rw [List.map_cons, List.map_cons, htail, ← ih hes, List.lookup_cons_self, Option.getD_some]

theorem eq_of_keys_of_get? {i j : Index α} (hkeys : i.keys = j.keys)
    (hget : ∀ k, i.get? k = j.get? k) : i = j := by
  obtain ⟨es, hes⟩ := i
  obtain ⟨fs, hfs⟩ := j
  have hsame : es = fs := by
    rw [entries_eq_map_keys hes, entries_eq_map_keys hfs]
    rw [show es.map Prod.fst = fs.map Prod.fst from hkeys]
    refine List.map_congr_left fun k _ => ?_
    rw [show es.lookup k = fs.lookup k from hget k]
  subst hsame
  rfl

/-- As no unit stands twice, it does not matter from which end one looks. -/
theorem lookup_reverse {es : List (String × List α)} (h : (es.map Prod.fst).Nodup) (k : String) :
    es.reverse.lookup k = es.lookup k := by
  induction es with
  | nil => rfl
  | cons e es ih =>
      obtain ⟨key, list⟩ := e
      rw [List.map_cons, List.nodup_cons] at h
      rw [List.reverse_cons, List.lookup_append, ih h.2]
      by_cases hk : k = key
      · have hnone : es.lookup k = none := lookup_eq_none_iff_not_mem.mpr (hk ▸ h.1)
        rw [hnone, hk, List.lookup_cons_self, List.lookup_cons_self]
        rfl
      · have hbeq : (k == key) = false := beq_false_of_ne hk
        simp [List.lookup_cons, hbeq]

/-! ## Indexes with equal look-ups -/

theorem contains_iff {i : Index α} {k : String} : i.contains k = true ↔ k ∈ i.keys := by
  rw [contains, get?, List.lookup_isSome_iff, keys, List.mem_map]
  exact exists_congr fun e => and_congr_right fun _ => beq_iff_eq.trans eq_comm

theorem mem_entries_iff {i : Index α} {e : String × List α} :
    e ∈ i.entries ↔ i.get? e.1 = some e.2 :=
  mem_iff_lookup_eq_some i.distinct

theorem get?_of_mem {i : Index α} {e : String × List α} (h : e ∈ i.entries) :
    i.get? e.1 = some e.2 :=
  mem_entries_iff.mp h

/-- Indexes with equal look-ups differ in the order of their units at most. -/
theorem perm_of_get? {i j : Index α} (h : ∀ k, i.get? k = j.get? k) :
    i.entries.Perm j.entries := by
  have hi : i.entries.Nodup := List.Nodup.of_map _ i.distinct
  have hj : j.entries.Nodup := List.Nodup.of_map _ j.distinct
  refine (List.perm_ext_iff_of_nodup hi hj).mpr fun e => ?_
  rw [mem_entries_iff, mem_entries_iff, h]

/-! ## Many insertions -/

theorem insertAll_append (i : Index α) (ps qs : List (String × List α)) :
    i.insertAll (ps ++ qs) = (i.insertAll ps).insertAll qs :=
  List.foldl_append

/-- The last list for a unit wins over the earlier ones and over what was there. -/
theorem get?_insertAll (i : Index α) (ps : List (String × List α)) (k : String) :
    (i.insertAll ps).get? k = (ps.reverse.lookup k).or (i.get? k) := by
  induction ps generalizing i with
  | nil => rfl
  | cons p ps ih =>
      obtain ⟨key, list⟩ := p
      have hcons : i.insertAll ((key, list) :: ps) = (i.insert key list).insertAll ps := rfl
      rw [hcons, ih, get?_insert, List.reverse_cons, List.lookup_append, Option.or_assoc]
      by_cases hk : key = k
      · subst hk
        simp
      · have hne : (k == key) = false := beq_false_of_ne (Ne.symm hk)
        simp [List.lookup_cons, hk, hne]

/-- Each unit keeps the place of its first appearance. -/
theorem keys_insertAll (i : Index α) (ps : List (String × List α)) :
    (i.insertAll ps).keys = (i.keys ++ ps.map Prod.fst).eraseDups := by
  induction ps generalizing i with
  | nil =>
      rw [List.map_nil, List.append_nil]
      exact (eraseDups_of_nodup i.distinct).symm
  | cons p ps ih =>
      obtain ⟨key, list⟩ := p
      have hcons : i.insertAll ((key, list) :: ps) = (i.insert key list).insertAll ps := rfl
      rw [hcons, ih, keys_insert, List.map_cons]
      split
      · rename_i hk
        have hcontains : i.keys.contains key = true := List.contains_iff_mem.mpr hk
        rw [List.eraseDups_append, List.eraseDups_append, List.cons_removeAll, hcontains]
        rfl
      · rw [List.append_assoc]
        rfl

theorem keys_ofList (ps : List (String × List α)) :
    (ofList ps).keys = (ps.map Prod.fst).eraseDups :=
  keys_insertAll empty ps

theorem get?_ofList (ps : List (String × List α)) (k : String) :
    (ofList ps).get? k = ps.reverse.lookup k := by
  rw [ofList, get?_insertAll]
  exact Option.or_none

/-! ## Merging a table -/

/-- The list of a table wins over what was there. -/
theorem get?_insertAll_entries (i table : Index α) (k : String) :
    (i.insertAll table.entries).get? k = (table.get? k).or (i.get? k) := by
  rw [get?_insertAll, lookup_reverse table.distinct]
  rfl

/-- The units that a table brings in come behind those that were there, in its order. -/
theorem keys_insertAll_entries (i table : Index α) :
    (i.insertAll table.entries).keys = i.keys ++ table.keys.filter fun k => !i.contains k := by
  have hnew : table.keys.removeAll i.keys = table.keys.filter fun k => !i.contains k := by
    refine List.filter_congr fun k _ => ?_
    rw [Bool.eq_iff_iff]
    simp [← contains_iff]
  have hold : i.keys.Nodup := i.distinct
  have hmerged : table.keys.Nodup := table.distinct
  rw [keys_insertAll, List.eraseDups_append, eraseDups_of_nodup hold]
  change i.keys ++ (table.keys.removeAll i.keys).eraseDups = _
  rw [hnew, eraseDups_of_nodup (hmerged.filter _)]

theorem size_eq_length_keys (i : Index α) : i.size = i.keys.length :=
  (List.length_map _).symm

/-- Inserting a list changes the count by its length and that of the list it replaces. -/
theorem descriptorCount_insert (i : Index α) (key : String) (list : List α) :
    (i.insert key list).descriptorCount + ((i.get? key).map List.length).getD 0 =
      i.descriptorCount + list.length := by
  obtain ⟨es, hes⟩ := i
  change ((put key list es).flatMap Prod.snd).length + ((es.lookup key).map List.length).getD 0 =
    (es.flatMap Prod.snd).length + list.length
  clear hes
  induction es with
  | nil => simp [put]
  | cons e es ih =>
      obtain ⟨k, l⟩ := e
      by_cases hk : k = key
      · subst hk
        simp [put]
        omega
      · have hne : (key == k) = false := beq_false_of_ne (Ne.symm hk)
        simp only [put, if_neg hk, List.lookup_cons, hne, List.flatMap_cons, List.length_append]
        omega

/-- Inserting leaves every other unit where it is. -/
theorem getElem?_entries_insert {i : Index α} {n : Nat} {k key : String} {l : List α}
    (h : i.entries[n]? = some (k, l)) (hk : k ≠ key) (list : List α) :
    (i.insert key list).entries[n]? = some (k, l) := by
  obtain ⟨es, hes⟩ := i
  change (put key list es)[n]? = some (k, l)
  replace h : es[n]? = some (k, l) := h
  clear hes
  induction es generalizing n with
  | nil => cases h
  | cons e es ih =>
      rw [put]
      cases n with
      | zero =>
          obtain rfl : e = (k, l) := Option.some.inj h
          rw [if_neg hk]
          rfl
      | succ n =>
          split
          · exact h
          · exact ih h

theorem getElem?_entries_insertAll {i : Index α} {n : Nat} {k : String} {l : List α}
    (h : i.entries[n]? = some (k, l)) {ps : List (String × List α)} (hk : k ∉ ps.map Prod.fst) :
    (i.insertAll ps).entries[n]? = some (k, l) := by
  induction ps generalizing i with
  | nil => exact h
  | cons p ps ih =>
      rw [List.map_cons, List.mem_cons, not_or] at hk
      exact ih (getElem?_entries_insert h hk.1 p.2) hk.2

end Index

end Crossref
