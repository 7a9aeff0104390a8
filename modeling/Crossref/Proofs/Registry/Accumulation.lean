import Crossref.Proofs.Registry.History

/-!
# What merging accumulates

A table is collected from pairs of a unit and its list, in which units may
repeat, and a registry merges one table after the other. How the pairs were cut
into tables leaves no trace, since collecting them before they are merged
changes nothing (`Index.insertAll_ofList`). So a run leaves what the pairs since
the last reset make, in their order (`Registry.collected_eq_ofList`): the first pair
of a unit decides its place and the last one its list.
-/

namespace Crossref

variable {α : Type}

/-! ## Collecting before merging -/

namespace Index

/-- An index is collected from its own entries. -/
theorem ofList_entries (i : Index α) : ofList i.entries = i := by
  refine eq_of_keys_of_get? ?_ fun k => ?_
  · rw [keys_ofList]
    exact eraseDups_of_nodup i.distinct
  · rw [get?_ofList]
    exact lookup_reverse i.distinct k

/-- One more pair in the collected table is one more insertion behind it. -/
theorem insertAll_put (i : Index α) {es : List (String × List α)}
    (h : (es.map Prod.fst).Nodup) (key : String) (list : List α) :
    i.insertAll (put key list es) = (i.insertAll es).insert key list := by
  refine eq_of_keys_of_get? ?_ fun k => ?_
  · rw [keys_insert, keys_insertAll, keys_insertAll, keys_put]
    by_cases hold : key ∈ es.map Prod.fst
    · have hmem : key ∈ (i.keys ++ es.map Prod.fst).eraseDups :=
        List.mem_eraseDups.mpr (List.mem_append_right i.keys hold)
      rw [if_pos hold, if_pos hmem]
    · rw [if_neg hold, ← List.append_assoc, List.eraseDups_append]
      by_cases hmem : key ∈ i.keys ++ es.map Prod.fst
      · simp [List.removeAll, hmem]
      · have hkey : [key].eraseDups = [key] := rfl
        simp [List.removeAll, hmem, hkey]
  · rw [get?_insert, get?_insertAll, get?_insertAll, lookup_reverse h,
      lookup_reverse (nodup_put h), lookup_put]
    split <;> rfl

/-- Collecting pairs into a table before they are merged changes nothing. -/
theorem insertAll_ofList (i : Index α) (pairs : List (String × List α)) :
    i.insertAll (ofList pairs).entries = i.insertAll pairs := by
  induction pairs using List.reverseRecOn with
  | nil => rfl
  | append_singleton ps p ih =>
      have hlast : (ofList (ps ++ [p])).entries = put p.1 p.2 (ofList ps).entries := by
        rw [ofList, insertAll_append]
        rfl
      rw [hlast, insertAll_put i (ofList ps).distinct, ih, insertAll_append]
      rfl

end Index

/-! ## Calls with the pairs of their tables -/

/-- A call on a registry. The table of a merge is given by the pairs that it is
collected from, in which units may repeat. -/
inductive Call (α : Type) where
  | merge (pairs : List (String × List α))
  | attach (consumer : String)
  | detach
  | reset
  | drainLog

namespace Call

def command : Call α → Command α
  | merge pairs => .merge (.ofList pairs)
  | attach consumer => .attach consumer
  | detach => .detach
  | reset => .reset
  | drainLog => .drainLog

def isReset : Call α → Bool
  | reset => true
  | _ => false

def pairs : Call α → List (String × List α)
  | merge pairs => pairs
  | _ => []

/-- All pairs of the merges since the last reset, in their order. -/
def pairsSinceReset (calls : List (Call α)) : List (String × List α) :=
  (calls.rtakeWhile fun c => !c.isReset).flatMap pairs

theorem pairsSinceReset_concat (calls : List (Call α)) (c : Call α) :
    pairsSinceReset (calls ++ [c]) =
      if c.isReset then [] else pairsSinceReset calls ++ c.pairs := by
  unfold pairsSinceReset
  rw [List.rtakeWhile_concat]
  cases c.isReset <;> simp

theorem pairsSinceReset_append (calls : List (Call α)) {more : List (Call α)}
    (h : ∀ c ∈ more, c.isReset = false) :
    pairsSinceReset (calls ++ more) = pairsSinceReset calls ++ more.flatMap pairs := by
  induction more using List.reverseRecOn with
  | nil => simp
  | append_singleton more c ih =>
      have hc : c.isReset = false := h c (by simp)
      have hmore : ∀ d ∈ more, d.isReset = false := fun d hd => h d (List.mem_append_left [c] hd)
      rw [← List.append_assoc, pairsSinceReset_concat, hc, ih hmore]
      simp

theorem indexAfter_command (i : Index α) (c : Call α) :
    c.command.indexAfter i = if c.isReset then ∅ else i.insertAll c.pairs := by
  cases c with
  | merge pairs => exact i.insertAll_ofList pairs
  | attach consumer => rfl
  | detach => rfl
  | reset => rfl
  | drainLog => rfl

end Call

/-! ## Runs -/

namespace Registry

/-- The index that calls leave on a fresh registry. -/
def collected (settings : RegistrySettings) (label : String) (calls : List (Call α)) : Index α :=
  ((fresh settings label).run (calls.map Call.command)).1.index

theorem collected_concat (settings : RegistrySettings) (label : String) (calls : List (Call α))
    (c : Call α) :
    collected settings label (calls ++ [c]) =
      if c.isReset then ∅ else (collected settings label calls).insertAll c.pairs := by
  unfold collected
  rw [List.map_append, List.map_singleton, run_concat, index_step, Call.indexAfter_command]

/-- Nothing but the pairs since the last reset decides the index. -/
theorem collected_eq_ofList (settings : RegistrySettings) (label : String) (calls : List (Call α)) :
    collected settings label calls = .ofList (Call.pairsSinceReset calls) := by
  induction calls using List.reverseRecOn with
  | nil => rfl
  | append_singleton calls c ih =>
      rw [collected_concat, Call.pairsSinceReset_concat, ih]
      split
      · rfl
      · rw [Index.ofList, Index.ofList, Index.insertAll_append]

/-- The merged index of any run. Its units stand in the order of their first
pairs since the last reset, each once and with the list of its last pair. Only
merges and resets move it, units never lose their place without a reset, and any
other run on the same pairs leaves the same index, as collecting all of them at
once does. -/
theorem merged_since_reset (settings : RegistrySettings) (label : String)
    (calls : List (Call α)) :
    let index := collected settings label calls
    let pairs := Call.pairsSinceReset calls
    index.keys = (pairs.map Prod.fst).eraseDups ∧
      (∀ unit, index.get? unit = pairs.reverse.lookup unit) ∧
      index.keys.Nodup ∧
      (∀ consumer, ∀ c ∈ [.attach consumer, .detach, .drainLog],
        collected settings label (calls ++ [c]) = index) ∧
      (∀ more, (∀ c ∈ more, c.isReset = false) →
        index.keys <+: (collected settings label (calls ++ more)).keys) ∧
      (∀ settings' label' others, Call.pairsSinceReset others = pairs →
        collected settings' label' others = index) ∧
      index = .ofList pairs := by
  intro index pairs
  have hindex : index = .ofList pairs := collected_eq_ofList settings label calls
  refine ⟨?_, ?_, index.distinct, ?_, ?_, ?_, hindex⟩
  · rw [hindex, Index.keys_ofList]
  · intro unit
    rw [hindex, Index.get?_ofList]
  · intro consumer c hc
    rw [collected_concat]
    simp only [List.mem_cons, List.not_mem_nil, or_false] at hc
    rcases hc with rfl | rfl | rfl <;> rfl
  · intro more hmore
    rw [hindex, collected_eq_ofList, Call.pairsSinceReset_append calls hmore, Index.keys_ofList,
      Index.keys_ofList, List.map_append, List.eraseDups_append]
    exact List.prefix_append _ _
  · intro settings' label' others hothers
    rw [hindex, collected_eq_ofList, hothers]

/-- A unit that repeats within a table and across tables, a longer run, and the
same pairs in one table behind a reset. -/
theorem merged_since_reset_regrouped :
    let calls : List (Call Nat) :=
      [.merge [("b", [1]), ("a", [2]), ("b", [])], .attach "x", .merge [("a", [3])]]
    let others : List (Call Nat) :=
      [.merge [("c", [4])], .reset, .merge [("b", [1]), ("a", [2]), ("b", []), ("a", [3])]]
    let more : List (Call Nat) := [.detach, .merge [("c", [])]]
    (∀ c ∈ more, c.isReset = false) ∧ Call.pairsSinceReset others = Call.pairsSinceReset calls ∧
      (collected {} "t" calls).entries = [("b", []), ("a", [3])] ∧
      (collected {} "t" calls).keys <+: (collected {} "t" (calls ++ more)).keys ∧
      collected {} "u" others = collected {} "t" calls := by
  intro calls others more
  obtain ⟨-, -, -, -, hgrows, hsame, -⟩ := merged_since_reset {} "t" calls
  have hmore : ∀ c ∈ more, c.isReset = false := by decide
  have hpairs : Call.pairsSinceReset others = Call.pairsSinceReset calls := by decide
  exact ⟨hmore, hpairs, by decide, hgrows more hmore, hsame {} "u" others hpairs⟩

end Registry

end Crossref
