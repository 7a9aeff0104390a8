import Crossref.Proofs.Catalog.Isolation
import Crossref.Proofs.Registry.Accumulation

/-!
# Which traits a unit implements

What a unit lists for a trait is decided by one merge: the latest one that names
the unit among the merges into the trait since its last reset
(`Registry.get?_collected_iff`). The catalog is asked the other way round, for all
traits for which a unit lists something. As the registries of other traits have
no part in this (`Catalog.getOrNew_run`), each trait is in the answer or not by
its own calls (`implementedBy_run`).
-/

namespace Crossref

variable {α : Type}

/-! ## The latest list of a unit -/

/-- The last of the pairs for the unit has this list. -/
def LastPair (unit : String) (list : List α) (pairs : List (String × List α)) : Prop :=
  ∃ before after, pairs = before ++ (unit, list) :: after ∧ unit ∉ after.map Prod.fst

theorem lookup_reverse_iff {unit : String} {list : List α} {pairs : List (String × List α)} :
    pairs.reverse.lookup unit = some list ↔ LastPair unit list pairs := by
  rw [List.lookup_eq_some_iff]
  constructor
  · rintro ⟨after, before, hpairs, hafter⟩
    refine ⟨before.reverse, after.reverse, ?_, ?_⟩
    · rw [← List.reverse_reverse pairs, hpairs]
      simp
    · exact not_mem_keys_iff.mpr fun p hp => hafter p (List.mem_reverse.mp hp)
  · rintro ⟨before, after, rfl, hafter⟩
    exact ⟨after.reverse, before.reverse, by simp,
      fun p hp => not_mem_keys_iff.mp hafter p (List.mem_reverse.mp hp)⟩

theorem lookup_reverse_eq_none_iff {unit : String} {pairs : List (String × List α)} :
    pairs.reverse.lookup unit = none ↔ unit ∉ pairs.map Prod.fst := by
  rw [lookup_eq_none_iff_not_mem, List.map_reverse, List.mem_reverse]

namespace Call

/-- The call is no reset, and merges no list for the unit. -/
structure Spares (unit : String) (c : Call α) : Prop where
  isReset : c.isReset = false
  pairs : unit ∉ c.pairs.map Prod.fst

/-- Among the calls on a registry, the latest merge since the last reset that
names the unit gives it this list. -/
def Latest (unit : String) (list : List α) (calls : List (Call α)) : Prop :=
  ∃ before pairs after, calls = before ++ .merge pairs :: after ∧ LastPair unit list pairs ∧
    ∀ c ∈ after, c.Spares unit

/-- A call settles the list of the unit, or leaves it as it was. -/
theorem latest_concat {unit : String} {list : List α} {calls : List (Call α)} {c : Call α} :
    Latest unit list (calls ++ [c]) ↔
      (∃ pairs, c = .merge pairs ∧ LastPair unit list pairs) ∨
        c.Spares unit ∧ Latest unit list calls := by
  constructor
  · rintro ⟨before, pairs, after, hcalls, hlast, hspared⟩
    rcases List.eq_nil_or_concat' after with rfl | ⟨after, d, rfl⟩
    · obtain ⟨-, hc⟩ := List.append_inj' hcalls rfl
      exact .inl ⟨pairs, List.head_eq_of_cons_eq hc, hlast⟩
    · rw [← List.cons_append, ← List.append_assoc] at hcalls
      obtain ⟨rfl, hc⟩ := List.append_inj' hcalls rfl
      obtain rfl := List.head_eq_of_cons_eq hc
      exact .inr ⟨hspared c (by simp), before, pairs, after, rfl, hlast,
        fun x hx => hspared x (List.mem_append_left _ hx)⟩
  · rintro (⟨pairs, rfl, hlast⟩ | ⟨hc, before, pairs, after, rfl, hlast, hspared⟩)
    · exact ⟨calls, pairs, [], rfl, hlast, by simp⟩
    · refine ⟨before, pairs, after ++ [c], by simp, hlast, fun x hx => ?_⟩
      rcases List.mem_append.mp hx with hx | hx
      · exact hspared x hx
      · rw [List.mem_singleton.mp hx]
        exact hc

theorem eq_merge_of_lastPair {unit : String} {list : List α} {c : Call α}
    (h : LastPair unit list c.pairs) : ∃ pairs, c = .merge pairs ∧ LastPair unit list pairs := by
  obtain ⟨before, after, hpairs, -⟩ := id h
  cases c with
  | merge pairs => exact ⟨pairs, rfl, h⟩
  | attach consumer => simp [pairs] at hpairs
  | detach => simp [pairs] at hpairs
  | reset => simp [pairs] at hpairs
  | drainLog => simp [pairs] at hpairs

end Call

/-- A registry lists for a unit what the latest merge that names it gave it. -/
theorem Registry.get?_collected_iff (settings : RegistrySettings) (label : String)
    {calls : List (Call α)} {unit : String} {list : List α} :
    (collected settings label calls).get? unit = some list ↔ Call.Latest unit list calls := by
  induction calls using List.reverseRecOn with
  | nil =>
      refine ⟨fun h => (nomatch h), ?_⟩
      rintro ⟨before, pairs, after, hcalls, -⟩
      simp at hcalls
  | append_singleton calls c ih =>
      rw [collected_concat, Call.latest_concat]
      cases hreset : c.isReset with
      | true =>
          refine ⟨fun h => (nomatch h), ?_⟩
          rintro (⟨pairs, rfl, -⟩ | ⟨hspares, -⟩)
          · cases hreset
          · exact nomatch hreset.symm.trans hspares.isReset
      | false =>
          rw [if_neg Bool.false_ne_true, Index.get?_insertAll, Option.or_eq_some_iff,
            lookup_reverse_iff, lookup_reverse_eq_none_iff, ih]
          refine or_congr ⟨Call.eq_merge_of_lastPair, ?_⟩
            (and_congr_left fun _ => ⟨fun h => ⟨hreset, h⟩, fun h => h.pairs⟩)
          rintro ⟨pairs, rfl, hlast⟩
          exact hlast

/-! ## The answer of a catalog -/

namespace Catalog

/-- A call on the registry of a trait, with the pairs that the table of a merge is
collected from. -/
structure TraitCall (α : Type) where
  trait : String
  call : Crossref.Call α

def TraitCall.toCall (c : TraitCall α) : Call α := ⟨c.trait, c.call.command⟩

/-- The calls on a trait, in their order. -/
def callsOn (name : String) (calls : List (TraitCall α)) : List (Crossref.Call α) :=
  (calls.filter fun c => c.trait = name).map (·.call)

theorem commandsOn_map_toCall (name : String) (calls : List (TraitCall α)) :
    commandsOn name (calls.map TraitCall.toCall) =
      (callsOn name calls).map Crossref.Call.command := by
  unfold commandsOn callsOn
  rw [List.filter_map, List.map_map, List.map_map]
  rfl

theorem nodup_of_increasing {names : List String} (h : names.Pairwise (· < ·)) : names.Nodup :=
  h.imp fun {a b} (hlt : a < b) (heq : a = b) => String.lt_irrefl b (heq ▸ hlt)

theorem mem_registries_iff {c : Catalog α} {e : String × Registry α} :
    e ∈ c.registries ↔ c.get? e.1 = some e.2 :=
  mem_iff_lookup_eq_some (nodup_of_increasing c.increasing)

/-- A trait without a registry lists nothing, as a new registry would. -/
theorem mem_implementedBy_iff {c : Catalog α} {unit name : String} :
    name ∈ c.implementedBy unit ↔
      ∃ list, list ≠ [] ∧ (c.getOrNew name).index.get? unit = some list := by
  have hlisted : ∀ r : Registry α, (r.index.get? unit).any (fun list => !list.isEmpty) = true ↔
      ∃ list, list ≠ [] ∧ r.index.get? unit = some list := by
    intro r
    cases r.index.get? unit <;> simp
  rw [implementedBy, List.mem_map]
  constructor
  · rintro ⟨e, he, rfl⟩
    obtain ⟨hmem, hany⟩ := List.mem_filter.mp he
    rw [getOrNew_of_get? (mem_registries_iff.mp hmem)]
    exact (hlisted e.2).mp hany
  · intro h
    cases hget : c.get? name with
    | none =>
        obtain ⟨list, -, hlist⟩ := h
        rw [getOrNew_of_none hget] at hlist
        cases hlist
    | some r =>
        rw [getOrNew_of_get? hget] at h
        exact ⟨(name, r), List.mem_filter.mpr ⟨mem_registries_iff.mpr hget, (hlisted r).mpr h⟩, rfl⟩

/-- The answer keeps the order of the registries. -/
theorem increasing_implementedBy (c : Catalog α) (unit : String) :
    (c.implementedBy unit).Pairwise (· < ·) :=
  c.increasing.sublist (List.filter_sublist.map Prod.fst)

/-- The traits that a unit implements, after any calls on a catalog: those for
which the latest merge that names the unit, since the last reset of the trait,
gave it a list that is not empty. They are listed by their bytes, in increasing
order and once each. -/
theorem implementedBy_run (settings : RegistrySettings) (calls : List (TraitCall α))
    (unit : String) :
    let c := ((fresh settings).run (calls.map TraitCall.toCall)).1
    (c.implementedBy unit).Pairwise (fun a b =>
        List.Lex (· < ·) (Text.encodeUtf8 a) (Text.encodeUtf8 b)) ∧
      (c.implementedBy unit).Nodup ∧
      ∀ name, name ∈ c.implementedBy unit ↔
        ∃ list, list ≠ [] ∧ Crossref.Call.Latest unit list (callsOn name calls) := by
  intro c
  have hincreasing := increasing_implementedBy c unit
  refine ⟨hincreasing.imp Text.lex_encodeUtf8, nodup_of_increasing hincreasing, fun name => ?_⟩
  have hindex : (c.getOrNew name).index =
      Registry.collected settings name (callsOn name calls) := by
    rw [getOrNew_run, commandsOn_map_toCall]
    rfl
  rw [mem_implementedBy_iff, hindex]
  exact exists_congr fun list =>
    and_congr_right fun _ => Registry.get?_collected_iff settings name

/-- A later empty list takes a trait out, and a reset takes out its own trait alone. -/
example :
    let calls : List (TraitCall Nat) :=
      [⟨"Shr", .merge [("a", [1]), ("b", [2])]⟩, ⟨"Shl", .merge [("a", []), ("a", [1])]⟩,
        ⟨"Shr", .merge [("a", [3]), ("a", [])]⟩, ⟨"Read", .merge [("a", [4])]⟩, ⟨"Read", .reset⟩,
        ⟨"Add", .merge [("a", [5])]⟩]
    (((fresh {}).run (calls.map TraitCall.toCall)).1).implementedBy "a" = ["Add", "Shl"] := by
  decide

end Catalog

end Crossref
