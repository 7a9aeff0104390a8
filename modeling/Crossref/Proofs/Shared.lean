import Crossref.Shared
import Crossref.Proofs.Registry.Delivery

/-!
# Merges of many clients

Clients that share a registry merge their tables in any interleaving, as long as
each keeps its own order (`Interleaves`). Calls are whole, so an interleaving is
a run of the registry, and while one consumer stays attached each merge delivers
all that was merged by then (`Registry.deliveries_turns`).

What becomes of a unit is decided by the last turn that names it
(`holds_indexOf`). Interleavings that order the turns of each unit alike
therefore end alike but for the order of the units: the turns that name a unit
are the same in both, and stand in the same order (`filter_names_eq`). This is
so without further ado if no unit is merged by two clients
(`SameOrder.of_apart`).
-/

namespace Crossref

variable {α : Type}

/-! ## Handles -/

namespace Shared

/-- A registry on which `n` clients have a handle each, besides the first one. -/
def among (r : Registry α) : Nat → Shared α
  | 0 => { registry := r }
  | n + 1 => (among r n).clone.1

theorem among_eq (r : Registry α) (n : Nat) : among r n = { registry := r, handles := n + 1 } := by
  induction n with
  | zero => rfl
  | succ n ih => rw [among, ih]; rfl

/-- Calls through handles are calls on the one registry. -/
theorem run?_eq {s : Shared α} {calls : List (Nat × Command α)}
    (h : ∀ c ∈ calls, c.1 < s.handles) :
    s.run? calls =
      some ({ s with registry := (s.registry.run (calls.map Prod.snd)).1 },
        (s.registry.run (calls.map Prod.snd)).2) := by
  induction calls generalizing s with
  | nil => rfl
  | cons c calls ih =>
      obtain ⟨hc, hcalls⟩ := List.forall_mem_cons.mp h
      let next : Shared α := { s with registry := (s.registry.step c.2).registry }
      have hnext : ∀ c ∈ calls, c.1 < next.handles := hcalls
      rw [run?, call?, if_pos hc]
      change (next.run? calls).bind _ = _
      rw [ih hnext]
      rfl

end Shared

/-! ## Interleavings -/

/-- One merge of a client: the client, which of its merges it is, and the table. -/
structure Turn (α : Type) where
  client : Nat
  number : Nat
  table : Index α
deriving DecidableEq

namespace Turn

def Names (unit : String) (t : Turn α) : Prop := unit ∈ t.table.keys

instance (unit : String) : DecidablePred (Names unit : Turn α → Prop) := fun t =>
  inferInstanceAs (Decidable (unit ∈ t.table.keys))

/-- The call of a turn, through the handle of its client. -/
def call (t : Turn α) : Nat × Command α := (t.client + 1, .merge t.table)

theorem names_of_sublist {unit : String} {turns : List (Turn α)} {a b : Turn α}
    (h : [a, b].Sublist (turns.filter (Names unit ·))) : Names unit a ∧ Names unit b := by
  have hnames : ∀ t ∈ [a, b], Names unit t := fun t ht => by
    simpa using (List.mem_filter.mp (h.mem ht)).2
  exact ⟨hnames a (by simp), hnames b (by simp)⟩

end Turn

/-- The turns of a client, in its order. -/
def turnsOf (clients : List (List (Index α))) (client : Nat) : List (Turn α) :=
  (clients[client]?.getD []).zipIdx.map fun t => ⟨client, t.2, t.1⟩

/-- The turns of all clients, those of each client in its order. -/
def Interleaves (clients : List (List (Index α))) (turns : List (Turn α)) : Prop :=
  ∀ client, turns.filter (·.client == client) = turnsOf clients client

/-- Turns that name a common unit come in the same order. -/
def SameOrder (turns others : List (Turn α)) : Prop :=
  ∀ a b unit, Turn.Names unit a → Turn.Names unit b →
    ([a, b].Sublist turns ↔ [a, b].Sublist others)

/-- No unit is merged by two clients. -/
def Apart (clients : List (List (Index α))) : Prop :=
  ∀ i j unit, (∃ t ∈ turnsOf clients i, Turn.Names unit t) →
    (∃ t ∈ turnsOf clients j, Turn.Names unit t) → i = j

/-- The list that the last turn that names the unit merges for it. -/
def latest? (turns : List (Turn α)) (unit : String) : Option (List α) :=
  (turns.filter (Turn.Names unit ·)).getLast?.bind fun t => t.table.get? unit

theorem nodup_turnsOf (clients : List (List (Index α))) (client : Nat) :
    (turnsOf clients client).Nodup := by
  refine List.Nodup.of_map Turn.number ?_
  rw [turnsOf, List.map_map]
  change ((clients[client]?.getD []).zipIdx.map Prod.snd).Nodup
  rw [List.zipIdx_map_snd]
  exact List.nodup_range'

theorem lt_length_of_mem_turnsOf {clients : List (List (Index α))} {client : Nat} {t : Turn α}
    (h : t ∈ turnsOf clients client) : client < clients.length := by
  by_contra hout
  rw [turnsOf, List.getElem?_eq_none (Nat.le_of_not_lt hout)] at h
  cases h

/-- In a list without repetitions at most one of two elements comes first. -/
theorem eq_of_sublist_of_sublist {β : Type} {a b : β} {l : List β} (h : l.Nodup)
    (hab : [a, b].Sublist l) (hba : [b, a].Sublist l) : a = b := by
  induction l with
  | nil => cases hab
  | cons x l ih =>
      rw [List.nodup_cons] at h
      rcases List.cons_sublist_cons'.mp hab with htail | ⟨rfl, hb⟩
      · rcases List.cons_sublist_cons'.mp hba with htail' | ⟨rfl, ha⟩
        · exact ih h.2 htail htail'
        · exact absurd (htail.mem (by simp)) h.1
      · rcases List.cons_sublist_cons'.mp hba with htail' | ⟨hxb, -⟩
        · exact absurd (htail'.mem (by simp)) h.1
        · exact hxb.symm

namespace Interleaves

variable {clients : List (List (Index α))} {turns others : List (Turn α)}

theorem mem_iff (h : Interleaves clients turns) {t : Turn α} :
    t ∈ turns ↔ t ∈ turnsOf clients t.client := by
  rw [← h t.client, List.mem_filter]
  simp

theorem nodup (h : Interleaves clients turns) : turns.Nodup := by
  refine List.nodup_iff_sublist.mpr fun t htwice => ?_
  have hclient := htwice.filter (·.client == t.client)
  rw [h t.client] at hclient
  exact List.nodup_iff_sublist.mp (nodup_turnsOf clients t.client) t (by simpa using hclient)

theorem perm (h : Interleaves clients turns) (h' : Interleaves clients others) :
    turns.Perm others :=
  (List.perm_ext_iff_of_nodup h.nodup h'.nodup).mpr fun _ => h.mem_iff.trans h'.mem_iff.symm

theorem client_lt (h : Interleaves clients turns) {t : Turn α} (ht : t ∈ turns) :
    t.client < clients.length :=
  lt_length_of_mem_turnsOf (h.mem_iff.mp ht)

/-- Turns that name a common unit are turns of one client, so their order is that
client's own, if no unit is merged by two. -/
theorem sublist_of_apart (h : Interleaves clients turns) (h' : Interleaves clients others)
    (hapart : Apart clients) {a b : Turn α} {unit : String} (ha : Turn.Names unit a)
    (hb : Turn.Names unit b) (hab : [a, b].Sublist turns) : [a, b].Sublist others := by
  have hown : ∀ t ∈ [a, b], t ∈ turnsOf clients t.client := fun t ht =>
    h.mem_iff.mp (hab.mem ht)
  have hclient : a.client = b.client :=
    hapart _ _ unit ⟨a, hown a (by simp), ha⟩ ⟨b, hown b (by simp), hb⟩
  have hpart := hab.filter (·.client == b.client)
  rw [h b.client, ← h' b.client] at hpart
  have hboth : [a, b].Sublist (others.filter (·.client == b.client)) := by
    simpa [hclient] using hpart
  exact hboth.trans List.filter_sublist

/-- The turns that name a unit are told from their order. -/
theorem filter_names_eq (h : Interleaves clients turns) (h' : Interleaves clients others)
    (hsame : SameOrder turns others) (unit : String) :
    turns.filter (Turn.Names unit ·) = others.filter (Turn.Names unit ·) := by
  -- The same turns in both, in an order that both keep to: that of `turns`.
  refine List.Perm.eq_of_pairwise (fun a b _ _ => eq_of_sublist_of_sublist h.nodup) ?_ ?_
    ((h.perm h').filter _)
  · exact List.pairwise_iff_forall_sublist.mpr fun hab => hab.trans List.filter_sublist
  · refine List.pairwise_iff_forall_sublist.mpr fun {a b} hab => ?_
    obtain ⟨ha, hb⟩ := Turn.names_of_sublist hab
    exact (hsame a b unit ha hb).mpr (hab.trans List.filter_sublist)

end Interleaves

theorem SameOrder.of_apart {clients : List (List (Index α))} (hapart : Apart clients)
    {turns others : List (Turn α)} (h : Interleaves clients turns)
    (h' : Interleaves clients others) : SameOrder turns others :=
  fun _ _ _ ha hb => ⟨h.sublist_of_apart h' hapart ha hb, h'.sublist_of_apart h hapart ha hb⟩

/-! ## What turns leave -/

/-- The index lists the units that the turns name, each with the list of its last turn. -/
def Index.Holds (i : Index α) (turns : List (Turn α)) : Prop :=
  (∀ unit, unit ∈ i.keys ↔ ∃ t ∈ turns, Turn.Names unit t) ∧
    ∀ unit, i.get? unit = latest? turns unit

/-- The index that the tables of turns make. -/
def indexOf (turns : List (Turn α)) : Index α :=
  .ofList (turns.flatMap fun t => t.table.entries)

theorem latest?_concat (turns : List (Turn α)) (t : Turn α) (unit : String) :
    latest? (turns ++ [t]) unit = (t.table.get? unit).or (latest? turns unit) := by
  unfold latest?
  rw [List.filter_append]
  by_cases hnames : Turn.Names unit t
  · rw [List.filter_cons_of_pos (by simpa using hnames), List.filter_nil, List.getLast?_concat]
    have hsome : (t.table.get? unit).isSome = true := Index.contains_iff.mpr hnames
    rw [Option.or_of_isSome hsome]
    rfl
  · have hnone : t.table.get? unit = none := by
      rw [← Option.not_isSome_iff_eq_none]
      exact mt Index.contains_iff.mp hnames
    rw [List.filter_cons_of_neg (by simpa using hnames), List.filter_nil, List.append_nil, hnone]
    rfl

theorem get?_indexOf (turns : List (Turn α)) (unit : String) :
    (indexOf turns).get? unit = latest? turns unit := by
  induction turns using List.reverseRecOn with
  | nil => rfl
  | append_singleton turns t ih =>
      rw [latest?_concat, ← ih, indexOf, List.flatMap_append, List.flatMap_singleton, Index.ofList,
        Index.insertAll_append, Index.get?_insertAll_entries]
      rfl

theorem holds_indexOf (turns : List (Turn α)) : (indexOf turns).Holds turns := by
  refine ⟨fun unit => ?_, get?_indexOf turns⟩
  rw [indexOf, Index.keys_ofList, List.mem_eraseDups]
  simp only [List.mem_map, List.mem_flatMap, Turn.Names, Index.keys]
  constructor
  · rintro ⟨e, ⟨t, ht, he⟩, rfl⟩
    exact ⟨t, ht, e, he, rfl⟩
  · rintro ⟨t, ht, e, he, rfl⟩
    exact ⟨e, ⟨t, ht, he⟩, rfl⟩

/-- The index behind each of the turns. -/
def indexesAlong (turns : List (Turn α)) : List (Index α) :=
  (List.range turns.length).map fun n => indexOf (turns.take (n + 1))

theorem getElem?_indexesAlong {turns : List (Turn α)} {n : Nat} {i : Index α}
    (h : (indexesAlong turns)[n]? = some i) : i = indexOf (turns.take (n + 1)) := by
  obtain ⟨m, hm, rfl⟩ := Option.map_eq_some_iff.mp ((List.getElem?_map ..).symm.trans h)
  obtain ⟨-, rfl⟩ := List.getElem?_eq_some_iff.mp hm
  rw [List.getElem_range]

theorem indexesAlong_concat (turns : List (Turn α)) (t : Turn α) :
    indexesAlong (turns ++ [t]) = indexesAlong turns ++ [indexOf (turns ++ [t])] := by
  have hearlier : ∀ n ∈ List.range turns.length,
      indexOf ((turns ++ [t]).take (n + 1)) = indexOf (turns.take (n + 1)) := fun n hn => by
    rw [List.take_append_of_le_length (Nat.succ_le_of_lt (List.mem_range.mp hn))]
  rw [indexesAlong, List.length_append, List.length_singleton, List.range_succ, List.map_append,
    List.map_congr_left hearlier, List.map_singleton, List.take_of_length_le (by simp)]
  rfl

theorem getLast?_indexesAlong {turns : List (Turn α)} {i : Index α}
    (h : (indexesAlong turns).getLast? = some i) : i = indexOf turns := by
  rcases List.eq_nil_or_concat turns with rfl | ⟨turns, t, rfl⟩
  · cases h
  · rw [List.concat_eq_append, indexesAlong_concat, List.getLast?_concat] at h
    rw [List.concat_eq_append]
    exact (Option.some.inj h).symm

/-- What the turns merge is merged by calls that end no tenure. -/
theorem stays_merges (turns : List (Turn α)) :
    ∀ c ∈ turns.map fun t => Command.merge t.table, c.endsTenure = false := by
  intro c hc
  obtain ⟨t, -, rfl⟩ := List.mem_map.mp hc
  rfl

theorem pairs_merges (turns : List (Turn α)) :
    (turns.map fun t => Command.merge t.table).flatMap Command.pairs =
      turns.flatMap fun t => t.table.entries :=
  List.flatMap_map ..

namespace Registry

/-- While one consumer stays attached, each turn delivers what was merged by then. -/
theorem deliveries_turns {r : Registry α} {consumer : String}
    (hslot : r.slot = .attached consumer) (hindex : r.index = ∅) (turns : List (Turn α)) :
    (r.run (turns.map fun t => .merge t.table)).2.map (·.delivery) =
      (indexesAlong turns).map fun i => some ⟨consumer, i⟩ := by
  induction turns using List.reverseRecOn with
  | nil => rfl
  | append_singleton turns t ih =>
      obtain ⟨hslot', hindex'⟩ := run_of_stays hslot _ (stays_merges turns)
      have hlast : (r.run (turns.map fun t => .merge t.table)).1.index.insertAll t.table.entries =
          indexOf (turns ++ [t]) := by
        rw [hindex', hindex, pairs_merges, indexOf, List.flatMap_append, List.flatMap_singleton,
          Index.ofList, Index.insertAll_append]
        rfl
      rw [List.map_append, List.map_singleton, events_concat, List.map_append, ih,
        indexesAlong_concat, List.map_append, List.map_singleton, List.map_singleton, eventOf,
        delivery_step, hslot', ← hlast]
      rfl

end Registry

/-! ## Many clients -/

namespace Shared

/-- A run of one attach and of turns: the attach delivers nothing, and each turn
what was merged by then. -/
theorem run?_turns (settings : RegistrySettings) (label consumer : String)
    {clients : List (List (Index α))} {turns : List (Turn α)} (h : Interleaves clients turns)
    {handle : Nat} (hhandle : handle ≤ clients.length) :
    ∃ last events,
      (among (Registry.fresh settings label) clients.length).run?
          ((handle, .attach consumer) :: turns.map Turn.call) = some (last, events) ∧
        events.map (·.delivery) = none :: (indexesAlong turns).map (fun i => some ⟨consumer, i⟩) ∧
        last.registry.index = indexOf turns ∧ last.handles = clients.length + 1 := by
  have hhandles : ∀ c ∈ (handle, Command.attach consumer) :: turns.map Turn.call,
      c.1 < clients.length + 1 := by
    refine List.forall_mem_cons.mpr ⟨Nat.lt_succ_of_le hhandle, fun c hc => ?_⟩
    obtain ⟨t, ht, rfl⟩ := List.mem_map.mp hc
    exact Nat.succ_lt_succ (h.client_lt ht)
  have hcalls : (turns.map Turn.call).map Prod.snd =
      turns.map fun t => Command.merge t.table := List.map_map
  let attached : Registry α := { Registry.fresh settings label with slot := .attached consumer }
  have hslot : attached.slot = .attached consumer := rfl
  rw [among_eq, run?_eq hhandles]
  refine ⟨_, _, rfl, ?_, ?_, rfl⟩
  · rw [List.map_cons, hcalls]
    exact congrArg (none :: ·) (Registry.deliveries_turns hslot rfl turns)
  · rw [List.map_cons, hcalls]
    exact (Registry.run_of_stays hslot _ (stays_merges turns)).2.trans (by rw [pairs_merges]; rfl)

/-- Clients that merge through handles of one registry, in whatever interleaving
of whole calls, lose nothing to each other. The consumer, attached before,
receives one delivery for each merge, made within it: all units that were named
by then, each with the list of the last turn that names it. The last delivery is
what every handle shows in the end. Two interleavings end with the same lists,
numbers and populated units if they order turns that name a common unit alike,
which they do if no unit is merged by two clients. -/
theorem interleaved_merges (settings : RegistrySettings) (label consumer : String)
    (clients : List (List (Index α))) (handle : Nat) (hhandle : handle ≤ clients.length) :
    let start : Shared α := among (Registry.fresh settings label) clients.length
    let run := fun turns : List (Turn α) =>
      start.run? ((handle, .attach consumer) :: turns.map Turn.call)
    (∀ turns, Interleaves clients turns →
      ∃ last events, ∃ indexes : List (Index α), run turns = some (last, events) ∧
        events.map (·.delivery) = none :: indexes.map (fun i => some ⟨consumer, i⟩) ∧
        indexes.length = turns.length ∧
        (∀ n, ∀ i : Index α, indexes[n]? = some i → i.Holds (turns.take (n + 1))) ∧
        ∀ i, indexes.getLast? = some i →
          ∀ other ≤ clients.length, last.snapshot? other = some i) ∧
      (∀ turns others, Interleaves clients turns → Interleaves clients others →
        SameOrder turns others →
        ∃ last events last' events', run turns = some (last, events) ∧
          run others = some (last', events') ∧
          (∀ unit, last.registry.index.get? unit = last'.registry.index.get? unit) ∧
          last.registry.index.size = last'.registry.index.size ∧
          last.registry.index.descriptorCount = last'.registry.index.descriptorCount ∧
          ∀ e, e ∈ last.registry.index.populated ↔ e ∈ last'.registry.index.populated) ∧
      (Apart clients → ∀ turns others, Interleaves clients turns → Interleaves clients others →
        SameOrder turns others) := by
  intro start run
  refine ⟨fun turns h => ?_, fun turns others h h' hsame => ?_, fun hapart turns others =>
    SameOrder.of_apart hapart⟩
  · obtain ⟨last, events, hrun, hevents, hindex, hhandles⟩ :=
      run?_turns settings label consumer h hhandle
    refine ⟨last, events, indexesAlong turns, hrun, hevents, by simp [indexesAlong],
      fun n i hi => ?_, fun i hi other hother => ?_⟩
    · rw [getElem?_indexesAlong hi]
      exact holds_indexOf _
    · rw [snapshot?, hhandles, if_pos (Nat.lt_succ_of_le hother), hindex,
        getLast?_indexesAlong hi]
  · obtain ⟨last, events, hrun, -, hindex, -⟩ := run?_turns settings label consumer h hhandle
    obtain ⟨last', events', hrun', -, hindex', -⟩ := run?_turns settings label consumer h' hhandle
    have hget : ∀ unit, last.registry.index.get? unit = last'.registry.index.get? unit :=
      fun unit => by
        rw [hindex, hindex', get?_indexOf, get?_indexOf, latest?, latest?,
          h.filter_names_eq h' hsame]
    have hperm := Index.perm_of_get? hget
    refine ⟨last, events, last', events', hrun, hrun', hget, hperm.length_eq, ?_, fun e => ?_⟩
    · exact (hperm.flatMap_right Prod.snd).length_eq
    · exact (hperm.filter _).mem_iff

/-- Two clients name one unit. The first client's second turn and the turn of the
other client name none in common, and change places. -/
theorem interleaved_merges_swapped :
    let clients : List (List (Index Nat)) :=
      [[.ofList [("a", [1])], .ofList [("b", [2])]], [.ofList [("a", []), ("c", [3])]]]
    let first : Turn Nat := ⟨0, 0, .ofList [("a", [1])]⟩
    let second : Turn Nat := ⟨0, 1, .ofList [("b", [2])]⟩
    let other : Turn Nat := ⟨1, 0, .ofList [("a", []), ("c", [3])]⟩
    let start : Shared Nat := among (Registry.fresh {} "t") clients.length
    let run := fun turns : List (Turn Nat) => start.run? ((1, .attach "x") :: turns.map Turn.call)
    1 ≤ clients.length ∧ Interleaves clients [first, second, other] ∧
      Interleaves clients [first, other, second] ∧
      SameOrder [first, second, other] [first, other, second] ∧
      ∃ last events last' events', run [first, second, other] = some (last, events) ∧
        run [first, other, second] = some (last', events') ∧
        last.registry.index.keys = ["a", "b", "c"] ∧
        last'.registry.index.keys = ["a", "c", "b"] ∧
        ∀ unit, last.registry.index.get? unit = last'.registry.index.get? unit := by
  intro clients first second other start run
  have hturns : Interleaves clients [first, second, other] := by
    rintro (_ | _ | client) <;> rfl
  have hothers : Interleaves clients [first, other, second] := by
    rintro (_ | _ | client) <;> rfl
  have hpairs : ∀ a ∈ [first, second, other], ∀ b ∈ [first, second, other],
      (∃ unit ∈ a.table.keys, unit ∈ b.table.keys) →
        ([a, b].Sublist [first, second, other] ↔ [a, b].Sublist [first, other, second]) := by decide
  have hmem : ∀ t ∈ [first, other, second], t ∈ [first, second, other] := by decide
  have hsame : SameOrder [first, second, other] [first, other, second] := by
    refine fun a b unit ha hb => ⟨fun hab => ?_, fun hab => ?_⟩
    · exact (hpairs a (hab.mem (by simp)) b (hab.mem (by simp)) ⟨unit, ha, hb⟩).mp hab
    · exact (hpairs a (hmem a (hab.mem (by simp))) b (hmem b (hab.mem (by simp)))
        ⟨unit, ha, hb⟩).mpr hab
  obtain ⟨last, events, last', events', hrun, hrun', hget, -⟩ :=
    (interleaved_merges {} "t" "x" clients 1 (by decide)).2.1 _ _ hturns hothers hsame
  replace hrun : run [first, second, other] = some (last, events) := hrun
  replace hrun' : run [first, other, second] = some (last', events') := hrun'
  have hkeys : (run [first, second, other]).map (·.1.registry.index.keys) =
      some ["a", "b", "c"] := by decide
  have hkeys' : (run [first, other, second]).map (·.1.registry.index.keys) =
      some ["a", "c", "b"] := by decide
  rw [hrun] at hkeys
  rw [hrun'] at hkeys'
  exact ⟨by decide, hturns, hothers, hsame, last, events, last', events', hrun, hrun',
    Option.some.inj hkeys, Option.some.inj hkeys', hget⟩

end Shared

end Crossref
