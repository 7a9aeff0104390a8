import Crossref.Proofs.Registry.Delivery

/-!
# What the shape of a slot tells

The shape of a slot is read off the calls (`shape_meaning`). It says who waits
for whom, not what was ever merged: a consumer that is detached leaves an empty
slot behind although the index stays, and a consumer that replaces it, or comes
after it, starts without what went out before. So an empty slot does not mean
that nothing was merged, nor an attached consumer that this consumer has
received what was merged (`plain_reading_fails`). What does hold is that
somebody has.
-/

namespace Crossref

variable {α : Type}

def Command.isAttach : Command α → Bool
  | .attach _ => true
  | _ => false

/-- The call emptied the slot: a reset, or a detach that let a consumer go. -/
def releases (m : Command α × Event α) : Bool :=
  m.1.isReset || decide (m.2.answer = .detached true)

/-- The part of a history behind the last call that emptied the slot. -/
def sinceRelease (h : List (Command α × Event α)) : List (Command α × Event α) :=
  h.rtakeWhile fun m => !releases m

theorem sinceRelease_concat (h : List (Command α × Event α)) (m : Command α × Event α) :
    sinceRelease (h ++ [m]) = if releases m then [] else sinceRelease h ++ [m] := by
  rw [sinceRelease, List.rtakeWhile_concat]
  cases releases m <;> rfl

/-! ## Empty slots -/

namespace Registry

theorem shape_eq_empty_iff {r : Registry α} : r.shape = .empty ↔ r.slot = .empty := by
  unfold shape
  cases r.slot <;> simp [Slot.shape]

theorem shape_eq_buffered_iff {r : Registry α} : r.shape = .buffered ↔ r.slot = .buffered := by
  unfold shape
  cases r.slot <;> simp [Slot.shape]

theorem exists_of_shape_eq_attached {r : Registry α} (h : r.shape = .attached) :
    ∃ consumer, r.slot = .attached consumer := by
  unfold shape at h
  cases hs : r.slot with
  | attached consumer => exact ⟨consumer, rfl⟩
  | empty => rw [hs] at h; cases h
  | buffered => rw [hs] at h; cases h

/-- A slot is empty behind a call that empties it, or if it was empty and the
call puts nothing in it. -/
theorem slot_step_eq_empty_iff (r : Registry α) (c : Command α) :
    (r.step c).registry.slot = .empty ↔
      releases (c, r.eventOf c) = true ∨
        r.slot = .empty ∧ c.isMerge = false ∧ c.isAttach = false := by
  rw [slot_step]
  cases c with
  | merge table =>
      cases r.slot <;>
        simp [Slot.after, releases, eventOf, step, Step.map, Command.isReset, Command.isMerge]
  | attach consumer =>
      cases r.slot <;>
        simp [Slot.after, releases, eventOf, step, Step.map, Command.isReset, Command.isAttach]
  | detach =>
      cases hs : r.slot <;>
        simp [Slot.after, releases, eventOf, step, Step.map, detach, hs, Command.isReset,
          Command.isMerge, Command.isAttach]
  | reset => simp [releases, Command.isReset, Slot.after]
  | drainLog =>
      cases r.slot <;>
        simp [Slot.after, releases, eventOf, step, Step.map, Command.isReset, Command.isMerge,
          Command.isAttach]

theorem slot_run_eq_empty_iff (settings : RegistrySettings) (label : String)
    (cs : List (Command α)) :
    ((fresh settings label).run cs).1.slot = .empty ↔
      ∀ m ∈ sinceRelease ((fresh settings label).history cs),
        m.1.isMerge = false ∧ m.1.isAttach = false := by
  induction cs using List.reverseRecOn with
  | nil => exact ⟨fun _ m hm => (List.not_mem_nil hm).elim, fun _ => rfl⟩
  | append_singleton cs c ih =>
      rw [run_concat, slot_step_eq_empty_iff, ih, history_concat, sinceRelease_concat]
      cases releases (c, ((fresh settings label).run cs).1.eventOf c) with
      | true => simp
      | false => simp [or_imp, forall_and, and_assoc, and_left_comm]

end Registry

/-! ## Attached consumers -/

/-- Calls that merge leave their last result as the index. -/
theorem getLast?_mergeResults (index : Index α) {cs : List (Command α)}
    (h : ∃ c ∈ cs, c.isMerge = true) :
    (mergeResults index cs).getLast? = some (index.insertAll (cs.flatMap Command.pairs)) := by
  induction cs using List.reverseRecOn with
  | nil =>
      obtain ⟨c, hc, -⟩ := h
      cases hc
  | append_singleton cs c ih =>
      rw [mergeResults_concat, List.flatMap_append, List.flatMap_singleton,
        Index.insertAll_append]
      cases hm : c.isMerge with
      | true =>
          cases c with
          | merge table => exact List.getLast?_concat
          | attach _ => cases hm
          | detach => cases hm
          | reset => cases hm
          | drainLog => cases hm
      | false =>
          have hearlier : ∃ c ∈ cs, c.isMerge = true := by
            obtain ⟨d, hd, hmerge⟩ := h
            rcases List.mem_append.mp hd with hd | hd
            · exact ⟨d, hd, hmerge⟩
            · rw [List.mem_singleton.mp hd, hm] at hmerge
              cases hmerge
          have hnothing : mergeResults (index.insertAll (cs.flatMap Command.pairs)) [c] = [] ∧
              c.pairs = [] := by
            cases c with
            | merge table => cases hm
            | attach _ => exact ⟨rfl, rfl⟩
            | detach => exact ⟨rfl, rfl⟩
            | reset => exact ⟨rfl, rfl⟩
            | drainLog => exact ⟨rfl, rfl⟩
          rw [hnothing.1, hnothing.2, List.append_nil, ih hearlier]
          rfl

/-- Calls that do not merge have no results, and leave the index. -/
theorem mergeResults_of_not_merge (index : Index α) {cs : List (Command α)}
    (h : ∀ c ∈ cs, c.isMerge = false) :
    mergeResults index cs = [] ∧ cs.flatMap Command.pairs = [] := by
  induction cs with
  | nil => exact ⟨rfl, rfl⟩
  | cons c cs ih =>
      obtain ⟨hc, hcs⟩ := List.forall_mem_cons.mp h
      cases c with
      | merge table => cases hc
      | attach _ => exact ih hcs
      | detach => exact ih hcs
      | reset => exact ih hcs
      | drainLog => exact ih hcs

namespace Registry

/-- The consumer that is attached has the index as it is now, unless nothing
waited when it came and nothing was merged since. -/
theorem received_of_attached (r : Registry α) (before : List (Command α)) (consumer : String)
    {after : List (Command α)} (hafter : ∀ c ∈ after, c.endsTenure = false) :
    let cs := before ++ .attach consumer :: after
    let mine := received before.length cs (r.run cs).2
    mine.getLast? = some (r.run cs).1.index ∨
      mine = [] ∧ (r.run before).1.shape ≠ .buffered ∧ ∀ c ∈ after, c.isMerge = false := by
  intro cs mine
  have htenure : after.takeWhile (fun c => !c.endsTenure) = after :=
    List.takeWhile_eq_self_iff.mpr fun c hc => by rw [hafter c hc]; rfl
  have hmine : mine =
      (if (r.run before).1.shape = .buffered then [(r.run before).1.index] else []) ++
        mergeResults (r.run before).1.index after := by
    have hall := received_attach r before consumer after
    rwa [htenure] at hall
  have hindex := (state_of_tenure r before consumer after hafter).2
  by_cases hmerge : ∃ c ∈ after, c.isMerge = true
  · refine .inl ?_
    rw [hmine, List.getLast?_append, getLast?_mergeResults _ hmerge, hindex]
    rfl
  · have hnone : ∀ c ∈ after, c.isMerge = false := by simpa using hmerge
    obtain ⟨hresults, hpairs⟩ := mergeResults_of_not_merge (r.run before).1.index hnone
    rw [hresults, List.append_nil] at hmine
    by_cases hwaiting : (r.run before).1.shape = .buffered
    · refine .inl ?_
      rw [hmine, if_pos hwaiting, hindex, hpairs]
      rfl
    · rw [if_neg hwaiting] at hmine
      exact .inr ⟨hmine, hwaiting, hnone⟩

/-- The shapes read as if a consumer that comes were always brought up to date,
and one that goes left what it received to the next: an empty slot for no merge
since the last reset, an attached consumer for one that has every merge. -/
def PlainReading (settings : RegistrySettings) (label : String) (cs : List (Command α)) : Prop :=
  let start : Registry α := fresh settings label
  let r := (start.run cs).1
  let life := sinceReset (start.history cs)
  (r.shape = .empty → ∀ m ∈ life, m.1.isMerge = false) ∧
    (r.shape = .buffered → MergeWaits life ∧ holder? cs = none) ∧
    (r.shape = .attached → ∃ i, holder? cs = some i ∧
      ((received i cs (start.run cs).2).getLast? = some r.index ∨
        ∀ m ∈ life, m.1.isMerge = false))

/-- Detaching the only consumer behind a merge leaves an empty slot, and a
consumer that replaces another is attached without having received anything. -/
theorem plain_reading_fails :
    let table : Index String := .ofList [("a", ["d"])]
    ¬ PlainReading {} "implementors" [.attach "x", .merge table, .detach] ∧
      ¬ PlainReading {} "implementors" [.merge table, .attach "x", .attach "y"] := by
  intro table
  refine ⟨fun h => ?_, fun h => ?_⟩
  · exact absurd (h.1 rfl) (by decide)
  · obtain ⟨i, hi, hreceived⟩ := h.2.2 rfl
    obtain rfl : 2 = i := Option.some.inj hi
    exact absurd hreceived (by decide)

/-- A slot is empty if and only if nothing was merged and nobody came since it
was last emptied, by a reset or by detaching a consumer. It is buffered if and
only if some merge waits, and then no consumer is attached. A consumer that is
attached has received the index as it is now, or nothing at all, and then
nothing waited when it came and nothing was merged since. In either case
somebody has received the index as it is now, if anything was merged since the
last reset. -/
theorem shape_meaning (settings : RegistrySettings) (label : String) (cs : List (Command α)) :
    let start : Registry α := fresh settings label
    let r := (start.run cs).1
    let life := sinceReset (start.history cs)
    (r.shape = .empty ↔ ∀ m ∈ sinceRelease (start.history cs),
        m.1.isMerge = false ∧ m.1.isAttach = false) ∧
      (r.shape = .buffered ↔ MergeWaits life) ∧
      (r.shape = .buffered → holder? cs = none) ∧
      (r.shape = .attached → ∃ i, holder? cs = some i ∧
        ((received i cs (start.run cs).2).getLast? = some r.index ∨
          received i cs (start.run cs).2 = [] ∧
            (start.run (cs.take i)).1.shape ≠ .buffered ∧
            ∀ c ∈ cs.drop (i + 1), c.isMerge = false) ∧
        ((∃ m ∈ life, m.1.isMerge = true) →
          ∃ d, (deliveriesIn life).getLast? = some d ∧ d.index = r.index)) := by
  intro start r life
  have haccounts : Accounts life r := accounts_run settings label cs
  have hagrees : r.slot.Agrees cs := agrees_run settings label cs
  refine ⟨?_, ?_, fun hbuffered => ?_, fun hattached => ?_⟩
  · rw [← slot_run_eq_empty_iff]
    exact shape_eq_empty_iff
  · exact shape_eq_buffered_iff.trans haccounts.buffered
  · rw [shape_eq_buffered_iff.mp hbuffered] at hagrees
    exact hagrees
  · obtain ⟨consumer, hslot⟩ := exists_of_shape_eq_attached hattached
    rw [hslot] at hagrees
    obtain ⟨i, hholder, hat⟩ := hagrees
    have hnone : ¬ MergeWaits life := by
      rw [← haccounts.buffered, hslot]
      exact fun h => nomatch h
    obtain ⟨hlt, hget⟩ := List.getElem?_eq_some_iff.mp hat
    have hlength : (cs.take i).length = i := List.length_take_of_le hlt.le
    have hsplit : cs = cs.take i ++ .attach consumer :: cs.drop (i + 1) := by
      rw [← hget, List.getElem_cons_drop, List.take_append_drop]
    have hstays : ∀ c ∈ cs.drop (i + 1), c.endsTenure = false := by
      rw [← holder?_attach (cs.take i) consumer, ← hsplit, hlength]
      exact hholder
    have hreceived := received_of_attached start (cs.take i) consumer hstays
    rw [← hsplit, hlength] at hreceived
    exact ⟨i, hholder, hreceived, haccounts.upToDate hnone⟩

end Registry

end Crossref
