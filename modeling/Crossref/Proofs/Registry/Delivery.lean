import Crossref.Proofs.Registry.History

/-!
# What consumers receive

Two accounts of the deliveries of a run, both over every sequence of calls on a
fresh registry.

`merges_pending_or_delivered` looks at the index: what was merged either waits
as a whole, and then no consumer is attached, or it went out as a whole with the
last delivery. The slot keeps no record of deliveries, so the proof carries the
link between the slot and the history as an invariant (`Accounts`).

`delivery_history` looks at one consumer. A consumer is known by the number of
the call that attached it (`holder?`), so that two consumers of one name stay
apart. It receives what was waiting when it came, then the index after each
merge of its tenure, and nothing else.
-/

namespace Crossref

variable {α : Type}

/-! ## The table of the slot, read backwards -/

theorem Slot.after_of_delivery {slot : Slot} {index : Index α} {c : Command α}
    {d : Delivery α} (h : slot.delivery? index c = some d) :
    slot.after c = .attached d.consumer ∧ d.index = c.indexAfter index ∧ c.isReset = false := by
  cases c with
  | merge table =>
      cases slot with
      | attached consumer => cases h; exact ⟨rfl, rfl, rfl⟩
      | empty => cases h
      | buffered => cases h
  | attach consumer =>
      cases slot with
      | buffered => cases h; exact ⟨rfl, rfl, rfl⟩
      | empty => cases h
      | attached other => cases h
  | detach => cases slot <;> cases h
  | reset => cases slot <;> cases h
  | drainLog => cases slot <;> cases h

/-- A merge that nobody receives waits. -/
theorem Slot.after_of_merge {slot : Slot} {index : Index α} {c : Command α}
    (hm : c.isMerge = true) (h : slot.delivery? index c = none) : slot.after c = .buffered := by
  cases c with
  | merge table =>
      cases slot with
      | attached consumer => cases h
      | empty => rfl
      | buffered => rfl
  | attach _ => cases hm
  | detach => cases hm
  | reset => cases hm
  | drainLog => cases hm

/-- Any other call without a delivery lets wait what was waiting, and nothing else. -/
theorem Slot.after_eq_buffered_iff {slot : Slot} {index : Index α} {c : Command α}
    (hm : c.isMerge = false) (hr : c.isReset = false) (h : slot.delivery? index c = none) :
    slot.after c = .buffered ↔ slot = .buffered := by
  cases c with
  | merge table => cases hm
  | attach consumer => cases slot <;> simp_all [Slot.after, Slot.delivery?]
  | detach => cases slot <;> simp [Slot.after]
  | reset => cases hr
  | drainLog => cases slot <;> simp [Slot.after]

theorem Command.indexAfter_of_not_merge {index : Index α} {c : Command α}
    (hm : c.isMerge = false) (hr : c.isReset = false) : c.indexAfter index = index := by
  cases c with
  | merge table => cases hm
  | reset => cases hr
  | attach _ => rfl
  | detach => rfl
  | drainLog => rfl

/-! ## Nothing merged is lost -/

/-- Some merge of the history has not been followed, or accompanied, by a delivery. -/
def MergeWaits (h : List (Command α × Event α)) : Prop :=
  ∃ p m q, h = p ++ m :: q ∧ m.1.isMerge = true ∧ ∀ e ∈ m :: q, e.2.delivery = none

theorem mergeWaits_concat {h : List (Command α × Event α)} {m : Command α × Event α} :
    MergeWaits (h ++ [m]) ↔
      m.2.delivery = none ∧ (m.1.isMerge = true ∨ MergeWaits h) := by
  constructor
  · rintro ⟨p, n, q, heq, hn, hq⟩
    rcases List.eq_nil_or_concat q with rfl | ⟨q', x, rfl⟩
    · obtain ⟨rfl, hmn⟩ := List.append_inj' heq rfl
      obtain rfl := List.head_eq_of_cons_eq hmn
      exact ⟨hq m List.mem_cons_self, Or.inl hn⟩
    · rw [List.concat_eq_append, ← List.cons_append, ← List.append_assoc] at heq
      obtain ⟨rfl, hmx⟩ := List.append_inj' heq rfl
      obtain rfl := List.head_eq_of_cons_eq hmx
      have hsub : ∀ e ∈ n :: q', e.2.delivery = none := fun e he =>
        hq e (by rw [List.concat_eq_append, ← List.cons_append]; exact List.mem_append_left _ he)
      exact ⟨hq m (by simp), Or.inr ⟨p, n, q', rfl, hn, hsub⟩⟩
  · rintro ⟨hd, hm | ⟨p, n, q, rfl, hn, hq⟩⟩
    · exact ⟨h, m, [], rfl, hm, fun e he => by rw [List.mem_singleton.mp he]; exact hd⟩
    · refine ⟨p, n, q ++ [m], by simp, hn, fun e he => ?_⟩
      rw [← List.cons_append] at he
      rcases List.mem_append.mp he with hmem | hlast
      · exact hq e hmem
      · rw [List.mem_singleton.mp hlast]; exact hd

/-- The link between a registry and its history since the last reset: the slot
says whether a merge waits, and if none does, the last delivery is up to date. -/
structure Accounts (life : List (Command α × Event α)) (r : Registry α) : Prop where
  buffered : r.slot = .buffered ↔ MergeWaits life
  upToDate : ¬ MergeWaits life → (∃ m ∈ life, m.1.isMerge = true) →
    ∃ d, (deliveriesIn life).getLast? = some d ∧ d.index = r.index

namespace Registry

theorem accounts_fresh (settings : RegistrySettings) (label : String) :
    Accounts [] (fresh settings label : Registry α) where
  buffered := by simp [fresh, MergeWaits]
  upToDate _ := by rintro ⟨m, hm, -⟩; cases hm

theorem accounts_reset {r : Registry α} {c : Command α} (hc : c.isReset = true) :
    Accounts [] (r.step c).registry := by
  cases c with
  | reset => exact accounts_fresh r.settings r.label
  | merge _ => cases hc
  | attach _ => cases hc
  | detach => cases hc
  | drainLog => cases hc

/-- Every call but a reset keeps the accounts: a delivery brings them up to
date, a merge without one opens them, and all else leaves them as they are. -/
theorem accounts_step {life : List (Command α × Event α)} {r : Registry α}
    (h : Accounts life r) {c : Command α} (hr : c.isReset = false) :
    Accounts (life ++ [(c, r.eventOf c)]) (r.step c).registry := by
  have hevent : (r.eventOf c).delivery = r.slot.delivery? r.index c := delivery_step r c
  cases hd : r.slot.delivery? r.index c with
  | some d =>
      obtain ⟨hslot, hindex, -⟩ := Slot.after_of_delivery hd
      have hdone : ¬ MergeWaits (life ++ [(c, r.eventOf c)]) := by
        rw [mergeWaits_concat, hevent, hd]
        rintro ⟨hnone, -⟩
        cases hnone
      refine ⟨?_, fun _ _ => ⟨d, ?_, ?_⟩⟩
      · rw [slot_step, hslot]
        exact ⟨fun hb => (nomatch hb), fun hw => absurd hw hdone⟩
      · rw [deliveriesIn_concat, hevent, hd]
        exact List.getLast?_concat
      · rw [index_step, hindex]
  | none =>
      have hwaits : MergeWaits (life ++ [(c, r.eventOf c)]) ↔
          c.isMerge = true ∨ MergeWaits life := by
        rw [mergeWaits_concat, hevent, hd]
        simp
      cases hm : c.isMerge with
      | true =>
          refine ⟨?_, fun hw => absurd (hwaits.mpr (Or.inl hm)) hw⟩
          rw [slot_step, Slot.after_of_merge hm hd]
          exact ⟨fun _ => hwaits.mpr (Or.inl hm), fun _ => rfl⟩
      | false =>
          have hsame : MergeWaits (life ++ [(c, r.eventOf c)]) ↔ MergeWaits life := by
            rw [hwaits, hm]
            simp
          refine ⟨?_, fun hw hex => ?_⟩
          · rw [slot_step, Slot.after_eq_buffered_iff hm hr hd, hsame]
            exact h.buffered
          · obtain ⟨m, hmem, hmm⟩ := hex
            have hold : m ∈ life := by
              rcases List.mem_append.mp hmem with hmem | hlast
              · exact hmem
              · rw [List.mem_singleton.mp hlast, hm] at hmm; cases hmm
            obtain ⟨d, hlast, hindex⟩ := h.upToDate (fun hl => hw (hsame.mpr hl)) ⟨m, hold, hmm⟩
            refine ⟨d, ?_, ?_⟩
            · rw [deliveriesIn_concat, hevent, hd, Option.toList_none, List.append_nil]
              exact hlast
            · rw [index_step, Command.indexAfter_of_not_merge hm hr]
              exact hindex

theorem accounts_run (settings : RegistrySettings) (label : String) (cs : List (Command α)) :
    Accounts (sinceReset ((fresh settings label).history cs))
      ((fresh settings label).run cs).1 := by
  induction cs using List.reverseRecOn with
  | nil => exact accounts_fresh settings label
  | append_singleton cs c ih =>
      rw [run_concat, history_concat, sinceReset_concat]
      cases hr : c.isReset with
      | true => exact accounts_reset hr
      | false => exact accounts_step ih hr

theorem pending?_isSome {r : Registry α} : r.pending?.isSome = true ↔ r.slot = .buffered := by
  unfold pending? shape
  cases r.slot <;> simp [Slot.shape]

/-- After any calls, the index is all that was merged since the last reset. It
is pending exactly while some merge has seen no delivery since, and then as a
whole and with no consumer attached; otherwise the last delivery since the reset
carried it as it is now. -/
theorem merges_pending_or_delivered (settings : RegistrySettings) (label : String)
    (cs : List (Command α)) :
    let r := ((fresh settings label).run cs).1
    let life := sinceReset ((fresh settings label).history cs)
    r.index = .ofList (life.flatMap fun m => m.1.pairs) ∧
      (r.pending?.isSome = true ↔ MergeWaits life) ∧
      (∀ i, r.pending? = some i → i = r.index ∧ r.hasConsumer = false) ∧
      (r.pending? = none → (∃ m ∈ life, m.1.isMerge = true) →
        ∃ d, (deliveriesIn life).getLast? = some d ∧ d.index = r.index) := by
  intro r life
  have h : Accounts life r := accounts_run settings label cs
  refine ⟨index_run settings label cs, pending?_isSome.trans h.buffered, fun i hi => ?_, ?_⟩
  · have hslot : r.slot = .buffered := pending?_isSome.mp (by rw [hi]; rfl)
    simp only [pending?, shape, hslot, Slot.shape, if_pos, Option.some.injEq] at hi
    exact ⟨hi.symm, by simp [hasConsumer, shape, hslot, Slot.shape]⟩
  · intro hnone
    refine h.upToDate fun hw => ?_
    have hsome := pending?_isSome.mpr (h.buffered.mpr hw)
    rw [hnone] at hsome
    cases hsome

end Registry

/-! ## The tenure of a consumer -/

/-- The call lets the attached consumer go, for another one or for none. -/
def Command.endsTenure : Command α → Bool
  | .attach _ | .detach | .reset => true
  | .merge _ | .drainLog => false

/-- The number of the call whose consumer is attached behind these calls: the
last attach, if nothing ended its tenure since. -/
def holder? (cs : List (Command α)) : Option Nat :=
  match cs.reverse.dropWhile fun c => !c.endsTenure with
  | .attach _ :: earlier => some earlier.length
  | _ => none

/-- The indexes that the consumer of the call number `i` receives. -/
def received (i : Nat) (cs : List (Command α)) (events : List (Event α)) : List (Index α) :=
  events.zipIdx.filterMap fun e =>
    if holder? (cs.take (e.2 + 1)) = some i then e.1.delivery.map (·.index) else none

/-- The indexes after each merge of the calls. -/
def mergeResults (index : Index α) : List (Command α) → List (Index α)
  | [] => []
  | .merge table :: cs =>
      index.insertAll table.entries :: mergeResults (index.insertAll table.entries) cs
  | _ :: cs => mergeResults index cs

/-- The answer that a call deserves behind `calls`, told from whether it delivers. -/
def Command.Answered (calls : List (Command α)) (delivers : Bool) :
    Command α → Answer → Prop
  | .merge _, answer => ∃ report, answer = .report report ∧
      report.handoff = if delivers then .delivered else .buffered
  | .attach _, answer => answer = .attached
      (if delivers then .delivered else if (holder? calls).isSome then .replaced else .waiting)
  | .detach, answer => answer = .detached (holder? calls).isSome ∧ delivers = false
  | .reset, answer => answer = .done ∧ delivers = false
  | .drainLog, _ => delivers = false

theorem holder?_concat (cs : List (Command α)) (c : Command α) :
    holder? (cs ++ [c]) =
      match c with
      | .attach _ => some cs.length
      | .detach | .reset => none
      | .merge _ | .drainLog => holder? cs := by
  unfold holder?
  rw [List.reverse_concat]
  cases c <;> simp [Command.endsTenure]

/-- A call that ends no tenure leaves the consumer where it is. -/
theorem holder?_concat_of_stays {cs : List (Command α)} {c : Command α}
    (hc : c.endsTenure = false) : holder? (cs ++ [c]) = holder? cs := by
  rw [holder?_concat]
  cases c with
  | merge table => rfl
  | drainLog => rfl
  | attach _ => cases hc
  | detach => cases hc
  | reset => cases hc

theorem not_stays_concat (cs : List (Command α)) {c : Command α} (hc : c.endsTenure = true) :
    ¬ ∀ x ∈ cs ++ [c], x.endsTenure = false := by
  intro h
  rw [h c (List.mem_append_right cs List.mem_cons_self)] at hc
  cases hc

theorem lt_of_holder? {cs : List (Command α)} {i : Nat} (h : holder? cs = some i) :
    i < cs.length := by
  induction cs using List.reverseRecOn with
  | nil => cases h
  | append_singleton cs c ih =>
      rw [holder?_concat] at h
      rw [List.length_append, List.length_singleton]
      cases c with
      | attach consumer => cases h; exact Nat.lt_succ_self _
      | merge table => exact Nat.lt_succ_of_lt (ih h)
      | drainLog => exact Nat.lt_succ_of_lt (ih h)
      | detach => cases h
      | reset => cases h

theorem holder?_attach (before : List (Command α)) (consumer : String) :
    ∀ after : List (Command α),
      holder? (before ++ .attach consumer :: after) = some before.length ↔
        ∀ c ∈ after, c.endsTenure = false := by
  intro after
  induction after using List.reverseRecOn with
  | nil => simp [holder?_concat]
  | append_singleton after c ih =>
      rw [← List.cons_append, ← List.append_assoc]
      cases hc : c.endsTenure with
      | false =>
          rw [holder?_concat_of_stays hc, ih]
          simp [or_imp, forall_and, hc]
      | true =>
          rw [holder?_concat]
          refine ⟨fun h => ?_, fun h => absurd h (not_stays_concat after hc)⟩
          cases c with
          | attach other => simp at h
          | detach => cases h
          | reset => cases h
          | merge table => cases hc
          | drainLog => cases hc

theorem received_concat (i : Nat) {cs : List (Command α)} {events : List (Event α)}
    (hlen : events.length = cs.length) (c : Command α) (e : Event α) :
    received i (cs ++ [c]) (events ++ [e]) = received i cs events ++
      if holder? (cs ++ [c]) = some i then (e.delivery.map (·.index)).toList else [] := by
  unfold received
  rw [List.zipIdx_append, List.filterMap_append]
  congr 1
  · refine List.filterMap_congr fun x hx => ?_
    have hlt : x.2 < events.length := by
      simpa using (List.mem_zipIdx hx).2.1
    rw [List.take_append_of_le_length (by omega)]
  · rw [List.zipIdx_singleton, List.filterMap_cons, List.filterMap_nil,
      List.take_of_length_le (by simp [hlen])]
    by_cases hi : holder? (cs ++ [c]) = some i
    · rw [if_pos hi, if_pos hi]
      cases e.delivery <;> rfl
    · rw [if_neg hi, if_neg hi]

theorem mergeResults_concat (index : Index α) (cs : List (Command α)) (c : Command α) :
    mergeResults index (cs ++ [c]) =
      mergeResults index cs ++ mergeResults (index.insertAll (cs.flatMap Command.pairs)) [c] := by
  induction cs generalizing index with
  | nil => rfl
  | cons d cs ih =>
      cases d with
      | merge table =>
          rw [List.cons_append, mergeResults, ih, mergeResults, List.flatMap_cons,
            Index.insertAll_append]
          rfl
      | attach _ => exact ih index
      | detach => exact ih index
      | reset => exact ih index
      | drainLog => exact ih index

theorem takeWhile_concat_of_not_all {cs : List (Command α)} {c : Command α}
    (h : ¬ ∀ x ∈ cs, x.endsTenure = false) :
    (cs ++ [c]).takeWhile (fun x => !x.endsTenure) = cs.takeWhile fun x => !x.endsTenure := by
  rw [List.takeWhile_append, if_neg]
  intro hlen
  refine h fun x hx => ?_
  have hself := (List.takeWhile_prefix (p := fun x : Command α => !x.endsTenure)).eq_of_length hlen
  simpa using List.takeWhile_eq_self_iff.mp hself x hx

/-- Nothing is received before the call that attaches the consumer. -/
theorem received_before (cs : List (Command α)) (events : List (Event α)) :
    received cs.length cs events = [] := by
  refine List.filterMap_eq_nil_iff.mpr fun x hx => ?_
  refine if_neg fun hholder => ?_
  have hlt := lt_of_holder? hholder
  rw [List.length_take] at hlt
  omega

namespace Registry

/-- While no call ends its tenure the consumer stays, and the index grows. -/
theorem run_of_stays {r : Registry α} {consumer : String} (hslot : r.slot = .attached consumer)
    (cs : List (Command α)) (hcs : ∀ c ∈ cs, c.endsTenure = false) :
    (r.run cs).1.slot = .attached consumer ∧
      (r.run cs).1.index = r.index.insertAll (cs.flatMap Command.pairs) := by
  induction cs generalizing r with
  | nil => exact ⟨hslot, rfl⟩
  | cons c cs ih =>
      have hc := hcs c List.mem_cons_self
      have hslot' : (r.step c).registry.slot = .attached consumer := by
        rw [slot_step, hslot]
        cases c <;> first | rfl | cases hc
      have hindex' : (r.step c).registry.index = r.index.insertAll c.pairs := by
        rw [index_step]
        cases c <;> first | rfl | cases hc
      obtain ⟨hs, hi⟩ := ih hslot' fun x hx => hcs x (List.mem_cons_of_mem _ hx)
      refine ⟨hs, hi.trans ?_⟩
      rw [hindex', List.flatMap_cons, Index.insertAll_append]

theorem slot_attach (r : Registry α) (consumer : String) :
    (r.step (.attach consumer)).registry.slot = .attached consumer := by
  rw [slot_step]
  cases r.slot <;> rfl

/-- Behind an attach and calls that end no tenure. -/
theorem state_of_tenure (r : Registry α) (before : List (Command α)) (consumer : String)
    (after : List (Command α)) (hall : ∀ c ∈ after, c.endsTenure = false) :
    let last := (r.run (before ++ .attach consumer :: after)).1
    last.slot = .attached consumer ∧
      last.index = (r.run before).1.index.insertAll (after.flatMap Command.pairs) := by
  intro last
  have hlast : last = (((r.run before).1.step (.attach consumer)).registry.run after).1 := by
    simp only [last, run_append]
    rfl
  obtain ⟨hslot, hindex⟩ := run_of_stays (slot_attach (r.run before).1 consumer) after hall
  rw [hlast]
  exact ⟨hslot, hindex.trans (by rw [index_step]; rfl)⟩

/-- What the consumer of one attach receives, up to any later call. -/
theorem received_attach (r : Registry α) (before : List (Command α)) (consumer : String)
    (after : List (Command α)) :
    received before.length (before ++ .attach consumer :: after)
        (r.run (before ++ .attach consumer :: after)).2 =
      (if (r.run before).1.shape = .buffered then [(r.run before).1.index] else []) ++
        mergeResults (r.run before).1.index (after.takeWhile fun c => !c.endsTenure) := by
  induction after using List.reverseRecOn with
  | nil =>
      rw [events_concat, received_concat _ (length_events r before),
        received_before,
        if_pos ((holder?_attach before consumer []).mpr (by simp))]
      have hevent := delivery_step (r.run before).1 (.attach consumer)
      rw [List.nil_append, List.takeWhile_nil, mergeResults, List.append_nil, eventOf, hevent,
        shape]
      cases (r.run before).1.slot <;> rfl
  | append_singleton after c ih =>
      have hsplit : before ++ .attach consumer :: (after ++ [c]) =
          (before ++ .attach consumer :: after) ++ [c] := by simp
      rw [hsplit, events_concat, received_concat _ (length_events _ _), ih, List.append_assoc]
      congr 1
      have hholder := holder?_attach before consumer (after ++ [c])
      rw [hsplit] at hholder
      by_cases hall : ∀ x ∈ after, x.endsTenure = false
      · have htenure : ∀ x ∈ after, (!x.endsTenure) = true := fun x hx => by rw [hall x hx]; rfl
        rw [List.takeWhile_append_of_pos htenure, List.takeWhile_eq_self_iff.mpr htenure]
        cases hc : c.endsTenure with
        | true =>
            rw [if_neg (mt hholder.mp (not_stays_concat after hc)),
              List.takeWhile_cons_of_neg (by simp [hc])]
            simp
        | false =>
            have hstays : ∀ x ∈ after ++ [c], x.endsTenure = false := by
              simpa [or_imp, forall_and, hc] using hall
            obtain ⟨hslot, hindex⟩ := state_of_tenure r before consumer after hall
            rw [if_pos (hholder.mpr hstays), List.takeWhile_cons_of_pos (by simp [hc]),
              List.takeWhile_nil, mergeResults_concat, ← hindex, eventOf, delivery_step, hslot]
            cases c with
            | merge table => rfl
            | drainLog => rfl
            | attach _ => cases hc
            | detach => cases hc
            | reset => cases hc
      · have hnot : ¬ ∀ x ∈ after ++ [c], x.endsTenure = false := fun h =>
          hall fun x hx => h x (List.mem_append_left _ hx)
        rw [if_neg (mt hholder.mp hnot), List.append_nil, takeWhile_concat_of_not_all hall]

end Registry

/-! ## Who receives, and what callers are told -/

/-- The slot agrees with the calls on who is attached. -/
def Slot.Agrees (cs : List (Command α)) : Slot → Prop
  | .attached consumer => ∃ i, holder? cs = some i ∧ cs[i]? = some (.attach consumer)
  | _ => holder? cs = none

theorem Slot.Agrees.concat {cs : List (Command α)} {slot : Slot} (h : slot.Agrees cs)
    (c : Command α) : (slot.after c).Agrees (cs ++ [c]) := by
  have hstays : c.endsTenure = false → slot.Agrees (cs ++ [c]) := fun hc => by
    cases slot with
    | attached consumer =>
        obtain ⟨i, hi, hat⟩ := h
        refine ⟨i, (holder?_concat_of_stays hc).trans hi, ?_⟩
        rw [List.getElem?_append_left (lt_of_holder? hi)]
        exact hat
    | empty => exact (holder?_concat_of_stays hc).trans h
    | buffered => exact (holder?_concat_of_stays hc).trans h
  cases c with
  | merge table => cases slot <;> exact hstays rfl
  | drainLog => cases slot <;> exact hstays rfl
  | attach consumer =>
      have hafter : slot.after (.attach consumer : Command α) = .attached consumer := by
        cases slot <;> rfl
      rw [hafter]
      exact ⟨cs.length, holder?_concat cs _, List.getElem?_concat_length⟩
  | detach => cases slot <;> exact holder?_concat cs _
  | reset => cases slot <;> exact holder?_concat cs _

theorem Slot.Agrees.isSome {cs : List (Command α)} {slot : Slot} (h : slot.Agrees cs) :
    (holder? cs).isSome = (slot.shape == .attached) := by
  cases slot with
  | attached consumer =>
      obtain ⟨i, hi, -⟩ := h
      rw [hi]
      rfl
  | empty => rw [show holder? cs = none from h]; rfl
  | buffered => rw [show holder? cs = none from h]; rfl

namespace Registry

theorem agrees_run (settings : RegistrySettings) (label : String) (cs : List (Command α)) :
    ((fresh settings label).run cs).1.slot.Agrees cs := by
  induction cs using List.reverseRecOn with
  | nil => rfl
  | append_singleton cs c ih =>
      rw [run_concat, slot_step]
      exact ih.concat c

theorem handoff_merge (r : Registry α) (table : Index α) :
    (r.merge table).answer.handoff =
      if (r.merge table).delivery.isSome then .delivered else .buffered := by
  rw [merge_eq]
  cases r.slot <;> rfl

theorem answered_event {r : Registry α} {cs : List (Command α)} (h : r.slot.Agrees cs)
    (c : Command α) :
    c.Answered cs (r.eventOf c).delivery.isSome (r.eventOf c).answer := by
  have hholder := h.isSome
  cases c with
  | merge table => exact ⟨_, rfl, handoff_merge r table⟩
  | attach consumer =>
      simp only [Command.Answered, eventOf, step, Step.map, attach, hholder]
      cases r.slot <;> rfl
  | detach =>
      simp only [Command.Answered, eventOf, step, Step.map, detach, hholder]
      cases r.slot <;> exact ⟨rfl, rfl⟩
  | reset => exact ⟨rfl, rfl⟩
  | drainLog => rfl

theorem getElem?_events (r : Registry α) (before : List (Command α)) (c : Command α)
    (after : List (Command α)) :
    (r.run (before ++ c :: after)).2[before.length]? = some ((r.run before).1.eventOf c) := by
  rw [run_append, ← length_events r before, List.getElem?_append_right (Nat.le_refl _),
    Nat.sub_self]
  rfl

/-- The deliveries of a run. The consumer of each attach receives what was
waiting just before it, then the whole index after each merge of its tenure, and
nothing else; whatever any call delivers goes to the consumer that is attached
by then. Each answer tells whether the call delivered, and that of an attach
whether it replaced a consumer. The counter counts the deliveries since the last
reset. -/
theorem delivery_history (settings : RegistrySettings) (label : String) :
    let start : Registry α := fresh settings label
    (∀ before consumer after,
      let cs := before ++ .attach consumer :: after
      let found := (start.run before).1
      received before.length cs (start.run cs).2 =
        (if found.shape = .buffered then [found.index] else []) ++
          mergeResults found.index (after.takeWhile fun c => !c.endsTenure)) ∧
      (∀ before c after,
        let cs := before ++ c :: after
        ∃ e, (start.run cs).2[before.length]? = some e ∧
          c.Answered before e.delivery.isSome e.answer ∧
          ∀ d ∈ e.delivery,
            ∃ i, holder? (before ++ [c]) = some i ∧ cs[i]? = some (.attach d.consumer)) ∧
      ∀ cs, (start.run cs).1.deliveries =
        (deliveriesIn (sinceReset (start.history cs))).length := by
  intro start
  refine ⟨fun before consumer after => received_attach start before consumer after, ?_,
    deliveries_run settings label⟩
  intro before c after cs
  have hagrees : (start.run before).1.slot.Agrees before := agrees_run settings label before
  refine ⟨_, getElem?_events start before c after, answered_event hagrees c, fun d hd => ?_⟩
  have hslot := (Slot.after_of_delivery ((delivery_step _ c).symm.trans hd)).1
  have hafter := hagrees.concat c
  rw [hslot] at hafter
  obtain ⟨i, hi, hat⟩ := hafter
  refine ⟨i, hi, ?_⟩
  have hcs : cs = (before ++ [c]) ++ after := by simp [cs]
  rw [hcs, List.getElem?_append_left (lt_of_holder? hi)]
  exact hat

end Registry

end Crossref
