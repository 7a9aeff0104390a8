import Crossref.Catalog.Run
import Crossref.Proofs.Registry.History
import Crossref.Proofs.Text.Utf8

/-!
# Registries of a catalog

A catalog holds one registry for each trait that was named by a merge or an
attachment, and each of them is the registry that the calls on its trait leave,
as if there were no others (`isolated_registries`). What makes this work is that
a call on a trait without a registry changes as little as the same call on a
fresh registry would (`Registry.step_fresh`): so it does not matter that the
registry is made late.
-/

namespace Crossref

variable {α : Type}

/-- The call makes the registry of its trait where there is none. -/
def Command.creates : Command α → Bool
  | .merge _ | .attach _ => true
  | .detach | .reset | .drainLog => false

/-! ## Calls on a fresh registry -/

namespace Registry

/-- The other calls find nothing to do on a fresh registry. -/
theorem step_fresh (settings : RegistrySettings) (label : String) {c : Command α}
    (hc : c.creates = false) :
    ((fresh settings label).step c).registry = fresh settings label ∧
      ((fresh settings label).step c).delivery = none := by
  cases c with
  | merge table => cases hc
  | attach consumer => cases hc
  | detach => exact ⟨rfl, rfl⟩
  | reset => exact ⟨rfl, rfl⟩
  | drainLog => exact ⟨rfl, rfl⟩

theorem run_fresh (settings : RegistrySettings) (label : String) {cs : List (Command α)}
    (hcs : ∀ c ∈ cs, c.creates = false) :
    ((fresh settings label).run cs).1 = fresh settings label := by
  induction cs using List.reverseRecOn with
  | nil => rfl
  | append_singleton cs c ih =>
      have hlast : c.creates = false := hcs c (by simp)
      have hbefore := ih fun d hd => hcs d (List.mem_append_left [c] hd)
      rw [run_concat, hbefore]
      exact (step_fresh settings label hlast).1

end Registry

namespace Catalog

/-! ## Sorted entries with a key that is there -/

/-- A key that is there keeps its place, whatever value it is given. -/
theorem place_append {β : Type} {key : String} {v : β} {fs gs : List (String × β)}
    (h : Increasing (fs ++ (key, v) :: gs)) (value : β) :
    place key value (fs ++ (key, v) :: gs) = fs ++ (key, value) :: gs := by
  induction fs with
  | nil => simp [place]
  | cons f fs ih =>
      obtain ⟨hbelow, htail⟩ := List.pairwise_cons.mp h
      have hlt : f.1 < key := hbelow key (by simp)
      have hne : f.1 ≠ key := fun heq => String.lt_irrefl key (heq ▸ hlt)
      have hnot : ¬ key < f.1 := fun hgt => String.lt_irrefl key (String.lt_trans hgt hlt)
      rw [List.cons_append, place, if_neg hne, if_neg hnot, ih htail]
      rfl

/-- Giving a key the value it has changes nothing. -/
theorem place_of_lookup {β : Type} {key : String} {v : β} {es : List (String × β)}
    (h : Increasing es) (hv : es.lookup key = some v) : place key v es = es := by
  obtain ⟨fs, gs, rfl, -⟩ := List.lookup_eq_some_iff.mp hv
  exact place_append h v

theorem keys_place_of_lookup {β : Type} {key : String} {v : β} {es : List (String × β)}
    (h : Increasing es) (hv : es.lookup key = some v) (value : β) :
    (place key value es).map Prod.fst = es.map Prod.fst := by
  obtain ⟨fs, gs, rfl, -⟩ := List.lookup_eq_some_iff.mp hv
  rw [place_append h value]
  simp

/-! ## One call -/

/-- A catalog on which nothing was called yet. -/
def fresh (settings : RegistrySettings) : Catalog α where
  settings := settings
  registries := []
  increasing := List.Pairwise.nil

theorem mem_names_iff (c : Catalog α) (name : String) :
    name ∈ c.names ↔ (c.get? name).isSome = true := by
  rw [get?, List.lookup_isSome_iff, names, List.mem_map]
  constructor
  · rintro ⟨e, he, rfl⟩
    exact ⟨e, he, by simp⟩
  · rintro ⟨e, he, hname⟩
    exact ⟨e, he, (eq_of_beq hname).symm⟩

theorem set_of_get? {c : Catalog α} {name : String} {r : Registry α} (h : c.get? name = some r) :
    c.set name r = c := by
  obtain ⟨settings, registries, hincreasing⟩ := c
  simp only [set, Catalog.mk.injEq, true_and]
  exact place_of_lookup hincreasing h

/-- To look a registry up, whether it is there or not, leaves the catalog as it is. -/
theorem update?_read (c : Catalog α) (name : String) :
    (c.update? name fun r => { registry := r, answer := () }).catalog = c := by
  unfold update?
  cases h : c.get? name with
  | none => rfl
  | some r => exact set_of_get? h

/-- A call that creates goes to the registry as the catalog finds or makes it;
any other call goes to the registry that is there. -/
theorem step_eq (c : Catalog α) (call : Call α) :
    c.step call =
      if call.command.creates then (c.update call.trait fun r => r.step call.command).map some
      else c.update? call.trait fun r => r.step call.command := by
  obtain ⟨name, command⟩ := call
  cases command with
  | merge table => rfl
  | attach consumer => rfl
  | detach => simp only [step, update?, Command.creates]; cases c.get? name <;> rfl
  | reset => rfl
  | drainLog => simp only [step, update?, Command.creates]; cases c.get? name <;> rfl

theorem settings_step (c : Catalog α) (call : Call α) :
    (c.step call).catalog.settings = c.settings := by
  rw [step_eq]
  split
  · rfl
  · unfold update?
    cases c.get? call.trait <;> rfl

/-- A call that does not create leaves the traits as they are. -/
theorem names_step {c : Catalog α} {call : Call α} (h : call.command.creates = false) :
    (c.step call).catalog.names = c.names := by
  rw [step_eq, h]
  simp only [Bool.false_eq_true, if_false, update?]
  cases hr : c.get? call.trait with
  | none => rfl
  | some r => exact keys_place_of_lookup c.increasing hr _

/-! ## Runs, from their last call -/

/-- The event of a call. -/
def eventOf (c : Catalog α) (call : Call α) : Event α :=
  ⟨(c.step call).answer, (c.step call).delivery⟩

theorem run_append (c : Catalog α) (calls more : List (Call α)) :
    c.run (calls ++ more) =
      (((c.run calls).1.run more).1, (c.run calls).2 ++ ((c.run calls).1.run more).2) := by
  induction calls generalizing c with
  | nil => rfl
  | cons call calls ih => rw [List.cons_append, run, run, ih]; rfl

theorem length_events (c : Catalog α) (calls : List (Call α)) :
    (c.run calls).2.length = calls.length := by
  induction calls generalizing c with
  | nil => rfl
  | cons call calls ih => rw [run, List.length_cons, List.length_cons, ih]

theorem run_concat (c : Catalog α) (calls : List (Call α)) (call : Call α) :
    (c.run (calls ++ [call])).1 = ((c.run calls).1.step call).catalog := by
  rw [run_append]
  rfl

theorem events_concat (c : Catalog α) (calls : List (Call α)) (call : Call α) :
    (c.run (calls ++ [call])).2 = (c.run calls).2 ++ [(c.run calls).1.eventOf call] := by
  rw [run_append]
  rfl

/-! ## The calls on one trait -/

/-- The commands of the calls on a trait, in their order. -/
def commandsOn (name : String) (calls : List (Call α)) : List (Command α) :=
  (calls.filter fun call => call.trait = name).map (·.command)

/-- The events of the calls on a trait, in their order. -/
def eventsOn (name : String) (calls : List (Call α)) (events : List (Event α)) : List (Event α) :=
  ((calls.zip events).filter fun m => m.1.trait = name).map Prod.snd

theorem commandsOn_concat (name : String) (calls : List (Call α)) (call : Call α) :
    commandsOn name (calls ++ [call]) =
      commandsOn name calls ++ if call.trait = name then [call.command] else [] := by
  unfold commandsOn
  by_cases h : call.trait = name
  · simp [h]
  · simp [h]

theorem eventsOn_concat (name : String) {calls : List (Call α)} {events : List (Event α)}
    (hlen : events.length = calls.length) (call : Call α) (e : Event α) :
    eventsOn name (calls ++ [call]) (events ++ [e]) =
      eventsOn name calls events ++ if call.trait = name then [e] else [] := by
  unfold eventsOn
  rw [List.zip_append hlen.symm]
  by_cases h : call.trait = name
  · simp [h]
  · simp [h]

/-- Some call on the trait makes its registry. -/
def Created (name : String) (calls : List (Call α)) : Prop :=
  ∃ call ∈ calls, call.trait = name ∧ call.command.creates = true

theorem created_iff {name : String} {calls : List (Call α)} :
    Created name calls ↔ (commandsOn name calls).any Command.creates = true := by
  simp [Created, commandsOn, List.any_eq_true]

/-- The registry of a trait on its own, behind the calls on that trait. -/
def alone (settings : RegistrySettings) (name : String) (calls : List (Call α)) :
    Registry α × List (Crossref.Event α) :=
  (Registry.fresh settings name).run (commandsOn name calls)

/-! ## The state -/

/-- The catalog holds for each trait what its calls leave on a registry alone,
once one of them made it. -/
structure Follows (settings : RegistrySettings) (calls : List (Call α)) (c : Catalog α) : Prop where
  configured : c.settings = settings
  getOrNew : ∀ name, c.getOrNew name = (alone settings name calls).1
  present : ∀ name, (c.get? name).isSome = (commandsOn name calls).any Command.creates

theorem follows_fresh (settings : RegistrySettings) :
    Follows settings [] (fresh settings : Catalog α) where
  configured := rfl
  getOrNew _ := rfl
  present _ := rfl

/-- A trait without a registry stands where it would on a registry alone, so a
call goes to the same registry in either case. -/
theorem get?_step (c : Catalog α) (call : Call α) (name : String) :
    (c.step call).catalog.get? name =
      if call.trait = name then
        if call.command.creates || (c.get? name).isSome then
          some ((c.getOrNew name).step call.command).registry
        else none
      else c.get? name := by
  rw [step_eq]
  by_cases hname : call.trait = name
  · subst hname
    cases hcreates : call.command.creates with
    | true => simp [Step.map, get?_update]
    | false =>
        simp only [Bool.false_eq_true, if_false, update?, getOrNew, Bool.false_or, if_true]
        cases hget : c.get? call.trait with
        | none => simp [hget]
        | some r => simp [get?_set]
  · cases hcreates : call.command.creates with
    | true => simp [Step.map, get?_update, hname]
    | false =>
        simp only [Bool.false_eq_true, if_false, update?, if_neg hname]
        cases hget : c.get? call.trait with
        | none => rfl
        | some r => simp [get?_set, hname]

theorem alone_concat (settings : RegistrySettings) {name : String} (calls : List (Call α))
    {call : Call α} (hname : call.trait = name) :
    alone settings name (calls ++ [call]) =
      (((alone settings name calls).1.step call.command).registry,
        (alone settings name calls).2 ++ [(alone settings name calls).1.eventOf call.command]) := by
  unfold alone
  rw [commandsOn_concat, if_pos hname, Registry.run_append]
  rfl

theorem alone_concat_of_ne (settings : RegistrySettings) {name : String} (calls : List (Call α))
    {call : Call α} (hname : call.trait ≠ name) :
    alone settings name (calls ++ [call]) = alone settings name calls := by
  unfold alone
  rw [commandsOn_concat, if_neg hname, List.append_nil]

theorem getOrNew_of_get? {c : Catalog α} {name : String} {r : Registry α}
    (h : c.get? name = some r) : c.getOrNew name = r := by
  rw [getOrNew, h, Option.getD_some]

theorem getOrNew_of_none {c : Catalog α} {name : String} (h : c.get? name = none) :
    c.getOrNew name = .fresh c.settings name := by
  rw [getOrNew, h]
  rfl

/-- A call goes to the registry that the next call on its trait finds, whether
or not it is there yet. -/
theorem getOrNew_step (c : Catalog α) (call : Call α) (name : String) :
    (c.step call).catalog.getOrNew name =
      if call.trait = name then ((c.getOrNew name).step call.command).registry
      else c.getOrNew name := by
  have hget := get?_step c call name
  by_cases hname : call.trait = name
  · rw [if_pos hname] at hget ⊢
    by_cases hthere : call.command.creates || (c.get? name).isSome
    · rw [if_pos hthere] at hget
      exact getOrNew_of_get? hget
    · -- Nothing is there before the call, and nothing behind it.
      rw [if_neg hthere] at hget
      obtain ⟨hcreates, hnone⟩ : call.command.creates = false ∧ c.get? name = none := by
        simpa using hthere
      rw [getOrNew_of_none hget, getOrNew_of_none hnone, settings_step,
        (Registry.step_fresh c.settings name hcreates).1]
  · rw [if_neg hname] at hget ⊢
    simp only [Catalog.getOrNew, hget, settings_step]

/-- The calls on a trait reach its registry one after the other, wherever the
catalog starts. -/
theorem getOrNew_run (c : Catalog α) (calls : List (Call α)) (name : String) :
    (c.run calls).1.getOrNew name = ((c.getOrNew name).run (commandsOn name calls)).1 := by
  induction calls using List.reverseRecOn with
  | nil => rfl
  | append_singleton calls call ih =>
      rw [run_concat, getOrNew_step, commandsOn_concat, ih]
      split
      · rw [Registry.run_concat]
      · rw [List.append_nil]

theorem Follows.concat {settings : RegistrySettings} {calls : List (Call α)} {c : Catalog α}
    (h : Follows settings calls c) (call : Call α) :
    Follows settings (calls ++ [call]) (c.step call).catalog where
  configured := (settings_step c call).trans h.configured
  getOrNew name := by
    rw [getOrNew_step, h.getOrNew name]
    split
    · rename_i hname
      rw [alone_concat settings calls hname]
    · rename_i hname
      rw [alone_concat_of_ne settings calls hname]
  present name := by
    rw [get?_step, commandsOn_concat, List.any_append, ← h.present name]
    by_cases hname : call.trait = name
    · rw [if_pos hname, if_pos hname, List.any_cons, List.any_nil, Bool.or_false, Bool.or_comm]
      split
      · rename_i hthere
        exact hthere.symm
      · rename_i hthere
        exact (Bool.not_eq_true _ ▸ hthere).symm
    · simp [hname]

theorem follows_run (settings : RegistrySettings) (calls : List (Call α)) :
    Follows settings calls ((fresh settings).run calls).1 := by
  induction calls using List.reverseRecOn with
  | nil => exact follows_fresh settings
  | append_singleton calls call ih =>
      rw [run_concat]
      exact ih.concat call

/-! ## The events -/

/-- What a call finds without a registry: nobody answers. -/
def Event.absent : Event α := ⟨none, none⟩

def Event.present (e : Crossref.Event α) : Event α := ⟨some e.answer, e.delivery⟩

/-- The number of the calls in front of the one that makes the registry. -/
def early (cs : List (Command α)) : Nat := (cs.takeWhile fun c => !c.creates).length

/-- The events of calls on a catalog, from those of the same calls on a registry
alone: up to the call that makes the registry nobody answers. -/
def answered (cs : List (Command α)) (events : List (Crossref.Event α)) : List (Event α) :=
  List.replicate (early cs) .absent ++ (events.drop (early cs)).map .present

theorem early_le (cs : List (Command α)) : early cs ≤ cs.length :=
  (List.takeWhile_prefix _).length_le

theorem early_of_none {cs : List (Command α)} (h : cs.any Command.creates = false) :
    early cs = cs.length := by
  have hall : ∀ d ∈ cs, (!d.creates) = true := by simpa using h
  rw [early, List.takeWhile_eq_self_iff.mpr hall]

theorem early_concat_of_any {cs : List (Command α)} (h : cs.any Command.creates = true)
    (c : Command α) : early (cs ++ [c]) = early cs := by
  have hshort : (cs.takeWhile fun c => !c.creates).length ≠ cs.length := by
    intro heq
    obtain ⟨d, hd, hcreates⟩ := List.any_eq_true.mp h
    have hself := (List.takeWhile_prefix fun c : Command α => !c.creates).eq_of_length heq
    have hnot := List.takeWhile_eq_self_iff.mp hself d hd
    simp [hcreates] at hnot
  rw [early, List.takeWhile_append, if_neg hshort]
  rfl

theorem early_concat_of_none {cs : List (Command α)} (h : cs.any Command.creates = false)
    (c : Command α) : early (cs ++ [c]) = cs.length + if c.creates then 0 else 1 := by
  have hall : ∀ d ∈ cs, (!d.creates) = true := by simpa using h
  rw [early, List.takeWhile_append_of_pos hall, List.length_append]
  cases hc : c.creates <;> simp [hc]

theorem answered_concat {cs : List (Command α)} {events : List (Crossref.Event α)}
    (hlen : events.length = cs.length) (c : Command α) (e : Crossref.Event α) :
    answered (cs ++ [c]) (events ++ [e]) =
      answered cs events ++
        [if cs.any Command.creates || c.creates then .present e else .absent] := by
  unfold answered
  cases hany : cs.any Command.creates with
  | true =>
      have hle : early cs ≤ events.length := hlen ▸ early_le cs
      rw [early_concat_of_any hany, List.drop_append_of_le_length hle]
      simp
  | false =>
      rw [early_concat_of_none hany, early_of_none hany, ← hlen]
      cases c.creates with
      | true => simp
      | false => simp [List.replicate_succ']

theorem event_eq {settings : RegistrySettings} {calls : List (Call α)} {c : Catalog α}
    (h : Follows settings calls c) (call : Call α) :
    c.eventOf call =
      if (commandsOn call.trait calls).any Command.creates || call.command.creates then
        .present ((alone settings call.trait calls).1.eventOf call.command)
      else .absent := by
  rw [← h.present call.trait, ← h.getOrNew call.trait, eventOf, step_eq]
  cases hcreates : call.command.creates with
  | true => simp [Step.map, update, Event.present, Registry.eventOf]
  | false =>
      cases hget : c.get? call.trait with
      | none => simp [update?, hget, Event.absent]
      | some r => simp [update?, hget, Event.present, Registry.eventOf, getOrNew_of_get? hget]

theorem eventsOn_run (settings : RegistrySettings) (name : String) (calls : List (Call α)) :
    eventsOn name calls ((fresh settings).run calls).2 =
      answered (commandsOn name calls) (alone settings name calls).2 := by
  induction calls using List.reverseRecOn with
  | nil => rfl
  | append_singleton calls call ih =>
      rw [events_concat, eventsOn_concat name (length_events _ calls), ih, commandsOn_concat]
      by_cases hname : call.trait = name
      · subst hname
        have hlen : (alone settings call.trait calls).2.length =
            (commandsOn call.trait calls).length := Registry.length_events _ _
        rw [if_pos rfl, if_pos rfl, alone_concat settings calls rfl, answered_concat hlen,
          event_eq (follows_run settings calls)]
      · rw [if_neg hname, if_neg hname, alone_concat_of_ne settings calls hname, List.append_nil,
          List.append_nil]

/-- In front of the call that makes it, a registry alone delivers nothing either. -/
theorem deliveries_answered (settings : RegistrySettings) (label : String)
    (cs : List (Command α)) :
    (answered cs ((Registry.fresh settings label).run cs).2).map (·.delivery) =
      ((Registry.fresh settings label).run cs).2.map (·.delivery) := by
  induction cs using List.reverseRecOn with
  | nil => rfl
  | append_singleton cs c ih =>
      have hlen : ((Registry.fresh settings label).run cs).2.length = cs.length :=
        Registry.length_events _ cs
      rw [Registry.events_concat, answered_concat hlen, List.map_append, List.map_append, ih]
      congr 1
      split
      · rfl
      · rename_i hthere
        obtain ⟨hnone, hcreates⟩ : cs.any Command.creates = false ∧ c.creates = false := by
          simpa using hthere
        have hall : ∀ d ∈ cs, d.creates = false := by simpa using hnone
        have hdelivery := (Registry.step_fresh settings label hcreates).2
        rw [Registry.run_fresh settings label hall]
        exact congrArg (fun d => [d]) hdelivery.symm

/-- Every registry of a catalog is the one that the calls on its trait alone
leave on a fresh registry with its name for a label, and a trait has a registry
if and only if a merge or an attachment named it. The calls on a trait deliver
what they would deliver to that registry, and are answered as there from the
call on that makes it: before, nobody answers. The traits are listed by their
bytes, in increasing order. To look one up changes nothing, and none but a
merge or an attachment makes a registry or removes one. -/
theorem isolated_registries (settings : RegistrySettings) (calls : List (Call α)) :
    let run := (fresh settings : Catalog α).run calls
    (∀ name,
      let commands := commandsOn name calls
      let lone := (Registry.fresh settings name).run commands
      run.1.getOrNew name = lone.1 ∧
        (∀ r, run.1.get? name = some r ↔ Created name calls ∧ r = lone.1) ∧
        (name ∈ run.1.names ↔ Created name calls) ∧
        eventsOn name calls run.2 = answered commands lone.2 ∧
        (eventsOn name calls run.2).map (·.delivery) = lone.2.map (·.delivery) ∧
        (run.1.update? name fun r => { registry := r, answer := () }).catalog = run.1) ∧
      run.1.names.Pairwise (fun a b =>
        List.Lex (· < ·) (Text.encodeUtf8 a) (Text.encodeUtf8 b)) ∧
      ∀ call : Call α, call.command.creates = false →
        (run.1.step call).catalog.names = run.1.names := by
  intro run
  have h : Follows settings calls run.1 := follows_run settings calls
  have hthere : ∀ name, (run.1.get? name).isSome = true ↔ Created name calls := fun name => by
    rw [h.present name, created_iff]
  refine ⟨fun name => ⟨h.getOrNew name, fun r => ?_, (mem_names_iff run.1 name).trans (hthere name),
    eventsOn_run settings name calls, ?_, update?_read run.1 name⟩, ?_, fun call => names_step⟩
  · -- What is there is what `getOrNew` finds.
    have halone := h.getOrNew name
    rw [← hthere name]
    constructor
    · intro hr
      exact ⟨by rw [hr]; rfl, (getOrNew_of_get? hr).symm.trans halone⟩
    · rintro ⟨hsome, hr⟩
      obtain ⟨there, hget⟩ := Option.isSome_iff_exists.mp hsome
      rw [hget, hr, ← getOrNew_of_get? hget, halone]
      rfl
  · rw [eventsOn_run]
    exact deliveries_answered settings name _
  · exact List.Pairwise.imp (fun hlt => Text.lex_encodeUtf8 hlt) run.1.increasing

end Catalog

end Crossref
