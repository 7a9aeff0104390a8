import Crossref.Proofs.Registry.Observation

/-!
# What the log holds

The log is a bounded queue, into which warnings go one by one. What goes in is
decided by the calls: which lists a merge empties, and whether a consumer is
there when another one comes (`Registry.deserved`). What is in it is the newest
part of what was raised since somebody emptied it (`Registry.log_run`), as the
queue never grows beyond its capacity and drops its oldest warning when it is
full (`RegistrySettings.record_kept`).
-/

namespace Crossref

variable {α : Type}

/-! ## The queue -/

/-- What a log keeps of the warnings that were raised. -/
def RegistrySettings.kept (s : RegistrySettings) (raised : List Warning) : List Warning :=
  if s.recordWarnings && decide (0 < s.warningCapacity) then raised.rtake s.warningCapacity else []

namespace RegistrySettings

/-- The queue holds `kept raised`, so it is full exactly when that many warnings
were raised, and then its oldest one is no longer among the newest. -/
theorem record_kept (s : RegistrySettings) (raised : List Warning) (w : Warning) :
    s.record (s.kept raised) w = s.kept (raised ++ [w]) := by
  unfold record kept
  split
  · rename_i hkeeps
    simp only [Bool.and_eq_true, decide_eq_true_eq] at hkeeps
    have hlength : (raised.rtake s.warningCapacity).length =
        raised.length - (raised.length - s.warningCapacity) := List.length_drop
    by_cases hfull : s.warningCapacity ≤ raised.length
    · have hbehind : raised.length + 1 - s.warningCapacity =
          raised.length - s.warningCapacity + 1 := by omega
      rw [if_pos (by omega), List.rtake, List.tail_drop, List.rtake, List.length_append,
        List.length_singleton, hbehind, List.drop_append_of_le_length (by omega)]
    · have hroom : raised.length + 1 - s.warningCapacity = 0 := by omega
      have hall : raised.length - s.warningCapacity = 0 := by omega
      rw [if_neg (by omega), List.rtake, hall, List.rtake, List.length_append,
        List.length_singleton, hroom, List.drop_zero, List.drop_zero]
  · rfl

theorem warn_eq (s : RegistrySettings) (log : List Warning) (w : Warning) :
    s.warn log w = ([w].filter s.warnings.raises).foldl s.record log := by
  unfold warn
  cases hw : s.warnings.raises w with
  | true => rw [List.filter_cons_of_pos hw]; rfl
  | false => rw [List.filter_cons_of_neg (by simp [hw])]; rfl

theorem foldl_record_kept (s : RegistrySettings) (raised more : List Warning) :
    more.foldl s.record (s.kept raised) = s.kept (raised ++ more) := by
  induction more generalizing raised with
  | nil => rw [List.append_nil]; rfl
  | cons w more ih => rw [List.foldl_cons, record_kept, ih, List.append_assoc]; rfl

end RegistrySettings

/-! ## What is raised -/

/-- The warning for a unit whose list had descriptors before and is empty behind. -/
def emptied? (before behind : Index α) (key : String) : Option Warning :=
  match before.get? key, behind.get? key with
  | some (d :: ds), some [] => some (.emptiedUnit key (d :: ds).length)
  | _, _ => none

/-- The warnings that a call deserves, whatever kinds are enabled. -/
def Registry.deserved (r : Registry α) : Command α → List Warning
  | .merge table =>
    if table.isEmpty then [.emptyTable]
    else table.keys.filterMap (emptied? r.index (r.merge table).registry.index)
  | .attach _ => if r.hasConsumer then [.consumerReplaced] else []
  | .detach => []
  | .reset => []
  | .drainLog => []

/-- The call leaves nothing in the log. -/
def Command.emptiesLog : Command α → Bool
  | .reset => true
  | .drainLog => true
  | _ => false

namespace Registry

/-- The calls of a run, each with the registry that it finds. -/
def stages (r : Registry α) : List (Command α) → List (Registry α × Command α)
  | [] => []
  | c :: cs => (r, c) :: (r.step c).registry.stages cs

/-- The warnings raised in a run since the log was emptied, oldest first. -/
def raised (r : Registry α) (cs : List (Command α)) : List Warning :=
  (((r.stages cs).rtakeWhile fun m => !m.2.emptiesLog).flatMap fun m => m.1.deserved m.2).filter
    r.settings.warnings.raises

theorem stages_concat (r : Registry α) (cs : List (Command α)) (c : Command α) :
    r.stages (cs ++ [c]) = r.stages cs ++ [((r.run cs).1, c)] := by
  induction cs generalizing r with
  | nil => rfl
  | cons d cs ih => rw [List.cons_append, stages, ih, stages, List.cons_append, run]

theorem raised_concat (r : Registry α) (cs : List (Command α)) (c : Command α) :
    r.raised (cs ++ [c]) =
      if c.emptiesLog then []
      else r.raised cs ++ ((r.run cs).1.deserved c).filter r.settings.warnings.raises := by
  rw [raised, stages_concat, List.rtakeWhile_concat]
  cases c.emptiesLog <;> simp [raised]

/-- The report tells from the units what the lists before and behind tell. -/
theorem mergeWarnings_unitMerges (r : Registry α) (table : Index α) :
    mergeWarnings (r.index.unitMerges table) = r.deserved (.merge table) := by
  have hunit : ∀ e ∈ table.entries, (r.index.unitMerge e).warning? =
      emptied? r.index (r.merge table).registry.index e.1 := fun e he => by
    rw [index_merge, emptied?, Index.get?_insertAll_entries, Index.get?_of_mem he]
    obtain ⟨key, list⟩ := e
    simp only [UnitMerge.warning?, Index.unitMerge, Index.merge]
    cases r.index.get? key with
    | none => rfl
    | some previous => cases previous <;> cases list <;> simp
  have hunits : (r.index.unitMerges table).filterMap UnitMerge.warning? =
      table.keys.filterMap (emptied? r.index (r.merge table).registry.index) := by
    rw [Index.unitMerges, List.filterMap_map, Index.keys, List.filterMap_map]
    exact List.filterMap_congr hunit
  have hempty : (r.index.unitMerges table).isEmpty = table.isEmpty := List.isEmpty_map
  rw [mergeWarnings, hunits, hempty, deserved]
  split
  · rename_i hnone
    rw [Index.keys, List.isEmpty_iff.mp hnone]
    rfl
  · rfl

theorem log_step (r : Registry α) (c : Command α) :
    (r.step c).registry.log =
      if c.emptiesLog then []
      else ((r.deserved c).filter r.settings.warnings.raises).foldl r.settings.record r.log := by
  cases c with
  | merge table =>
      simp only [step, Step.map, merge_eq, mergeWarnings_unitMerges]
      cases r.slot <;> rfl
  | attach consumer =>
      obtain ⟨settings, label, index, slot, log, deliveries⟩ := r
      cases slot with
      | empty => rfl
      | buffered => rfl
      | attached other => exact settings.warn_eq log .consumerReplaced
  | detach => simp only [step, Step.map, detach]; cases r.slot <;> rfl
  | reset => rfl
  | drainLog => rfl

theorem settings_run (r : Registry α) (cs : List (Command α)) :
    (r.run cs).1.settings = r.settings := by
  induction cs generalizing r with
  | nil => rfl
  | cons c cs ih => rw [run, ih, settings_step]

theorem log_run (settings : RegistrySettings) (label : String) (cs : List (Command α)) :
    let start : Registry α := fresh settings label
    (start.run cs).1.log = settings.kept (start.raised cs) := by
  intro start
  induction cs using List.reverseRecOn with
  | nil => simp [RegistrySettings.kept, run, start, fresh, raised, stages]
  | append_singleton cs c ih =>
      have hsettings : (start.run cs).1.settings = settings := settings_run start cs
      rw [run_concat, log_step, hsettings, raised_concat, ih]
      split
      · simp [RegistrySettings.kept]
      · exact settings.foldl_record_kept _ _

theorem warnings_merge (r : Registry α) (table : Index α) :
    (r.merge table).answer.warnings =
      ((r.deserved (.merge table)).filter r.settings.warnings.raises).length := by
  simp only [merge_eq, mergeWarnings_unitMerges]
  cases r.slot <;> rfl

/-- In any run the log lists the newest of the warnings that were raised since
somebody took the log or reset the registry, oldest first and as many as its
capacity allows, and none if nothing is to be recorded or nothing fits. Who
takes the log is handed that list. The report of a merge counts the warnings
that its own merge raises, recorded or not. -/
theorem log_eq_newest_raised (settings : RegistrySettings) (label : String)
    (cs : List (Command α)) :
    let start : Registry α := fresh settings label
    let r := (start.run cs).1
    let raised := start.raised cs
    r.log =
        (if settings.recordWarnings = false ∨ settings.warningCapacity = 0 then []
          else raised.drop (raised.length - min settings.warningCapacity raised.length)) ∧
      (r.step .drainLog).answer = .warnings r.log ∧
      ∀ table : Index α, ∃ report, (r.step (.merge table)).answer = .report report ∧
        report.warnings =
          ((r.deserved (.merge table)).filter settings.warnings.raises).length := by
  intro start r raised
  have hsettings : r.settings = settings := settings_run start cs
  have hlog : r.log = settings.kept raised := log_run settings label cs
  refine ⟨?_, rfl, fun table => ⟨(r.merge table).answer, rfl, ?_⟩⟩
  · have hnewest : raised.length - min settings.warningCapacity raised.length =
        raised.length - settings.warningCapacity := by omega
    rw [hlog, RegistrySettings.kept, hnewest]
    by_cases hkeeps : settings.recordWarnings = false ∨ settings.warningCapacity = 0
    · rw [if_pos hkeeps, if_neg]
      rcases hkeeps with h | h <;> simp [h]
    · rw [if_neg hkeeps, if_pos, List.rtake]
      rw [not_or, Bool.not_eq_false] at hkeeps
      simp [hkeeps.1, Nat.pos_of_ne_zero hkeeps.2]
  · rw [warnings_merge, hsettings]

end Registry

end Crossref
