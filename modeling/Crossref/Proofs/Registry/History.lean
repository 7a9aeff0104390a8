import Mathlib.Data.List.DropRight
import Mathlib.Data.List.Induction
import Crossref.Registry.Run
import Crossref.Proofs.Registry.Merging

/-!
# What a run leaves behind

A call moves the slot by a fixed table (`Slot.after`), changes the index in one
of three ways (`Command.indexAfter`) and makes at most one delivery
(`Slot.delivery?`). None of them looks at the settings. The facts on whole runs
follow from these by induction from the last call: the slot, the index and the
number of deliveries are read off the history of the calls
(`Registry.index_run`, `Registry.deliveries_run`).
-/

namespace Crossref

variable {α : Type}

/-! ## One call -/

/-- A registry on which nothing was called yet. -/
def Registry.fresh (settings : RegistrySettings) (label : String) : Registry α :=
  { settings := settings, label := label }

def Command.isReset : Command α → Bool
  | .reset => true
  | _ => false

def Command.isMerge : Command α → Bool
  | .merge _ => true
  | _ => false

/-- The pairs that a call merges. -/
def Command.pairs : Command α → List (String × List α)
  | .merge table => table.entries
  | _ => []

/-- The index once the call is done. -/
def Command.indexAfter (index : Index α) (c : Command α) : Index α :=
  if c.isReset then ∅ else index.insertAll c.pairs

/-- The slot once the call is done. -/
def Slot.after : Slot → Command α → Slot
  | .attached consumer, .merge _ => .attached consumer
  | _, .merge _ => .buffered
  | _, .attach consumer => .attached consumer
  | .attached _, .detach => .empty
  | slot, .detach => slot
  | _, .reset => .empty
  | slot, .drainLog => slot

/-- The delivery within the call, where the index before it is `index`. -/
def Slot.delivery? (index : Index α) : Slot → Command α → Option (Delivery α)
  | .attached consumer, .merge table => some ⟨consumer, index.insertAll table.entries⟩
  | .buffered, .attach consumer => some ⟨consumer, index⟩
  | _, _ => none

namespace Registry

theorem index_step (r : Registry α) (c : Command α) :
    (r.step c).registry.index = c.indexAfter r.index := by
  cases c with
  | merge table => simp only [step, Step.map, merge_eq]; split <;> rfl
  | attach consumer => simp only [step, Step.map, attach]; split <;> rfl
  | detach => simp only [step, Step.map, detach]; split <;> rfl
  | reset => rfl
  | drainLog => rfl

theorem slot_step (r : Registry α) (c : Command α) :
    (r.step c).registry.slot = r.slot.after c := by
  cases c with
  | merge table => simp only [step, Step.map, merge_eq]; cases r.slot <;> simp [Slot.after]
  | attach consumer => simp only [step, Step.map, attach]; cases r.slot <;> rfl
  | detach => simp only [step, Step.map, detach]; cases hs : r.slot <;> simp [Slot.after, hs]
  | reset => cases r.slot <;> rfl
  | drainLog => cases hs : r.slot <;> exact hs

theorem delivery_step (r : Registry α) (c : Command α) :
    (r.step c).delivery = r.slot.delivery? r.index c := by
  cases c with
  | merge table => simp only [step, Step.map, merge_eq]; cases r.slot <;> rfl
  | attach consumer => simp only [step, Step.map, attach]; cases r.slot <;> rfl
  | detach => simp only [step, Step.map, detach]; cases r.slot <;> rfl
  | reset => cases r.slot <;> rfl
  | drainLog => cases r.slot <;> rfl

/-- A call that delivers is counted, a reset counts anew. -/
theorem deliveries_step (r : Registry α) (c : Command α) :
    (r.step c).registry.deliveries =
      if c.isReset then 0 else r.deliveries + (r.step c).delivery.toList.length := by
  cases c with
  | merge table => simp only [step, Step.map, merge_eq]; split <;> rfl
  | attach consumer => simp only [step, Step.map, attach]; split <;> rfl
  | detach => simp only [step, Step.map, detach]; split <;> rfl
  | reset => rfl
  | drainLog => rfl

/-! ## Runs, from their last call -/

theorem run_append (r : Registry α) (cs ds : List (Command α)) :
    r.run (cs ++ ds) =
      (((r.run cs).1.run ds).1, (r.run cs).2 ++ ((r.run cs).1.run ds).2) := by
  induction cs generalizing r with
  | nil => rfl
  | cons c cs ih => rw [List.cons_append, run, run, ih]; rfl

theorem length_events (r : Registry α) (cs : List (Command α)) :
    (r.run cs).2.length = cs.length := by
  induction cs generalizing r with
  | nil => rfl
  | cons c cs ih => rw [run, List.length_cons, List.length_cons, ih]

/-- The event of a call. -/
def eventOf (r : Registry α) (c : Command α) : Event α :=
  ⟨(r.step c).answer, (r.step c).delivery⟩

theorem run_concat (r : Registry α) (cs : List (Command α)) (c : Command α) :
    (r.run (cs ++ [c])).1 = ((r.run cs).1.step c).registry := by
  rw [run_append]
  rfl

theorem events_concat (r : Registry α) (cs : List (Command α)) (c : Command α) :
    (r.run (cs ++ [c])).2 = (r.run cs).2 ++ [(r.run cs).1.eventOf c] := by
  rw [run_append]
  rfl

/-! ## Histories -/

/-- The calls of a run, each with what it did. -/
def history (r : Registry α) (cs : List (Command α)) : List (Command α × Event α) :=
  cs.zip (r.run cs).2

theorem history_concat (r : Registry α) (cs : List (Command α)) (c : Command α) :
    r.history (cs ++ [c]) = r.history cs ++ [(c, (r.run cs).1.eventOf c)] := by
  rw [history, events_concat, List.zip_append (length_events r cs).symm]
  rfl

end Registry

/-- The part of a history behind its last reset. -/
def sinceReset (h : List (Command α × Event α)) : List (Command α × Event α) :=
  h.rtakeWhile fun m => !m.1.isReset

/-- The deliveries of a history, in their order. -/
def deliveriesIn (h : List (Command α × Event α)) : List (Delivery α) :=
  h.filterMap fun m => m.2.delivery

theorem sinceReset_concat (h : List (Command α × Event α)) (m : Command α × Event α) :
    sinceReset (h ++ [m]) = if m.1.isReset then [] else sinceReset h ++ [m] := by
  rw [sinceReset, List.rtakeWhile_concat]
  cases m.1.isReset <;> rfl

theorem deliveriesIn_concat (h : List (Command α × Event α)) (m : Command α × Event α) :
    deliveriesIn (h ++ [m]) = deliveriesIn h ++ m.2.delivery.toList := by
  rw [deliveriesIn, List.filterMap_append]
  cases hd : m.2.delivery <;> simp [deliveriesIn, hd]

namespace Registry

/-- The index holds what was merged since the last reset, inserted in its order. -/
theorem index_run (settings : RegistrySettings) (label : String) (cs : List (Command α)) :
    ((fresh settings label).run cs).1.index =
      .ofList ((sinceReset ((fresh settings label).history cs)).flatMap fun m => m.1.pairs) := by
  induction cs using List.reverseRecOn with
  | nil => rfl
  | append_singleton cs c ih =>
      rw [run_concat, index_step, Command.indexAfter, ih, history_concat, sinceReset_concat]
      split
      · rfl
      · rw [List.flatMap_append, Index.ofList, Index.ofList, Index.insertAll_append,
          List.flatMap_singleton]

/-- The counter counts the deliveries since the last reset. -/
theorem deliveries_run (settings : RegistrySettings) (label : String)
    (cs : List (Command α)) :
    ((fresh settings label).run cs).1.deliveries =
      (deliveriesIn (sinceReset ((fresh settings label).history cs))).length := by
  induction cs using List.reverseRecOn with
  | nil => rfl
  | append_singleton cs c ih =>
      rw [run_concat, deliveries_step, ih, history_concat, sinceReset_concat]
      split
      · rfl
      · rw [deliveriesIn_concat, List.length_append]
        rfl

end Registry

end Crossref
