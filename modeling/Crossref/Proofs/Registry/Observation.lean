import Crossref.Proofs.Registry.History

/-!
# What a caller sees of a run

A caller sees what each call answers and delivers, and may ask questions at any
time. Questions leave a registry as it is, so it is enough to know the answers
to all of them behind each call: that is the watch over a run (`Registry.watch`),
and its events are those of the run (`Registry.map_fst_watch`).

A registry that was reset cannot be told from a new one with its settings and
its label (`watch_reset`), since no call changes these two and a reset leaves
nothing else. Registries with different settings can be told apart by what they
say of warnings, and by nothing else (`watch_unwarned`): the settings decide
which warnings are raised and kept, and no call reads the log to decide what
becomes of the index, the slot or the counter (`Registry.Alike.step`).
-/

namespace Crossref

variable {α : Type}

/-- The answers to all questions about a registry. Those about the units are
answered by the index. -/
structure Registry.View (α : Type) where
  label : String
  shape : SlotShape
  hasConsumer : Bool
  pending : Option (Index α)
  index : Index α
  deliveries : Nat
  warnings : List Warning
  description : String
deriving DecidableEq

namespace Registry

def view (r : Registry α) : View α where
  label := r.label
  shape := r.shape
  hasConsumer := r.hasConsumer
  pending := r.pending?
  index := r.index
  deliveries := r.deliveries
  warnings := r.log
  description := r.describe

/-- A run as its caller sees it: what each call did, and all answers behind it. -/
def watch (r : Registry α) : List (Command α) → List (Event α × View α)
  | [] => []
  | c :: cs => (r.eventOf c, (r.step c).registry.view) :: (r.step c).registry.watch cs

/-- A watch shows what a run does, call by call. -/
theorem map_fst_watch (r : Registry α) (cs : List (Command α)) :
    (r.watch cs).map Prod.fst = (r.run cs).2 := by
  induction cs generalizing r with
  | nil => rfl
  | cons c cs ih => rw [watch, List.map_cons, ih, run, eventOf]

theorem watch_append (r : Registry α) (cs ds : List (Command α)) :
    r.watch (cs ++ ds) = r.watch cs ++ (r.run cs).1.watch ds := by
  induction cs generalizing r with
  | nil => rfl
  | cons c cs ih => rw [List.cons_append, watch, ih, watch, run, List.cons_append]

/-! ## Starting over -/

theorem settings_step (r : Registry α) (c : Command α) :
    (r.step c).registry.settings = r.settings := by
  cases c with
  | merge table => simp only [step, Step.map, merge_eq]; split <;> rfl
  | attach consumer => simp only [step, Step.map, attach]; split <;> rfl
  | detach => simp only [step, Step.map, detach]; split <;> rfl
  | reset => rfl
  | drainLog => rfl

theorem label_step (r : Registry α) (c : Command α) : (r.step c).registry.label = r.label := by
  cases c with
  | merge table => simp only [step, Step.map, merge_eq]; split <;> rfl
  | attach consumer => simp only [step, Step.map, attach]; split <;> rfl
  | detach => simp only [step, Step.map, detach]; split <;> rfl
  | reset => rfl
  | drainLog => rfl

/-- No run changes what a reset keeps. -/
theorem reset_run (r : Registry α) (cs : List (Command α)) :
    (r.run cs).1.reset = fresh r.settings r.label := by
  induction cs generalizing r with
  | nil => rfl
  | cons c cs ih => rw [run, ih, settings_step, label_step]

/-- A reset starts over. Whatever happened before it, a run behind it answers,
delivers and shows call by call what the same run on a new registry with the
same settings and label does, and the two end in the same registry. -/
theorem watch_reset (settings : RegistrySettings) (label : String)
    (before after : List (Command α)) :
    let start : Registry α := fresh settings label
    start.watch (before ++ .reset :: after) =
        start.watch before ++ (⟨.done, none⟩, start.view) :: start.watch after ∧
      (start.run (before ++ .reset :: after)).1 = (start.run after).1 := by
  intro start
  have hreset : ((start.run before).1.step .reset).registry = start := reset_run start before
  constructor
  · rw [watch_append, watch, hreset]
    rfl
  · rw [run_append, run, hreset]

end Registry

/-! ## Leaving warnings out -/

/-- The answer without what it tells about warnings. -/
def Answer.unwarned : Answer → Answer
  | .report r => .report { r with warnings := 0 }
  | .warnings _ => .warnings []
  | .attached outcome => .attached outcome
  | .detached removed => .detached removed
  | .done => .done

def Event.unwarned (e : Event α) : Event α := ⟨e.answer.unwarned, e.delivery⟩

def Registry.View.unwarned (v : View α) : View α := { v with warnings := [] }

/-- The answer of a call but for warnings, where the index before it is `index`. -/
def Slot.answer (index : Index α) : Slot → Command α → Answer
  | .attached _, .merge table => .report ⟨index.unitMerges table, .delivered, 0⟩
  | _, .merge table => .report ⟨index.unitMerges table, .buffered, 0⟩
  | .empty, .attach _ => .attached .waiting
  | .buffered, .attach _ => .attached .delivered
  | .attached _, .attach _ => .attached .replaced
  | slot, .detach => .detached (slot.shape == .attached)
  | _, .reset => .done
  | _, .drainLog => .warnings []

namespace Registry

theorem unwarned_answer_step (r : Registry α) (c : Command α) :
    (r.step c).answer.unwarned = r.slot.answer r.index c := by
  cases c with
  | merge table => simp only [step, Step.map, merge_eq]; cases r.slot <;> rfl
  | attach consumer => simp only [step, Step.map, attach]; cases r.slot <;> rfl
  | detach => simp only [step, Step.map, detach]; cases r.slot <;> rfl
  | reset => cases r.slot <;> rfl
  | drainLog => cases r.slot <;> rfl

/-- The registries differ in their settings and in their logs at most. -/
structure Alike (r r' : Registry α) : Prop where
  label : r.label = r'.label
  index : r.index = r'.index
  slot : r.slot = r'.slot
  deliveries : r.deliveries = r'.deliveries

variable {r r' : Registry α}

/-- Registries that are alike make the same delivery and give the same answer,
warnings apart. -/
theorem Alike.event (h : Alike r r') (c : Command α) :
    (r.eventOf c).unwarned = (r'.eventOf c).unwarned := by
  simp only [Event.unwarned, eventOf, unwarned_answer_step, delivery_step, h.slot, h.index]

/-- No call lets a difference in settings or logs reach anything else. -/
theorem Alike.step (h : Alike r r') (c : Command α) :
    Alike (r.step c).registry (r'.step c).registry where
  label := by rw [label_step, label_step, h.label]
  index := by rw [index_step, index_step, h.index]
  slot := by rw [slot_step, slot_step, h.slot]
  deliveries := by
    rw [deliveries_step, deliveries_step, delivery_step, delivery_step, h.slot, h.index,
      h.deliveries]

/-- No question but that for the warnings reads the settings or the log. -/
theorem Alike.view (h : Alike r r') : r.view.unwarned = r'.view.unwarned := by
  obtain ⟨settings, label, index, slot, log, deliveries⟩ := r
  obtain ⟨settings', label', index', slot', log', deliveries'⟩ := r'
  obtain ⟨rfl, rfl, rfl, rfl⟩ := h
  rfl

theorem Alike.watch (h : Alike r r') (cs : List (Command α)) :
    (r.watch cs).map (Prod.map Event.unwarned View.unwarned) =
      (r'.watch cs).map (Prod.map Event.unwarned View.unwarned) := by
  induction cs generalizing r r' with
  | nil => rfl
  | cons c cs ih =>
      have hcall := h.event c
      have hbehind := (h.step c).view
      simp only [Registry.watch, List.map_cons, Prod.map, hcall, hbehind, ih (h.step c)]

/-- Warnings steer nothing. Under any two settings a run answers, delivers and
shows the same call by call, apart from the number of warnings in its reports and
from the warnings that it lists or hands over. -/
theorem watch_unwarned (settings settings' : RegistrySettings) (label : String)
    (cs : List (Command α)) :
    let start : Registry α := fresh settings label
    let start' : Registry α := fresh settings' label
    (start.watch cs).map (Prod.map Event.unwarned View.unwarned) =
      (start'.watch cs).map (Prod.map Event.unwarned View.unwarned) := by
  intro start start'
  have hstart : Alike start start' := ⟨rfl, rfl, rfl, rfl⟩
  exact hstart.watch cs

end Registry

end Crossref
