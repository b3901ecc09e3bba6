-- The sync lifecycle of iOS (`SyncController.swift`): a loop is started and cancelled with the
-- app, through the handle of its task. Every method is on the main actor, and the tail of a task
-- runs there as well, at some moment after the loop has ended.
import PigeonMobile.HandleSlot
import Mathlib.Data.List.Basic
import Mathlib.Data.List.Induction

namespace PigeonMobile

variable {C O E Err : Type}

/-- The body of a task: the loop, what follows it before the `await`, and the end. -/
inductive TaskPhase where
  | running
  | ending
  | done
deriving DecidableEq

/-- A task, with what it captured. -/
structure LoopTask (C O E : Type) where
  client : C
  observer : O
  onEnded : Option E
  cancelled : Bool
  phase : TaskPhase

/-- What `runSync` comes to. -/
inductive LoopResult (Err : Type) where
  | returned
  | cancellation
  | failed (err : Err)

def LoopTask.cancel (t : LoopTask C O E) : LoopTask C O E := { t with cancelled := true }

/-- An uncancelled task that has not come to its end. -/
def LoopTask.Live (t : LoopTask C O E) : Prop := t.cancelled = false ∧ t.phase ≠ .done

/-- The call of `onEnded`, where the task makes one. -/
def LoopTask.report (t : LoopTask C O E) : LoopResult Err → List (E × Err)
  | .returned => []
  | .cancellation => []
  | .failed err =>
    match t.onEnded with
    | some onEnded => if t.cancelled then [] else [(onEnded, err)]
    | none => []

/-- The controller, with every task it has started and the calls of `onEnded`. A handle is the
place of its task. -/
structure SyncController (C O E Err : Type) where
  client : Option C
  observer : Option O
  onEnded : Option E
  isActive : Bool
  task : Option Nat
  tasks : List (LoopTask C O E)
  reported : List (E × Err)

namespace SyncController

def init : SyncController C O E Err := ⟨none, none, none, false, none, [], []⟩

def stop (s : SyncController C O E Err) : SyncController C O E Err :=
  match s.task with
  | none => s
  | some i => { s with tasks := s.tasks.modify i LoopTask.cancel, task := none }

/-- `task = Task { … }` of `reconcile`. -/
def start (s : SyncController C O E Err) (client : C) (observer : O) : SyncController C O E Err :=
  { s with
    task := some s.tasks.length
    tasks := s.tasks ++ [⟨client, observer, s.onEnded, false, .running⟩] }

def reconcile (s : SyncController C O E Err) : SyncController C O E Err :=
  match s.isActive, s.client, s.observer with
  | true, some client, some observer =>
    match s.task with
    | some _ => s -- already running, whatever it was started with
    | none => s.start client observer
  | _, _, _ => s.stop

def setClient (s : SyncController C O E Err) (client : Option C) (observer : Option O)
    (onEnded : Option E) : SyncController C O E Err :=
  { s with client := client, observer := observer, onEnded := onEnded }.reconcile

def setActive (s : SyncController C O E Err) (active : Bool) : SyncController C O E Err :=
  if s.isActive = active then s else { s with isActive := active }.reconcile

def clearTaskIfCurrent (s : SyncController C O E Err) : SyncController C O E Err :=
  { s with task := none }

/-- `runSync` of the task `i` ends, and the task goes on to the `await`. -/
def loopEnds (s : SyncController C O E Err) (i : Nat) (result : LoopResult Err) :
    SyncController C O E Err :=
  match s.tasks[i]? with
  | none => s
  | some t =>
    if t.phase = .running then
      { s with
        tasks := s.tasks.modify i (fun t => { t with phase := .ending })
        reported := s.reported ++ t.report result }
    else s

/-- The last line of the task `i`, while the controller is there. -/
def taskEnds (s : SyncController C O E Err) (i : Nat) : SyncController C O E Err :=
  match s.tasks[i]? with
  | none => s
  | some t =>
    if t.phase = .ending then
      { s with tasks := s.tasks.modify i (fun t => { t with phase := .done }) }.clearTaskIfCurrent
    else s

end SyncController

/-- What happens on the main actor: a call, or a task that goes on. -/
inductive MainAct (C O E Err : Type) where
  | setClient (client : Option C) (observer : Option O) (onEnded : Option E)
  | setActive (active : Bool)
  | stop
  | loopEnds (i : Nat) (result : LoopResult Err)
  | taskEnds (i : Nat)

namespace SyncController

def step (s : SyncController C O E Err) : MainAct C O E Err → SyncController C O E Err
  | .setClient client observer onEnded => s.setClient client observer onEnded
  | .setActive active => s.setActive active
  | .stop => s.stop
  | .loopEnds i result => s.loopEnds i result
  | .taskEnds i => s.taskEnds i

def run (acts : List (MainAct C O E Err)) : SyncController C O E Err := acts.foldl step init

@[simp] theorem run_concat (acts : List (MainAct C O E Err)) (act : MainAct C O E Err) :
    run (acts ++ [act]) = (run acts).step act := List.foldl_concat step init act acts

end SyncController

/-! ## The handle is a slot -/

namespace SyncController

/-- The handle, and the loops that nothing has cancelled. -/
def slot (s : SyncController C O E Err) : HandleSlot.Slot Nat :=
  ⟨s.task, {i | ∃ t, s.tasks[i]? = some t ∧ t.Live}⟩

/-- The task `i` stands before its last line. -/
def Ending (s : SyncController C O E Err) (i : Nat) : Prop :=
  ∃ t, s.tasks[i]? = some t ∧ t.phase = .ending

theorem live_modify (tasks : List (LoopTask C O E)) (i j : Nat)
    (f : LoopTask C O E → LoopTask C O E) :
    (∃ u, (tasks.modify i f)[j]? = some u ∧ u.Live) ↔
      ∃ t, tasks[j]? = some t ∧ (if i = j then f t else t).Live := by
  rw [List.getElem?_modify]
  cases tasks[j]? with
  | none => simp
  | some t => simp

theorem not_live_cancel (t : LoopTask C O E) : ¬ t.cancel.Live := by
  intro h
  cases h.1

theorem slot_stop (s : SyncController C O E Err) : s.stop.slot = s.slot.revoke := by
  unfold stop
  cases htask : s.task with
  | none =>
    unfold slot HandleSlot.Slot.revoke
    simp [htask]
  | some i =>
    unfold slot HandleSlot.Slot.revoke
    congr 1
    ext j
    show (∃ u, (s.tasks.modify i LoopTask.cancel)[j]? = some u ∧ u.Live) ↔
      (∃ t, s.tasks[j]? = some t ∧ t.Live) ∧ s.task ≠ some j
    rw [live_modify, htask]
    by_cases hij : i = j
    · simp [hij, not_live_cancel]
    · simp [hij]

theorem slot_start (s : SyncController C O E Err) (client : C) (observer : O) :
    (s.start client observer).slot = s.slot.spawn s.tasks.length := by
  unfold slot HandleSlot.Slot.spawn start
  congr 1
  ext j
  rw [Set.mem_insert_iff]
  show (∃ t, (s.tasks ++ [_])[j]? = some t ∧ t.Live) ↔
    j = s.tasks.length ∨ ∃ t, s.tasks[j]? = some t ∧ t.Live
  by_cases hlt : j < s.tasks.length
  · rw [List.getElem?_append_left hlt, or_iff_right (by omega)]
  · rw [List.getElem?_append_right (by omega),
      List.getElem?_eq_none (by omega : s.tasks.length ≤ j)]
    by_cases heq : j = s.tasks.length
    · simp [heq, LoopTask.Live]
    · simp [heq, List.getElem?_eq_none (show [_].length ≤ j - s.tasks.length by simp; omega)]

theorem slot_loopEnds (s : SyncController C O E Err) (i : Nat) (result : LoopResult Err) :
    (s.loopEnds i result).slot = s.slot := by
  unfold loopEnds
  cases hi : s.tasks[i]? with
  | none => rfl
  | some t =>
    by_cases hphase : t.phase = .running
    · simp only [hphase, if_true]
      unfold slot
      congr 1
      ext j
      show (∃ u, (s.tasks.modify i _)[j]? = some u ∧ u.Live) ↔ ∃ t, s.tasks[j]? = some t ∧ t.Live
      rw [live_modify]
      by_cases hij : i = j
      · simp [← hij, hi, LoopTask.Live, hphase]
      · simp [hij]
    · simp only [hphase, if_false]

theorem taskEnds_of_not_ending {s : SyncController C O E Err} {i : Nat} (h : ¬ s.Ending i) :
    s.taskEnds i = s := by
  unfold taskEnds
  cases hi : s.tasks[i]? with
  | none => rfl
  | some t => exact if_neg (fun hphase => h ⟨t, hi, hphase⟩)

theorem taskEnds_of_ending {s : SyncController C O E Err} {i : Nat} (h : s.Ending i) :
    s.taskEnds i = { s with
      tasks := s.tasks.modify i (fun t => { t with phase := .done })
      task := none } := by
  obtain ⟨t, hi, hphase⟩ := h
  unfold taskEnds
  simp only [hi, hphase, if_true]
  rfl

theorem slot_taskEnds {s : SyncController C O E Err} {i : Nat} (h : s.Ending i) :
    (s.taskEnds i).slot = s.slot.finish i := by
  rw [taskEnds_of_ending h]
  unfold slot HandleSlot.Slot.finish
  congr 1
  ext j
  show (∃ u, (s.tasks.modify i _)[j]? = some u ∧ u.Live) ↔
    (∃ t, s.tasks[j]? = some t ∧ t.Live) ∧ j ≠ i
  rw [live_modify]
  by_cases hij : i = j
  · simp [hij, LoopTask.Live]
  · simp [hij, Ne.symm hij]

/-! ## One step -/

/-- A loop is wanted. -/
def ShouldRun (s : SyncController C O E Err) : Prop :=
  s.isActive = true ∧ s.client ≠ none ∧ s.observer ≠ none

theorem reconcile_held {s : SyncController C O E Err} (h : s.ShouldRun) {i : Nat}
    (htask : s.task = some i) : s.reconcile = s := by
  obtain ⟨hactive, hclient, hobserver⟩ := h
  obtain ⟨client, hclient⟩ := Option.ne_none_iff_exists'.mp hclient
  obtain ⟨observer, hobserver⟩ := Option.ne_none_iff_exists'.mp hobserver
  unfold reconcile
  simp only [hactive, hclient, hobserver, htask]

theorem reconcile_start {s : SyncController C O E Err} {client : C} {observer : O}
    (hactive : s.isActive = true) (hclient : s.client = some client)
    (hobserver : s.observer = some observer) (htask : s.task = none) :
    s.reconcile = s.start client observer := by
  unfold reconcile
  simp only [hactive, hclient, hobserver, htask]

theorem reconcile_stop {s : SyncController C O E Err} (h : ¬ s.ShouldRun) :
    s.reconcile = s.stop := by
  unfold reconcile
  split
  · rename_i client observer hactive hclient hobserver
    refine absurd ⟨hactive, ?_, ?_⟩ h
    · rw [hclient]
      exact Option.some_ne_none client
    · rw [hobserver]
      exact Option.some_ne_none observer
  · rfl

/-- What `reconcile` does: nothing, a start, or a stop. -/
theorem reconcile_cases (s : SyncController C O E Err) :
    (s.ShouldRun ∧ (∃ i, s.task = some i) ∧ s.reconcile = s) ∨
    (∃ client observer, s.isActive = true ∧ s.client = some client ∧ s.observer = some observer ∧
      s.task = none ∧ s.reconcile = s.start client observer) ∨
    (¬ s.ShouldRun ∧ s.reconcile = s.stop) := by
  by_cases h : s.ShouldRun
  · cases htask : s.task with
    | some i => exact .inl ⟨h, ⟨i, rfl⟩, reconcile_held h htask⟩
    | none =>
      obtain ⟨client, hclient⟩ := Option.ne_none_iff_exists'.mp h.2.1
      obtain ⟨observer, hobserver⟩ := Option.ne_none_iff_exists'.mp h.2.2
      exact .inr (.inl ⟨client, observer, h.1, hclient, hobserver, rfl,
        reconcile_start h.1 hclient hobserver htask⟩)
  · exact .inr (.inr ⟨h, reconcile_stop h⟩)

theorem stop_task (s : SyncController C O E Err) : s.stop.task = none := by
  unfold stop
  cases htask : s.task with
  | none => exact htask
  | some i => rfl

/-- What the calls have set. -/
def asked (s : SyncController C O E Err) : Option C × Option O × Bool :=
  (s.client, s.observer, s.isActive)

theorem stop_asked (s : SyncController C O E Err) : s.stop.asked = s.asked := by
  unfold stop
  split <;> rfl

theorem reconcile_asked (s : SyncController C O E Err) : s.reconcile.asked = s.asked := by
  obtain ⟨-, -, heq⟩ | ⟨client, observer, -, -, -, -, heq⟩ | ⟨-, heq⟩ := reconcile_cases s
  · rw [heq]
  · rw [heq]
    rfl
  · rw [heq, stop_asked]

theorem loopEnds_asked (s : SyncController C O E Err) (i : Nat) (result : LoopResult Err) :
    (s.loopEnds i result).asked = s.asked := by
  unfold loopEnds
  split
  · rfl
  · split <;> rfl

theorem taskEnds_asked (s : SyncController C O E Err) (i : Nat) :
    (s.taskEnds i).asked = s.asked := by
  unfold taskEnds
  split
  · rfl
  · split <;> rfl

theorem loopEnds_task (s : SyncController C O E Err) (i : Nat) (result : LoopResult Err) :
    (s.loopEnds i result).task = s.task := congrArg HandleSlot.Slot.held (slot_loopEnds s i result)

/-- What an act does to the handle and the loops. -/
inductive Moves (s s' : SyncController C O E Err) : MainAct C O E Err → Prop where
  | same {act} (h : s'.slot = s.slot) : Moves s s' act
  | stops {act} (h : s'.slot = s.slot.revoke) : Moves s s' act
  | starts {act} (hnone : s.task = none) (h : s'.slot = s.slot.spawn s.tasks.length) :
    Moves s s' act
  | ends {i} (hending : s.Ending i) (h : s'.slot = s.slot.finish i) : Moves s s' (.taskEnds i)

theorem reconcile_moves (s s' : SyncController C O E Err) (htask : s'.task = s.task)
    (htasks : s'.tasks = s.tasks) (act : MainAct C O E Err) : Moves s s'.reconcile act := by
  have hslot : s'.slot = s.slot := by
    unfold slot
    rw [htask, htasks]
  obtain ⟨-, -, heq⟩ | ⟨client, observer, -, -, -, hnone, heq⟩ | ⟨-, heq⟩ := reconcile_cases s'
  · exact .same (by rw [heq, hslot])
  · exact .starts (htask.symm.trans hnone) (by rw [heq, slot_start, hslot, htasks])
  · exact .stops (by rw [heq, slot_stop, hslot])

theorem step_moves (s : SyncController C O E Err) (act : MainAct C O E Err) :
    Moves s (s.step act) act := by
  cases act with
  | setClient client observer onEnded =>
    exact reconcile_moves s { s with client := client, observer := observer, onEnded := onEnded }
      rfl rfl _
  | setActive active =>
    by_cases hsame : s.isActive = active
    · exact .same (by rw [step, setActive, if_pos hsame])
    · rw [step, setActive, if_neg hsame]
      exact reconcile_moves s { s with isActive := active } rfl rfl _
  | stop => exact .stops (slot_stop s)
  | loopEnds i result => exact .same (slot_loopEnds s i result)
  | taskEnds i =>
    by_cases hending : s.Ending i
    · exact .ends hending (slot_taskEnds hending)
    · exact .same (by rw [step, taskEnds_of_not_ending hending])

theorem held_step {s : SyncController C O E Err} (h : HandleSlot.Held s.slot)
    (act : MainAct C O E Err) : HandleSlot.Held (s.step act).slot := by
  cases step_moves s act with
  | same heq => rw [heq]; exact h
  | stops heq => rw [heq]; exact HandleSlot.held_empty _
  | starts _ heq => rw [heq]; exact HandleSlot.held_spawn _ _
  | ends _ heq => rw [heq]; exact HandleSlot.held_empty _

theorem held_run (acts : List (MainAct C O E Err)) : HandleSlot.Held (run acts).slot := by
  induction acts using List.reverseRecOn with
  | nil => exact HandleSlot.held_empty _
  | append_singleton acts act ih =>
    rw [run_concat]
    exact held_step ih act

/-- No act but its own end stops a loop whose handle is lost. -/
theorem lost_step {s : SyncController C O E Err} {j : Nat} (h : HandleSlot.Lost s.slot j)
    {act : MainAct C O E Err} (hact : act ≠ .taskEnds j) :
    HandleSlot.Lost (s.step act).slot j := by
  cases step_moves s act with
  | same heq => rw [heq]; exact h
  | stops heq => rw [heq]; exact h.revoke
  | starts _ heq =>
    rw [heq]
    obtain ⟨t, ht, -⟩ := h.1
    exact h.spawn (by have := (List.getElem?_eq_some_iff.mp ht).1; omega)
  | ends _ heq =>
    rw [heq]
    exact h.finish (fun hj => hact (by rw [hj]))

theorem lost_run {acts : List (MainAct C O E Err)} {j : Nat}
    (h : HandleSlot.Lost (run acts).slot j) (more : List (MainAct C O E Err))
    (hmore : MainAct.taskEnds j ∉ more) : HandleSlot.Lost (run (acts ++ more)).slot j := by
  induction more using List.reverseRecOn with
  | nil =>
    rw [List.append_nil]
    exact h
  | append_singleton more act ih =>
    rw [List.mem_append, not_or] at hmore
    rw [← List.append_assoc, run_concat]
    exact lost_step (ih hmore.1) (fun heq => hmore.2 (List.mem_singleton.mpr heq.symm))

theorem shouldRun_congr {s s' : SyncController C O E Err} (h : s'.asked = s.asked) :
    s'.ShouldRun ↔ s.ShouldRun := by
  obtain ⟨hclient, hrest⟩ := Prod.mk.inj h
  obtain ⟨hobserver, hactive⟩ := Prod.mk.inj hrest
  unfold ShouldRun
  rw [hclient, hobserver, hactive]

/-- A handle is held only while a loop is wanted. -/
def Wanted (s : SyncController C O E Err) : Prop := ∀ i, s.task = some i → s.ShouldRun

theorem wanted_of_none {s : SyncController C O E Err} (h : s.task = none) : s.Wanted := by
  intro i hi
  rw [h] at hi
  cases hi

theorem reconcile_wanted (s : SyncController C O E Err) : s.reconcile.Wanted := by
  intro i hi
  rw [shouldRun_congr (reconcile_asked s)]
  by_contra hnot
  rw [reconcile_stop hnot, stop_task] at hi
  cases hi

theorem setClient_held {s : SyncController C O E Err} (h : s.Wanted) {i : Nat}
    (htask : s.task = some i) {client : C} {observer : O} {onEnded : Option E} :
    s.setClient (some client) (some observer) onEnded =
      { s with client := some client, observer := some observer, onEnded := onEnded } :=
  reconcile_held ⟨(h i htask).1, Option.some_ne_none client, Option.some_ne_none observer⟩ htask

theorem wanted_step {s : SyncController C O E Err} (h : s.Wanted) (act : MainAct C O E Err) :
    (s.step act).Wanted := by
  cases act with
  | setClient client observer onEnded => exact reconcile_wanted _
  | setActive active =>
    by_cases hsame : s.isActive = active
    · rw [step, setActive, if_pos hsame]
      exact h
    · rw [step, setActive, if_neg hsame]
      exact reconcile_wanted _
  | stop => exact wanted_of_none (stop_task s)
  | loopEnds i result =>
    intro j hj
    rw [step, shouldRun_congr (loopEnds_asked s i result)]
    exact h j ((loopEnds_task s i result).symm.trans hj)
  | taskEnds i =>
    by_cases hending : s.Ending i
    · exact wanted_of_none (by rw [step, taskEnds_of_ending hending])
    · rw [step, taskEnds_of_not_ending hending]
      exact h

theorem wanted_run (acts : List (MainAct C O E Err)) : (run acts).Wanted := by
  induction acts using List.reverseRecOn with
  | nil => exact wanted_of_none rfl
  | append_singleton acts act ih =>
    rw [run_concat]
    exact wanted_step ih act

end SyncController

end PigeonMobile
