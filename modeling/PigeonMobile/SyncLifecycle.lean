-- Runs of the sync controller of iOS: what the calls have asked for, against the loops that run.
-- A task that comes to its end empties the handle without a look at what it holds, and a loop is
-- never exchanged for one of another client.
import PigeonMobile.SyncController

namespace PigeonMobile

variable {C O E Err : Type}

/-! ## What the calls ask for -/

/-- What the calls have said so far. A call of `stop` holds until a call that may start a loop. -/
structure Told (C O : Type) where
  client : Option C
  observer : Option O
  active : Bool
  stopped : Bool

def Told.next (t : Told C O) : MainAct C O E Err → Told C O
  | .setClient client observer _ => ⟨client, observer, t.active, false⟩
  | .setActive active =>
    if t.active = active then t else { t with active := active, stopped := false }
  | .stop => { t with stopped := true }
  | .loopEnds _ _ => t
  | .taskEnds _ => t

def told (acts : List (MainAct C O E Err)) : Told C O :=
  acts.foldl Told.next ⟨none, none, false, false⟩

@[simp] theorem told_concat (acts : List (MainAct C O E Err)) (act : MainAct C O E Err) :
    told (acts ++ [act]) = (told acts).next act := List.foldl_concat Told.next _ act acts

/-- No loop is asked for. -/
def Told.Off (t : Told C O) : Prop := t.stopped = true ∨ t.active = false ∨ t.client = none

/-- What the controller is for: at most one loop, for the client and observer of the last call,
and none where none is asked for. -/
structure Controlled (acts : List (MainAct C O E Err)) : Prop where
  one : ∀ (i j : Nat) (t u : LoopTask C O E), (SyncController.run acts).tasks[i]? = some t →
    (SyncController.run acts).tasks[j]? = some u → t.Live → u.Live → i = j
  off : (told acts).Off → ∀ t ∈ (SyncController.run acts).tasks, ¬ t.Live
  current : ∀ t ∈ (SyncController.run acts).tasks, t.Live →
    (told acts).client = some t.client ∧ (told acts).observer = some t.observer

namespace SyncController

/-- The calls have set what the controller holds. A stop that still holds leaves no handle. -/
structure Agrees (t : Told C O) (s : SyncController C O E Err) : Prop where
  asked : (t.client, t.observer, t.active) = s.asked
  stopped : t.stopped = true → s.task = none

theorem agrees_step {t : Told C O} {s : SyncController C O E Err} (h : Agrees t s)
    (act : MainAct C O E Err) : Agrees (t.next act) (s.step act) := by
  obtain ⟨hasked, hstopped⟩ := h
  cases act with
  | setClient client observer onEnded =>
    refine ⟨?_, ?_⟩
    · rw [step, setClient, reconcile_asked]
      show (client, observer, t.active) = (client, observer, s.isActive)
      rw [show t.active = s.isActive from congrArg (fun x => x.2.2) hasked]
    · intro hfalse
      cases hfalse
  | setActive active =>
    have hactive : t.active = s.isActive := congrArg (fun x => x.2.2) hasked
    by_cases hsame : s.isActive = active
    · rw [step, setActive, if_pos hsame, Told.next, if_pos (hactive.trans hsame)]
      exact ⟨hasked, hstopped⟩
    · rw [step, setActive, if_neg hsame, Told.next, if_neg (hactive ▸ hsame)]
      refine ⟨?_, ?_⟩
      · rw [reconcile_asked]
        show (t.client, t.observer, active) = (s.client, s.observer, active)
        rw [show t.client = s.client from congrArg (fun x => x.1) hasked,
          show t.observer = s.observer from congrArg (fun x => x.2.1) hasked]
      · intro hfalse
        cases hfalse
  | stop => exact ⟨hasked.trans (stop_asked s).symm, fun _ => stop_task s⟩
  | loopEnds i result =>
    refine ⟨hasked.trans (loopEnds_asked s i result).symm, ?_⟩
    intro h
    exact (loopEnds_task s i result).trans (hstopped h)
  | taskEnds i =>
    refine ⟨hasked.trans (taskEnds_asked s i).symm, ?_⟩
    intro h
    by_cases hending : s.Ending i
    · rw [step, taskEnds_of_ending hending]
    · rw [step, taskEnds_of_not_ending hending]
      exact hstopped h

theorem agrees_run (acts : List (MainAct C O E Err)) : Agrees (told acts) (run acts) := by
  induction acts using List.reverseRecOn with
  | nil => exact ⟨rfl, fun _ => rfl⟩
  | append_singleton acts act ih =>
    rw [run_concat, told_concat]
    exact agrees_step ih act

/-! ## Careful runs -/

/-- A task that comes to its last line is the current one, or there is none; and a call that gives
a client and an observer finds no loop of others. -/
def Careful (s : SyncController C O E Err) : MainAct C O E Err → Prop
  | .setClient (some client) (some observer) _ => ∀ i t, s.task = some i → s.tasks[i]? = some t →
    t.client = client ∧ t.observer = observer
  | .taskEnds i => s.Ending i → s.task = none ∨ s.task = some i
  | _ => True

def CarefulRun (acts : List (MainAct C O E Err)) : Prop :=
  ∀ before act, before ++ [act] <+: acts → (run before).Careful act

theorem carefulRun_concat {acts : List (MainAct C O E Err)} {act : MainAct C O E Err} :
    CarefulRun (acts ++ [act]) ↔ CarefulRun acts ∧ (run acts).Careful act := by
  constructor
  · intro h
    refine ⟨?_, h acts act (List.prefix_refl _)⟩
    intro before a ha
    exact h before a (ha.trans (List.prefix_append acts [act]))
  · rintro ⟨hrun, hlast⟩ before a ha
    rcases List.prefix_concat_iff.mp ha with heq | hprefix
    · obtain ⟨rfl, hsame⟩ := List.append_inj' heq rfl
      obtain rfl := List.head_eq_of_cons_eq hsame
      exact hlast
    · exact hrun before a hprefix

/-- The loop that is held was started with what the controller now holds. -/
def Fits (s : SyncController C O E Err) : Prop := ∀ i t, s.task = some i → s.tasks[i]? = some t →
  s.client = some t.client ∧ s.observer = some t.observer

theorem fits_of_none {s : SyncController C O E Err} (h : s.task = none) : s.Fits := by
  intro i t hi
  rw [h] at hi
  cases hi

theorem reconcile_fits {s : SyncController C O E Err} (h : s.ShouldRun → s.Fits) :
    s.reconcile.Fits := by
  obtain ⟨hrun, -, heq⟩ | ⟨client, observer, -, hclient, hobserver, -, heq⟩ | ⟨-, heq⟩ :=
    reconcile_cases s
  · rw [heq]
    exact h hrun
  · rw [heq]
    intro i t hi ht
    obtain rfl := Option.some.inj hi
    obtain rfl := Option.some.inj (List.getElem?_concat_length.symm.trans ht)
    exact ⟨hclient, hobserver⟩
  · rw [heq]
    exact fits_of_none (stop_task s)

/-- The loops keep what they were started with. -/
theorem loopEnds_fits {s : SyncController C O E Err} (h : s.Fits) (i : Nat)
    (result : LoopResult Err) : (s.loopEnds i result).Fits := by
  unfold loopEnds
  split
  · exact h
  · split
    · intro j u hj hu
      have hmodify : (s.tasks.modify i _)[j]? = some u := hu
      rw [List.getElem?_modify] at hmodify
      obtain ⟨t, ht, rfl⟩ := Option.map_eq_some_iff.mp hmodify
      have hfits := h j t hj ht
      split
      · exact hfits
      · exact hfits
    · exact h

theorem fits_step {s : SyncController C O E Err} (h : s.Fits) {act : MainAct C O E Err}
    (hcareful : s.Careful act) : (s.step act).Fits := by
  cases act with
  | setClient client observer onEnded =>
    apply reconcile_fits
    rintro ⟨-, hclient, hobserver⟩ i t hi ht
    obtain ⟨c, rfl⟩ := Option.ne_none_iff_exists'.mp hclient
    obtain ⟨o, rfl⟩ := Option.ne_none_iff_exists'.mp hobserver
    obtain ⟨rfl, rfl⟩ := hcareful i t hi ht
    exact ⟨rfl, rfl⟩
  | setActive active =>
    by_cases hsame : s.isActive = active
    · rw [step, setActive, if_pos hsame]
      exact h
    · rw [step, setActive, if_neg hsame]
      exact reconcile_fits (fun _ => h)
  | stop => exact fits_of_none (stop_task s)
  | loopEnds i result => exact loopEnds_fits h i result
  | taskEnds i =>
    by_cases hending : s.Ending i
    · exact fits_of_none (by rw [step, taskEnds_of_ending hending])
    · rw [step, taskEnds_of_not_ending hending]
      exact h

theorem exact_step {s : SyncController C O E Err} (h : HandleSlot.Exact s.slot)
    {act : MainAct C O E Err} (hcareful : s.Careful act) :
    HandleSlot.Exact (s.step act).slot := by
  cases step_moves s act with
  | same heq => rw [heq]; exact h
  | stops heq => rw [heq]; exact HandleSlot.exact_revoke h
  | starts hnone heq => rw [heq]; exact HandleSlot.exact_spawn h hnone _
  | ends hending heq => rw [heq]; exact HandleSlot.exact_finish h (hcareful hending)

theorem careful_run {acts : List (MainAct C O E Err)} (h : CarefulRun acts) :
    HandleSlot.Exact (run acts).slot ∧ (run acts).Fits := by
  induction acts using List.reverseRecOn with
  | nil =>
    refine ⟨?_, fits_of_none rfl⟩
    intro i
    constructor
    · rintro ⟨t, ht, -⟩
      cases ht
    · intro hi
      cases hi
  | append_singleton acts act ih =>
    obtain ⟨hrun, hlast⟩ := carefulRun_concat.mp h
    obtain ⟨hexact, hfits⟩ := ih hrun
    rw [run_concat]
    exact ⟨exact_step hexact hlast, fits_step hfits hlast⟩

theorem controlled_of_careful {acts : List (MainAct C O E Err)} (h : CarefulRun acts) :
    Controlled acts := by
  obtain ⟨hexact, hfits⟩ := careful_run h
  obtain ⟨hasked, hstopped⟩ := agrees_run acts
  obtain ⟨hclient, hrest⟩ := Prod.mk.inj hasked
  obtain ⟨hobserver, hactive⟩ := Prod.mk.inj hrest
  -- a live loop is the one that is held
  have hheld : ∀ i t, (run acts).tasks[i]? = some t → t.Live → (run acts).task = some i := by
    intro i t ht hlive
    exact (hexact i).mp ⟨t, ht, hlive⟩
  refine ⟨?_, ?_, ?_⟩
  · intro i j t u ht hu hlive hlive'
    exact hexact.at_most_one ⟨t, ht, hlive⟩ ⟨u, hu, hlive'⟩
  · intro hoff t ht hlive
    obtain ⟨i, hi⟩ := List.mem_iff_getElem?.mp ht
    have htask := hheld i t hi hlive
    obtain ⟨hrun, hsome, -⟩ := wanted_run acts i htask
    rcases hoff with hstop | hinactive | hnone
    · rw [hstopped hstop] at htask
      cases htask
    · rw [← hactive, hinactive] at hrun
      cases hrun
    · exact hsome (hclient.symm.trans hnone)
  · intro t ht hlive
    obtain ⟨i, hi⟩ := List.mem_iff_getElem?.mp ht
    obtain ⟨hc, ho⟩ := hfits i t (hheld i t hi hlive) hi
    exact ⟨hclient.trans hc, hobserver.trans ho⟩

/-- A call of `stop` now leaves a loop that it has no handle of. -/
theorem not_controlled_of_lost {acts : List (MainAct C O E Err)} {j : Nat}
    (h : HandleSlot.Lost (run acts).slot j) : ¬ Controlled (acts ++ [.stop]) := by
  intro hcontrolled
  obtain ⟨t, ht, hlive⟩ := (lost_run h [.stop] (by simp)).1
  refine hcontrolled.off (.inl ?_) t (List.mem_of_getElem? ht) hlive
  rw [told_concat]
  rfl

theorem careful_of_controlled {acts : List (MainAct C O E Err)} {act : MainAct C O E Err}
    (h : Controlled (acts ++ [act])) (hstop : Controlled (acts ++ [act] ++ [.stop])) :
    (run acts).Careful act := by
  cases act with
  | setClient client observer onEnded =>
    cases client with
    | none => trivial
    | some c =>
      cases observer with
      | none => trivial
      | some o =>
        intro i t hi ht
        -- the loop goes on, as one is wanted and this one is held
        have htasks : (run (acts ++ [.setClient (some c) (some o) onEnded])).tasks =
            (run acts).tasks := by
          rw [run_concat, step, setClient_held (wanted_run acts) hi]
        obtain ⟨u, hu, hlive⟩ := held_run acts i hi
        obtain rfl := Option.some.inj (ht.symm.trans hu)
        obtain ⟨hc, ho⟩ := h.current t (htasks ▸ List.mem_of_getElem? ht) hlive
        rw [told_concat] at hc ho
        exact ⟨(Option.some.inj hc).symm, (Option.some.inj ho).symm⟩
  | taskEnds i =>
    intro hending
    by_contra hother
    rw [not_or] at hother
    obtain ⟨j, hj⟩ := Option.ne_none_iff_exists'.mp hother.1
    have hne : j ≠ i := fun heq => hother.2 (heq ▸ hj)
    have hlost : HandleSlot.Lost (run (acts ++ [.taskEnds i])).slot j := by
      rw [run_concat, step, slot_taskEnds hending]
      exact HandleSlot.lost_finish (held_run acts) hj hne
    exact not_controlled_of_lost hlost hstop
  | setActive active => trivial
  | stop => trivial
  | loopEnds i result => trivial

end SyncController

/-- A run is under control at every moment, and at a call of `stop` there, just where no task
drops the handle of another and no call swaps the client or the observer under a loop. -/
theorem sync_controlled_iff (acts : List (MainAct C O E Err)) :
    (∀ before, before <+: acts → Controlled before ∧ Controlled (before ++ [.stop])) ↔
      SyncController.CarefulRun acts := by
  constructor
  · intro h before act hprefix
    obtain ⟨hcontrolled, hstop⟩ := h (before ++ [act]) hprefix
    exact SyncController.careful_of_controlled hcontrolled hstop
  · intro h before hprefix
    have hbefore : SyncController.CarefulRun before :=
      fun prior act hact => h prior act (hact.trans hprefix)
    refine ⟨SyncController.controlled_of_careful hbefore, ?_⟩
    exact SyncController.controlled_of_careful
      (SyncController.carefulRun_concat.mpr ⟨hbefore, trivial⟩)

/-- The screen closes and opens again, and the first loop comes to its end. The second runs on when
the app is in the background. -/
theorem late_end_loses_the_loop : ¬ ∀ acts : List (MainAct Nat Nat Nat Nat), Controlled acts := by
  intro h
  have hrun := h [.setActive true, .setClient (some 0) (some 0) none, .setClient none none none,
    .setClient (some 0) (some 0) none, .loopEnds 0 .cancellation, .taskEnds 0, .setActive false]
  refine hrun.off (.inr (.inl rfl)) ⟨0, 0, none, false, .running⟩ ?_ ⟨rfl, nofun⟩
  exact List.mem_of_getElem? (show _[1]? = some _ from rfl)

end PigeonMobile
