-- The room list screen of the two apps (`RoomsViewModel.kt`, `RoomsViewModel.swift`). On Android a
-- backup takes its copy of the state before it waits for the core, and shows that copy with the
-- key in it when it lands: what came in between is gone from the screen. Android shows an error's
-- own message, iOS the text that the sign-in form has for it.
import PigeonMobile.AuthFlow

namespace PigeonMobile

open RunPrefixes

/-- What the screen shows. -/
structure RoomsState where
  rooms : List RoomSummary
  connected : Bool
  loading : Bool
  /-- A failure to surface, then dismiss. -/
  actionError : Option String
  /-- The key of the last backup, shown once. -/
  recoveryKey : Option String

def RoomsState.init : RoomsState := ⟨[], true, true, none, none⟩

/-- The screen, and what each backup under way has captured. -/
structure RoomsViewModel (T : Type) where
  state : RoomsState
  backups : List T

def RoomsViewModel.init (T : Type) : RoomsViewModel T := ⟨RoomsState.init, []⟩

/-- What happens on the main thread. A call of the core that is waited for shows nothing until it
has returned. -/
inductive RoomsAct where
  /-- `listRooms` has returned -/
  | reloaded (r : Except CoreError (List RoomSummary))
  | setConnected (connected : Bool)
  /-- the sync loop has ended with an error -/
  | onSyncFailed (e : CoreError)
  /-- `createRoom`, `joinRoom` or `restoreBackup` has failed -/
  | failed (e : CoreError)
  | backup
  | backedUp (i : Nat) (r : Except CoreError String)
  | clearRecoveryKey
  | clearError

/-- The acts that both apps do alike: an assignment to some fields of the state of the moment.
`message` is what an app shows of an error. -/
def RoomsState.told (message : CoreError → Option String) (s : RoomsState) : RoomsAct → RoomsState
  | .reloaded (.ok rooms) => { s with rooms, loading := false }
  | .reloaded (.error e) => { s with loading := false, actionError := message e }
  | .setConnected connected => { s with connected }
  | .onSyncFailed e => { s with connected := false, actionError := message e }
  | .failed e => { s with actionError := message e }
  | .backup => s
  | .backedUp _ (.ok key) => { s with recoveryKey := some key }
  | .backedUp _ (.error e) => { s with actionError := message e }
  | .clearRecoveryKey => { s with recoveryKey := none }
  | .clearError => { s with actionError := none }

/-- `message` of the view-model of iOS. -/
def Ios.shownError (e : CoreError) : Option String := some (authErrorMessage e)

-- `e.message` of Kotlin, which the bindings of the core make of an error.
variable (message : CoreError → Option String)

namespace Android

/-- `_state.value.copy(recoveryKey = client.backup())`: the receiver is evaluated before the call
that it waits for. -/
def rooms (vm : RoomsViewModel RoomsState) : RoomsAct → RoomsViewModel RoomsState
  | .backup => { vm with backups := vm.backups ++ [vm.state] }
  | .backedUp i r =>
    match vm.backups[i]?, r with
    | none, _ => vm
    | some copied, .ok key =>
      ⟨{ copied with recoveryKey := some key }, vm.backups.eraseIdx i⟩
    | some _, .error e =>
      ⟨{ vm.state with actionError := message e }, vm.backups.eraseIdx i⟩
  | act => { vm with state := vm.state.told message act }

end Android

namespace Ios

/-- `state.recoveryKey = try await client.backup()`: the field is set when the call has returned. -/
def rooms (vm : RoomsViewModel Unit) : RoomsAct → RoomsViewModel Unit
  | .backup => { vm with backups := vm.backups ++ [()] }
  | .backedUp i r =>
    match vm.backups[i]? with
    | none => vm
    | some () => ⟨vm.state.told shownError (.backedUp i r), vm.backups.eraseIdx i⟩
  | act => { vm with state := vm.state.told shownError act }

end Ios

/-- The two screens, told of the same. -/
structure RoomsScreens where
  android : RoomsViewModel RoomsState
  ios : RoomsViewModel Unit

namespace RoomsScreens

def init : RoomsScreens := ⟨.init RoomsState, .init Unit⟩

def step (s : RoomsScreens) (act : RoomsAct) : RoomsScreens :=
  ⟨Android.rooms message s.android act, Ios.rooms s.ios act⟩

/-- The two screens show the same. -/
def Same (s : RoomsScreens) : Prop := s.android.state = s.ios.state

/-- A backup lands with its key, and the copy that it took is of another state. -/
def Undoes (s : RoomsScreens) : RoomsAct → Prop
  | .backedUp i (.ok _) => ∃ copied, s.android.backups[i]? = some copied ∧
      ∃ key, { copied with recoveryKey := some key } ≠
        ({ s.android.state with recoveryKey := some key } : RoomsState)
  | _ => False

/-- The error that an act shows. -/
def shown (s : RoomsScreens) : RoomsAct → Option CoreError
  | .reloaded (.error e) => some e
  | .onSyncFailed e => some e
  | .failed e => some e
  | .backedUp i (.error e) => s.android.backups[i]?.map fun _ => e
  | _ => none

/-- The two apps have different texts for the error that an act shows. -/
def Misworded (s : RoomsScreens) (act : RoomsAct) : Prop :=
  ∃ e, s.shown act = some e ∧ message e ≠ Ios.shownError e

/-- The same backups are under way. -/
structure Alike (s : RoomsScreens) : Prop where
  same : s.Same
  backups : s.android.backups.length = s.ios.backups.length

variable {message} {s : RoomsScreens}

/-- A backup is under way on both phones or on none. -/
theorem Alike.backup (h : Alike s) (i : Nat) :
    (s.android.backups[i]? = none ∧ s.ios.backups[i]? = none) ∨
      ∃ copied, s.android.backups[i]? = some copied ∧ s.ios.backups[i]? = some () := by
  have hlen := h.backups
  by_cases hi : i < s.android.backups.length
  · right
    exact ⟨_, List.getElem?_eq_getElem hi, List.getElem?_eq_getElem (hlen ▸ hi)⟩
  · left
    exact ⟨List.getElem?_eq_none (Nat.le_of_not_lt hi),
      List.getElem?_eq_none (hlen ▸ Nat.le_of_not_lt hi)⟩

/-- An app is told of an error as the other is, where both have one text for it. -/
theorem told_same {act : RoomsAct} (hact : ∀ e, s.shown act = some e → message e = Ios.shownError e)
    (hbackup : ∀ i r, act ≠ .backedUp i r) (state : RoomsState) :
    state.told message act = state.told Ios.shownError act := by
  cases act with
  | reloaded r =>
    cases r with
    | error e => simp only [RoomsState.told, hact e rfl]
    | ok rooms => rfl
  | onSyncFailed e => simp only [RoomsState.told, hact e rfl]
  | failed e => simp only [RoomsState.told, hact e rfl]
  | backedUp i r => exact absurd rfl (hbackup i r)
  | setConnected | backup | clearRecoveryKey | clearError => rfl

theorem Alike.step (h : Alike s) {act : RoomsAct} (hact : ¬ s.Undoes act)
    (hwords : ¬ s.Misworded message act) : Alike (s.step message act) := by
  have hsame : ∀ e, s.shown act = some e → message e = Ios.shownError e := by
    intro e he
    by_contra hne
    exact hwords ⟨e, he, hne⟩
  obtain ⟨⟨state, copies⟩, ⟨state', tasks⟩⟩ := s
  obtain rfl : state = state' := h.same
  have hlen : copies.length = tasks.length := h.backups
  cases act with
  | reloaded | setConnected | onSyncFailed | failed | clearRecoveryKey | clearError =>
    exact ⟨told_same hsame (fun _ _ => nofun) state, hlen⟩
  | backup =>
    refine ⟨rfl, ?_⟩
    show (copies ++ [state]).length = (tasks ++ [()]).length
    rw [List.length_append, List.length_append, hlen]
    rfl
  | backedUp i r =>
    have herase : (copies.eraseIdx i).length = (tasks.eraseIdx i).length := by
      rw [List.length_eraseIdx, List.length_eraseIdx, hlen]
    rcases h.backup i with ⟨hnone, hnone'⟩ | ⟨copied, hsome, hsome'⟩
    · simp only [RoomsScreens.step, Android.rooms, Ios.rooms, hnone, hnone']
      exact ⟨rfl, hlen⟩
    · simp only [RoomsScreens.step, Android.rooms, Ios.rooms, hsome, hsome']
      cases r with
      | error e =>
        refine ⟨?_, herase⟩
        have hmessage := hsame e (by simp only [shown, hsome]; rfl)
        simp only [Same, RoomsState.told, hmessage]
      | ok key =>
        refine ⟨?_, herase⟩
        by_contra hne
        exact hact ⟨copied, hsome, key, hne⟩

/-- A copy of another state differs in a field that no key hides. -/
theorem Alike.undone (h : Alike s) {act : RoomsAct} (hact : s.Undoes act) :
    ¬ (s.step message act).Same := by
  obtain ⟨⟨state, copies⟩, ⟨state', tasks⟩⟩ := s
  obtain rfl : state = state' := h.same
  cases act with
  | backedUp i r =>
    cases r with
    | error e => exact absurd hact id
    | ok key =>
      obtain ⟨copied, hsome, key', hne⟩ := hact
      obtain ⟨hnone, -⟩ | ⟨copied', hsome'', hsome'⟩ := h.backup i
      · rw [hnone] at hsome
        cases hsome
      · simp only [RoomsScreens.step, Same, Android.rooms, Ios.rooms, hsome, hsome',
          RoomsState.told]
        intro heq
        apply hne
        simp only [RoomsState.mk.injEq] at heq ⊢
        exact ⟨heq.1, heq.2.1, heq.2.2.1, heq.2.2.2.1, trivial⟩
  | reloaded | setConnected | onSyncFailed | failed | backup | clearRecoveryKey | clearError =>
    exact absurd hact id

/-- An error that is worded differently is shown by both. -/
theorem Alike.misworded (h : Alike s) {act : RoomsAct} (hact : s.Misworded message act) :
    ¬ (s.step message act).Same := by
  obtain ⟨e, hshown, hne⟩ := hact
  intro heq
  apply hne
  have herror := congrArg RoomsState.actionError heq
  cases act with
  | reloaded r =>
    cases r with
    | error e' =>
      obtain rfl : e' = e := Option.some.inj hshown
      exact herror
    | ok rooms => cases hshown
  | onSyncFailed e' =>
    obtain rfl : e' = e := Option.some.inj hshown
    exact herror
  | failed e' =>
    obtain rfl : e' = e := Option.some.inj hshown
    exact herror
  | backedUp i r =>
    cases r with
    | ok key => cases hshown
    | error e' =>
      rcases h.backup i with ⟨hnone, -⟩ | ⟨copied, hsome, hsome'⟩
      · simp only [shown, hnone] at hshown
        cases hshown
      · simp only [shown, hsome] at hshown
        obtain rfl : e' = e := Option.some.inj hshown
        simp only [RoomsScreens.step, Android.rooms, Ios.rooms, hsome, hsome'] at herror
        exact herror
  | setConnected | backup | clearRecoveryKey | clearError => cases hshown

end RoomsScreens

/-- Told of the same, the two screens show the same at each moment of a run, just where no backup
lands on Android with its key after something but the key has changed on the screen, and no error
is shown that Android's own message and the text of iOS tell differently. -/
theorem the_screens_show_the_same_iff (acts : List RoomsAct) :
    Throughout (RoomsScreens.step message) RoomsScreens.Same RoomsScreens.init acts ↔
      ¬ Somewhere (RoomsScreens.step message) (fun s act => s.Undoes act ∨ s.Misworded message act)
        RoomsScreens.init acts := by
  refine throughout_iff (I := RoomsScreens.Alike) (s := RoomsScreens.init) ⟨rfl, rfl⟩ ?_ ?_ ?_ acts
  · intro s act hs hact
    obtain ⟨hundoes, hwords⟩ := not_or.mp hact
    exact hs.step hundoes hwords
  · exact fun s hs => hs.same
  · rintro s act hs (hundoes | hwords)
    · exact hs.undone hundoes
    · exact hs.misworded hwords

end PigeonMobile
