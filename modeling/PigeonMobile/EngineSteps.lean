-- What one call of a client does to its engine and to the key store (`e2ee.rs`): nothing, or
-- `pigeon-crypto` makes another device, and that one is written or its write fails. So an engine
-- stays the one of the user that it was made for, and the session entry stays as it is.
import PigeonMobile.DeviceKeys

namespace PigeonMobile

variable {D : Type} {X : PigeonCrypto D}

/-! ## One call of the engine -/

/-- A call of the engine leaves the device and the key store, or it moves the device and goes on
to write it. -/
inductive Advances (X : PigeonCrypto D) (d : D) (ks : Option KeyMap) : D → Option KeyMap → Prop
  | still : Advances X d ks d ks
  | moved {d' : D} (fault : Fault) : X.Moves d d' →
      Advances X d ks d' (E2ee.persist X d' ks fault).2

theorem mutate_advances {β : Type} {d : D} (ks : Option KeyMap) (fault : Fault)
    {r : Except String (D × β)} (hr : ∀ d' b, r = .ok (d', b) → X.Moves d d') :
    Advances X d ks (E2ee.mutate X d ks fault r).2.1 (E2ee.mutate X d ks fault r).2.2 := by
  unfold E2ee.mutate
  rcases r with reason | ⟨d', b⟩
  · exact .still
  · have hmoved : Advances X d ks d' (E2ee.persist X d' ks fault).2 := .moved fault (hr d' b rfl)
    simp only
    generalize E2ee.persist X d' ks fault = out at hmoved ⊢
    obtain ⟨_ | _, ks'⟩ := out <;> exact hmoved

theorem onGroup_advances {β : Type} {d : D} (ks : Option KeyMap) (fault : Fault) (room_id : String)
    {r : Except String (D × β)} (hr : ∀ d' b, r = .ok (d', b) → X.Moves d d') :
    Advances X d ks (E2ee.onGroup X d ks fault room_id r).2.1
      (E2ee.onGroup X d ks fault room_id r).2.2 := by
  have hmutate := mutate_advances ks fault hr
  unfold E2ee.onGroup
  split
  · exact .still
  · split
    · exact hmutate
    · exact .still

/-- A plaintext that is no UTF-8 is an error of a device that has moved. -/
theorem decrypt_advances (d : D) (ks : Option KeyMap) (fault : Fault) (room_id ct : String) :
    Advances X d ks (E2ee.decrypt X d ks fault room_id ct).2.1
      (E2ee.decrypt X d ks fault room_id ct).2.2 := by
  have hgroup := onGroup_advances ks fault room_id (r := X.decrypt d room_id ct)
    (fun d' _ hok => .decrypt room_id ct hok)
  unfold E2ee.decrypt
  generalize E2ee.onGroup X d ks fault room_id (X.decrypt d room_id ct) = out at hgroup ⊢
  obtain ⟨_ | _ | _, d', ks'⟩ := out <;> exact hgroup

/-- A call of `pigeon-crypto` that gives back a device alone. -/
theorem device_of_map {r : Except String D} {d' : D} {u : Unit}
    (h : r.map (fun d => (d, ())) = .ok (d', u)) : r = .ok d' := by
  cases r with
  | error reason => cases h
  | ok d =>
    cases h
    rfl

/-! ## One call of a client -/

def Op.deletesKey : Op → Bool
  | .ks_delete _ => true
  | _ => false

/-- The engine and the key store of a client, before a call and after it. -/
inductive EngineStep (X : PigeonCrypto D) (c c' : Client D) : Prop
  | still : c'.e2ee = c.e2ee → c'.key_store = c.key_store → EngineStep X c c'
  | moved {d d' : D} (fault : Fault) : c.e2ee = some d → X.Moves d d' → c'.e2ee = some d' →
      c'.key_store = (E2ee.persist X d' c.key_store fault).2 → EngineStep X c c'

theorem EngineStep.onEngine {β : Type} {c : Client D}
    {f : D → Option KeyMap → Except CoreError β × D × Option KeyMap}
    (hf : ∀ d, Advances X d c.key_store (f d c.key_store).2.1 (f d c.key_store).2.2) :
    EngineStep X c (c.onEngine f).2 := by
  unfold Client.onEngine
  cases hd : c.e2ee with
  | none => exact .still rfl rfl
  | some d =>
    have hstep := hf d
    simp only
    generalize f d c.key_store = out at hstep ⊢
    obtain ⟨r, d', ks'⟩ := out
    simp only at hstep ⊢
    cases hstep with
    | still => exact .still hd.symm rfl
    | moved fault hmoves => exact .moved fault hd hmoves rfl rfl

theorem EngineStep.onStore {β : Type} (fault : Fault) (c : Client D)
    (f : Store → Except StoreError (β × Store)) : EngineStep X c (c.onStore fault f).2 := by
  obtain ⟨r, c', hr⟩ : ∃ r c', c.onStore fault f = (r, c') := ⟨_, _, rfl⟩
  rw [hr]
  rcases Client.onStore_cases hr with ⟨e, -, rfl⟩ | ⟨b, st, -, -, rfl⟩ <;> exact .still rfl rfl

/-- Every call of a client but a delete moves the engine at most, and then writes it. -/
theorem perform_step {op : Op} (hop : op.deletesKey = false) (choice : op.Choice) (c : Client D) :
    EngineStep X c (Client.perform X op choice c).2 := by
  cases op with
  | load_sync_token | save_sync_token | apply_events | pending_sends | has_pending_send
  | resolve_send | fail_send | is_room_encrypted | pending_mls | set_decrypted
  | set_decrypt_failed | set_commit_processed => exact .onStore choice c _
  | queue_send room sender body => exact .onStore choice.1 c _
  | has_group | encrypt_media => exact .onEngine (fun d => .still)
  | create_group room_id =>
    exact .onEngine (fun d => mutate_advances _ choice
      (fun d' b hok => .create_group room_id (device_of_map hok)))
  | join_from_welcome welcome =>
    exact .onEngine (fun d => mutate_advances _ choice
      (fun d' b hok => .join_from_welcome welcome (device_of_map hok)))
  | key_packages n =>
    exact .onEngine (fun d => mutate_advances _ choice (fun d' b hok => .key_packages n hok))
  | last_resort_key_package =>
    exact .onEngine (fun d => mutate_advances _ choice (fun d' b hok => .last_resort hok))
  | add_member room_id kp =>
    refine .onEngine (fun d => onGroup_advances _ choice room_id (fun d' b hok => ?_))
    cases hadd : X.add_member d room_id kp with
    | error reason =>
      rw [hadd] at hok
      cases hok
    | ok out =>
      rw [hadd] at hok
      cases hok
      exact .add_member room_id kp hadd
  | process_commit room_id commit =>
    exact .onEngine (fun d => onGroup_advances _ choice room_id
      (fun d' b hok => .process_commit room_id commit (device_of_map hok)))
  | encrypt room_id text =>
    exact .onEngine (fun d => onGroup_advances _ choice room_id
      (fun d' b hok => .encrypt room_id text hok))
  | decrypt room_id ct => exact .onEngine (fun d => decrypt_advances d _ choice room_id ct)
  | ks_delete key => cases hop
  | session | e2ee | lock_send | unlock_send | next_txn_id | signature_public_key_b64 | api_logout
  | api_sync | api_messages | api_invite | api_query_keys | api_claim_keys | api_upload_keys
  | api_send_to_device | api_send_event | api_upload_media | on_status | on_change | sleep =>
    exact .still rfl rfl

/-- The API and the session of a client are those it was made with. -/
theorem perform_session (op : Op) (choice : op.Choice) (c : Client D) :
    (Client.perform X op choice c).2.api = c.api ∧
      (Client.perform X op choice c).2.session = c.session := by
  have hstore : ∀ {β : Type} (fault : Fault) (f : Store → Except StoreError (β × Store)),
      (c.onStore fault f).2.api = c.api ∧ (c.onStore fault f).2.session = c.session := by
    intro β fault f
    obtain ⟨r, c', hr⟩ : ∃ r c', c.onStore fault f = (r, c') := ⟨_, _, rfl⟩
    rw [hr]
    rcases Client.onStore_cases hr with ⟨e, -, rfl⟩ | ⟨b, st, -, -, rfl⟩ <;> exact ⟨rfl, rfl⟩
  have hengine : ∀ {β : Type} (f : D → Option KeyMap → Except CoreError β × D × Option KeyMap),
      (c.onEngine f).2.api = c.api ∧ (c.onEngine f).2.session = c.session := by
    intro β f
    unfold Client.onEngine
    cases c.e2ee <;> exact ⟨rfl, rfl⟩
  cases op with
  | load_sync_token | save_sync_token | apply_events | pending_sends | has_pending_send
  | resolve_send | fail_send | is_room_encrypted | pending_mls | set_decrypted
  | set_decrypt_failed | set_commit_processed => exact hstore choice _
  | queue_send room sender body => exact hstore choice.1 _
  | has_group | encrypt_media | create_group | join_from_welcome | key_packages
  | last_resort_key_package | add_member | process_commit | encrypt | decrypt => exact hengine _
  | session | e2ee | lock_send | unlock_send | next_txn_id | signature_public_key_b64 | api_logout
  | api_sync | api_messages | api_invite | api_query_keys | api_claim_keys | api_upload_keys
  | api_send_to_device | api_send_event | api_upload_media | on_status | on_change | sleep
  | ks_delete => exact ⟨rfl, rfl⟩

/-- A restore fails and leaves the client, or the blob opens: its device is in memory, and is
written or not. -/
theorem restore_from_backup_cases {openBackup : String → String → Except String D}
    {c c' : Client D} {fault : Fault} {key blob : String} {r : Except CoreError Unit}
    (h : c.onEngine (fun d ks => E2ee.restore_from_backup X openBackup d ks fault key blob) =
      (r, c')) : (c' = c ∧ ∃ e, r = .error e) ∨ ∃ d', openBackup key blob = .ok d' ∧
        c' = { c with e2ee := some d', key_store := (E2ee.persist X d' c.key_store fault).2 } := by
  obtain ⟨api, session, store, e2ee, ks⟩ := c
  unfold Client.onEngine at h
  cases e2ee with
  | none =>
    cases h
    exact Or.inl ⟨rfl, _, rfl⟩
  | some d =>
    unfold E2ee.restore_from_backup E2ee.mutate at h
    cases hopen : openBackup key blob with
    | error e =>
      rw [hopen] at h
      cases h
      exact Or.inl ⟨rfl, _, rfl⟩
    | ok d' =>
      rw [hopen] at h
      simp only [Except.map] at h
      refine Or.inr ⟨d', rfl, ?_⟩
      rcases hp : E2ee.persist X d' ks fault with ⟨_ | ⟨⟩, ks'⟩
      · simp only [hp] at h
        cases h
        rfl
      · simp only [hp] at h
        cases h
        rfl

/-! ## What the key store keeps -/

theorem persist_entry (d : D) (ks : Option KeyMap) (fault : Fault) :
    (E2ee.persist X d ks fault).2.isSome = ks.isSome ∧
      ks_get (E2ee.persist X d ks fault).2 SESSION_KEY .none = ks_get ks SESSION_KEY .none := by
  rcases persist_cases (X := X) d ks fault with ⟨-, e, hp⟩ | ⟨ks', hp, hwrites, -⟩
  · rw [hp]
    exact ⟨rfl, rfl⟩
  · rw [hp]
    exact ⟨hwrites.installed, hwrites.others SESSION_KEY (by decide)⟩

/-- The key store stays, and so does the session entry. -/
theorem EngineStep.entry {c c' : Client D} (h : EngineStep X c c') :
    c'.key_store.isSome = c.key_store.isSome ∧
      ks_get c'.key_store SESSION_KEY .none = ks_get c.key_store SESSION_KEY .none := by
  cases h with
  | still he hks =>
    rw [hks]
    exact ⟨rfl, rfl⟩
  | moved fault hd hmoves hd' hks =>
    rw [hks]
    exact persist_entry _ _ fault

theorem mint_entry (user_id : String) (ks : Option KeyMap) (fault : Fault) :
    (mint_e2ee X user_id ks fault).2.isSome = ks.isSome ∧
      ks_get (mint_e2ee X user_id ks fault).2 SESSION_KEY .none = ks_get ks SESSION_KEY .none := by
  rcases mint_cases (X := X) user_id ks fault with ⟨hmint, -⟩ | ⟨d, ks', -, hmint, hwrites, -⟩
  · rw [hmint]
    exact ⟨rfl, rfl⟩
  · rw [hmint]
    exact ⟨hwrites.installed, hwrites.others SESSION_KEY (by decide)⟩

theorem restore_or_mint_entry (user_id : String) (ks : Option KeyMap) (f : SessionFaults) :
    ks_get (restore_or_mint_e2ee X user_id ks f).2 SESSION_KEY .none =
      ks_get ks SESSION_KEY .none := by
  rcases restore_or_mint_cases (X := X) user_id ks f with ⟨d, -, hrun, -⟩ | ⟨-, hrun, -⟩
  · rw [hrun]
  · rw [hrun]
    exact (mint_entry user_id ks f.mls_put).2

/-! ## Whose engine it is -/

/-- The session in the key store, if there is one, is of the user. -/
def SessionOf (user_id : String) (ks : Option KeyMap) : Prop :=
  ∀ bytes session token, ks_get ks SESSION_KEY .none = .ok (some bytes) →
    decode_session bytes = .ok (session, token) → session.user_id = user_id

/-- The engine of a client is of its user, and so is the session in the key store. -/
structure OneUser (X : PigeonCrypto D) (c : Client D) : Prop where
  engine : ∀ d, c.e2ee = some d → X.OfUser c.session.user_id d
  stored : SessionOf c.session.user_id c.key_store

theorem SessionOf.same {user_id : String} {ks ks' : Option KeyMap} (h : SessionOf user_id ks)
    (heq : ks_get ks' SESSION_KEY .none = ks_get ks SESSION_KEY .none) : SessionOf user_id ks' := by
  intro bytes session token hget
  exact h bytes session token (heq ▸ hget)

theorem SessionOf.delete {user_id : String} {ks : Option KeyMap} (h : SessionOf user_id ks)
    (key : String) (fault : Fault) : SessionOf user_id (ks_delete ks key fault).2 := by
  rcases ks_delete_cases ks key fault with ⟨-, -, e, hdelete⟩ | ⟨-, ks', hdelete, hget⟩
  · rw [hdelete]
    exact h
  · rw [hdelete]
    intro bytes session token hsession
    rw [hget] at hsession
    split at hsession
    · cases hsession
    · exact h bytes session token hsession

/-- No call gives a client the engine or the session of another user. -/
theorem OneUser.perform {c : Client D} (h : OneUser X c) (op : Op) (choice : op.Choice) :
    OneUser X (Client.perform X op choice c).2 := by
  have huser := congrArg Session.user_id (perform_session (X := X) op choice c).2
  by_cases hop : op.deletesKey = false
  · have hstep := perform_step (X := X) hop choice c
    refine ⟨?_, ?_⟩
    · intro d' hd'
      rw [huser]
      cases hstep with
      | still he hks => exact h.engine d' (he.symm.trans hd')
      | moved fault hd hmoves hnext hks =>
        rw [hnext] at hd'
        cases hd'
        exact .moves (h.engine _ hd) hmoves
    · rw [huser]
      exact h.stored.same hstep.entry.2
  · cases op with
    | ks_delete key => exact ⟨h.engine, h.stored.delete key choice⟩
    | _ => exact absurd rfl hop

theorem OneUser.exec {c c' : Client D} {op : Op} {r : op.Res} (h : OneUser X c)
    (hx : Client.Exec X op c r c') : OneUser X c' := by
  obtain ⟨choice, hx⟩ := hx
  have hnext := h.perform op choice
  rw [hx] at hnext
  exact hnext

/-- A backup of the user leaves the client with the user. -/
theorem OneUser.restore_backup {openBackup : String → String → Except String D} {c c' : Client D}
    {fault : Fault} {key blob : String} {r : Except CoreError Unit} (h : OneUser X c)
    (hbackup : ∀ d, openBackup key blob = .ok d → X.OfUser c.session.user_id d)
    (hc : c.onEngine (fun d ks => E2ee.restore_from_backup X openBackup d ks fault key blob) =
      (r, c')) : OneUser X c' := by
  rcases restore_from_backup_cases hc with ⟨rfl, -⟩ | ⟨d', hopen, rfl⟩
  · exact h
  · refine ⟨?_, h.stored.same (persist_entry d' c.key_store fault).2⟩
    intro d hd
    obtain rfl : d' = d := Option.some.inj hd
    exact hbackup d' hopen

theorem mint_ofUser {user_id : String} {ks ks' : Option KeyMap} {fault : Fault} {d : D}
    (h : mint_e2ee X user_id ks fault = (some d, ks')) : X.OfUser user_id d := by
  rcases mint_cases (X := X) user_id ks fault with ⟨hmint, -⟩ | ⟨d', ks'', hnew, hmint, -⟩
  · rw [hmint] at h
    cases h
  · rw [hmint] at h
    cases h
    exact .new hnew

/-- What a launch restores or mints is of the user that it is restored or minted for. -/
theorem restore_ofUser {user_id : String} {ks : Option KeyMap} {fault : Fault} {d : D}
    (h : E2ee.restore X user_id ks fault = .ok (some d)) : X.OfUser user_id d := by
  obtain ⟨_, pubkey, blob, -, -, hrestore⟩ := restore_stored h
  exact .restore hrestore

/-- A login gives a client of the user that logged in. -/
theorem login_oneUser {server : String} {answer : Except ApiError Json} {f : SessionFaults}
    {h : Host} {c : Client D} (hc : (login X server answer f h).1 = .ok c) : OneUser X c := by
  unfold login at hc
  cases hauth : answer.bind parse_auth with
  | error err =>
    rw [hauth] at hc
    cases hc
  | ok auth =>
    rw [hauth] at hc
    simp only [finish_login] at hc
    rcases ks_put_cases h.key_store SESSION_KEY
        (encode_session ⟨auth.user_id, auth.device_id, server⟩ auth.access_token) f.session with
      ⟨-, e, hput⟩ | ⟨b, ks, hput, -, hown, hinstalled⟩
    · simp only [hput] at hc
      cases hc
    · simp only [hput] at hc
      rcases open_store_cases h.file f.store with ⟨reason, -, e, hopen⟩ | hopen
      · simp only [hopen] at hc
        cases hc
      · simp only [hopen] at hc
        obtain ⟨e2ee, ks', hmint⟩ :
            ∃ e2ee ks', mint_e2ee X auth.user_id ks f.mls_put = (e2ee, ks') :=
          ⟨_, _, rfl⟩
        have hentry := (mint_entry (X := X) auth.user_id ks f.mls_put).2
        simp only [hmint] at hc hentry
        cases hc
        refine ⟨?_, ?_⟩
        · intro d hd
          obtain rfl : e2ee = some d := hd
          exact mint_ofUser hmint
        · intro bytes session token hget hdecode
          simp only [hentry] at hget
          cases hks : h.key_store with
          | none =>
            rw [hks] at hinstalled
            obtain rfl : ks = none := by
              cases ks with
              | none => rfl
              | some m => cases hinstalled
            cases hget
          | some m =>
            rw [(hown (by rw [hks]; rfl)).2] at hget
            cases hget
            rw [decode_encode_session] at hdecode
            cases hdecode
            rfl

/-- And so does a launch, of the user whose session is stored. -/
theorem relaunch_oneUser {whoami : Except ApiError Unit} {f : SessionFaults} {h : Host}
    {c : Client D} (hc : (restore_session X whoami f h).1 = .ok (some c)) : OneUser X c := by
  obtain ⟨bytes, session, token, hget, hdecode, hresume⟩ := restore_session_resumes hc
  have hentry := restore_or_mint_entry (X := X) session.user_id h.key_store f
  unfold resume at hresume
  have hengine : ∀ d, (restore_or_mint_e2ee X session.user_id h.key_store f).1 = some d →
      X.OfUser session.user_id d := by
    intro d hd
    rcases restore_or_mint_cases (X := X) session.user_id h.key_store f with
      ⟨d', hrestore, hrun, -⟩ | ⟨-, hrun, -⟩
    · rw [hrun] at hd
      cases hd
      exact restore_ofUser hrestore
    · rw [hrun] at hd
      exact mint_ofUser (Prod.ext hd rfl)
  generalize restore_or_mint_e2ee X session.user_id h.key_store f = out at hresume hentry hengine
  obtain ⟨e2ee, ks⟩ := out
  rcases open_store_cases h.file f.store with ⟨reason, -, e, hopen⟩ | hopen
  · simp only [hopen] at hresume
    cases hresume
  · simp only [hopen] at hresume
    cases hresume
    refine ⟨hengine, ?_⟩
    intro bytes' session' token' hget' hdecode'
    simp only at hentry hget'
    rw [hentry, ks_get_reads hget] at hget'
    cases hget'
    rw [hdecode] at hdecode'
    cases hdecode'
    rfl

end PigeonMobile
