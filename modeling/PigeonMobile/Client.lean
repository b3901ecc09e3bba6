-- The logged-in client (`session.rs`) and the calls its code makes: on the store,
-- on the engine, over HTTP and to the host. `Op` names the calls, and `perform` is
-- what one of them does to the client for each choice of the surroundings.
import PigeonMobile.Engine
import PigeonMobile.Program

namespace PigeonMobile

/-- The non-secret identity of a session. -/
structure Session where
  user_id : String
  device_id : String
  server : String

/-- The HTTP client: the base URL and the bearer token. -/
structure Api where
  base : String
  token : Option String

/-- `PigeonClient`, with the host key store it writes to. -/
structure Client (D : Type) where
  api : Api
  session : Session
  store : Store
  e2ee : Option D
  key_store : Option KeyMap

abbrev Bytes := List UInt8

/-! ## The calls -/

inductive Op where
  -- the store
  | load_sync_token
  | save_sync_token (token : String)
  | apply_events (events : List Json)
  | queue_send (room_id sender body : String)
  | pending_sends
  | has_pending_send (room_id : String)
  | resolve_send (txn_id real_event_id : String)
  | fail_send (txn_id : String)
  | is_room_encrypted (room_id : String)
  | pending_mls
  | set_decrypted (event_id plaintext : String)
  | set_decrypt_failed (event_id : String)
  | set_commit_processed (event_id : String)
  -- the fields of the client, and the ids of one-shot sends
  | session
  | e2ee
  | lock_send
  | unlock_send
  | next_txn_id
  -- the engine
  | has_group (room_id : String)
  | create_group (room_id : String)
  | add_member (room_id key_package_b64 : String)
  | process_commit (room_id commit_b64 : String)
  | join_from_welcome (welcome_b64 : String)
  | encrypt (room_id plaintext : String)
  | decrypt (room_id ciphertext_b64 : String)
  | encrypt_media (plaintext : Bytes)
  | key_packages (count : Nat)
  | last_resort_key_package
  | signature_public_key_b64
  -- HTTP
  | api_logout
  | api_sync (since : Option String)
  | api_messages (room_id : String) (limit : Nat)
  | api_invite (room_id user_id : String)
  | api_query_keys (user_id : String)
  | api_claim_keys (user_id device_id : String)
  | api_upload_keys (device_id public_key_b64 : String) (key_packages : List String)
      (last_resort : Option String)
  | api_send_to_device (event_type txn_id : String) (messages : Json)
  | api_send_event (room_id event_type txn_id : String) (content : Json)
  | api_upload_media (bytes : Bytes) (content_type : String)
  -- the host
  | ks_delete (key : String)
  | on_status (connected : Bool)
  | on_change
  | sleep (seconds : Nat)

/-- What a call answers. -/
@[reducible] def Op.Res : Op → Type
  | .load_sync_token => Except CoreError (Option String)
  | .save_sync_token _ => Except CoreError Unit
  | .apply_events _ => Except CoreError Nat
  | .queue_send _ _ _ => Except CoreError String
  | .pending_sends => Except CoreError (List PendingSend)
  | .has_pending_send _ => Except CoreError Bool
  | .resolve_send _ _ => Except CoreError Unit
  | .fail_send _ => Except CoreError Unit
  | .is_room_encrypted _ => Except CoreError Bool
  | .pending_mls => Except CoreError (List PendingMls)
  | .set_decrypted _ _ => Except CoreError Unit
  | .set_decrypt_failed _ => Except CoreError Unit
  | .set_commit_processed _ => Except CoreError Unit
  | .session => Session
  | .e2ee => Bool
  | .lock_send => Unit
  | .unlock_send => Unit
  | .next_txn_id => String
  | .has_group _ => Except CoreError Bool
  | .create_group _ => Except CoreError Unit
  | .add_member _ _ => Except CoreError AddOutcome
  | .process_commit _ _ => Except CoreError Unit
  | .join_from_welcome _ => Except CoreError Unit
  | .encrypt _ _ => Except CoreError String
  | .decrypt _ _ => Except CoreError String
  | .encrypt_media _ => Except CoreError (String × Bytes)
  | .key_packages _ => Except CoreError (List String)
  | .last_resort_key_package => Except CoreError String
  | .signature_public_key_b64 => String
  | .api_logout => Except ApiError Unit
  | .api_sync _ => Except ApiError Json
  | .api_messages _ _ => Except ApiError Json
  | .api_invite _ _ => Except ApiError String
  | .api_query_keys _ => Except ApiError Json
  | .api_claim_keys _ _ => Except ApiError (Option String)
  | .api_upload_keys _ _ _ _ => Except ApiError Nat
  | .api_send_to_device _ _ _ => Except ApiError Unit
  | .api_send_event _ _ _ _ => Except ApiError String
  | .api_upload_media _ _ => Except ApiError String
  | .ks_delete _ => Except CoreError Unit
  | .on_status _ => Unit
  | .on_change => Unit
  | .sleep _ => Unit

/-- The calls that leave the device: the HTTP requests. -/
def Op.isHttp : Op → Bool
  | .api_logout => true
  | .api_sync _ => true
  | .api_messages _ _ => true
  | .api_invite _ _ => true
  | .api_query_keys _ => true
  | .api_claim_keys _ _ => true
  | .api_upload_keys _ _ _ _ => true
  | .api_send_to_device _ _ _ => true
  | .api_send_event _ _ _ _ => true
  | .api_upload_media _ _ => true
  | _ => false

abbrev Code (α : Type) := Prog Op Op.Res α

/-! ## What a call does -/

/-- What the surroundings choose for a call: the answer to an HTTP request, the ids
and the clock of a send, and what fails in a local call. -/
@[reducible] def Op.Choice : Op → Type
  | .queue_send _ _ _ => Fault × SendIds × Int
  | .next_txn_id => String
  | .encrypt_media _ => Except CoreError (String × Bytes)
  | .api_logout => Except ApiError Unit
  | .api_sync _ => Except ApiError Json
  | .api_messages _ _ => Except ApiError Json
  | .api_invite _ _ => Except ApiError String
  | .api_query_keys _ => Except ApiError Json
  | .api_claim_keys _ _ => Except ApiError (Option String)
  | .api_upload_keys _ _ _ _ => Except ApiError Nat
  | .api_send_to_device _ _ _ => Except ApiError Unit
  | .api_send_event _ _ _ _ => Except ApiError String
  | .api_upload_media _ _ => Except ApiError String
  | _ => Fault

namespace Client

variable {D : Type} (X : PigeonCrypto D)

/-- A method of the store: one transaction. -/
def onStore {β : Type} (fault : Fault) (c : Client D) (f : Store → Except StoreError (β × Store)) :
    Except CoreError β × Client D :=
  match fault with
  | .db reason => (.error (StoreError.Db reason).toCore, c)
  | _ =>
    match f c.store with
    | .error e => (.error e.toCore, c)
    | .ok (b, st) => (.ok b, { c with store := st })

/-- A method of the engine; an error where the session has none. -/
def onEngine {β : Type} (c : Client D)
    (f : D → Option KeyMap → Except CoreError β × D × Option KeyMap) :
    Except CoreError β × Client D :=
  match c.e2ee with
  | none => (.error (.Crypto "E2EE is not available for this session"), c)
  | some d =>
    let (r, d', ks') := f d c.key_store
    (r, { c with e2ee := some d', key_store := ks' })

/-- One call, for one choice of the surroundings. -/
def perform : (op : Op) → op.Choice → Client D → op.Res × Client D
  | .load_sync_token, ft, c => c.onStore ft (fun st => .ok (st.load_sync_token, st))
  | .save_sync_token t, ft, c => c.onStore ft (fun st => .ok ((), st.save_sync_token t))
  | .apply_events evs, ft, c => c.onStore ft (fun st => st.apply_events evs)
  | .queue_send room sender body, (ft, ids, ts), c =>
    c.onStore ft (fun st => st.queue_send room sender body ids ts)
  | .pending_sends, ft, c => c.onStore ft (fun st => .ok (st.pending_sends_list, st))
  | .has_pending_send room, ft, c => c.onStore ft (fun st => .ok (st.has_pending_send room, st))
  | .resolve_send txn real, ft, c =>
    c.onStore ft (fun st => (st.resolve_send txn real).map ((), ·))
  | .fail_send txn, ft, c => c.onStore ft (fun st => .ok ((), st.fail_send txn))
  | .is_room_encrypted room, ft, c => c.onStore ft (fun st => .ok (st.is_room_encrypted room, st))
  | .pending_mls, ft, c => c.onStore ft (fun st => st.pending_mls.map (·, st))
  | .set_decrypted id pt, ft, c => c.onStore ft (fun st => .ok ((), st.set_decrypted id pt))
  | .set_decrypt_failed id, ft, c => c.onStore ft (fun st => .ok ((), st.set_decrypt_failed id))
  | .set_commit_processed id, ft, c =>
    c.onStore ft (fun st => .ok ((), st.set_commit_processed id))
  | .session, _, c => (c.session, c)
  | .e2ee, _, c => (c.e2ee.isSome, c)
  | .lock_send, _, c => ((), c)
  | .unlock_send, _, c => ((), c)
  | .next_txn_id, id, c => (id, c)
  | .has_group room, ft, c => c.onEngine (fun d ks => (E2ee.has_group X d room ft, d, ks))
  | .create_group room, ft, c => c.onEngine (fun d ks => E2ee.create_group X d ks ft room)
  | .add_member room kp, ft, c => c.onEngine (fun d ks => E2ee.add_member X d ks ft room kp)
  | .process_commit room cm, ft, c =>
    c.onEngine (fun d ks => E2ee.process_commit X d ks ft room cm)
  | .join_from_welcome w, ft, c => c.onEngine (fun d ks => E2ee.join_from_welcome X d ks ft w)
  | .encrypt room pt, ft, c => c.onEngine (fun d ks => E2ee.encrypt X d ks ft room pt)
  | .decrypt room ct, ft, c => c.onEngine (fun d ks => E2ee.decrypt X d ks ft room ct)
  | .encrypt_media _, r, c => c.onEngine (fun d ks => (r, d, ks))
  | .key_packages n, ft, c => c.onEngine (fun d ks => E2ee.key_packages X d ks ft n)
  | .last_resort_key_package, ft, c =>
    c.onEngine (fun d ks => E2ee.last_resort_key_package X d ks ft)
  | .signature_public_key_b64, _, c => ((c.e2ee.map X.signature_public_key).getD "", c)
  | .api_logout, r, c => (r, c)
  | .api_sync _, r, c => (r, c)
  | .api_messages _ _, r, c => (r, c)
  | .api_invite _ _, r, c => (r, c)
  | .api_query_keys _, r, c => (r, c)
  | .api_claim_keys _ _, r, c => (r, c)
  | .api_upload_keys _ _ _ _, r, c => (r, c)
  | .api_send_to_device _ _ _, r, c => (r, c)
  | .api_send_event _ _ _ _, r, c => (r, c)
  | .api_upload_media _ _, r, c => (r, c)
  | .ks_delete key, ft, c =>
    let (r, ks') := PigeonMobile.ks_delete c.key_store key ft
    (r, { c with key_store := ks' })
  | .on_status _, _, c => ((), c)
  | .on_change, _, c => ((), c)
  | .sleep _, _, c => ((), c)

/-- A call as a step: some choice of the surroundings gives the answer. -/
def Exec (op : Op) (c : Client D) (r : op.Res) (c' : Client D) : Prop :=
  ∃ choice : op.Choice, perform X op choice c = (r, c')

/-- The choice where nothing fails and the network is down. -/
def calm : (op : Op) → op.Choice
  | .queue_send _ _ _ => (.none, next_send_ids 0 0, 0)
  | .next_txn_id => "mob-td-0-0"
  | .encrypt_media _ => .error (.Crypto "")
  | .api_logout => .error (.Network "offline")
  | .api_sync _ => .error (.Network "offline")
  | .api_messages _ _ => .error (.Network "offline")
  | .api_invite _ _ => .error (.Network "offline")
  | .api_query_keys _ => .error (.Network "offline")
  | .api_claim_keys _ _ => .error (.Network "offline")
  | .api_upload_keys _ _ _ _ => .error (.Network "offline")
  | .api_send_to_device _ _ _ => .error (.Network "offline")
  | .api_send_event _ _ _ _ => .error (.Network "offline")
  | .api_upload_media _ _ => .error (.Network "offline")
  | .load_sync_token | .save_sync_token _ | .apply_events _ | .pending_sends
  | .has_pending_send _ | .resolve_send _ _ | .fail_send _ | .is_room_encrypted _
  | .pending_mls | .set_decrypted _ _ | .set_decrypt_failed _ | .set_commit_processed _
  | .session | .e2ee | .lock_send | .unlock_send | .has_group _ | .create_group _
  | .add_member _ _ | .process_commit _ _ | .join_from_welcome _ | .encrypt _ _
  | .decrypt _ _ | .key_packages _ | .last_resort_key_package | .signature_public_key_b64
  | .ks_delete _ | .on_status _ | .on_change | .sleep _ => Fault.none

/-- A call, where `choose` is what the surroundings choose for every call. -/
def under (choose : (op : Op) → op.Choice) (op : Op) (c : Client D) : op.Res × Client D :=
  perform X op (choose op) c

/-- A call where nothing fails: what the local code computes. -/
def local_ (op : Op) (c : Client D) : op.Res × Client D := perform X op (calm op) c

/-! ## What a call can answer -/

variable {X}

/-- A method of the store fails and changes nothing, or does what it does. -/
theorem onStore_cases {β : Type} {fault : Fault} {c c' : Client D}
    {f : Store → Except StoreError (β × Store)} {r : Except CoreError β}
    (h : c.onStore fault f = (r, c')) :
    (∃ e, r = .error e ∧ c' = c) ∨
      ∃ b st, f c.store = .ok (b, st) ∧ r = .ok b ∧ c' = { c with store := st } := by
  have hok : (match f c.store with
      | .error e => (.error e.toCore, c)
      | .ok (b, st) => (.ok b, { c with store := st })) = (r, c') → (∃ e, r = .error e ∧ c' = c) ∨
      ∃ b st, f c.store = .ok (b, st) ∧ r = .ok b ∧ c' = { c with store := st } := by
    intro h
    cases hf : f c.store with
    | error e =>
      rw [hf] at h
      cases h
      exact Or.inl ⟨_, rfl, rfl⟩
    | ok b =>
      rw [hf] at h
      cases h
      exact Or.inr ⟨b.1, b.2, rfl, rfl, rfl⟩
  unfold onStore at h
  cases fault with
  | db reason =>
    cases h
    exact Or.inl ⟨_, rfl, rfl⟩
  | none | load_group | key_store | export_storage => exact hok h

/-- What a method of the store fails with: SQLite, or an error of its own. -/
theorem onStore_error {β : Type} {fault : Fault} {c c' : Client D}
    {f : Store → Except StoreError (β × Store)} {e : CoreError}
    (h : c.onStore fault f = (.error e, c')) : (∃ reason, e = (StoreError.Db reason).toCore) ∨
      ∃ err, f c.store = .error err ∧ e = err.toCore := by
  unfold onStore at h
  split at h
  · cases h
    exact Or.inl ⟨_, rfl⟩
  · split at h
    · next err herr =>
      cases h
      exact Or.inr ⟨err, herr, rfl⟩
    · cases h

/-- A read of the store. -/
theorem exec_read {β : Type} {fault : Fault} {c c' : Client D} {f : Store → β}
    {r : Except CoreError β} (h : c.onStore fault (fun st => .ok (f st, st)) = (r, c')) :
    c' = c ∧ ((∃ e, r = .error e) ∨ r = .ok (f c.store)) := by
  rcases onStore_cases h with ⟨e, rfl, rfl⟩ | ⟨b, st, hf, rfl, rfl⟩
  · exact ⟨rfl, Or.inl ⟨e, rfl⟩⟩
  · cases hf
    exact ⟨rfl, Or.inr rfl⟩

/-- The engine leaves the tables alone. -/
theorem onEngine_store {β : Type} (c : Client D)
    (f : D → Option KeyMap → Except CoreError β × D × Option KeyMap) :
    (c.onEngine f).2.store = c.store := by
  unfold onEngine
  cases c.e2ee <;> rfl

/-- The calls that write to the tables. -/
def writesStore : Op → Bool
  | .save_sync_token _ => true
  | .apply_events _ => true
  | .queue_send _ _ _ => true
  | .resolve_send _ _ => true
  | .fail_send _ => true
  | .set_decrypted _ _ => true
  | .set_decrypt_failed _ => true
  | .set_commit_processed _ => true
  | _ => false

theorem exec_e2ee {c c' : Client D} {r : Bool} (h : Exec X .e2ee c r c') :
    r = c.e2ee.isSome ∧ c' = c := by
  obtain ⟨_, h⟩ := h
  cases h
  exact ⟨rfl, rfl⟩

theorem exec_has_group {c c' : Client D} {room : String} {r : Except CoreError Bool}
    (h : Exec X (.has_group room) c r c') :
    c' = c ∧ ((∃ e, r = .error e) ∨ ∃ d, c.e2ee = some d ∧ r = .ok (X.load_group d room)) := by
  obtain ⟨fault, h⟩ := h
  obtain ⟨api, session, store, e2ee, key_store⟩ := c
  cases e2ee with
  | none =>
    cases h
    exact ⟨rfl, Or.inl ⟨_, rfl⟩⟩
  | some d =>
    cases fault with
    | load_group reason =>
      cases h
      exact ⟨rfl, Or.inl ⟨_, rfl⟩⟩
    | none | db | key_store | export_storage =>
      cases h
      exact ⟨rfl, Or.inr ⟨d, rfl, rfl⟩⟩

theorem exec_is_room_encrypted {c c' : Client D} {room : String} {r : Except CoreError Bool}
    (h : Exec X (.is_room_encrypted room) c r c') :
    c' = c ∧ ((∃ e, r = .error e) ∨ r = .ok (c.store.is_room_encrypted room)) := by
  obtain ⟨fault, h⟩ := h
  have h' : c.onStore fault (fun st => .ok (st.is_room_encrypted room, st)) = (r, c') := h
  exact exec_read h'

theorem onStore_store {β : Type} {fault : Fault} {c : Client D}
    {f : Store → Except StoreError (β × Store)}
    (h : ∀ b st', f c.store = .ok (b, st') → st' = c.store) : (c.onStore fault f).2 = c := by
  obtain ⟨r, c', hr⟩ : ∃ r c', c.onStore fault f = (r, c') := ⟨_, _, rfl⟩
  rw [hr]
  rcases onStore_cases hr with ⟨e, -, rfl⟩ | ⟨b, st', hf, -, rfl⟩
  · rfl
  · rw [h b st' hf]

/-- Every other call leaves them as they are. -/
theorem perform_store {op : Op} (h : writesStore op = false) (choice : op.Choice) (c : Client D) :
    (perform X op choice c).2.store = c.store := by
  have hread : ∀ {β : Type} (fault : Fault) (g : Store → β),
      (c.onStore fault (fun st => .ok (g st, st))).2 = c := by
    intro β fault g
    apply onStore_store
    intro b st' hok
    cases hok
    rfl
  cases op with
  | load_sync_token => exact congrArg Client.store (hread choice _)
  | pending_sends => exact congrArg Client.store (hread choice _)
  | has_pending_send room => exact congrArg Client.store (hread choice _)
  | is_room_encrypted room => exact congrArg Client.store (hread choice _)
  | pending_mls =>
    have hc : (c.onStore choice (fun st => st.pending_mls.map (·, st))).2 = c := by
      apply onStore_store
      intro b st' hok
      cases hp : c.store.pending_mls with
      | error e =>
        rw [hp] at hok
        cases hok
      | ok items =>
        rw [hp] at hok
        cases hok
        rfl
    exact congrArg Client.store hc
  | save_sync_token | apply_events | queue_send | resolve_send | fail_send | set_decrypted
  | set_decrypt_failed | set_commit_processed => cases h
  | has_group | create_group | add_member | process_commit | join_from_welcome | encrypt | decrypt
  | encrypt_media | key_packages | last_resort_key_package => exact onEngine_store c _
  | session | e2ee | lock_send | unlock_send | next_txn_id | signature_public_key_b64 | api_logout
  | api_sync | api_messages | api_invite | api_query_keys | api_claim_keys | api_upload_keys
  | api_send_to_device | api_send_event | api_upload_media | ks_delete | on_status | on_change
  | sleep => rfl

end Client

end PigeonMobile
