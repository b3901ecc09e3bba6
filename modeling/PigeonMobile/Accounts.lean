-- Two accounts on one phone: the histories of one user, and what another user can tell of
-- them. A login opens the file that is there and writes its own entries into the key
-- store, so two hosts with the same rows start the same session.
import PigeonMobile.Session
import PigeonMobile.Timeline
import Mathlib.Logic.Relation

namespace PigeonMobile

/-! ## What a session does -/

/-- One act of a logged-in app: a call of its code, or a restart of the process. -/
inductive Act where
  | call (op : Op)
  | restart

@[reducible] def Act.Choice : Act → Type
  | .call op => op.Choice
  | .restart => Except ApiError Unit × SessionFaults

/-- A restart gives a client, or none, or an error. -/
@[reducible] def Act.Res : Act → Type
  | .call op => op.Res
  | .restart => Except CoreError Bool

/-- Anything that the user of a client can go on to do. -/
abbrev Life (α : Type) := Prog Act Act.Res α

/-- The surroundings of a session, with a state of their own: what they saw so far. -/
abbrev Env (τ : Type) := (a : Act) → τ → a.Choice × τ

variable {D : Type} (X : PigeonCrypto D) (from_str : String → Option Json)

def Client.act : (a : Act) → a.Choice → Client D → a.Res × Client D
  | .call op, choice, c => Client.perform X op choice c
  | .restart, (whoami, f), c =>
    match restore_session X whoami f c.host with
    | (.error e, h) => (.error e, { c with key_store := h.key_store })
    | (.ok none, h) => (.ok false, { c with key_store := h.key_store })
    | (.ok (some c'), _) => (.ok true, c')

def Env.answer {τ : Type} (env : Env τ) (a : Act) (s : Client D × τ) : a.Res × (Client D × τ) :=
  ((Client.act X a (env a s.2).1 s.1).1, (Client.act X a (env a s.2).1 s.1).2, (env a s.2).2)

/-- In the same surroundings, whatever the user does: the same values come out, the
surroundings see the same calls, and the room list and every timeline are the same. -/
def SameSession (c₁ c₂ : Client D) : Prop :=
  ∀ (τ α : Type) (env : Env τ) (t : τ) (p : Life α),
    (p.run (env.answer X) (c₁, t)).1 = (p.run (env.answer X) (c₂, t)).1 ∧
    (p.run (env.answer X) (c₁, t)).2.2 = (p.run (env.answer X) (c₂, t)).2.2 ∧
    (p.run (env.answer X) (c₁, t)).2.1.store.list_rooms =
      (p.run (env.answer X) (c₂, t)).2.1.store.list_rooms ∧
    ∀ room_id limit before,
      timeline from_str (p.run (env.answer X) (c₁, t)).2.1.store room_id limit before =
        timeline from_str (p.run (env.answer X) (c₂, t)).2.1.store room_id limit before

/-- Two hosts that no user but `user` can tell apart: each login fails in the same way,
or starts the same session. -/
def SameForOthers (user : String) (h₁ h₂ : Host) : Prop :=
  ∀ server answer f, (∀ auth, answer.bind parse_auth = .ok auth → auth.user_id ≠ user) →
    (∃ e, (login X server answer f h₁).1 = .error e ∧ (login X server answer f h₂).1 = .error e) ∨
      ∃ c₁ c₂, (login X server answer f h₁).1 = .ok c₁ ∧ (login X server answer f h₂).1 = .ok c₂ ∧
        SameSession X from_str c₁ c₂

/-! ## The history of a user -/

/-- The app, closed or with a client. -/
inductive Phone (D : Type) where
  | closed (h : Host)
  | opened (c : Client D)

/-- One step of the history of `user`. -/
inductive Use (user : String) : Phone D → Phone D → Prop
  | login {h h' : Host} {c : Client D} {server : String} {answer : Except ApiError Json}
      {f : SessionFaults} : login X server answer f h = (.ok c, h') → c.session.user_id = user →
      Use user (.closed h) (.opened c)
  | login_fails {h h' : Host} {e : CoreError} {server : String} {answer : Except ApiError Json}
      {f : SessionFaults} : login X server answer f h = (.error e, h') →
      Use user (.closed h) (.closed h')
  | launch {h h' : Host} {c : Client D} {whoami : Except ApiError Unit} {f : SessionFaults} :
      restore_session X whoami f h = (.ok (some c), h') → Use user (.closed h) (.opened c)
  | launch_fails {h h' : Host} {r : Except CoreError (Option (Client D))}
      {whoami : Except ApiError Unit} {f : SessionFaults} : (∀ c, r ≠ .ok (some c)) →
      restore_session X whoami f h = (r, h') → Use user (.closed h) (.closed h')
  | call {c c' : Client D} {op : Op} {r : op.Res} : Client.Exec X op c r c' →
      Use user (.opened c) (.opened c')
  | kill {c : Client D} : Use user (.opened c) (.closed c.host)

/-- A history of `user` from `h` that ends in a logout with no error, and leaves `h'`. -/
def LogsOut (user : String) (h h' : Host) : Prop :=
  ∃ c c' es, Relation.ReflTransGen (Use X user) (.closed h) (.opened c) ∧
    Prog.Runs (Client.Exec X) Eq logout c es (.done (.ok ())) c' ∧ h' = c'.host

/-! ## Key stores that hold the same session -/

/-- The entries that the core reads are the same in both. -/
def SameKeys (ks₁ ks₂ : Option KeyMap) : Prop :=
  ks₁.isSome = ks₂.isSome ∧
    ∀ key, key = SESSION_KEY ∨ key = MLS_STATE_KEY → ks_get ks₁ key .none = ks_get ks₂ key .none

theorem ks_get_put (m : KeyMap) (key k : String) (value : Json) :
    ks_get (some (m.put key value)) k .none =
      if key = k then .ok (some value) else ks_get (some m) k .none := by
  simp only [ks_get, KeyMap.find_put]
  by_cases h : key = k
  · simp [h]
  · simp [h]

theorem ks_get_erase (m : KeyMap) (key k : String) :
    ks_get (some (m.erase key)) k .none =
      if k = key then .ok none else ks_get (some m) k .none := by
  simp only [ks_get, Table.find_erase]
  by_cases h : k = key
  · simp [h]
  · simp [h]

/-- A key store is installed on both sides or on none. -/
theorem SameKeys.sides {ks₁ ks₂ : Option KeyMap} (h : SameKeys ks₁ ks₂) :
    (ks₁ = none ∧ ks₂ = none) ∨ ∃ m₁ m₂, ks₁ = some m₁ ∧ ks₂ = some m₂ := by
  have hsome := h.1
  cases ks₁ with
  | none =>
    cases ks₂ with
    | none => exact Or.inl ⟨rfl, rfl⟩
    | some m₂ => cases hsome
  | some m₁ =>
    cases ks₂ with
    | none => cases hsome
    | some m₂ => exact Or.inr ⟨m₁, m₂, rfl, rfl⟩

theorem SameKeys.get {ks₁ ks₂ : Option KeyMap} (h : SameKeys ks₁ ks₂) {key : String}
    (hkey : key = SESSION_KEY ∨ key = MLS_STATE_KEY) (fault : Fault) :
    ks_get ks₁ key fault = ks_get ks₂ key fault := by
  have hget := h.2 key hkey
  rcases h.sides with ⟨rfl, rfl⟩ | ⟨m₁, m₂, rfl, rfl⟩
  · rfl
  · cases fault with
    | key_store reason => rfl
    | none | db | load_group | export_storage => exact hget

theorem SameKeys.put {ks₁ ks₂ : Option KeyMap} (h : SameKeys ks₁ ks₂) (key : String) (value : Json)
    (fault : Fault) : (ks_put ks₁ key value fault).1 = (ks_put ks₂ key value fault).1 ∧
      SameKeys (ks_put ks₁ key value fault).2 (ks_put ks₂ key value fault).2 := by
  rcases h.sides with ⟨rfl, rfl⟩ | ⟨m₁, m₂, rfl, rfl⟩
  · exact ⟨rfl, h⟩
  · have hput : SameKeys (some (m₁.put key value)) (some (m₂.put key value)) := by
      refine ⟨rfl, ?_⟩
      intro k hk
      rw [ks_get_put, ks_get_put, h.2 k hk]
    cases fault with
    | key_store reason => exact ⟨rfl, h⟩
    | none | db | load_group | export_storage => exact ⟨rfl, hput⟩

theorem SameKeys.delete {ks₁ ks₂ : Option KeyMap} (h : SameKeys ks₁ ks₂) (key : String)
    (fault : Fault) : (ks_delete ks₁ key fault).1 = (ks_delete ks₂ key fault).1 ∧
      SameKeys (ks_delete ks₁ key fault).2 (ks_delete ks₂ key fault).2 := by
  rcases h.sides with ⟨rfl, rfl⟩ | ⟨m₁, m₂, rfl, rfl⟩
  · exact ⟨rfl, h⟩
  · have herase : SameKeys (some (m₁.erase key)) (some (m₂.erase key)) := by
      refine ⟨rfl, ?_⟩
      intro k hk
      rw [ks_get_erase, ks_get_erase, h.2 k hk]
    cases fault with
    | key_store reason => exact ⟨rfl, h⟩
    | none | db | load_group | export_storage => exact ⟨rfl, herase⟩

/-! ## Clients that differ in nothing but other keys -/

structure Alike (c₁ c₂ : Client D) : Prop where
  api : c₁.api = c₂.api
  session : c₁.session = c₂.session
  store : c₁.store = c₂.store
  e2ee : c₁.e2ee = c₂.e2ee
  keys : SameKeys c₁.key_store c₂.key_store

/-- An engine call that reads nothing of the key store and writes the same to both. -/
def KeysAside {β : Type} (f : Option KeyMap → Except CoreError β × D × Option KeyMap) : Prop :=
  ∀ ks₁ ks₂, SameKeys ks₁ ks₂ → (f ks₁).1 = (f ks₂).1 ∧ (f ks₁).2.1 = (f ks₂).2.1 ∧
    SameKeys (f ks₁).2.2 (f ks₂).2.2

theorem persist_aside (d : D) (fault : Fault) {ks₁ ks₂ : Option KeyMap} (h : SameKeys ks₁ ks₂) :
    (E2ee.persist X d ks₁ fault).1 = (E2ee.persist X d ks₂ fault).1 ∧
      SameKeys (E2ee.persist X d ks₁ fault).2 (E2ee.persist X d ks₂ fault).2 := by
  obtain ⟨h1, h2⟩ := h.put MLS_STATE_KEY (E2ee.stateBlob X d) fault
  unfold E2ee.persist
  split
  · exact ⟨rfl, h⟩
  generalize ks_put ks₁ MLS_STATE_KEY (E2ee.stateBlob X d) fault = o₁ at h1 h2 ⊢
  generalize ks_put ks₂ MLS_STATE_KEY (E2ee.stateBlob X d) fault = o₂ at h1 h2 ⊢
  obtain ⟨r₁, ks₁'⟩ := o₁
  obtain ⟨r₂, ks₂'⟩ := o₂
  obtain rfl : r₁ = r₂ := h1
  cases r₁ with
  | error e => exact ⟨rfl, h2⟩
  | ok b => exact ⟨rfl, h2⟩

theorem mutate_aside {β : Type} (d : D) (fault : Fault) (r : Except String (D × β)) :
    KeysAside (fun ks => E2ee.mutate X d ks fault r) := by
  intro ks₁ ks₂ h
  cases r with
  | error reason => exact ⟨rfl, rfl, h⟩
  | ok db =>
    obtain ⟨d', b⟩ := db
    obtain ⟨h1, h2⟩ := persist_aside X d' fault h
    simp only [E2ee.mutate]
    generalize E2ee.persist X d' ks₁ fault = o₁ at h1 h2 ⊢
    generalize E2ee.persist X d' ks₂ fault = o₂ at h1 h2 ⊢
    obtain ⟨r₁, ks₁'⟩ := o₁
    obtain ⟨r₂, ks₂'⟩ := o₂
    obtain rfl : r₁ = r₂ := h1
    cases r₁ with
    | error e => exact ⟨rfl, rfl, h2⟩
    | ok u => exact ⟨rfl, rfl, h2⟩

theorem onGroup_aside {β : Type} (d : D) (fault : Fault) (room_id : String)
    (r : Except String (D × β)) : KeysAside (fun ks => E2ee.onGroup X d ks fault room_id r) := by
  have hload : KeysAside (fun ks => if X.load_group d room_id then E2ee.mutate X d ks fault r
      else (.error (.Crypto ("no MLS group for " ++ room_id)), d, ks)) := by
    intro ks₁ ks₂ h
    by_cases hg : X.load_group d room_id = true
    · simp only [hg, if_true]
      exact mutate_aside X d fault r ks₁ ks₂ h
    · simp only [hg]
      exact ⟨rfl, rfl, h⟩
  cases fault with
  | load_group reason => exact fun ks₁ ks₂ h => ⟨rfl, rfl, h⟩
  | none | db | key_store | export_storage => exact hload

theorem decrypt_aside (d : D) (fault : Fault) (room_id ciphertext : String) :
    KeysAside (fun ks => E2ee.decrypt X d ks fault room_id ciphertext) := by
  intro ks₁ ks₂ h
  obtain ⟨h1, h2, h3⟩ := onGroup_aside X d fault room_id (X.decrypt d room_id ciphertext) ks₁ ks₂ h
  simp only [E2ee.decrypt]
  beta_reduce at h1 h2 h3
  generalize E2ee.onGroup X d ks₁ fault room_id (X.decrypt d room_id ciphertext) = o₁ at h1 h2 h3 ⊢
  generalize E2ee.onGroup X d ks₂ fault room_id (X.decrypt d room_id ciphertext) = o₂ at h1 h2 h3 ⊢
  obtain ⟨r₁, d₁, ks₁'⟩ := o₁
  obtain ⟨r₂, d₂, ks₂'⟩ := o₂
  obtain rfl : r₁ = r₂ := h1
  rcases r₁ with e | (_ | text)
  · exact ⟨rfl, h2, h3⟩
  · exact ⟨rfl, h2, h3⟩
  · exact ⟨rfl, h2, h3⟩

/-- A call answers the same to both, and leaves them alike. -/
theorem Alike.perform {c₁ c₂ : Client D} (h : Alike c₁ c₂) (op : Op) (choice : op.Choice) :
    (Client.perform X op choice c₁).1 = (Client.perform X op choice c₂).1 ∧
      Alike (Client.perform X op choice c₁).2 (Client.perform X op choice c₂).2 := by
  obtain ⟨api, session, store, e2ee, ks₁⟩ := c₁
  obtain ⟨api₂, session₂, store₂, e2ee₂, ks₂⟩ := c₂
  obtain ⟨rfl, rfl, rfl, rfl, hkeys⟩ := h
  simp only at hkeys
  have hstore : ∀ {β : Type} (fault : Fault) (f : Store → Except StoreError (β × Store)),
      (Client.onStore fault ⟨api, session, store, e2ee, ks₁⟩ f).1 =
        (Client.onStore fault ⟨api, session, store, e2ee, ks₂⟩ f).1 ∧
      Alike (Client.onStore fault ⟨api, session, store, e2ee, ks₁⟩ f).2
        (Client.onStore fault (⟨api, session, store, e2ee, ks₂⟩ : Client D) f).2 := by
    intro β fault f
    unfold Client.onStore
    cases fault with
    | db reason => exact ⟨rfl, rfl, rfl, rfl, rfl, hkeys⟩
    | none | load_group | key_store | export_storage =>
      cases f store with
      | error e => exact ⟨rfl, rfl, rfl, rfl, rfl, hkeys⟩
      | ok b => exact ⟨rfl, rfl, rfl, rfl, rfl, hkeys⟩
  have hengine : ∀ {β : Type} (f : D → Option KeyMap → Except CoreError β × D × Option KeyMap),
      (∀ d, KeysAside (f d)) →
      (Client.onEngine ⟨api, session, store, e2ee, ks₁⟩ f).1 =
        (Client.onEngine ⟨api, session, store, e2ee, ks₂⟩ f).1 ∧
      Alike (Client.onEngine ⟨api, session, store, e2ee, ks₁⟩ f).2
        (Client.onEngine ⟨api, session, store, e2ee, ks₂⟩ f).2 := by
    intro β f hf
    unfold Client.onEngine
    cases e2ee with
    | none => exact ⟨rfl, rfl, rfl, rfl, rfl, hkeys⟩
    | some d =>
      obtain ⟨h1, h2, h3⟩ := hf d ks₁ ks₂ hkeys
      exact ⟨h1, rfl, rfl, rfl, congrArg some h2, h3⟩
  have hquiet : ∀ {β : Type} (g : D → Except CoreError β),
      ∀ d, KeysAside (fun ks => (g d, d, ks)) := fun g d ks₁ ks₂ h => ⟨rfl, rfl, h⟩
  cases op with
  | load_sync_token | save_sync_token | apply_events | pending_sends | has_pending_send
  | resolve_send | fail_send | is_room_encrypted | pending_mls | set_decrypted
  | set_decrypt_failed | set_commit_processed => exact hstore choice _
  | queue_send room sender body => exact hstore choice.1 _
  | has_group room => exact hengine _ (hquiet (fun d => E2ee.has_group X d room choice))
  | encrypt_media => exact hengine _ (hquiet (fun _ => choice))
  | create_group | join_from_welcome | key_packages | last_resort_key_package =>
    exact hengine _ (fun d => mutate_aside X d choice _)
  | add_member | process_commit | encrypt => exact hengine _ (fun d => onGroup_aside X d choice _ _)
  | decrypt room ct => exact hengine _ (fun d => decrypt_aside X d choice room ct)
  | ks_delete key =>
    obtain ⟨h1, h2⟩ := hkeys.delete key choice
    exact ⟨h1, rfl, rfl, rfl, rfl, h2⟩
  | session | e2ee | lock_send | unlock_send | next_txn_id | signature_public_key_b64 | api_logout
  | api_sync | api_messages | api_invite | api_query_keys | api_claim_keys | api_upload_keys
  | api_send_to_device | api_send_event | api_upload_media | on_status | on_change | sleep =>
    exact ⟨rfl, rfl, rfl, rfl, rfl, hkeys⟩

/-! ## Hosts with the same rows -/

structure Host.Alike (h₁ h₂ : Host) : Prop where
  file : h₁.file = h₂.file
  keys : SameKeys h₁.key_store h₂.key_store

theorem mint_alike (user_id : String) (fault : Fault) {ks₁ ks₂ : Option KeyMap}
    (h : SameKeys ks₁ ks₂) :
    (mint_e2ee X user_id ks₁ fault).1 = (mint_e2ee X user_id ks₂ fault).1 ∧
      SameKeys (mint_e2ee X user_id ks₁ fault).2 (mint_e2ee X user_id ks₂ fault).2 := by
  unfold mint_e2ee E2ee.create
  cases X.new user_id with
  | error reason => exact ⟨rfl, h⟩
  | ok d =>
    obtain ⟨h1, h2⟩ := persist_aside X d fault h
    simp only
    generalize E2ee.persist X d ks₁ fault = o₁ at h1 h2 ⊢
    generalize E2ee.persist X d ks₂ fault = o₂ at h1 h2 ⊢
    obtain ⟨r₁, ks₁'⟩ := o₁
    obtain ⟨r₂, ks₂'⟩ := o₂
    obtain rfl : r₁ = r₂ := h1
    cases r₁ with
    | error e => exact ⟨rfl, h2⟩
    | ok u => exact ⟨rfl, h2⟩

theorem restore_or_mint_alike (user_id : String) (f : SessionFaults) {ks₁ ks₂ : Option KeyMap}
    (h : SameKeys ks₁ ks₂) :
    (restore_or_mint_e2ee X user_id ks₁ f).1 = (restore_or_mint_e2ee X user_id ks₂ f).1 ∧
      SameKeys (restore_or_mint_e2ee X user_id ks₁ f).2
        (restore_or_mint_e2ee X user_id ks₂ f).2 := by
  have hrestore : E2ee.restore X user_id ks₁ f.mls_get = E2ee.restore X user_id ks₂ f.mls_get := by
    unfold E2ee.restore
    rw [h.get (Or.inr rfl)]
  unfold restore_or_mint_e2ee
  rw [hrestore]
  rcases E2ee.restore X user_id ks₂ f.mls_get with e | (_ | d)
  · exact mint_alike X user_id f.mls_put h
  · exact mint_alike X user_id f.mls_put h
  · exact ⟨rfl, h⟩

/-- A launch gives the same on both: an error or no client, or two clients alike. -/
theorem Host.Alike.restore {h₁ h₂ : Host} (h : h₁.Alike h₂) (whoami : Except ApiError Unit)
    (f : SessionFaults) :
    SameKeys (restore_session X whoami f h₁).2.key_store
      (restore_session X whoami f h₂).2.key_store ∧
      (((restore_session X whoami f h₁).1 = (restore_session X whoami f h₂).1 ∧
        ∀ c, (restore_session X whoami f h₁).1 ≠ .ok (some c)) ∨
      ∃ c₁ c₂, (restore_session X whoami f h₁).1 = .ok (some c₁) ∧
        (restore_session X whoami f h₂).1 = .ok (some c₂) ∧ PigeonMobile.Alike c₁ c₂) := by
  obtain ⟨ks₁, file⟩ := h₁
  obtain ⟨ks₂, file₂⟩ := h₂
  obtain ⟨rfl, hkeys⟩ := h
  simp only at hkeys
  have hresume : ∀ session token,
      SameKeys (resume X session token f ⟨ks₁, file⟩).2.key_store
        (resume X session token f ⟨ks₂, file⟩).2.key_store ∧
      (((resume X session token f ⟨ks₁, file⟩).1 = (resume X session token f ⟨ks₂, file⟩).1 ∧
        ∀ c, (resume X session token f ⟨ks₁, file⟩).1 ≠ .ok (some c)) ∨
      ∃ c₁ c₂, (resume X session token f ⟨ks₁, file⟩).1 = .ok (some c₁) ∧
        (resume X session token f ⟨ks₂, file⟩).1 = .ok (some c₂) ∧ PigeonMobile.Alike c₁ c₂) := by
    intro session token
    obtain ⟨h1, h2⟩ := restore_or_mint_alike X session.user_id f hkeys
    simp only [resume]
    generalize restore_or_mint_e2ee X session.user_id ks₁ f = o₁ at h1 h2 ⊢
    generalize restore_or_mint_e2ee X session.user_id ks₂ f = o₂ at h1 h2 ⊢
    obtain ⟨e₁, ks₁'⟩ := o₁
    obtain ⟨e₂, ks₂'⟩ := o₂
    obtain rfl : e₁ = e₂ := h1
    cases open_store file f.store with
    | error e => exact ⟨h2, Or.inl ⟨rfl, fun c hc => by cases hc⟩⟩
    | ok store => exact ⟨h2, Or.inr ⟨_, _, rfl, rfl, rfl, rfl, rfl, rfl, h2⟩⟩
  have hdrop : SameKeys (drop_session (D := D) f.session_delete ⟨ks₁, file⟩).2.key_store
        (drop_session (D := D) f.session_delete ⟨ks₂, file⟩).2.key_store ∧
      (drop_session (D := D) f.session_delete ⟨ks₁, file⟩).1 =
        (drop_session (D := D) f.session_delete ⟨ks₂, file⟩).1 ∧
      ∀ c, (drop_session (D := D) f.session_delete ⟨ks₁, file⟩).1 ≠ .ok (some c) := by
    obtain ⟨h1, h2⟩ := hkeys.delete SESSION_KEY f.session_delete
    simp only [drop_session]
    generalize ks_delete ks₁ SESSION_KEY f.session_delete = o₁ at h1 h2 ⊢
    generalize ks_delete ks₂ SESSION_KEY f.session_delete = o₂ at h1 h2 ⊢
    obtain ⟨r₁, ks₁'⟩ := o₁
    obtain ⟨r₂, ks₂'⟩ := o₂
    obtain rfl : r₁ = r₂ := h1
    cases r₁ with
    | error e => exact ⟨h2, rfl, fun c hc => by cases hc⟩
    | ok u => exact ⟨h2, rfl, fun c hc => by cases hc⟩
  have hget := hkeys.get (Or.inl rfl) f.session
  simp only [restore_session]
  rw [hget]
  rcases ks_get ks₂ SESSION_KEY f.session with e | (_ | bytes)
  · exact ⟨hkeys, Or.inl ⟨rfl, fun c hc => by cases hc⟩⟩
  · exact ⟨hkeys, Or.inl ⟨rfl, fun c hc => by cases hc⟩⟩
  · rcases hdec : decode_session bytes with e | ⟨session, token⟩
    · simp only [hdec]
      exact ⟨hkeys, Or.inl ⟨trivial, fun c hc => by cases hc⟩⟩
    · simp only [hdec]
      rcases whoami with (⟨status, code, message⟩ | reason | reason) | u
      · cases code with
        | UnknownToken => exact ⟨hdrop.1, Or.inl hdrop.2⟩
        | MissingToken => exact ⟨hdrop.1, Or.inl hdrop.2⟩
        | Forbidden | BadJson | NotJson | NotFound | LimitExceeded | BadSignature | Unrecognized
        | UserInUse | InvalidUsername | Unknown | Other =>
          exact ⟨hkeys, Or.inl ⟨rfl, fun c hc => by cases hc⟩⟩
      · exact hresume session token
      · exact ⟨hkeys, Or.inl ⟨rfl, fun c hc => by cases hc⟩⟩
      · exact hresume session token

/-- One act. -/
theorem Alike.act {c₁ c₂ : Client D} (h : Alike c₁ c₂) (a : Act) (choice : a.Choice) :
    (Client.act X a choice c₁).1 = (Client.act X a choice c₂).1 ∧
      Alike (Client.act X a choice c₁).2 (Client.act X a choice c₂).2 := by
  cases a with
  | call op => exact h.perform X op choice
  | restart =>
    obtain ⟨whoami, f⟩ := choice
    have hhost : c₁.host.Alike c₂.host := ⟨h.store, h.keys⟩
    obtain ⟨hks, hres⟩ := hhost.restore X whoami f
    simp only [Client.act]
    generalize restore_session X whoami f c₁.host = o₁ at hks hres ⊢
    generalize restore_session X whoami f c₂.host = o₂ at hks hres ⊢
    obtain ⟨r₁, h₁'⟩ := o₁
    obtain ⟨r₂, h₂'⟩ := o₂
    rcases hres with ⟨heq, hne⟩ | ⟨d₁, d₂, h1, h2, halike⟩
    · obtain rfl : r₁ = r₂ := heq
      rcases r₁ with e | (_ | c)
      · exact ⟨rfl, h.api, h.session, h.store, h.e2ee, hks⟩
      · exact ⟨rfl, h.api, h.session, h.store, h.e2ee, hks⟩
      · exact absurd rfl (hne c)
    · obtain rfl : r₁ = .ok (some d₁) := h1
      obtain rfl : r₂ = .ok (some d₂) := h2
      exact ⟨rfl, halike⟩

/-- Any number of acts. -/
theorem Alike.run {τ α : Type} (env : Env τ) (p : Life α) {c₁ c₂ : Client D} (h : Alike c₁ c₂)
    (t : τ) : (p.run (env.answer X) (c₁, t)).1 = (p.run (env.answer X) (c₂, t)).1 ∧
      (p.run (env.answer X) (c₁, t)).2.2 = (p.run (env.answer X) (c₂, t)).2.2 ∧
      Alike (p.run (env.answer X) (c₁, t)).2.1 (p.run (env.answer X) (c₂, t)).2.1 := by
  induction p generalizing c₁ c₂ t with
  | done a => exact ⟨rfl, rfl, h⟩
  | call a k ih =>
    obtain ⟨h1, h2⟩ := h.act X a (env a t).1
    rw [Prog.run_call, Prog.run_call]
    have hans : (env.answer X a (c₁, t)).1 = (env.answer X a (c₂, t)).1 := h1
    rw [hans]
    exact ih _ h2 _

theorem Alike.sameSession {c₁ c₂ : Client D} (h : Alike c₁ c₂) : SameSession X from_str c₁ c₂ := by
  intro τ α env t p
  obtain ⟨h1, h2, h3⟩ := h.run X env p t
  refine ⟨h1, h2, ?_, ?_⟩
  · rw [h3.store]
  · intro room_id limit before
    rw [h3.store]

/-- No user tells two hosts with the same rows apart. -/
theorem Host.Alike.same {h₁ h₂ : Host} (h : h₁.Alike h₂) (user : String) :
    SameForOthers X from_str user h₁ h₂ := by
  intro server answer f _
  obtain ⟨ks₁, file⟩ := h₁
  obtain ⟨ks₂, file₂⟩ := h₂
  obtain ⟨rfl, hkeys⟩ := h
  simp only at hkeys
  simp only [login]
  cases answer.bind parse_auth with
  | error err => exact Or.inl ⟨_, rfl, rfl⟩
  | ok auth =>
    simp only [finish_login]
    obtain ⟨h1, h2⟩ := hkeys.put SESSION_KEY
      (encode_session ⟨auth.user_id, auth.device_id, server⟩ auth.access_token) f.session
    generalize ks_put ks₁ SESSION_KEY _ f.session = o₁ at h1 h2 ⊢
    generalize ks_put ks₂ SESSION_KEY _ f.session = o₂ at h1 h2 ⊢
    obtain ⟨r₁, ks₁'⟩ := o₁
    obtain ⟨r₂, ks₂'⟩ := o₂
    obtain rfl : r₁ = r₂ := h1
    cases r₁ with
    | error e => exact Or.inl ⟨e, rfl, rfl⟩
    | ok b =>
      cases open_store file f.store with
      | error e => exact Or.inl ⟨e, rfl, rfl⟩
      | ok store =>
        obtain ⟨h3, h4⟩ := mint_alike X auth.user_id f.mls_put h2
        exact Or.inr ⟨_, _, rfl, rfl, Alike.sameSession X from_str ⟨rfl, rfl, rfl, h3, h4⟩⟩

end PigeonMobile
