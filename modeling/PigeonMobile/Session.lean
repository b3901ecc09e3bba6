-- The session (`session.rs`): what a login writes, what a restart reads back, and what
-- a logout wipes. The key store and the file of the store outlive a process, the
-- client does not.
import PigeonMobile.Client

namespace PigeonMobile

/-- What a `/login` or `/register` answers. -/
structure AuthResponse where
  user_id : String
  device_id : String
  access_token : String

def parse_auth (body : Json) : Except ApiError AuthResponse :=
  let field (key : String) : Except ApiError String :=
    match (body.index key).as_str with
    | some s => .ok s
    | none => .error (.Malformed s!"auth response missing string field `{key}`")
  do
    let user_id ← field "user_id"
    let device_id ← field "device_id"
    let access_token ← field "access_token"
    return { user_id, device_id, access_token }

/-- The base URL with no slash at its end. -/
def normalize_base (base : String) : String :=
  String.ofList (base.toList.reverse.dropWhile (fun c => decide (c = '/'))).reverse

namespace Api

def new (base : String) (token : Option String) : Api := ⟨normalize_base base, token⟩

def set_token (api : Api) (token : Option String) : Api := { api with token }

end Api

/-- What outlives a process: the host key store, and the store file. -/
structure Host where
  key_store : Option KeyMap
  file : Store

def Client.host {D : Type} (c : Client D) : Host := ⟨c.key_store, c.store⟩

/-- What fails in a login or a launch: the session blob is read, written or deleted, the
store file is opened, and the MLS state is read or written. -/
structure SessionFaults where
  session : Fault
  session_delete : Fault
  store : Fault
  mls_get : Fault
  mls_put : Fault

/-! ## The session blob -/

def encode_session (session : Session) (token : String) : Json :=
  .obj [("user_id", .str session.user_id), ("device_id", .str session.device_id),
    ("server", .str session.server), ("access_token", .str token)]

def decode_session (value : Json) : Except CoreError (Session × String) :=
  let field (key : String) : Except CoreError String :=
    match (value.index key).as_str with
    | some s => .ok s
    | none => .error (.Storage s!"stored session missing `{key}`")
  do
    let user_id ← field "user_id"
    let device_id ← field "device_id"
    let server ← field "server"
    let token ← field "access_token"
    return ({ user_id, device_id, server }, token)

theorem decode_encode_session (session : Session) (token : String) :
    decode_session (encode_session session token) = .ok (session, token) := rfl

/-! ## Login, restart and logout -/

/-- The store of a session. The file is the one of the store dir, whoever wrote it. -/
def open_store (file : Store) (fault : Fault) : Except CoreError Store :=
  match fault with
  | .db reason => .error (StoreError.Db reason).toCore
  | _ => .ok file

section

variable {D : Type} (X : PigeonCrypto D)

def mint_e2ee (user_id : String) (ks : Option KeyMap) (fault : Fault) : Option D × Option KeyMap :=
  match E2ee.create X user_id ks fault with
  | (.ok d, ks') => (some d, ks')
  | (.error _, ks') => (none, ks')

def restore_or_mint_e2ee (user_id : String) (ks : Option KeyMap) (f : SessionFaults) :
    Option D × Option KeyMap :=
  match E2ee.restore X user_id ks f.mls_get with
  | .ok (some d) => (some d, ks)
  | .ok none => mint_e2ee X user_id ks f.mls_put
  | .error _ => mint_e2ee X user_id ks f.mls_put

/-- The session blob is written first, then the store is opened, then a fresh MLS
identity is made. -/
def finish_login (server : String) (api : Api) (auth : AuthResponse) (f : SessionFaults)
    (h : Host) : Except CoreError (Client D) × Host :=
  let session : Session := ⟨auth.user_id, auth.device_id, server⟩
  match ks_put h.key_store SESSION_KEY (encode_session session auth.access_token) f.session with
  | (.error e, ks) => (.error e, ⟨ks, h.file⟩)
  | (.ok _, ks) =>
    let api := api.set_token (some auth.access_token)
    match open_store h.file f.store with
    | .error e => (.error e, ⟨ks, h.file⟩)
    | .ok store =>
      let (e2ee, ks) := mint_e2ee X session.user_id ks f.mls_put
      (.ok ⟨api, session, store, e2ee, ks⟩, ⟨ks, store⟩)

/-- `login` and `register`, up to the upload of the device keys. -/
def login (server : String) (answer : Except ApiError Json) (f : SessionFaults) (h : Host) :
    Except CoreError (Client D) × Host :=
  match answer.bind parse_auth with
  | .error err => (.error err.toCore, h)
  | .ok auth => finish_login X server (Api.new server none) auth f h

/-- The client of a stored session, its token taken as live. -/
def resume (session : Session) (token : String) (f : SessionFaults) (h : Host) :
    Except CoreError (Option (Client D)) × Host :=
  let (e2ee, ks) := restore_or_mint_e2ee X session.user_id h.key_store f
  match open_store h.file f.store with
  | .error e => (.error e, ⟨ks, h.file⟩)
  | .ok store =>
    (.ok (some ⟨Api.new session.server (some token), session, store, e2ee, ks⟩), ⟨ks, store⟩)

/-- A stored session whose token is dead is dropped. -/
def drop_session (fault : Fault) (h : Host) : Except CoreError (Option (Client D)) × Host :=
  match ks_delete h.key_store SESSION_KEY fault with
  | (.error e, ks) => (.error e, ⟨ks, h.file⟩)
  | (.ok (), ks) => (.ok none, ⟨ks, h.file⟩)

/-- A launch of the app. `whoami` is what the server says of the token. -/
def restore_session (whoami : Except ApiError Unit) (f : SessionFaults) (h : Host) :
    Except CoreError (Option (Client D)) × Host :=
  match ks_get h.key_store SESSION_KEY f.session with
  | .error e => (.error e, h)
  | .ok none => (.ok none, h)
  | .ok (some bytes) =>
    match decode_session bytes with
    | .error e => (.error e, h)
    | .ok (session, token) =>
      match whoami with
      | .ok () => resume X session token f h
      -- offline: the stored token is trusted
      | .error (.Network _) => resume X session token f h
      | .error (.Server _ .UnknownToken _) => drop_session f.session_delete h
      | .error (.Server _ .MissingToken _) => drop_session f.session_delete h
      | .error other => (.error other.toCore, h)

/-! ## What a launch gives -/

variable {X}

/-- The engine that was written is the engine that is read, where `pigeon-crypto` restores
what it exports for the user. -/
theorem restore_stateBlob {d : D} {user_id : String}
    (hlaw : X.restore user_id (X.signature_public_key d) (X.export_storage d) = .ok d)
    {ks : Option KeyMap} {fault : Fault}
    (h : ks_get ks MLS_STATE_KEY fault = .ok (some (E2ee.stateBlob X d))) :
    E2ee.restore X user_id ks fault = .ok (some d) := by
  have hkey : E2ee.decode_field (E2ee.stateBlob X d) "pubkey" = .ok (X.signature_public_key d) :=
    rfl
  have hblob : E2ee.decode_field (E2ee.stateBlob X d) "blob" = .ok (X.export_storage d) := rfl
  unfold E2ee.restore
  rw [h]
  simp only [bind, Except.bind, hkey, hblob, hlaw]
  rfl

/-- What restores an engine holds a state of its key. -/
theorem restore_stored {user_id : String} {ks : Option KeyMap} {fault : Fault} {d : D}
    (h : E2ee.restore X user_id ks fault = .ok (some d)) :
    ∃ stored pubkey blob, ks_get ks MLS_STATE_KEY fault = .ok (some stored) ∧
      E2ee.decode_field stored "pubkey" = .ok pubkey ∧ X.restore user_id pubkey blob = .ok d := by
  unfold E2ee.restore at h
  cases hget : ks_get ks MLS_STATE_KEY fault with
  | error e =>
    rw [hget] at h
    cases h
  | ok found =>
    cases found with
    | none =>
      rw [hget] at h
      cases h
    | some stored =>
      rw [hget] at h
      cases hkey : E2ee.decode_field stored "pubkey" with
      | error e =>
        simp only [bind, Except.bind, hkey] at h
        cases h
      | ok pubkey =>
        cases hblob : E2ee.decode_field stored "blob" with
        | error e =>
          simp only [bind, Except.bind, hkey, hblob] at h
          cases h
        | ok blob =>
          simp only [bind, Except.bind, hkey, hblob] at h
          cases hd : X.restore user_id pubkey blob with
          | error reason =>
            rw [hd] at h
            cases h
          | ok d' =>
            rw [hd] at h
            cases h
            exact ⟨stored, pubkey, blob, rfl, hkey, hd⟩

theorem resume_restored {session : Session} {token : String} {f : SessionFaults} {h : Host} {d : D}
    {c : Client D} (hrestore : E2ee.restore X session.user_id h.key_store f.mls_get = .ok (some d))
    (hc : (resume X session token f h).1 = .ok (some c)) :
    c = ⟨Api.new session.server (some token), session, h.file, some d, h.key_store⟩ := by
  unfold resume restore_or_mint_e2ee open_store at hc
  simp only [hrestore] at hc
  cases hf : f.store with
  | db reason =>
    rw [hf] at hc
    cases hc
  | none | load_group | key_store | export_storage =>
    rw [hf] at hc
    cases hc
    rfl

/-- Nothing is resumed where the session is dropped. -/
theorem drop_session_gives_none {fault : Fault} {h : Host} {c : Client D} :
    (drop_session fault h).1 ≠ .ok (some c) := by
  unfold drop_session
  generalize ks_delete h.key_store SESSION_KEY fault = out
  obtain ⟨_ | _, ks⟩ := out <;> simp

/-- A launch that gives a client resumes the session that is stored. -/
theorem restore_session_resumes {whoami : Except ApiError Unit} {f : SessionFaults} {h : Host}
    {c : Client D} (hc : (restore_session X whoami f h).1 = .ok (some c)) :
    ∃ bytes session token, ks_get h.key_store SESSION_KEY f.session = .ok (some bytes) ∧
      decode_session bytes = .ok (session, token) ∧
      (resume X session token f h).1 = .ok (some c) := by
  unfold restore_session at hc
  cases hsession : ks_get h.key_store SESSION_KEY f.session with
  | error e =>
    rw [hsession] at hc
    cases hc
  | ok found =>
    cases found with
    | none =>
      rw [hsession] at hc
      cases hc
    | some bytes =>
      cases hdecode : decode_session bytes with
      | error e =>
        simp only [hsession, hdecode] at hc
        cases hc
      | ok stored =>
        obtain ⟨session, token⟩ := stored
        refine ⟨bytes, session, token, rfl, hdecode, ?_⟩
        simp only [hsession, hdecode] at hc
        rcases whoami with (⟨status, code, message⟩ | reason | reason) | u
        · cases code with
          | UnknownToken | MissingToken => exact absurd hc drop_session_gives_none
          | Forbidden | BadJson | NotJson | NotFound | LimitExceeded | BadSignature | Unrecognized
          | UserInUse | InvalidUsername | Unknown | Other => cases hc
        · exact hc
        · cases hc
        · exact hc

end

/-- The revoke is best-effort. The wipe is of the key store. -/
def logout : Code (Except CoreError Unit) :=
  .call .api_logout fun _ => .call (.ks_delete SESSION_KEY) fun
  | .error e => .done (.error e)
  | .ok () => .call (.ks_delete MLS_STATE_KEY) fun
    | .error e => .done (.error e)
    | .ok () => .done (.ok ())

end PigeonMobile
