-- The MLS engine (`e2ee.rs`) over `pigeon-crypto`, which is another repository's
-- crate: its `Device` is the type `D`, and its calls are the parameter `X`. Every
-- call that changes the device writes the whole state to the host key store.
import PigeonMobile.Api

namespace PigeonMobile

/-- The calls of `pigeon_crypto::Device` that the core makes, on the base64 forms that
cross the wire. A call that fails (bad base64 included) leaves the device as it was.
`decrypt` gives no string where the plaintext is no UTF-8. `load_group` and `export_storage` may
fail for reasons of the engine's storage: that is a `Fault` of the call. -/
structure PigeonCrypto (D : Type) where
  new : String → Except String D
  load_group : D → String → Bool
  create_group : D → String → Except String D
  add_member : D → String → String → Except String (D × String × String)
  process_commit : D → String → String → Except String D
  join_from_welcome : D → String → Except String D
  encrypt : D → String → String → Except String (D × String)
  decrypt : D → String → String → Except String (D × Option String)
  new_key_packages : D → Nat → Except String (D × List String)
  new_last_resort_key_package : D → Except String (D × String)
  signature_public_key : D → String
  export_storage : D → String
  restore : String → String → String → Except String D

/-- One call of the engine makes the device `d'` of `d`. -/
inductive PigeonCrypto.Moves {D : Type} (X : PigeonCrypto D) (d d' : D) : Prop
  | create_group (room : String) : X.create_group d room = .ok d' → Moves X d d'
  | add_member {o : String × String} (room kp : String) :
      X.add_member d room kp = .ok (d', o) → Moves X d d'
  | process_commit (room commit : String) : X.process_commit d room commit = .ok d' → Moves X d d'
  | join_from_welcome (welcome : String) : X.join_from_welcome d welcome = .ok d' → Moves X d d'
  | encrypt {ct : String} (room text : String) : X.encrypt d room text = .ok (d', ct) → Moves X d d'
  | decrypt {text : Option String} (room ct : String) :
      X.decrypt d room ct = .ok (d', text) → Moves X d d'
  | key_packages {kps : List String} (n : Nat) : X.new_key_packages d n = .ok (d', kps) →
      Moves X d d'
  | last_resort {kp : String} : X.new_last_resort_key_package d = .ok (d', kp) → Moves X d d'

/-- The devices of a user: those that are made or restored for the user, and what the calls make
of them. -/
inductive PigeonCrypto.OfUser {D : Type} (X : PigeonCrypto D) (user_id : String) : D → Prop
  | new {d : D} : X.new user_id = .ok d → OfUser X user_id d
  | restore {pubkey blob : String} {d : D} : X.restore user_id pubkey blob = .ok d →
      OfUser X user_id d
  | moves {d d' : D} : OfUser X user_id d → X.Moves d d' → OfUser X user_id d'

/-- What is written of a device of a user is restored for that user. -/
def PigeonCrypto.Restores {D : Type} (X : PigeonCrypto D) : Prop :=
  ∀ user_id d, X.OfUser user_id d →
    X.restore user_id (X.signature_public_key d) (X.export_storage d) = .ok d

/-- What the surroundings make fail in one local call. -/
inductive Fault where
  | none
  /-- the SQLite layer -/
  | db (reason : String)
  /-- the read of a group from the engine's storage -/
  | load_group (reason : String)
  /-- the host key store -/
  | key_store (reason : String)
  /-- the export of the engine's storage, before it is written -/
  | export_storage (reason : String)

/-- The host key store fails the call. -/
def Fault.onKeys : Fault → Bool
  | .key_store _ => true
  | _ => false

/-- The write of a device fails: its export does, or the put. -/
def Fault.onPersist : Fault → Bool
  | .export_storage _ => true
  | fault => fault.onKeys

/-! ## The host key store -/

/-- The entries of the key store. A value is a JSON text; bytes that are no JSON are
`null`, which no reader accepts either. -/
abbrev KeyMap := Table (Prod.fst : String × Json → String)

def SESSION_KEY : String := "pigeon.session.v1"
def MLS_STATE_KEY : String := "pigeon.mls.state.v1"

def KeyMap.put (m : KeyMap) (key : String) (value : Json) : KeyMap :=
  Table.upsert m (key, value) (fun _ => true)

theorem KeyMap.find_put (m : KeyMap) (key k : String) (value : Json) :
    (m.put key value).find k = if key = k then some (key, value) else m.find k := by
  unfold KeyMap.put
  rw [Table.find_upsert]
  split
  · split <;> rfl
  · rfl

/-- `ks_put`; `false` where no key store is installed. -/
def ks_put (ks : Option KeyMap) (key : String) (value : Json) (fault : Fault) :
    Except CoreError Bool × Option KeyMap :=
  match ks, fault with
  | none, _ => (.ok false, none)
  | some m, .key_store reason => (.error (.Storage reason), some m)
  | some m, _ => (.ok true, some (m.put key value))

def ks_get (ks : Option KeyMap) (key : String) (fault : Fault) : Except CoreError (Option Json) :=
  match ks, fault with
  | none, _ => .ok none
  | some _, .key_store reason => .error (.Storage reason)
  | some m, _ => .ok ((m.find key).map (·.2))

def ks_delete (ks : Option KeyMap) (key : String) (fault : Fault) :
    Except CoreError Unit × Option KeyMap :=
  match ks, fault with
  | none, _ => (.ok (), none)
  | some m, .key_store reason => (.error (.Storage reason), some m)
  | some m, _ => (.ok (), some (m.erase key))

/-! ## The engine -/

/-- The result of `add_member`. -/
structure AddOutcome where
  welcome : String
  commit : String

namespace E2ee

variable {D : Type} (X : PigeonCrypto D)

/-- The entry that `persist` writes, where the storage can be exported. -/
def stateBlob (d : D) : Json :=
  .obj [("pubkey", .str (X.signature_public_key d)), ("blob", .str (X.export_storage d))]

def persist (d : D) (ks : Option KeyMap) (fault : Fault) : Except CoreError Unit × Option KeyMap :=
  match fault with
  | .export_storage reason => (.error (.Crypto reason), ks)
  | _ =>
    match ks_put ks MLS_STATE_KEY (stateBlob X d) fault with
    | (.ok _, ks') => (.ok (), ks')
    | (.error e, ks') => (.error e, ks')

theorem persist_exported (d : D) (ks : Option KeyMap) {fault : Fault}
    (h : ∀ reason, fault ≠ .export_storage reason) : persist X d ks fault =
      match ks_put ks MLS_STATE_KEY (stateBlob X d) fault with
      | (.ok _, ks') => (.ok (), ks')
      | (.error e, ks') => (.error e, ks') := by
  unfold persist
  cases fault with
  | export_storage reason => exact absurd rfl (h reason)
  | none | db | load_group | key_store => rfl

/-- A device call and the write of its new state. The device in memory has changed
even where the export or the write fails. -/
def mutate {β : Type} (d : D) (ks : Option KeyMap) (fault : Fault) (r : Except String (D × β)) :
    Except CoreError β × D × Option KeyMap :=
  match r with
  | .error reason => (.error (.Crypto reason), d, ks)
  | .ok (d', b) =>
    match persist X d' ks fault with
    | (.ok (), ks') => (.ok b, d', ks')
    | (.error e, ks') => (.error e, d', ks')

/-- The same for a call on a group, which is loaded first. -/
def onGroup {β : Type} (d : D) (ks : Option KeyMap) (fault : Fault) (room_id : String)
    (r : Except String (D × β)) : Except CoreError β × D × Option KeyMap :=
  match fault with
  | .load_group reason => (.error (.Crypto reason), d, ks)
  | _ =>
    if X.load_group d room_id then mutate X d ks fault r
    else (.error (.Crypto ("no MLS group for " ++ room_id)), d, ks)

def create (user_id : String) (ks : Option KeyMap) (fault : Fault) :
    Except CoreError D × Option KeyMap :=
  match X.new user_id with
  | .error reason => (.error (.Crypto reason), ks)
  | .ok d =>
    match persist X d ks fault with
    | (.ok (), ks') => (.ok d, ks')
    | (.error e, ks') => (.error e, ks')

def decode_field (stored : Json) (key : String) : Except CoreError String :=
  match (stored.index key).as_str with
  | some s => .ok s
  | none => .error (.Storage s!"stored MLS state missing `{key}`")

def restore (user_id : String) (ks : Option KeyMap) (fault : Fault) :
    Except CoreError (Option D) := do
  match ← ks_get ks MLS_STATE_KEY fault with
  | none => return none
  | some stored =>
    let pubkey ← decode_field stored "pubkey"
    let blob ← decode_field stored "blob"
    match X.restore user_id pubkey blob with
    | .ok d => return some d
    | .error reason => throw (.Crypto reason)

def has_group (d : D) (room_id : String) (fault : Fault) : Except CoreError Bool :=
  match fault with
  | .load_group reason => .error (.Crypto reason)
  | _ => .ok (X.load_group d room_id)

def key_packages (d : D) (ks : Option KeyMap) (fault : Fault) (count : Nat) :
    Except CoreError (List String) × D × Option KeyMap :=
  mutate X d ks fault (X.new_key_packages d count)

def last_resort_key_package (d : D) (ks : Option KeyMap) (fault : Fault) :
    Except CoreError String × D × Option KeyMap :=
  mutate X d ks fault (X.new_last_resort_key_package d)

def create_group (d : D) (ks : Option KeyMap) (fault : Fault) (room_id : String) :
    Except CoreError Unit × D × Option KeyMap :=
  mutate X d ks fault ((X.create_group d room_id).map (·, ()))

def add_member (d : D) (ks : Option KeyMap) (fault : Fault) (room_id key_package_b64 : String) :
    Except CoreError AddOutcome × D × Option KeyMap :=
  onGroup X d ks fault room_id
    ((X.add_member d room_id key_package_b64).map (fun r => (r.1, ⟨r.2.1, r.2.2⟩)))

def process_commit (d : D) (ks : Option KeyMap) (fault : Fault) (room_id commit_b64 : String) :
    Except CoreError Unit × D × Option KeyMap :=
  onGroup X d ks fault room_id ((X.process_commit d room_id commit_b64).map (·, ()))

def join_from_welcome (d : D) (ks : Option KeyMap) (fault : Fault) (welcome_b64 : String) :
    Except CoreError Unit × D × Option KeyMap :=
  mutate X d ks fault ((X.join_from_welcome d welcome_b64).map (·, ()))

def encrypt (d : D) (ks : Option KeyMap) (fault : Fault) (room_id plaintext : String) :
    Except CoreError String × D × Option KeyMap :=
  onGroup X d ks fault room_id (X.encrypt d room_id plaintext)

/-- The state is written before the plaintext is checked to be UTF-8. -/
def decrypt (d : D) (ks : Option KeyMap) (fault : Fault) (room_id ciphertext_b64 : String) :
    Except CoreError String × D × Option KeyMap :=
  match onGroup X d ks fault room_id (X.decrypt d room_id ciphertext_b64) with
  | (.ok (some plaintext), d', ks') => (.ok plaintext, d', ks')
  | (.ok none, d', ks') => (.error (.Crypto "decrypted bytes are not UTF-8"), d', ks')
  | (.error e, d', ks') => (.error e, d', ks')

/-- The recovered device takes the place of the one in memory, and is written then. `openBackup`
is `Device::restore_from_backup`. -/
def restore_from_backup (openBackup : String → String → Except String D) (d : D)
    (ks : Option KeyMap) (fault : Fault) (recovery_key_b64 blob_b64 : String) :
    Except CoreError Unit × D × Option KeyMap :=
  mutate X d ks fault ((openBackup recovery_key_b64 blob_b64).map (·, ()))

end E2ee

end PigeonMobile
