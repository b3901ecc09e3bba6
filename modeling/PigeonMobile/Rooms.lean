-- The code of `rooms.rs` that sends, receives and invites, as programs over the
-- calls of the client. A `for` of the source is a recursion on its list.
import PigeonMobile.Client

namespace PigeonMobile

/-! ## Media -/

/-- The server's upload cap, 50 MiB. -/
def MAX_UPLOAD_BYTES : Nat := 50 * 1024 * 1024

def upload_media (bytes : Bytes) (content_type : String) : Code (Except CoreError String) :=
  if bytes.length > MAX_UPLOAD_BYTES then
    .done (.error (.Api .LimitExceeded "file exceeds the 50 MiB media upload limit"))
  else
    .call (.api_upload_media bytes content_type) fun
    | .ok uri => .done (.ok uri)
    | .error err => .done (.error err.toCore)

def send_event (room_id event_type : String) (content : Json) : Code (Except CoreError Unit) :=
  .call .next_txn_id fun txn_id =>
  .call (.api_send_event room_id event_type txn_id content) fun
  | .ok _ => .done (.ok ())
  | .error err => .done (.error err.toCore)

/-- The content of an encrypted event. -/
def encryptedContent (ciphertext : String) : Json :=
  .obj [("algorithm", .str "p.mls.1"), ("ciphertext", .str ciphertext)]

/-- The content of an image whose bytes went up encrypted. -/
def encryptedImage (caption uri key mimetype : String) (width height size : Nat) : Json :=
  .obj [("msgtype", .str "p.image"), ("body", .str caption),
    ("file", .obj [("url", .str uri), ("key", .str key), ("mimetype", .str mimetype),
      ("w", .num width), ("h", .num height), ("size", .num size)])]

/-- The content of an image whose bytes went up as they are. -/
def plainImage (caption uri mimetype : String) (width height size : Nat) : Json :=
  .obj [("msgtype", .str "p.image"), ("body", .str caption), ("url", .str uri),
    ("info", .obj [("mimetype", .str mimetype), ("w", .num width), ("h", .num height),
      ("size", .num size)])]

/-- The branch of `send_image` for a room whose MLS group is held. -/
def send_encrypted_image (room_id : String) (bytes : Bytes) (mimetype : String)
    (width height : Nat) (caption : String) : Code (Except CoreError Unit) :=
  .call (.encrypt_media bytes) fun
  | .error e => .done (.error e)
  | .ok (key, ciphertext) =>
    (upload_media ciphertext "application/octet-stream").andThen fun uri =>
    let content := encryptedImage caption uri key mimetype width height bytes.length
    .call (.encrypt room_id content.to_string) fun
    | .error e => .done (.error e)
    | .ok ciphertext_b64 => send_event room_id "p.room.encrypted" (encryptedContent ciphertext_b64)

/-- The other branch. -/
def send_plain_image (room_id : String) (bytes : Bytes) (mimetype : String)
    (width height : Nat) (caption : String) : Code (Except CoreError Unit) :=
  (upload_media bytes mimetype).andThen fun uri =>
  send_event room_id "p.room.message" (plainImage caption uri mimetype width height bytes.length)

def send_image (room_id : String) (bytes : Bytes) (mimetype : String) (width height : Nat)
    (caption : String) : Code (Except CoreError Unit) :=
  .call .e2ee fun
  | true => .call (.has_group room_id) fun
    | .error e => .done (.error e)
    | .ok true => send_encrypted_image room_id bytes mimetype width height caption
    | .ok false => send_plain_image room_id bytes mimetype width height caption
  | false => send_plain_image room_id bytes mimetype width height caption

/-! ## The outbound queue -/

def encrypt_for_send (room_id body : String) : Code (Except CoreError (Option String)) :=
  .call .e2ee fun
  | false => .done (.ok none)
  | true => .call (.has_group room_id) fun
    | .error e => .done (.error e)
    | .ok false => .done (.ok none)
    | .ok true => .call (.encrypt room_id body) fun
      | .error e => .done (.error e)
      | .ok ciphertext => .done (.ok (some ciphertext))

/-- The content of a plaintext message. -/
def textContent (body : String) : Json :=
  .obj [("body", .str body), ("msgtype", .str "p.text")]

/-- What the pass does after one queued send. -/
inductive Flushed where
  /-- the send stays queued, and the pass goes on -/
  | held
  /-- the pass stops: retry next cycle -/
  | stop
  /-- the send is acknowledged or failed -/
  | settled

def settle_failed (txn_id : String) : Code (Except CoreError Flushed) :=
  .call (.fail_send txn_id) fun
  | .error e => .done (.error e)
  | .ok () => .done (.ok .settled)

def transmit (send : PendingSend) (event_type : String) (content : Json) :
    Code (Except CoreError Flushed) :=
  .call (.api_send_event send.room_id event_type send.txn_id content) fun
  | .ok event_id => .call (.resolve_send send.txn_id event_id) fun
    | .error e => .done (.error e)
    | .ok () => .done (.ok .settled)
  | .error err => if err.is_transient then .done (.ok .stop) else settle_failed send.txn_id

def flush_one (send : PendingSend) : Code (Except CoreError Flushed) :=
  (encrypt_for_send send.room_id send.body).bind fun
  | .ok (some ciphertext) => transmit send "p.room.encrypted" (encryptedContent ciphertext)
  | .ok none => .call (.is_room_encrypted send.room_id) fun
    | .error e => .done (.error e)
    -- an encrypted room without its group: never a plaintext downgrade
    | .ok true => .done (.ok .held)
    | .ok false => transmit send "p.room.message" (textContent send.body)
  | .error _ => settle_failed send.txn_id

def flush_sends : List PendingSend → Bool → Code (Except CoreError Bool)
  | [], changed => .done (.ok changed)
  | send :: rest, changed => (flush_one send).andThen fun
    | .held => flush_sends rest changed
    | .stop => .done (.ok changed)
    | .settled => flush_sends rest true

/-- The lock is held from before the queue is read to the end of the pass, also
where the pass ends in an error. -/
def flush_pending : Code (Except CoreError Bool) :=
  .call .lock_send fun _ =>
  .call .pending_sends fun
  | .error e => .call .unlock_send fun _ => .done (.error e)
  | .ok sends => (flush_sends sends false).bind fun r => .call .unlock_send fun _ => .done r

def send_message (room_id body : String) : Code (Except CoreError Unit) :=
  .call .session fun session =>
  .call (.queue_send room_id session.user_id body) fun
  | .error e => .done (.error e)
  | .ok _ => flush_pending.andThen fun _ => .done (.ok ())

/-! ## The inbound MLS events -/

def mark_processed (event_id : String) : Code (Except CoreError Bool) :=
  .call (.set_commit_processed event_id) fun
  | .error e => .done (.error e)
  | .ok () => .done (.ok true)

def attempt_decrypt (msg : PendingDecrypt) : Code (Except CoreError Bool) :=
  .call (.decrypt msg.room_id msg.ciphertext_b64) fun
  | .ok plaintext => .call (.set_decrypted msg.event_id plaintext) fun
    | .error e => .done (.error e)
    | .ok () => .done (.ok true)
  | .error _ => .call (.set_decrypt_failed msg.event_id) fun
    | .error e => .done (.error e)
    | .ok () => .done (.ok true)

/-- One pending event; whether it changed anything. -/
def process_one (self_user : String) : PendingMls → Code (Except CoreError Bool)
  | .Commit commit => .call (.has_group commit.room_id) fun
    | .error e => .done (.error e)
    | .ok false => .done (.ok false)
    | .ok true =>
      if commit.sender ≠ self_user then
        -- an error is swallowed: the commit is consumed either way
        .call (.process_commit commit.room_id commit.commit_b64) fun _ =>
        mark_processed commit.event_id
      else mark_processed commit.event_id
  | .Message msg => .call (.has_group msg.room_id) fun
    | .error e => .done (.error e)
    | .ok false => .done (.ok false)
    | .ok true =>
      if msg.sender = self_user then
        .call (.has_pending_send msg.room_id) fun
        | .error e => .done (.error e)
        | .ok true => .done (.ok false)
        | .ok false => attempt_decrypt msg
      else attempt_decrypt msg

def process_each (self_user : String) : List PendingMls → Bool → Code (Except CoreError Bool)
  | [], changed => .done (.ok changed)
  | item :: rest, changed => (process_one self_user item).andThen fun changed' =>
    process_each self_user rest (changed || changed')

def process_inbound_mls : Code (Except CoreError Bool) :=
  .call .e2ee fun
  | false => .done (.ok false)
  | true => .call .session fun session => .call .pending_mls fun
    | .error e => .done (.error e)
    | .ok pending => process_each session.user_id pending false

/-- Backfill of the latest events of a room. -/
def fetch_messages (room_id : String) (limit : Nat) : Code (Except CoreError Nat) :=
  .call (.api_messages room_id limit) fun
  | .error err => .done (.error err.toCore)
  | .ok resp => .call (.apply_events (((resp.index "chunk").as_array).getD [])) fun
    | .error e => .done (.error e)
    | .ok inserted => process_inbound_mls.andThen fun _ => .done (.ok inserted)

/-- A backfill that the server answers and that the tables take: the pass runs on them. -/
theorem fetch_run {D : Type} (X : PigeonCrypto D) (choose : (op : Op) → op.Choice)
    {room_id : String} {limit n : Nat} {resp : Json}
    {c c' : Client D} (hresp : choose (.api_messages room_id limit) = .ok resp)
    (happly : Client.under X choose (.apply_events (((resp.index "chunk").as_array).getD [])) c =
      (.ok n, c')) :
    (fetch_messages room_id limit).run (Client.under X choose) c =
      (process_inbound_mls.andThen fun _ => .done (.ok n)).run
        (Client.under X choose) c' := by
  unfold fetch_messages
  have hcall : Client.under X choose (.api_messages room_id limit) c = (.ok resp, c) := by
    unfold Client.under
    rw [hresp]
    rfl
  rw [Prog.run_call, hcall]
  simp only
  rw [Prog.run_call, happly]

/-! ## Invites -/

/-- A KeyPackage claimed for one device. -/
structure ClaimedKeyPackage where
  device_id : String
  key_package_b64 : String

def claim_devices (user_id : String) :
    List String → List ClaimedKeyPackage → Code (Except CoreError (List ClaimedKeyPackage))
  | [], claimed => .done (.ok claimed)
  | device_id :: rest, claimed => .call (.api_claim_keys user_id device_id) fun
    | .error err => .done (.error err.toCore)
    | .ok (some key_package_b64) =>
      claim_devices user_id rest (claimed ++ [⟨device_id, key_package_b64⟩])
    | .ok none => claim_devices user_id rest claimed

def claim_all_devices (user_id : String) : Code (Except CoreError (List ClaimedKeyPackage)) :=
  .call (.api_query_keys user_id) fun
  | .error err => .done (.error err.toCore)
  | .ok devices => claim_devices user_id ((devices.as_object.getD []).map (·.1)) []

/-- The Welcome of one device, as `/sendToDevice` takes it. -/
def welcomeMessages (user_id device_id room_id welcome : String) : Json :=
  .obj [(user_id, .obj [(device_id,
    .obj [("welcome", .str welcome), ("room_id", .str room_id)])])]

def commitContent (commit : String) : Json := .obj [("commit", .str commit)]

/-- One claimed device: add it, ship its Welcome, broadcast the commit. -/
def welcome_device (room_id user_id : String) (kp : ClaimedKeyPackage) :
    Code (Except CoreError Unit) :=
  .call (.add_member room_id kp.key_package_b64) fun
  | .error e => .done (.error e)
  | .ok outcome => .call .next_txn_id fun txn_id =>
    .call (.api_send_to_device "p.mls.welcome" txn_id
      (welcomeMessages user_id kp.device_id room_id outcome.welcome)) fun
    | .error err => .done (.error err.toCore)
    | .ok () => send_event room_id "p.mls.commit" (commitContent outcome.commit)

def welcome_devices (room_id user_id : String) :
    List ClaimedKeyPackage → Code (Except CoreError Unit)
  | [] => .done (.ok ())
  | kp :: rest => (welcome_device room_id user_id kp).andThen fun _ =>
    welcome_devices room_id user_id rest

def welcome_to_group (room_id user_id : String) : Code (Except CoreError Unit) :=
  (claim_all_devices user_id).andThen fun claimed => welcome_devices room_id user_id claimed

def invite (room_id user_id : String) : Code (Except CoreError Unit) :=
  .call (.api_invite room_id user_id) fun
  | .error err => .done (.error err.toCore)
  | .ok _ => .call .e2ee fun
    | false => .done (.ok ())
    | true => .call (.has_group room_id) fun
      | .error e => .done (.error e)
      | .ok false => .done (.ok ())
      | .ok true => welcome_to_group room_id user_id

/-! ## The calls of a pass -/

/-- The calls that a pass over the inbound events makes. -/
def Op.ofPass : Op → Bool
  | .e2ee => true
  | .session => true
  | .pending_mls => true
  | .has_group _ => true
  | .has_pending_send _ => true
  | .process_commit _ _ => true
  | .decrypt _ _ => true
  | .set_decrypted _ _ => true
  | .set_decrypt_failed _ => true
  | .set_commit_processed _ => true
  | _ => false

/-- The calls that a flush of the queue makes. -/
def Op.ofFlush : Op → Bool
  | .lock_send => true
  | .unlock_send => true
  | .pending_sends => true
  | .e2ee => true
  | .has_group _ => true
  | .encrypt _ _ => true
  | .is_room_encrypted _ => true
  | .api_send_event _ _ _ _ => true
  | .resolve_send _ _ => true
  | .fail_send _ => true
  | _ => false

theorem attempt_decrypt_calls (m : PendingDecrypt) :
    (attempt_decrypt m).All (fun op => op.ofPass = true) := by
  refine ⟨rfl, fun r => ?_⟩
  cases r with
  | error e =>
    refine ⟨rfl, fun r => ?_⟩
    cases r <;> trivial
  | ok plaintext =>
    refine ⟨rfl, fun r => ?_⟩
    cases r <;> trivial

theorem mark_processed_calls (event_id : String) :
    (mark_processed event_id).All (fun op => op.ofPass = true) := by
  refine ⟨rfl, fun r => ?_⟩
  cases r <;> trivial

theorem process_one_calls (self_user : String) (item : PendingMls) :
    (process_one self_user item).All (fun op => op.ofPass = true) := by
  cases item with
  | Commit m =>
    refine ⟨rfl, fun r => ?_⟩
    rcases r with e | _ | _
    · trivial
    · trivial
    · simp only
      by_cases hs : m.sender ≠ self_user
      · rw [if_pos hs]
        exact ⟨rfl, fun _ => mark_processed_calls m.event_id⟩
      · rw [if_neg hs]
        exact mark_processed_calls m.event_id
  | Message m =>
    refine ⟨rfl, fun r => ?_⟩
    rcases r with e | _ | _
    · trivial
    · trivial
    · simp only
      by_cases hs : m.sender = self_user
      · rw [if_pos hs]
        refine ⟨rfl, fun r => ?_⟩
        rcases r with e | _ | _
        · trivial
        · exact attempt_decrypt_calls m
        · trivial
      · rw [if_neg hs]
        exact attempt_decrypt_calls m

theorem process_each_calls (self_user : String) (items : List PendingMls) (changed : Bool) :
    (process_each self_user items changed).All (fun op => op.ofPass = true) := by
  induction items generalizing changed with
  | nil => trivial
  | cons item rest ih =>
    exact Prog.All.andThen (process_one_calls self_user item) (fun changed' =>
      ih (changed || changed'))

theorem pass_calls : process_inbound_mls.All (fun op => op.ofPass = true) := by
  refine ⟨rfl, fun r => ?_⟩
  cases r with
  | false => trivial
  | true =>
    refine ⟨rfl, fun session => ⟨rfl, fun r => ?_⟩⟩
    cases r with
    | error e => trivial
    | ok pending => exact process_each_calls session.user_id pending false

theorem encrypt_for_send_calls (room_id body : String) :
    (encrypt_for_send room_id body).All (fun op => op.ofFlush = true) := by
  refine ⟨rfl, fun r => ?_⟩
  cases r with
  | false => trivial
  | true =>
    refine ⟨rfl, fun r => ?_⟩
    rcases r with e | _ | _
    · trivial
    · trivial
    · refine ⟨rfl, fun r => ?_⟩
      cases r <;> trivial

theorem settle_failed_calls (txn_id : String) :
    (settle_failed txn_id).All (fun op => op.ofFlush = true) := by
  refine ⟨rfl, fun r => ?_⟩
  cases r <;> trivial

theorem transmit_calls (send : PendingSend) (event_type : String) (content : Json) :
    (transmit send event_type content).All (fun op => op.ofFlush = true) := by
  refine ⟨rfl, fun r => ?_⟩
  cases r with
  | ok event_id =>
    refine ⟨rfl, fun r => ?_⟩
    cases r <;> trivial
  | error err =>
    simp only
    cases err.is_transient with
    | true => trivial
    | false => exact settle_failed_calls send.txn_id

theorem flush_one_calls (send : PendingSend) :
    (flush_one send).All (fun op => op.ofFlush = true) := by
  apply Prog.All.bind (encrypt_for_send_calls send.room_id send.body)
  intro r
  rcases r with e | _ | ciphertext
  · exact settle_failed_calls send.txn_id
  · refine ⟨rfl, fun r => ?_⟩
    rcases r with e | _ | _
    · trivial
    · exact transmit_calls send _ _
    · trivial
  · exact transmit_calls send _ _

theorem flush_sends_calls (sends : List PendingSend) (changed : Bool) :
    (flush_sends sends changed).All (fun op => op.ofFlush = true) := by
  induction sends generalizing changed with
  | nil => trivial
  | cons send rest ih =>
    apply Prog.All.andThen (flush_one_calls send)
    intro flushed
    cases flushed with
    | held => exact ih changed
    | stop => trivial
    | settled => exact ih true

theorem flush_calls : flush_pending.All (fun op => op.ofFlush = true) := by
  refine ⟨rfl, fun _ => ⟨rfl, fun r => ?_⟩⟩
  cases r with
  | error e => exact ⟨rfl, fun _ => trivial⟩
  | ok sends => exact Prog.All.bind (flush_sends_calls sends false) (fun _ =>
    ⟨rfl, fun _ => trivial⟩)

end PigeonMobile
