-- The programs of the client under a rule on their calls. What a rule must allow is said here once,
-- part by part: the flush of the queue, a send, a backfill, and the rounds of the sync loop.
import PigeonMobile.Conduct
import PigeonMobile.Sync

namespace PigeonMobile

variable {A : (op : Op) → op.Res → Prop} {P : Op → Prop} {good : PendingSend → Prop}

/-- The events of a `/messages` response. -/
def chunkOf (resp : Json) : List Json := ((resp.index "chunk").as_array).getD []

/-- The calls of a flush that send nothing and acknowledge nothing. -/
def Op.asksQueue : Op → Bool
  | .lock_send => true
  | .unlock_send => true
  | .pending_sends => true
  | .e2ee => true
  | .has_group _ => true
  | .encrypt _ _ => true
  | .is_room_encrypted _ => true
  | .fail_send _ => true
  | _ => false

/-- The calls of a round beside its flush. -/
def Op.ofRound : Op → Bool
  | .load_sync_token => true
  | .api_sync _ => true
  | .apply_events _ => true
  | .save_sync_token _ => true
  | .on_status _ => true
  | .on_change => true
  | .sleep _ => true
  | op => op.ofWelcomes || op.ofPass

/-- A rule under which the queue may be flushed: what is read of it is good, and a good send may go
out, as it is or as the ciphertext of its text. -/
structure FlushRule (A : (op : Op) → op.Res → Prop) (P : Op → Prop) (good : PendingSend → Prop) :
    Prop where
  asks : ∀ op, op.asksQueue = true → P op
  queued : ∀ sends, A .pending_sends (.ok sends) → ∀ send ∈ sends, good send
  plain : ∀ send, good send →
    P (.api_send_event send.room_id "p.room.message" send.txn_id (textContent send.body))
  sealed : ∀ send ct, good send → A (.encrypt send.room_id send.body) (.ok ct) →
    P (.api_send_event send.room_id "p.room.encrypted" send.txn_id (encryptedContent ct))
  resolves : ∀ room_id event_type txn_id content id,
    A (.api_send_event room_id event_type txn_id content) (.ok id) → P (.resolve_send txn_id id)

namespace FlushRule

variable (h : FlushRule A P good)
include h

theorem settle_failed (txn_id : String) : (settle_failed txn_id).Follows A P := by
  refine ⟨h.asks _ rfl, ?_⟩
  intro r _
  cases r <;> trivial

/-- A send that may go out, and what becomes of it. -/
theorem transmit {send : PendingSend} {event_type : String} {content : Json}
    (hsend : P (.api_send_event send.room_id event_type send.txn_id content)) :
    (transmit send event_type content).Follows A P := by
  refine ⟨hsend, ?_⟩
  intro r hr
  cases r with
  | ok event_id =>
    refine ⟨h.resolves _ _ _ _ _ hr, ?_⟩
    intro r _
    cases r <;> trivial
  | error err =>
    simp only
    split
    · trivial
    · exact h.settle_failed send.txn_id

/-- The three answers of `encrypt_for_send`; a ciphertext is what the engine answered. -/
theorem encrypt_for_send {α : Type} {room_id body : String}
    {f : Except CoreError (Option String) → Code α} (hplain : (f (.ok none)).Follows A P)
    (herror : ∀ e, (f (.error e)).Follows A P)
    (hsealed : ∀ ct, A (.encrypt room_id body) (.ok ct) → (f (.ok (some ct))).Follows A P) :
    ((encrypt_for_send room_id body).bind f).Follows A P := by
  refine ⟨h.asks _ rfl, ?_⟩
  intro engine _
  cases engine with
  | false => exact hplain
  | true =>
    refine ⟨h.asks _ rfl, ?_⟩
    intro held _
    rcases held with e | _ | _
    · exact herror e
    · exact hplain
    · refine ⟨h.asks _ rfl, ?_⟩
      intro r hr
      cases r with
      | error e => exact herror e
      | ok ct => exact hsealed ct hr

theorem flush_one {send : PendingSend} (hgood : good send) : (flush_one send).Follows A P := by
  apply h.encrypt_for_send
  · refine ⟨h.asks _ rfl, ?_⟩
    intro r _
    rcases r with e | _ | _
    · trivial
    · exact h.transmit (h.plain send hgood)
    · trivial
  · intro e
    exact h.settle_failed send.txn_id
  · intro ct hct
    exact h.transmit (h.sealed send ct hgood hct)

theorem flush_sends {sends : List PendingSend} (hgood : ∀ send ∈ sends, good send)
    (changed : Bool) : (flush_sends sends changed).Follows A P := by
  induction sends generalizing changed with
  | nil => trivial
  | cons send rest ih =>
    obtain ⟨hsend, hrest⟩ := List.forall_mem_cons.mp hgood
    apply (h.flush_one hsend).andThen
    intro flushed
    cases flushed with
    | held => exact ih hrest changed
    | stop => trivial
    | settled => exact ih hrest true

theorem flush_pending : flush_pending.Follows A P := by
  refine ⟨h.asks _ rfl, ?_⟩
  intro _ _
  refine ⟨h.asks _ rfl, ?_⟩
  intro r hr
  cases r with
  | error e => exact ⟨h.asks _ rfl, fun _ _ => trivial⟩
  | ok sends =>
    apply (h.flush_sends (h.queued sends hr) false).bind
    intro r
    exact ⟨h.asks _ rfl, fun _ _ => trivial⟩

theorem send_message {room_id body : String} (hsession : P .session)
    (hqueue : ∀ sender, P (.queue_send room_id sender body)) :
    (send_message room_id body).Follows A P := by
  refine ⟨hsession, ?_⟩
  intro session _
  refine ⟨hqueue session.user_id, ?_⟩
  intro r _
  cases r with
  | error e => trivial
  | ok txn_id => exact h.flush_pending.andThen (fun _ => trivial)

/-- What a round does once its token is saved. -/
theorem round_tail (hpass : ∀ op : Op, op.ofPass = true → P op) (hstatus : P (.on_status true))
    (hchange : P .on_change) (applied joined : Bool) :
    (process_inbound_mls.andThen fun mls_changed =>
      PigeonMobile.flush_pending.andThen fun flushed =>
        notify (applied || joined || mls_changed || flushed)).Follows A P := by
  apply Prog.Follows.andThen (Prog.All.follows (pass_calls.mono hpass))
  intro mls_changed
  apply h.flush_pending.andThen
  intro flushed
  refine ⟨hstatus, ?_⟩
  intro _ _
  split
  · exact ⟨hchange, fun _ _ => trivial⟩
  · trivial

theorem sync_success (hround : ∀ op : Op, op.ofRound = true → P op) (resp : Json) :
    (sync_success resp).Follows A P := by
  have hwelcomes : ∀ op : Op, op.ofWelcomes = true → P op := by
    intro op hop
    apply hround
    cases op <;> simp_all [Op.ofWelcomes, Op.ofRound]
  have hpass : ∀ op : Op, op.ofPass = true → P op := by
    intro op hop
    apply hround
    cases op <;> simp_all [Op.ofPass, Op.ofRound]
  refine Prog.Follows.andThen ⟨hround _ rfl, fun r _ => by cases r <;> trivial⟩ ?_
  intro applied
  apply Prog.Follows.bind (Prog.All.follows ((apply_to_device_calls resp).mono hwelcomes))
  intro joined
  refine Prog.Follows.andThen ?_ (fun _ =>
    h.round_tail hpass (hround _ rfl) (hround _ rfl) applied joined)
  unfold persist_sync_token
  split
  · refine ⟨hround _ rfl, ?_⟩
    intro r _
    cases r <;> trivial
  · trivial

/-- Any number of rounds. -/
theorem run_sync (hround : ∀ op : Op, op.ofRound = true → P op) (rounds backoff : Nat) :
    (run_sync rounds backoff).Follows A P := by
  induction rounds generalizing backoff with
  | zero => trivial
  | succ rounds ih =>
    refine Prog.Follows.andThen ⟨hround _ rfl, ?_⟩ ih
    intro r _
    cases r with
    | error e => trivial
    | ok since =>
      refine ⟨hround _ rfl, ?_⟩
      intro r _
      cases r with
      | ok resp => exact h.sync_success hround resp
      | error err =>
        simp only
        split
        · exact ⟨hround _ rfl, fun _ _ => ⟨hround _ rfl, fun _ _ => trivial⟩⟩
        · trivial

end FlushRule

/-! ## One-shot sends -/

theorem send_event_follows {room_id event_type : String} {content : Json} (hid : P .next_txn_id)
    (hpost : ∀ txn_id, A .next_txn_id txn_id →
      P (.api_send_event room_id event_type txn_id content)) :
    (send_event room_id event_type content).Follows A P := by
  refine ⟨hid, ?_⟩
  intro txn_id htxn
  refine ⟨hpost txn_id htxn, ?_⟩
  intro r _
  cases r <;> trivial

theorem upload_media_follows {bytes : Bytes} {content_type : String}
    (hupload : P (.api_upload_media bytes content_type)) :
    (upload_media bytes content_type).Follows A P := by
  unfold upload_media
  split
  · trivial
  · refine ⟨hupload, ?_⟩
    intro r _
    cases r <;> trivial

/-- The calls of an image send that leave nothing of it with the server. -/
def Op.asksImage : Op → Bool
  | .e2ee => true
  | .has_group _ => true
  | .encrypt_media _ => true
  | .encrypt _ _ => true
  | .next_txn_id => true
  | _ => false

/-- A rule under which an image may be sent: its bytes go up and are posted, in the clear or
sealed. -/
structure ImageRule (A : (op : Op) → op.Res → Prop) (P : Op → Prop) (room_id : String)
    (bytes : Bytes) (mimetype : String) (width height : Nat) (caption : String) : Prop where
  asks : ∀ op, op.asksImage = true → P op
  uploads : P (.api_upload_media bytes mimetype)
  hides : ∀ key blob, A (.encrypt_media bytes) (.ok (key, blob)) →
    P (.api_upload_media blob "application/octet-stream")
  posts : ∀ uri txn_id, A .next_txn_id txn_id → P (.api_send_event room_id "p.room.message" txn_id
    (plainImage caption uri mimetype width height bytes.length))
  seals : ∀ uri key ct txn_id, A (.encrypt room_id
      (encryptedImage caption uri key mimetype width height bytes.length).to_string) (.ok ct) →
    A .next_txn_id txn_id →
      P (.api_send_event room_id "p.room.encrypted" txn_id (encryptedContent ct))

theorem ImageRule.send_image {room_id : String} {bytes : Bytes} {mimetype : String}
    {width height : Nat}
    {caption : String} (h : ImageRule A P room_id bytes mimetype width height caption) :
    (send_image room_id bytes mimetype width height caption).Follows A P := by
  have hid : P .next_txn_id := h.asks _ rfl
  have hplain : (send_plain_image room_id bytes mimetype width height caption).Follows A P := by
    apply (upload_media_follows h.uploads).andThen
    intro uri
    exact send_event_follows hid (fun txn_id htxn => h.posts uri txn_id htxn)
  refine ⟨h.asks _ rfl, ?_⟩
  intro engine _
  cases engine with
  | false => exact hplain
  | true =>
    refine ⟨h.asks _ rfl, ?_⟩
    intro held _
    rcases held with e | _ | _
    · trivial
    · exact hplain
    · refine ⟨h.asks _ rfl, ?_⟩
      intro r hr
      rcases r with e | ⟨key, blob⟩
      · trivial
      apply (upload_media_follows (h.hides key blob hr)).andThen
      intro uri
      refine ⟨h.asks _ rfl, ?_⟩
      intro r hct
      cases r with
      | error e => trivial
      | ok ct =>
        exact send_event_follows hid (fun txn_id htxn => h.seals uri key ct txn_id hct htxn)

/-- The calls of an invite that leave nothing of it with the server. -/
def Op.asksInvite : Op → Bool
  | .e2ee => true
  | .has_group _ => true
  | .add_member _ _ => true
  | .next_txn_id => true
  | _ => false

/-- A rule under which a user may be invited, and welcomed on each device. -/
structure InviteRule (A : (op : Op) → op.Res → Prop) (P : Op → Prop) (room_id user_id : String) :
    Prop where
  asks : ∀ op, op.asksInvite = true → P op
  invites : P (.api_invite room_id user_id)
  queries : P (.api_query_keys user_id)
  claims : ∀ device_id, P (.api_claim_keys user_id device_id)
  welcomes : ∀ device_id welcome txn_id, A .next_txn_id txn_id →
    P (.api_send_to_device "p.mls.welcome" txn_id
      (welcomeMessages user_id device_id room_id welcome))
  commits : ∀ commit txn_id, A .next_txn_id txn_id →
    P (.api_send_event room_id "p.mls.commit" txn_id (commitContent commit))

namespace InviteRule

variable {room_id user_id : String} (h : InviteRule A P room_id user_id)
include h

theorem claim_devices (devices : List String) (claimed : List ClaimedKeyPackage) :
    (claim_devices user_id devices claimed).Follows A P := by
  induction devices generalizing claimed with
  | nil => trivial
  | cons device_id rest ih =>
    refine ⟨h.claims device_id, ?_⟩
    intro r _
    rcases r with err | _ | key_package
    · trivial
    · exact ih claimed
    · exact ih _

theorem welcome_devices (claimed : List ClaimedKeyPackage) :
    (welcome_devices room_id user_id claimed).Follows A P := by
  have hid : P .next_txn_id := h.asks _ rfl
  induction claimed with
  | nil => trivial
  | cons kp rest ih =>
    refine Prog.Follows.andThen ?_ (fun _ => ih)
    refine ⟨h.asks _ rfl, ?_⟩
    intro r _
    cases r with
    | error e => trivial
    | ok outcome =>
      refine ⟨hid, ?_⟩
      intro txn_id htxn
      refine ⟨h.welcomes kp.device_id outcome.welcome txn_id htxn, ?_⟩
      intro r _
      cases r with
      | error err => trivial
      | ok _ => exact send_event_follows hid (h.commits outcome.commit)

theorem invite : (invite room_id user_id).Follows A P := by
  refine ⟨h.invites, ?_⟩
  intro r _
  cases r with
  | error err => trivial
  | ok _ =>
    refine ⟨h.asks _ rfl, ?_⟩
    intro engine _
    cases engine with
    | false => trivial
    | true =>
      refine ⟨h.asks _ rfl, ?_⟩
      intro held _
      rcases held with e | _ | _
      · trivial
      · trivial
      · refine Prog.Follows.andThen ⟨h.queries, ?_⟩ h.welcome_devices
        intro r _
        cases r with
        | error err => trivial
        | ok devices => exact h.claim_devices _ _

end InviteRule

/-- A backfill gives the log the chunk that the server answered. -/
theorem fetch_messages_follows {room_id : String} {limit : Nat}
    (hask : P (.api_messages room_id limit)) (hpass : ∀ op : Op, op.ofPass = true → P op)
    (happly : ∀ resp, A (.api_messages room_id limit) (.ok resp) →
      P (.apply_events (chunkOf resp))) :
    (fetch_messages room_id limit).Follows A P := by
  refine ⟨hask, ?_⟩
  intro r hr
  cases r with
  | error err => trivial
  | ok resp =>
    refine ⟨happly resp hr, ?_⟩
    intro r _
    cases r with
    | error e => trivial
    | ok inserted =>
      exact Prog.Follows.andThen (Prog.All.follows (pass_calls.mono hpass)) (fun _ => trivial)

end PigeonMobile
