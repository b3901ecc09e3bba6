-- The local store (`store.rs`): the tables of the SQLite file and the statements
-- that each method runs on them. Every method is one transaction, so it is one
-- function on the tables; an error leaves them as they were.
import PigeonMobile.Json
import PigeonMobile.Table
import Mathlib.Data.List.Sort
import Mathlib.Data.String.Basic
import Mathlib.Data.Prod.Lex

namespace PigeonMobile

/-- A failure from the local store. -/
inductive StoreError where
  | Db (reason : String)
  | Malformed (reason : String)

/-- The delivery state of a timeline event's own send. -/
inductive SendState where
  | Confirmed
  | Sending
  | Failed
  deriving DecidableEq

/-- The `events.local` column (0/1/2) as a state. -/
def SendState.from_local (n : Nat) : SendState :=
  match n with
  | 1 => .Sending
  | 2 => .Failed
  | _ => .Confirmed

/-- A room member's current membership. A word that is not known is kept. -/
inductive Membership where
  | Join
  | Invite
  | Leave
  | Ban
  | Knock
  | Other (s : String)
  deriving DecidableEq

def Membership.from_wire (s : String) : Membership :=
  match s with
  | "join" => .Join
  | "invite" => .Invite
  | "leave" => .Leave
  | "ban" => .Ban
  | "knock" => .Knock
  | other => .Other other

/-- A stored timeline event, parsed from the wire JSON. -/
structure StoredEvent where
  event_id : String
  room_id : String
  sender : String
  event_type : String
  state_key : Option String
  origin_server_ts : Int
  depth : Int
  content : Json
  payload : Json
  send_state : SendState
  decrypted : Option String
  decrypt_failed : Bool

namespace StoredEvent

def stringField (event : Json) (key : String) : Except StoreError String :=
  match (event.index key).as_str with
  | some s => .ok s
  | none => .error (.Malformed s!"event missing string field `{key}`")

def intField (event : Json) (key : String) : Except StoreError Int :=
  match (event.index key).as_i64 with
  | some n => .ok n
  | none => .error (.Malformed s!"event missing integer field `{key}`")

/-- Parse a `/sync` timeline event. The fields are read in the order of the source,
so the first one missing names the error. -/
def from_wire (event : Json) : Except StoreError StoredEvent := do
  let event_id ← stringField event "event_id"
  let room_id ← stringField event "room_id"
  let sender ← stringField event "sender"
  let event_type ← stringField event "type"
  let origin_server_ts ← intField event "origin_server_ts"
  let depth ← intField event "depth"
  return {
    event_id, room_id, sender, event_type
    state_key := (event.index "state_key").as_str
    origin_server_ts, depth
    content := (event.get "content").getD .null
    payload := event
    send_state := .Confirmed
    decrypted := none
    decrypt_failed := false }

end StoredEvent

/-! ## The tables -/

/-- A row of `events`. -/
structure EventRow where
  event_id : String
  room_id : String
  sender : String
  type : String
  state_key : Option String
  origin_server_ts : Int
  depth : Int
  payload : Json
  /-- 0 confirmed, 1 sending, 2 failed -/
  local_ : Nat
  decrypted : Option String
  decrypt_state : Nat

/-- A row of `room_state`: the current event of one `(room, type, state_key)`. -/
structure StateRow where
  room_id : String
  type : String
  state_key : String
  event_id : String
  depth : Int

/-- The primary key of `room_state`. -/
def StateRow.key (r : StateRow) : String × String × String := (r.room_id, r.type, r.state_key)

/-- A row of `pending_sends`. -/
structure PendingRow where
  txn_id : String
  room_id : String
  body : String
  event_id : String
  created_ts : Int

structure Store where
  sync_token : Option String
  events : Table EventRow.event_id
  room_state : Table StateRow.key
  pending_sends : Table PendingRow.txn_id

/-- `decrypt_state`: the plaintext is cached. -/
def DECRYPT_OK : Nat := 1
/-- `decrypt_state`: terminally undecryptable. -/
def DECRYPT_FAILED : Nat := 2

/-- A queued outbound message, as the sender reads it. -/
structure PendingSend where
  txn_id : String
  room_id : String
  body : String

structure PendingDecrypt where
  event_id : String
  room_id : String
  sender : String
  ciphertext_b64 : String

structure PendingCommit where
  event_id : String
  room_id : String
  sender : String
  commit_b64 : String

/-- One inbound MLS event that waits for its turn. -/
inductive PendingMls where
  | Message (m : PendingDecrypt)
  | Commit (c : PendingCommit)

structure RoomSummary where
  room_id : String
  name : Option String
  topic : Option String
  encrypted : Bool
  last_activity_ts : Int

/-! ## Orders -/

/-- The DAG position of an event: `ORDER BY depth ASC, event_id ASC`. -/
def EventRow.position (r : EventRow) : Int ×ₗ String := toLex (r.depth, r.event_id)

/-- `ORDER BY created_ts ASC, txn_id ASC`. -/
def PendingRow.position (r : PendingRow) : Int ×ₗ String := toLex (r.created_ts, r.txn_id)

/-- The events in DAG order. -/
def dagSort (rows : List EventRow) : List EventRow :=
  rows.insertionSort (fun a b => a.position ≤ b.position)

/-! ## Ids -/

/-- The ids of an outbound send: the transaction, and the event of its echo. -/
structure SendIds where
  txn_id : String
  event_id : String

/-- `next_send_ids`, where the counter stands at `n` and the clock reads `ts`. -/
def next_send_ids (ts : Int) (n : Nat) : SendIds :=
  { txn_id := "m" ++ toString ts ++ "-" ++ toString n
    event_id := "$local-" ++ toString ts ++ "-" ++ toString n }

namespace Store

/-- A fresh file, as `migrate` leaves it. -/
def init : Store := ⟨none, Table.empty, Table.empty, Table.empty⟩

/-! ## The sync token -/

def save_sync_token (st : Store) (token : String) : Store := { st with sync_token := some token }

def load_sync_token (st : Store) : Option String := st.sync_token

/-! ## Events in -/

/-- The row that `insert_event` writes for an event. -/
def rowOf (ev : StoredEvent) : EventRow :=
  { event_id := ev.event_id, room_id := ev.room_id, sender := ev.sender, type := ev.event_type
    state_key := ev.state_key, origin_server_ts := ev.origin_server_ts, depth := ev.depth
    payload := ev.payload, local_ := 0, decrypted := none, decrypt_state := 0 }

/-- Append one event; 1 if the row was new, 0 if it was there. -/
def insert_event (st : Store) (ev : StoredEvent) : Nat × Store :=
  (if (st.events.find ev.event_id).isNone then 1 else 0,
    { st with events := st.events.insertNew (rowOf ev) })

/-- Make a state event the current one of its key, unless a deeper one is. -/
def fold_state (st : Store) (ev : StoredEvent) (state_key : String) : Store :=
  let row : StateRow :=
    { room_id := ev.room_id, type := ev.event_type, state_key
      event_id := ev.event_id, depth := ev.depth }
  { st with room_state := st.room_state.upsert row (fun old => decide (old.depth ≤ ev.depth)) }

def apply_event (st : Store) (ev : StoredEvent) : Nat × Store :=
  let (n, st) := st.insert_event ev
  match ev.state_key with
  | some key => (n, st.fold_state ev key)
  | none => (n, st)

def apply_parsed (st : Store) : List StoredEvent → Nat × Store
  | [] => (0, st)
  | ev :: rest =>
    let (n, st) := st.apply_event ev
    let (m, st) := st.apply_parsed rest
    (n + m, st)

/-- Apply a batch: every event is parsed before the first write. -/
def apply_events (st : Store) (events : List Json) : Except StoreError (Nat × Store) := do
  let parsed ← events.mapM StoredEvent.from_wire
  return st.apply_parsed parsed

/-! ## Reads -/

/-- A stored event rebuilt from its payload and its other columns. -/
def parse_stored_payload (r : EventRow) : Except StoreError StoredEvent := do
  let event ← StoredEvent.from_wire r.payload
  return { event with
    send_state := .from_local r.local_
    decrypted := r.decrypted
    decrypt_failed := decide (r.decrypt_state = DECRYPT_FAILED) }

/-- The rows a timeline page is taken from, the newest first. -/
def timelineRows (st : Store) (room_id : String) (before : Option Int) : List EventRow :=
  (dagSort (st.events.rows.filter (fun r => decide (r.room_id = room_id ∧
    (∀ d ∈ before, r.depth < d) ∧ r.type ≠ "p.mls.commit")))).reverse

/-- A timeline page, oldest first. -/
def timeline (st : Store) (room_id : String) (limit : Nat) (before : Option Int) :
    Except StoreError (List StoredEvent) := do
  let events ← ((st.timelineRows room_id before).take limit).mapM parse_stored_payload
  return events.reverse

/-- The current `(type, state_key)` event of a room, as a field of its content. -/
def stateText (st : Store) (room_id type field : String) : SqlValue :=
  match (st.room_state.find (room_id, type, "")).bind (fun s => st.events.find s.event_id) with
  | some e => json_extract e.payload ["content", field]
  | none => .null

def is_room_encrypted (st : Store) (room_id : String) : Bool :=
  st.room_state.rows.any (fun s => decide (s.room_id = room_id ∧ s.type = "p.room.encryption"))

def last_activity_ts (st : Store) (room_id : String) : Int :=
  (((st.events.rows.filter (fun r => decide (r.room_id = room_id))).map
    (·.origin_server_ts)).max?).getD 0

/-- One row of the room list: a name or topic that is no string or null is an error
of the read. -/
def summary (st : Store) (room_id : String) : Except StoreError RoomSummary :=
  match (st.stateText room_id "p.room.name" "name").getOptionString,
      (st.stateText room_id "p.room.topic" "topic").getOptionString with
  | some name, some topic => .ok {
      room_id, name, topic
      encrypted := st.is_room_encrypted room_id
      last_activity_ts := st.last_activity_ts room_id }
  | _, _ => .error (.Db "invalid column type")

/-- The room list: latest activity first, then by room id. -/
def list_rooms (st : Store) : Except StoreError (List RoomSummary) :=
  let rooms := (st.room_state.rows.map (·.room_id)).dedup
  (rooms.insertionSort (fun a b =>
    toLex (-st.last_activity_ts a, a) ≤ toLex (-st.last_activity_ts b, b))).mapM st.summary

/-- The current event of `(type, state_key)` in a room. -/
def current_state (st : Store) (room_id event_type state_key : String) :
    Except StoreError (Option StoredEvent) :=
  match (st.room_state.find (room_id, event_type, state_key)).bind
      (fun s => st.events.find s.event_id) with
  | none => .ok none
  | some e => (StoredEvent.from_wire e.payload).map some

/-- The membership that the latest `p.room.member` event of a user says. -/
def membership (st : Store) (room_id user_id : String) : Except StoreError (Option Membership) := do
  let ev ← st.current_state room_id "p.room.member" user_id
  return (ev.bind (fun e => (e.content.get "membership").bind Json.as_str)).map Membership.from_wire

/-! ## The outbound queue -/

/-- `COALESCE(MAX(depth), 0) + 1`. Past the largest `i64` SQLite gives a REAL, which
is no `i64` to read. -/
def nextDepth (st : Store) (room_id : String) : Except StoreError Int :=
  let depth := (((st.events.rows.filter (fun r => decide (r.room_id = room_id))).map
    (·.depth)).max?).getD 0 + 1
  if Json.inI64 depth then .ok depth else .error (.Db "invalid column type")

/-- The payload of a local echo: a full event. -/
def echoPayload (event_id room_id sender body : String) (ts depth : Int) : Json :=
  .obj [("event_id", .str event_id), ("room_id", .str room_id), ("sender", .str sender),
    ("type", .str "p.room.message"), ("origin_server_ts", .num ts), ("depth", .num depth),
    ("content", .obj [("body", .str body), ("msgtype", .str "p.text")])]

/-- Queue a message: its echo in the timeline, and its row in the queue. `ids` and
`ts` are what the counter and the clock gave. -/
def queue_send (st : Store) (room_id sender body : String) (ids : SendIds) (ts : Int) :
    Except StoreError (String × Store) := do
  let depth ← st.nextDepth room_id
  if (st.events.find ids.event_id).isSome ∨ (st.pending_sends.find ids.txn_id).isSome then
    throw (.Db "UNIQUE constraint failed")
  return (ids.txn_id, { st with
    events := st.events.insertNew {
      event_id := ids.event_id, room_id, sender, type := "p.room.message", state_key := none
      origin_server_ts := ts, depth
      payload := echoPayload ids.event_id room_id sender body ts depth
      local_ := 1, decrypted := none, decrypt_state := 0 }
    pending_sends := st.pending_sends.insertNew {
      txn_id := ids.txn_id, room_id, body, event_id := ids.event_id, created_ts := ts } })

/-- The queue, oldest first. -/
def pending_sends_list (st : Store) : List PendingSend :=
  (st.pending_sends.rows.insertionSort (fun a b => a.position ≤ b.position)).map
    (fun r => ⟨r.txn_id, r.room_id, r.body⟩)

def has_pending_send (st : Store) (room_id : String) : Bool :=
  st.pending_sends.rows.any (fun r => decide (r.room_id = room_id))

/-- The real event of an own send keeps the plaintext, if it is ciphertext. -/
def carryPlaintext (body : String) (r : EventRow) : EventRow :=
  if r.type = "p.room.encrypted" then
    { r with decrypted := some body, decrypt_state := DECRYPT_OK }
  else r

/-- The echo becomes the confirmed event: the column, the payload and the flag. -/
def promote (real_event_id : String) (r : EventRow) : EventRow :=
  { r with
    event_id := real_event_id, local_ := 0
    payload := r.payload.json_set "event_id" (.str real_event_id) }

/-- A row of `room_state` refers to the event, so it can neither go nor be renamed. -/
def referenced (st : Store) (event_id : String) : Bool :=
  st.room_state.rows.any (fun s => decide (s.event_id = event_id))

/-- A queued send is acknowledged under `real_event_id`. -/
def resolve_send (st : Store) (txn_id real_event_id : String) : Except StoreError Store :=
  match st.pending_sends.find txn_id with
  | none => .ok { st with pending_sends := st.pending_sends.erase txn_id }
  | some p =>
    if st.referenced p.event_id then .error (.Db "FOREIGN KEY constraint failed")
    else if (st.events.find real_event_id).isSome then
      -- sync raced ahead of the ack
      .ok { st with
        events := (st.events.update real_event_id (carryPlaintext p.body) (by
          intro r; unfold carryPlaintext; split <;> rfl)).erase p.event_id
        pending_sends := st.pending_sends.erase txn_id }
    else
      .ok { st with
        events := st.events.rekey p.event_id real_event_id (promote real_event_id) (fun _ => rfl)
        pending_sends := st.pending_sends.erase txn_id }

def markFailed (r : EventRow) : EventRow := { r with local_ := 2 }

/-- A queued send has failed for good. -/
def fail_send (st : Store) (txn_id : String) : Store :=
  match st.pending_sends.find txn_id with
  | none => { st with pending_sends := st.pending_sends.erase txn_id }
  | some p => { st with
      events := st.events.update p.event_id markFailed (fun _ => rfl)
      pending_sends := st.pending_sends.erase txn_id }

/-! ## The inbound MLS events -/

/-- One row of `pending_mls`: an event with no ciphertext or commit is skipped, and
one that is a number is an error of the read. -/
def pendingOf (r : EventRow) : Except StoreError (Option PendingMls) :=
  match (json_extract r.payload ["content", "ciphertext"]).getOptionString,
      (json_extract r.payload ["content", "commit"]).getOptionString with
  | some ciphertext, some commit =>
    if r.type = "p.room.encrypted" then
      .ok (ciphertext.map (fun c => .Message ⟨r.event_id, r.room_id, r.sender, c⟩))
    else if r.type = "p.mls.commit" then
      .ok (commit.map (fun c => .Commit ⟨r.event_id, r.room_id, r.sender, c⟩))
    else .ok none
  | _, _ => .error (.Db "invalid column type")

/-- The rows that wait to be processed, in DAG order. -/
def pendingRows (st : Store) : List EventRow :=
  dagSort (st.events.rows.filter (fun r => decide
    ((r.type = "p.room.encrypted" ∨ r.type = "p.mls.commit") ∧ r.decrypt_state = 0)))

def pending_mls (st : Store) : Except StoreError (List PendingMls) := do
  let pending ← st.pendingRows.mapM pendingOf
  return pending.filterMap id

def withPlaintext (plaintext : String) (r : EventRow) : EventRow :=
  { r with decrypted := some plaintext, decrypt_state := DECRYPT_OK }

def withState (n : Nat) (r : EventRow) : EventRow := { r with decrypt_state := n }

def set_decrypted (st : Store) (event_id plaintext : String) : Store :=
  { st with events := st.events.update event_id (withPlaintext plaintext) (fun _ => rfl) }

def set_decrypt_failed (st : Store) (event_id : String) : Store :=
  { st with events := st.events.update event_id (withState DECRYPT_FAILED) (fun _ => rfl) }

def set_commit_processed (st : Store) (event_id : String) : Store :=
  { st with events := st.events.update event_id (withState DECRYPT_OK) (fun _ => rfl) }

end Store

end PigeonMobile
