-- What the UI renders of a stored event (`rooms.rs`): the text or image of a
-- message, or a system line. The plaintext of an encrypted event is text that may
-- itself be JSON; `from_str` stands for `serde_json::from_str`.
import PigeonMobile.Store

namespace PigeonMobile

/-- An image attachment. `width`, `height` and `size` are 0 when unknown. -/
structure ImageContent where
  uri : String
  mimetype : String
  width : Nat
  height : Nat
  size : Nat
  key : Option String
  deriving DecidableEq

/-- A timeline entry. -/
structure TimelineEvent where
  event_id : String
  sender : String
  origin_server_ts : Int
  cursor : Int
  body : Option String
  system_text : Option String
  pending : Bool
  failed : Bool
  image : Option ImageContent
  deriving DecidableEq

/-- The attachment of a `p.image` content: an encrypted image has a `file` object,
a plaintext one has `url` and `info`. -/
def parse_image (content : Json) : Option ImageContent :=
  let file := (content.get "file").filter Json.is_object
  let holder := file.getD content
  let key := file.bind (fun f => (f.get "key").bind Json.as_str)
  let info := content.get "info"
  let field (k : String) : Option Json := (info.bind (·.get k)).or (holder.get k)
  let meta_u64 (k : String) : Nat := ((field k).bind Json.as_u64).getD 0
  ((holder.get "url").bind Json.as_str).map (fun uri =>
    { uri
      mimetype := ((field "mimetype").bind Json.as_str).getD "application/octet-stream"
      width := meta_u64 "w" % 2 ^ 32
      height := meta_u64 "h" % 2 ^ 32
      size := meta_u64 "size"
      key })

/-- The system line of a state or membership event; none for the types that the
timeline does not surface. -/
def render_system (ev : StoredEvent) : Option String :=
  let str_field (key : String) : Option String := (ev.content.get key).bind Json.as_str
  match ev.event_type with
  | "p.room.member" =>
    let membership := (str_field "membership").getD ""
    let target := ev.state_key.getD ev.sender
    some (match membership with
      | "join" => target ++ " joined"
      | "leave" => target ++ " left"
      | "invite" => ev.sender ++ " invited " ++ target
      | "ban" => ev.sender ++ " banned " ++ target
      | "knock" => target ++ " requested to join"
      | other => target ++ ": " ++ other)
  | "p.room.name" => some (match str_field "name" with
      | some name => "Room name set to “" ++ name ++ "”"
      | none => "Room name removed")
  | "p.room.topic" => some "Topic updated"
  | "p.room.encryption" => some "Encryption enabled"
  | "p.room.create" => some "Room created"
  | _ => none

/-- A JSON content whose `msgtype` is `p.image`. -/
def isImage (content : Json) : Bool :=
  (content.get "msgtype").bind Json.as_str = some "p.image"

/-- The plaintext of an encrypted event, where it is the content of an image. -/
def decrypted_image (from_str : String → Option Json) (ev : StoredEvent) : Option Json :=
  if ev.event_type = "p.room.encrypted" then
    (ev.decrypted.bind from_str).filter isImage
  else none

def UNABLE_TO_DECRYPT : String := "⚠ Unable to decrypt this message"

/-- `TimelineEvent::from`. -/
def TimelineEvent.of (from_str : String → Option Json) (ev : StoredEvent) : TimelineEvent :=
  let hidden := decrypted_image from_str ev
  let image :=
    if ev.event_type = "p.room.message" ∧ isImage ev.content then parse_image ev.content
    else hidden.bind parse_image
  let body :=
    if ev.event_type = "p.room.message" then (ev.content.get "body").bind Json.as_str
    else if ev.event_type = "p.room.encrypted" then
      match hidden with
      | some v => (v.get "body").bind Json.as_str
      | none => ev.decrypted
    else none
  let system_text :=
    if body.isSome then none
    else if ev.event_type = "p.room.encrypted" then
      if ev.decrypt_failed then some UNABLE_TO_DECRYPT else none
    else render_system ev
  { event_id := ev.event_id
    sender := ev.sender
    origin_server_ts := ev.origin_server_ts
    cursor := ev.depth
    body, system_text
    pending := ev.send_state = .Sending
    failed := ev.send_state = .Failed
    image }

/-- `PigeonClient::timeline`: a page of entries, oldest first. -/
def timeline (from_str : String → Option Json) (st : Store) (room_id : String) (limit : Nat)
    (before : Option Int) : Except StoreError (List TimelineEvent) := do
  let events ← st.timeline room_id limit before
  return events.map (TimelineEvent.of from_str)

end PigeonMobile
