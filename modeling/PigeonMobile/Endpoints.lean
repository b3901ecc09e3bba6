-- The requests of `api.rs`, and what a server reads of them. The ids are put into the path as they
-- are, so an id that a URL parser does not take as it stands leads its request astray. A room id is
-- typed where a room is joined. A token or a content type is put into a header, which does not take
-- every text either.
import PigeonMobile.ContentUri
import PigeonMobile.FormUrl

namespace PigeonMobile

/-! ## The requests -/

/-- The body of a request. JSON goes out as `application/json`. -/
inductive RequestBody where
  | empty
  | json (body : Json)
  | bytes (bytes : Bytes) (content_type : String)

/-- A request, before the base URL and the token. -/
structure ApiRequest where
  method : String
  path : String
  query : List (String × String)
  body : RequestBody

/-- How long the server may hold a sync open. -/
def SYNC_TIMEOUT_MS : Nat := 30000

def SYNC_LIMIT : Nat := 100

def lowerHex (n : Nat) : Char := ("0123456789abcdef".toList[n]?).getD '0'

/-- `kp-` and the first eight bytes of the hash, which is that of `pigeon_core`. -/
def key_package_id (content_hash : Json → Except String Bytes) (package_b64 : String)
    (index : Nat) : String :=
  match content_hash (.str package_b64) with
  | .ok h =>
    "kp-" ++ String.ofList ((h.take 8).flatMap (fun b =>
      [lowerHex (b.toNat / 16), lowerHex (b.toNat % 16)]))
  | .error _ => "kp-" ++ toString index

/-- A row of a key upload. -/
def packageRow (content_hash : Json → Except String Bytes) (package_b64 : String) (index : Nat)
    (last_resort : Bool) : Json :=
  .obj [("key_id", .str (key_package_id content_hash package_b64 index)),
    ("package", .str package_b64),
    ("last_resort", .bool last_resort)]

/-- The one-time packages, and the last resort behind them. -/
def packageRows (content_hash : Json → Except String Bytes) (key_packages_b64 : List String)
    (last_resort_b64 : Option String) : List Json :=
  key_packages_b64.mapIdx (fun i pkg => packageRow content_hash pkg i false) ++
    last_resort_b64.toList.map (fun lr => packageRow content_hash lr key_packages_b64.length true)

namespace ApiRequest

/-- The verb helpers. -/
def get (path : String) : ApiRequest := ⟨"GET", path, [], .empty⟩

def post (path : String) (body : Json) : ApiRequest := ⟨"POST", path, [], .json body⟩

def put (path : String) (body : Json) : ApiRequest := ⟨"PUT", path, [], .json body⟩

def register (username password : String) : ApiRequest :=
  post "/_pigeon/client/v1/register"
    (.obj [("username", .str username), ("password", .str password)])

def login (user password : String) : ApiRequest :=
  post "/_pigeon/client/v1/login"
    (.obj [("type", .str "p.login.password"), ("user", .str user), ("password", .str password)])

def logout : ApiRequest := post "/_pigeon/client/v1/logout" (.obj [])

def whoami : ApiRequest := get "/_pigeon/client/v1/account/whoami"

/-- The first sync has no token to go on from. -/
def sync (since : Option String) (timeout_ms limit : Nat) : ApiRequest :=
  { get "/_pigeon/client/v1/sync" with
    query := [("timeout", toString timeout_ms), ("limit", toString limit)] ++
      since.toList.map (fun s => ("since", s)) }

/-- A room without a name or a topic has no field for it. -/
def create_room (name topic : Option String) (encryption : Bool) : ApiRequest :=
  post "/_pigeon/client/v1/createRoom"
    (.obj (name.toList.map (fun n => ("name", .str n)) ++
      topic.toList.map (fun t => ("topic", .str t)) ++
      if encryption then [("encryption", .bool true)] else []))

def join_room (room_id : String) : ApiRequest :=
  post ("/_pigeon/client/v1/rooms/" ++ room_id ++ "/join") (.obj [])

def upload_keys (content_hash : Json → Except String Bytes) (device_id public_key_b64 : String)
    (key_packages_b64 : List String) (last_resort_b64 : Option String) : ApiRequest :=
  post "/_pigeon/client/v1/keys/upload"
    (.obj [
      ("device_keys", .obj [
        ("algorithms", .arr [.str "p.mls.1"]),
        ("keys", .obj [("ed25519:" ++ device_id, .str public_key_b64)]),
        ("signatures", .obj [])]),
      ("key_packages", .arr (packageRows content_hash key_packages_b64 last_resort_b64))])

def query_keys (user_id : String) : ApiRequest :=
  post "/_pigeon/client/v1/keys/query" (.obj [("device_keys", .obj [(user_id, .arr [])])])

/-- One package of one device. -/
def claim_keys (user_id device_id : String) : ApiRequest :=
  post "/_pigeon/client/v1/keys/claim"
    (.obj [("one_time_keys", .obj [(user_id, .arr [.str device_id])])])

def send_to_device (event_type txn_id : String) (messages : Json) : ApiRequest :=
  put ("/_pigeon/client/v1/sendToDevice/" ++ event_type ++ "/" ++ txn_id)
    (.obj [("messages", messages)])

def invite (room_id user_id : String) : ApiRequest :=
  post ("/_pigeon/client/v1/rooms/" ++ room_id ++ "/invite") (.obj [("user_id", .str user_id)])

def messages (room_id : String) (limit : Nat) : ApiRequest :=
  { get ("/_pigeon/client/v1/rooms/" ++ room_id ++ "/messages") with
    query := [("limit", toString limit)] }

def put_room_key (room_id session_id blob_b64 : String) : ApiRequest :=
  put ("/_pigeon/client/v1/room_keys/key/" ++ room_id ++ "/" ++ session_id)
    (.obj [("blob", .str blob_b64)])

def get_room_key (room_id session_id : String) : ApiRequest :=
  get ("/_pigeon/client/v1/room_keys/key/" ++ room_id ++ "/" ++ session_id)

def send_event (room_id event_type txn_id : String) (content : Json) : ApiRequest :=
  put ("/_pigeon/client/v1/rooms/" ++ room_id ++ "/send/" ++ event_type ++ "/" ++ txn_id) content

/-- The bytes as they are, under the content type of the caller. -/
def upload_media (bytes : Bytes) (content_type : String) : ApiRequest :=
  ⟨"POST", "/_pigeon/media/v1/upload", [], .bytes bytes content_type⟩

def download_media (server media_id : String) : ApiRequest :=
  get ("/_pigeon/media/v1/download/" ++ server ++ "/" ++ media_id)

end ApiRequest

/-- A call of the API, with its arguments. -/
inductive ApiCall where
  | register (username password : String)
  | login (user password : String)
  | logout
  | whoami
  | sync (since : Option String) (timeout_ms limit : Nat)
  | create_room (name topic : Option String) (encryption : Bool)
  | join_room (room_id : String)
  | upload_keys (device_id public_key_b64 : String) (key_packages_b64 : List String)
      (last_resort_b64 : Option String)
  | query_keys (user_id : String)
  | claim_keys (user_id device_id : String)
  | send_to_device (event_type txn_id : String) (messages : Json)
  | invite (room_id user_id : String)
  | messages (room_id : String) (limit : Nat)
  | put_room_key (room_id session_id blob_b64 : String)
  | get_room_key (room_id session_id : String)
  | send_event (room_id event_type txn_id : String) (content : Json)
  | upload_media (bytes : Bytes) (content_type : String)
  | download_media (server media_id : String)

/-- A part of a path: a word of the API, or an id. -/
inductive Part where
  | word (text : String)
  | id (text : String)

def Part.text : Part → String
  | .word text => text
  | .id text => text

namespace ApiCall

variable (content_hash : Json → Except String Bytes)

def request : ApiCall → ApiRequest
  | .register username password => ApiRequest.register username password
  | .login user password => ApiRequest.login user password
  | .logout => ApiRequest.logout
  | .whoami => ApiRequest.whoami
  | .sync since timeout_ms limit => ApiRequest.sync since timeout_ms limit
  | .create_room name topic encryption => ApiRequest.create_room name topic encryption
  | .join_room room_id => ApiRequest.join_room room_id
  | .upload_keys device_id public_key_b64 key_packages_b64 last_resort_b64 =>
    ApiRequest.upload_keys content_hash device_id public_key_b64 key_packages_b64 last_resort_b64
  | .query_keys user_id => ApiRequest.query_keys user_id
  | .claim_keys user_id device_id => ApiRequest.claim_keys user_id device_id
  | .send_to_device event_type txn_id content => ApiRequest.send_to_device event_type txn_id content
  | .invite room_id user_id => ApiRequest.invite room_id user_id
  | .messages room_id limit => ApiRequest.messages room_id limit
  | .put_room_key room_id session_id blob_b64 => ApiRequest.put_room_key room_id session_id blob_b64
  | .get_room_key room_id session_id => ApiRequest.get_room_key room_id session_id
  | .send_event room_id event_type txn_id content =>
    ApiRequest.send_event room_id event_type txn_id content
  | .upload_media bytes content_type => ApiRequest.upload_media bytes content_type
  | .download_media server media_id => ApiRequest.download_media server media_id

/-- The endpoint of a call. -/
def endpoint : ApiCall → List Part
  | .register _ _ => client [.word "register"]
  | .login _ _ => client [.word "login"]
  | .logout => client [.word "logout"]
  | .whoami => client [.word "account", .word "whoami"]
  | .sync _ _ _ => client [.word "sync"]
  | .create_room _ _ _ => client [.word "createRoom"]
  | .join_room room_id => client [.word "rooms", .id room_id, .word "join"]
  | .upload_keys _ _ _ _ => client [.word "keys", .word "upload"]
  | .query_keys _ => client [.word "keys", .word "query"]
  | .claim_keys _ _ => client [.word "keys", .word "claim"]
  | .send_to_device event_type txn_id _ => client [.word "sendToDevice", .id event_type, .id txn_id]
  | .invite room_id _ => client [.word "rooms", .id room_id, .word "invite"]
  | .messages room_id _ => client [.word "rooms", .id room_id, .word "messages"]
  | .put_room_key room_id session_id _ =>
    client [.word "room_keys", .word "key", .id room_id, .id session_id]
  | .get_room_key room_id session_id =>
    client [.word "room_keys", .word "key", .id room_id, .id session_id]
  | .send_event room_id event_type txn_id _ =>
    client [.word "rooms", .id room_id, .word "send", .id event_type, .id txn_id]
  | .upload_media _ _ => media [.word "upload"]
  | .download_media server media_id => media [.word "download", .id server, .id media_id]
where
  client (parts : List Part) : List Part := [.word "_pigeon", .word "client", .word "v1"] ++ parts
  media (parts : List Part) : List Part := [.word "_pigeon", .word "media", .word "v1"] ++ parts

/-- The content type that the caller gives. -/
def content_type : ApiCall → Option String
  | .upload_media _ content_type => some content_type
  | _ => none

def segments (c : ApiCall) : List (List Char) := c.endpoint.map (fun part => part.text.toList)

/-- The paths are made of their segments. -/
theorem path_eq (c : ApiCall) :
    (c.request content_hash).path = String.ofList ('/' :: UrlPath.join c.segments) := by
  rw [← String.toList_inj]
  cases c <;>
    simp [request, ApiRequest.get, ApiRequest.post, ApiRequest.put, ApiRequest.register,
      ApiRequest.login, ApiRequest.logout, ApiRequest.whoami, ApiRequest.sync,
      ApiRequest.create_room, ApiRequest.join_room, ApiRequest.upload_keys, ApiRequest.query_keys,
      ApiRequest.claim_keys, ApiRequest.send_to_device, ApiRequest.invite, ApiRequest.messages,
      ApiRequest.put_room_key, ApiRequest.get_room_key, ApiRequest.send_event,
      ApiRequest.upload_media, ApiRequest.download_media, segments, endpoint, endpoint.client,
      endpoint.media, Part.text, UrlPath.join, List.intercalate_cons_cons]

/-- The words of the paths. -/
def words : List String :=
  ["_pigeon", "client", "media", "v1", "register", "login", "logout", "account", "whoami", "sync",
    "createRoom", "rooms", "join", "keys", "upload", "query", "claim", "sendToDevice", "invite",
    "messages", "room_keys", "key", "send", "download"]

theorem word_mem (c : ApiCall) {text : String} (h : Part.word text ∈ c.endpoint) :
    text ∈ words := by
  revert text
  cases c <;> simp [endpoint, endpoint.client, endpoint.media, words]

theorem words_plain {text : String} (h : text ∈ words) :
    '/' ∉ text.toList ∧ UrlPath.Plain text.toList := by
  have hpercent : ∀ text ∈ words, '%' ∉ text.toList := by decide
  refine ⟨?_, ?_, ?_, ?_, ?_, ?_, ?_, ?_, ?_, fun he => hpercent text h he.percent_mem⟩ <;>
    revert text <;> decide

theorem words_end {text : String} (h : text ∈ words) : UrlPath.EndsVisible text.toList := by
  have hends : ∀ text ∈ words, text.toList.getLast?.any UrlPath.isC0OrSpace = false := by decide
  intro c hc
  have hlast := hends text h
  rw [hc] at hlast
  exact hlast

/-- A URL parser takes the ids of the path as they stand, and a header the content type. -/
structure Fits (c : ApiCall) : Prop where
  plain : ∀ id, Part.id id ∈ c.endpoint → '/' ∉ id.toList ∧ UrlPath.Plain id.toList
  ends : ∀ id, c.endpoint.getLast? = some (.id id) → UrlPath.EndsVisible id.toList
  header : ∀ text, c.content_type = some text → HeaderText text

theorem segments_plain_iff (c : ApiCall) :
    (∀ s ∈ c.segments, '/' ∉ s ∧ UrlPath.Plain s) ↔
      ∀ id, Part.id id ∈ c.endpoint → '/' ∉ id.toList ∧ UrlPath.Plain id.toList := by
  unfold segments
  simp only [List.forall_mem_map]
  constructor
  · exact fun h id hid => h _ hid
  · intro h part hpart
    cases part with
    | word text => exact words_plain (c.word_mem hpart)
    | id text => exact h text hpart

theorem endpoint_snoc (c : ApiCall) : ∃ init last, init ≠ [] ∧ c.endpoint = init ++ [last] := by
  have hlong : 1 < c.endpoint.length := by
    cases c <;> simp [endpoint, endpoint.client, endpoint.media]
  have hne : c.endpoint ≠ [] := by
    rintro he
    rw [he] at hlong
    cases hlong
  refine ⟨c.endpoint.dropLast, c.endpoint.getLast hne, ?_, (List.dropLast_append_getLast hne).symm⟩
  intro he
  have hlength := congrArg List.length he
  rw [List.length_dropLast, List.length_nil] at hlength
  omega

theorem segments_end_iff (c : ApiCall) :
    UrlPath.EndsVisible (UrlPath.join c.segments) ↔
      ∀ id, c.endpoint.getLast? = some (.id id) → UrlPath.EndsVisible id.toList := by
  obtain ⟨init, last, hinit, hends⟩ := c.endpoint_snoc
  have hsegments : c.segments =
      init.map (fun part => part.text.toList) ++ [last.text.toList] := by simp [segments, hends]
  rw [hsegments, UrlPath.ends_join (by simpa using hinit), hends, List.getLast?_concat]
  cases last with
  | word text =>
    have hword : Part.word text ∈ c.endpoint := by simp [hends]
    simp [Part.text, words_end (c.word_mem hword)]
  | id text => simp [Part.text]

end ApiCall

/-! ## What a server reads -/

/-- A request as it comes in: the path in its decoded segments, the query in its pairs, the headers
in their values. -/
structure Incoming where
  method : String
  path : List (List UInt8)
  query : List (List UInt8 × List UInt8)
  authorization : Option String
  body : RequestBody

/-- `RequestBuilder::bearer_auth`. -/
def bearer_auth (token : String) : String := "Bearer " ++ token

/-- What comes in of the token. -/
def authorized : Option String → Option (Option String)
  | none => some none
  | some token => (headerValue (bearer_auth token)).map some

/-- What comes in of the body and its content type. -/
def RequestBody.received : RequestBody → Option RequestBody
  | .bytes data content_type => (headerValue content_type).map (.bytes data)
  | body => some body

/-- The token can stand in its header. -/
def Carried (token : Option String) : Prop := ∀ t, token = some t → HeaderText (bearer_auth t)

def texts (pairs : List (String × String)) : List (List Char × List Char) :=
  pairs.map (fun p => (p.1.toList, p.2.toList))

/-- `RequestBuilder::query`: the pairs go behind the query that the URL has. -/
def appended (query : Option (List Char)) : List (String × String) → Option (List Char)
  | [] => query
  | pairs =>
    match query with
    | none => some (FormUrl.serialize (texts pairs))
    | some [] => some (FormUrl.serialize (texts pairs))
    | some q => some (q ++ '&' :: FormUrl.serialize (texts pairs))

/-- The request is sent to the base, and its URL read. A fragment stays with the client. Nothing is
sent where the request cannot be built. -/
def Api.received (parse : String → Option UrlPath.Target) (api : Api) (r : ApiRequest) :
    Option Incoming := do
  let sent := api.req r.method r.path
  let target ← parse sent.url
  let authorization ← authorized sent.bearer
  let body ← r.body.received
  return ⟨r.method, target.path.map UrlPath.percentDecode,
    ((appended target.query r.query).map FormUrl.parse).getD [], authorization, body⟩

theorem authorized_iff (token : Option String) :
    authorized token = some (token.map bearer_auth) ↔ Carried token := by
  cases token with
  | none => simp [authorized, Carried]
  | some t => simp [authorized, Carried, headerValue_iff]

theorem ApiCall.body_received_iff (content_hash : Json → Except String Bytes) (c : ApiCall) :
    (c.request content_hash).body.received = some (c.request content_hash).body ↔
      ∀ text, c.content_type = some text → HeaderText text := by
  cases c with
  | upload_media bytes content_type =>
    simp [request, ApiRequest.upload_media, RequestBody.received, ApiCall.content_type,
      headerValue_iff]
  | _ =>
    refine ⟨?_, fun _ => rfl⟩
    intro _ text h
    cases h

/-- A request with nothing behind the path of its URL keeps its own pairs. -/
theorem parse_appended (pairs : List (String × String)) :
    ((appended none pairs).map FormUrl.parse).getD [] =
      (texts pairs).map (fun p => (UrlPath.utf8 p.1, UrlPath.utf8 p.2)) := by
  cases pairs with
  | nil => rfl
  | cons p pairs => exact FormUrl.parse_serialize (texts (p :: pairs))

section Calls

variable (content_hash : Json → Except String Bytes) {parse : String → Option UrlPath.Target}
  {base : String}

/-- What the call is to be read as: its endpoint, its pairs and its body, with the token. -/
def ApiCall.meant (token : Option String) (c : ApiCall) : Incoming :=
  ⟨(c.request content_hash).method, c.segments.map UrlPath.utf8,
    (texts (c.request content_hash).query).map (fun p => (UrlPath.utf8 p.1, UrlPath.utf8 p.2)),
    token.map bearer_auth, (c.request content_hash).body⟩

/-- A call comes in as it is meant just where its ids, its content type and its token fit. -/
theorem ApiCall.received_iff (hparse : ReadsPaths parse (normalize_base base))
    (token : Option String) (c : ApiCall) :
    (Api.new base token).received parse (c.request content_hash) =
        some (c.meant content_hash token) ↔
      c.Fits ∧ Carried token := by
  have hne : c.segments ≠ [] := by
    obtain ⟨init, last, -, hends⟩ := c.endpoint_snoc
    simp [ApiCall.segments, hends]
  obtain ⟨set, hset, hparse⟩ := hparse
  have hurl : parse ((Api.new base token).req (c.request content_hash).method
      (c.request content_hash).path).url = some (UrlPath.read set (UrlPath.join c.segments)) := by
    rw [ApiCall.path_eq]
    exact hparse _
  have hfits : (UrlPath.read set (UrlPath.join c.segments)).path.map UrlPath.percentDecode =
      c.segments.map UrlPath.utf8 ↔
        (∀ id, Part.id id ∈ c.endpoint → '/' ∉ id.toList ∧ UrlPath.Plain id.toList) ∧
          ∀ id, c.endpoint.getLast? = some (.id id) → UrlPath.EndsVisible id.toList := by
    rw [UrlPath.read_path_iff hset hne, c.segments_plain_iff, c.segments_end_iff]
  have hbearer : ((Api.new base token).req (c.request content_hash).method
      (c.request content_hash).path).bearer = token := rfl
  unfold Api.received
  simp only [hurl, hbearer, Option.bind_eq_bind, Option.bind_some]
  constructor
  · intro h
    obtain ⟨authorization, hauth, h⟩ := Option.bind_eq_some_iff.mp h
    obtain ⟨body, hbody, h⟩ := Option.bind_eq_some_iff.mp h
    have hin := Option.some.inj h
    -- each part of what came in is what was meant
    obtain rfl : authorization = token.map bearer_auth := congrArg Incoming.authorization hin
    obtain rfl : body = (c.request content_hash).body := congrArg Incoming.body hin
    obtain ⟨hplain, hends⟩ := hfits.mp (congrArg Incoming.path hin)
    have hheader := (c.body_received_iff content_hash).mp hbody
    exact ⟨⟨hplain, hends, hheader⟩, (authorized_iff token).mp hauth⟩
  · rintro ⟨hc, htoken⟩
    have hpath := hfits.mpr ⟨hc.plain, hc.ends⟩
    rw [(authorized_iff token).mpr htoken, Option.bind_some,
      (c.body_received_iff content_hash).mpr hc.header, Option.bind_some,
      UrlPath.read_query_none hset hpath, parse_appended, hpath]
    rfl

/-! ## The call behind a request -/

/-- The package of a row that is marked so. -/
def marked (last_resort : Bool) (row : Json) : Option String :=
  match row.index "last_resort" with
  | .bool b => if b = last_resort then (row.index "package").as_str else none
  | _ => none

theorem marked_packageRow (mark : Bool) (package_b64 : String) (index : Nat) (last_resort : Bool) :
    marked mark (packageRow content_hash package_b64 index last_resort) =
      if last_resort = mark then some package_b64 else none := by
  simp [marked, packageRow, Json.index, Json.get, Json.as_str]

theorem marked_packageRows (key_packages_b64 : List String) (last_resort_b64 : Option String) :
    (packageRows content_hash key_packages_b64 last_resort_b64).filterMap (marked false) =
      key_packages_b64 ∧
      (packageRows content_hash key_packages_b64 last_resort_b64).filterMap (marked true) =
        last_resort_b64.toList := by
  have hnames : (key_packages_b64.zipIdx).map Prod.fst = key_packages_b64 := List.zipIdx_map_fst 0 _
  unfold packageRows
  simp only [List.filterMap_append, List.filterMap_map, List.mapIdx_eq_zipIdx_map,
    Function.comp_def, marked_packageRow]
  cases last_resort_b64 <;> simp [hnames]

theorem packageRows_inj {kps kps' : List String} {lr lr' : Option String}
    (h : packageRows content_hash kps lr = packageRows content_hash kps' lr') :
    kps = kps' ∧ lr = lr' := by
  obtain ⟨hpool, hlast⟩ := marked_packageRows content_hash kps lr
  obtain ⟨hpool', hlast'⟩ := marked_packageRows content_hash kps' lr'
  rw [h] at hpool hlast
  have hsame : lr.toList = lr'.toList := hlast.symm.trans hlast'
  exact ⟨hpool.symm.trans hpool', by simpa using congrArg List.head? hsame⟩

theorem create_room_inj {name name' topic topic' : Option String} {encryption encryption' : Bool}
    (h : (ApiRequest.create_room name topic encryption).body =
      (ApiRequest.create_room name' topic' encryption').body) :
    name = name' ∧ topic = topic' ∧ encryption = encryption' := by
  cases name <;> cases topic <;> cases encryption <;> cases name' <;> cases topic' <;>
    cases encryption' <;> simp_all [ApiRequest.create_room, ApiRequest.post]

theorem sync_inj {since since' : Option String} {timeout_ms timeout_ms' limit limit' : Nat}
    (h : (ApiRequest.sync since timeout_ms limit).query =
      (ApiRequest.sync since' timeout_ms' limit').query) :
    since = since' ∧ timeout_ms = timeout_ms' ∧ limit = limit' := by
  cases since <;> cases since' <;> simp_all [ApiRequest.sync]

theorem texts_inj {pairs pairs' : List (String × String)}
    (h : (texts pairs).map (fun p => (UrlPath.utf8 p.1, UrlPath.utf8 p.2)) =
      (texts pairs').map (fun p => (UrlPath.utf8 p.1, UrlPath.utf8 p.2))) : pairs = pairs' := by
  have hinj : Function.Injective (fun p : String × String =>
      (UrlPath.utf8 p.1.toList, UrlPath.utf8 p.2.toList)) := by
    rintro ⟨a, b⟩ ⟨c, d⟩ he
    rw [Prod.mk.injEq] at he
    have hname := String.toList_inj.mp (UrlPath.utf8_injective he.1)
    have hvalue := String.toList_inj.mp (UrlPath.utf8_injective he.2)
    exact Prod.ext hname hvalue
  simp only [texts, List.map_map, Function.comp_def] at h
  exact List.map_injective_iff.mpr hinj h

theorem segments_inj {c c' : ApiCall}
    (h : c.segments.map UrlPath.utf8 = c'.segments.map UrlPath.utf8) :
    c.endpoint.map Part.text = c'.endpoint.map Part.text := by
  have hinj : Function.Injective (fun text : String => UrlPath.utf8 text.toList) :=
    fun _ _ he => String.toList_inj.mp (UrlPath.utf8_injective he)
  apply List.map_injective_iff.mpr hinj
  simpa [ApiCall.segments, Function.comp_def] using h

/-- The endpoint tells the call, but for the two of a room key, which differ in their method. -/
theorem ApiCall.meant_inj {token token' : Option String} {c c' : ApiCall}
    (h : c.meant content_hash token = c'.meant content_hash token') : c = c' := by
  have htexts := segments_inj (congrArg Incoming.path h)
  have hmethod := congrArg Incoming.method h
  have hquery := texts_inj (congrArg Incoming.query h)
  have hbody := congrArg Incoming.body h
  simp only [ApiCall.meant] at hmethod hquery hbody
  clear h
  cases c <;> cases c' <;>
    simp [ApiCall.endpoint, ApiCall.endpoint.client, ApiCall.endpoint.media, Part.text] at htexts
  case sync.sync =>
    obtain ⟨rfl, rfl, rfl⟩ := sync_inj hquery
    rfl
  case create_room.create_room =>
    obtain ⟨rfl, rfl, rfl⟩ := create_room_inj hbody
    rfl
  case upload_keys.upload_keys =>
    simp [ApiCall.request, ApiRequest.upload_keys, ApiRequest.post] at hbody
    obtain ⟨⟨rfl, rfl⟩, hrows⟩ := hbody
    obtain ⟨rfl, rfl⟩ := packageRows_inj content_hash hrows
    rfl
  case messages.messages =>
    simp [ApiCall.request, ApiRequest.messages] at hquery
    rw [htexts, hquery]
  case put_room_key.get_room_key | get_room_key.put_room_key =>
    simp [ApiCall.request, ApiRequest.put_room_key, ApiRequest.put, ApiRequest.get_room_key,
      ApiRequest.get] at hmethod
  all_goals
    simp_all [ApiCall.request, ApiRequest.post, ApiRequest.put, ApiRequest.register,
      ApiRequest.login, ApiRequest.query_keys, ApiRequest.claim_keys, ApiRequest.send_to_device,
      ApiRequest.invite, ApiRequest.put_room_key, ApiRequest.send_event, ApiRequest.upload_media]

theorem bearer_auth_inj {token token' : Option String}
    (h : token.map bearer_auth = token'.map bearer_auth) : token = token' := by
  have hinj : Function.Injective bearer_auth := by
    intro t t' he
    have hchars := congrArg String.toList he
    simp only [bearer_auth, String.toList_append] at hchars
    exact String.toList_inj.mp (List.append_cancel_left hchars)
  exact Option.map_injective hinj h

/-- For each call of the API, whatever its arguments: the request reaches the endpoint, with the
very ids, pairs, body and token, just where its ids have no slash and nothing that a URL parser
takes for something else, and its content type and the token can stand in a header. Of the calls
that do, no two requests are read alike: the server knows the call, its arguments and the
session. -/
theorem requests_reach_their_endpoints (hparse : ReadsPaths parse (normalize_base base))
    (token : Option String) (c : ApiCall) :
    ((Api.new base token).received parse (c.request content_hash) =
        some (c.meant content_hash token) ↔ c.Fits ∧ Carried token) ∧
      ∀ token' c', c.Fits → Carried token → c'.Fits → Carried token' →
        (Api.new base token).received parse (c.request content_hash) =
          (Api.new base token').received parse (c'.request content_hash) →
        c = c' ∧ token = token' := by
  have hreach := fun token c => ApiCall.received_iff content_hash hparse token c
  refine ⟨hreach token c, ?_⟩
  intro token' c' hc htoken hc' htoken' h
  rw [(hreach token c).mpr ⟨hc, htoken⟩, (hreach token' c').mpr ⟨hc', htoken'⟩] at h
  have hmeant := Option.some.inj h
  exact ⟨ApiCall.meant_inj content_hash hmeant,
    bearer_auth_inj (congrArg Incoming.authorization hmeant)⟩

end Calls

/-- A room that is typed so to be joined, and the session is gone. -/
theorem requests_reach_their_endpoints_logout :
    (Api.new "https://pigeon.example/" (some "token")).received exampleParse
        ((ApiCall.join_room "../logout#").request (fun _ => .error "")) =
      some (ApiCall.logout.meant (fun _ => .error "") (some "token")) ∧
    (Api.new "https://pigeon.example/" (some "token")).received exampleParse
        ((ApiCall.join_room "../logout#").request (fun _ => .error "")) ≠
      some ((ApiCall.join_room "../logout#").meant (fun _ => .error "") (some "token")) := by
  refine ⟨rfl, ?_⟩
  intro h
  have hfits := (requests_reach_their_endpoints (fun _ => .error "") exampleParse_reads
    (some "token") (.join_room "../logout#")).1.mp h
  have hplain := hfits.1.plain "../logout#" (by simp [ApiCall.endpoint, ApiCall.endpoint.client])
  exact absurd hplain.1 (by decide)

end PigeonMobile
