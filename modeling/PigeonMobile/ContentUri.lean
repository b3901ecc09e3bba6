-- Content URIs (`media.rs`) and the download that one leads to (`api.rs`, `rooms.rs`): the URI
-- comes from another user, and its two parts are put into a path as they are. `parse` stands for
-- the URL parser of the HTTP client.
import PigeonMobile.Http
import PigeonMobile.Session
import PigeonMobile.Timeline
import PigeonMobile.UrlPath

namespace PigeonMobile

/-! ## The URI -/

def SCHEME : String := "pigeon://"

/-- What follows a beginning. -/
def stripped (start : List Char) (s : List Char) : Option (List Char) :=
  if start.isPrefixOf s then some (s.drop start.length) else none

def split_once (sep : Char) : List Char → Option (List Char × List Char)
  | [] => none
  | c :: s =>
    if c = sep then some ([], s)
    else match split_once sep s with
      | none => none
      | some (before, after) => some (c :: before, after)

/-- The server and the media id of a URI. -/
def parse_content_uri (uri : String) : Except CoreError (String × String) :=
  match stripped SCHEME.toList uri.toList with
  | none => .error (.Protocol ("not a pigeon:// content URI: " ++ uri))
  | some rest =>
    match split_once '/' rest with
    | none => .error (.Protocol ("content URI missing media id: " ++ uri))
    | some (server, media_id) =>
      if server = [] ∨ media_id = [] ∨ '/' ∈ media_id then
        .error (.Protocol ("malformed content URI: " ++ uri))
      else .ok (String.ofList server, String.ofList media_id)

/-! ## The download -/

structure HttpRequest where
  method : String
  url : String
  bearer : Option String

/-- What comes back of a download: the body is read as JSON where the status is an error, else to
its last byte. -/
inductive MediaOutcome where
  | failed (reason : String)
  | response (status : Nat) (body : Body) (bytes : Except String (List UInt8))

namespace Api

def join_url (base path : String) : String := base ++ path

/-- A request with the base URL before its path and the bearer token attached. -/
def req (api : Api) (method path : String) : HttpRequest :=
  ⟨method, join_url api.base path, api.token⟩

def download_request (api : Api) (server media_id : String) : HttpRequest :=
  api.req "GET" ("/_pigeon/media/v1/download/" ++ server ++ "/" ++ media_id)

def download_media (api : Api) (http : HttpRequest → MediaOutcome) (server media_id : String) :
    Except ApiError (List UInt8) :=
  match http (api.download_request server media_id) with
  | .failed reason => .error (.Network reason)
  | .response status body bytes =>
    if is_success status then
      match bytes with
      | .ok bytes => .ok bytes
      | .error reason => .error (.Network reason)
    else .error (parse_error status body)

end Api

/-- `PigeonClient::download_media`: the requests that it sends, and its result. -/
def download_media (api : Api) (http : HttpRequest → MediaOutcome) (uri : String) :
    List HttpRequest × Except CoreError (List UInt8) :=
  match parse_content_uri uri with
  | .error e => ([], .error e)
  | .ok (server, media_id) =>
    ([api.download_request server media_id],
      (api.download_media http server media_id).mapError ApiError.toCore)

/-- `PigeonClient::download_image`. `decrypt_media` is that of the session, where there is one. -/
def download_image (api : Api) (http : HttpRequest → MediaOutcome)
    (decrypt_media : Except CoreError (String → List UInt8 → Except CoreError (List UInt8)))
    (image : ImageContent) : List HttpRequest × Except CoreError (List UInt8) :=
  let sent := download_media api http image.uri
  (sent.1, do
    let bytes ← sent.2
    match image.key with
    | some key =>
      let decrypt ← decrypt_media
      decrypt key bytes
    | none => return bytes)

/-! ## What is accepted -/

/-- The text is the content URI of the two parts. -/
structure IsContentUri (uri server media_id : String) : Prop where
  text : uri = "pigeon://" ++ server ++ "/" ++ media_id
  server_ne : server ≠ ""
  media_id_ne : media_id ≠ ""
  server_slash : '/' ∉ server.toList
  media_id_slash : '/' ∉ media_id.toList

theorem stripped_iff {start s rest : List Char} :
    stripped start s = some rest ↔ s = start ++ rest := by
  unfold stripped
  constructor
  · intro h
    split at h
    · next hstart =>
      cases h
      obtain ⟨rest, rfl⟩ := List.isPrefixOf_iff_prefix.mp hstart
      rw [List.drop_left]
    · cases h
  · rintro rfl
    rw [if_pos (List.isPrefixOf_iff_prefix.mpr (List.prefix_append _ _)), List.drop_left]

theorem split_once_iff {sep : Char} {s before after : List Char} :
    split_once sep s = some (before, after) ↔ s = before ++ sep :: after ∧ sep ∉ before := by
  induction s generalizing before with
  | nil => simp [split_once]
  | cons c s ih =>
    unfold split_once
    by_cases hc : c = sep
    · rw [if_pos hc]
      constructor
      · intro h
        cases h
        exact ⟨by rw [hc]; rfl, List.not_mem_nil⟩
      · rintro ⟨hs, hnot⟩
        cases before with
        | nil =>
          cases hs
          rfl
        | cons b before =>
          injection hs with hb _
          exact absurd (hc ▸ hb ▸ List.mem_cons_self) hnot
    · rw [if_neg hc]
      constructor
      · intro h
        split at h
        · cases h
        · next b a hb =>
          cases h
          obtain ⟨hs, hnot⟩ := ih.mp hb
          refine ⟨by rw [hs]; rfl, ?_⟩
          rw [List.mem_cons, not_or]
          exact ⟨fun he => hc he.symm, hnot⟩
      · rintro ⟨hs, hnot⟩
        cases before with
        | nil =>
          injection hs with hsep _
          exact absurd hsep hc
        | cons b before =>
          injection hs with hb hs
          subst hb
          rw [ih.mpr ⟨hs, fun hin => hnot (List.mem_cons_of_mem _ hin)⟩]

/-- Exactly the content URIs are accepted, with their two parts. -/
theorem parse_content_uri_iff (uri server media_id : String) :
    parse_content_uri uri = .ok (server, media_id) ↔ IsContentUri uri server media_id := by
  constructor
  · intro h
    unfold parse_content_uri at h
    cases hstripped : stripped SCHEME.toList uri.toList with
    | none =>
      rw [hstripped] at h
      cases h
    | some rest =>
      rw [hstripped] at h
      cases hsplit : split_once '/' rest with
      | none =>
        simp only [hsplit] at h
        cases h
      | some parts =>
        obtain ⟨before, after⟩ := parts
        simp only [hsplit] at h
        split at h
        · cases h
        · next hwell =>
          cases h
          rw [not_or, not_or] at hwell
          obtain ⟨hs, hnot⟩ := split_once_iff.mp hsplit
          have htext := stripped_iff.mp hstripped
          rw [hs] at htext
          refine ⟨?_, ?_, ?_, ?_, ?_⟩
          · rw [← String.toList_inj, htext]
            simp [SCHEME]
          · exact fun he => hwell.1 (by simpa using congrArg String.toList he)
          · exact fun he => hwell.2.1 (by simpa using congrArg String.toList he)
          · rw [String.toList_ofList]
            exact hnot
          · rw [String.toList_ofList]
            exact hwell.2.2
  · rintro ⟨rfl, hserver, hmedia, hslash, hmediaSlash⟩
    have hstripped : stripped SCHEME.toList ("pigeon://" ++ server ++ "/" ++ media_id).toList =
        some (server.toList ++ '/' :: media_id.toList) := by
      rw [stripped_iff]
      simp [SCHEME]
    have hsplit : split_once '/' (server.toList ++ '/' :: media_id.toList) =
        some (server.toList, media_id.toList) := split_once_iff.mpr ⟨rfl, hslash⟩
    unfold parse_content_uri
    simp only [hstripped, hsplit]
    rw [if_neg]
    · rw [String.ofList_toList, String.ofList_toList]
    · rintro (h | h | h)
      · exact hserver (String.toList_eq_nil_iff.mp h)
      · exact hmedia (String.toList_eq_nil_iff.mp h)
      · exact hmediaSlash h

/-! ## Where the request goes -/

/-- What is joined to the base is read as a path: the base is a scheme and a host. Which characters
are escaped on the way differs from parser to parser, but none touches an escape. -/
def ReadsPaths (parse : String → Option UrlPath.Target) (base : String) : Prop :=
  ∃ set, UrlPath.KeepsEscapes set ∧ ∀ path : List Char,
    parse (base ++ String.ofList ('/' :: path)) = some (UrlPath.read set path)

def downloadPath (server media_id : String) : List (List Char) :=
  ["_pigeon".toList, "media".toList, "v1".toList, "download".toList, server.toList, media_id.toList]

/-- The request asks for the media, once the server has decoded its path. -/
def AsksFor (parse : String → Option UrlPath.Target) (r : HttpRequest)
    (server media_id : String) : Prop :=
  ∃ t, parse r.url = some t ∧
    t.path.map UrlPath.percentDecode = (downloadPath server media_id).map UrlPath.utf8 ∧
    t.query = none ∧ t.fragment = none

/-- No rule of the parser touches a part, and no space is cut off at the end. -/
structure Harmless (server media_id : String) : Prop where
  server_plain : UrlPath.Plain server.toList
  media_id_plain : UrlPath.Plain media_id.toList
  ends : UrlPath.EndsVisible media_id.toList

theorem download_url (api : Api) (server media_id : String) :
    (api.download_request server media_id).url =
      api.base ++ String.ofList ('/' :: UrlPath.join (downloadPath server media_id)) := by
  rw [← String.toList_inj]
  simp [Api.download_request, Api.req, Api.join_url, UrlPath.join, downloadPath,
    List.intercalate_cons_cons]

theorem ends_downloadPath {server media_id : String} (h : media_id ≠ "") :
    UrlPath.EndsVisible (UrlPath.join (downloadPath server media_id)) ↔
      UrlPath.EndsVisible media_id.toList := by
  have hne : media_id.toList ≠ [] := fun he => h (String.toList_eq_nil_iff.mp he)
  have hjoin : UrlPath.join (downloadPath server media_id) =
      ("_pigeon/media/v1/download/".toList ++ server.toList ++ ['/']) ++ media_id.toList := by
    simp [UrlPath.join, downloadPath, List.intercalate_cons_cons]
  unfold UrlPath.EndsVisible
  rw [hjoin, List.getLast?_append_of_ne_nil _ hne]

theorem fixed_plain : ∀ s ∈ ["_pigeon".toList, "media".toList, "v1".toList, "download".toList],
    UrlPath.Plain s := by
  intro s hs
  have hpercent : ∀ s ∈ ["_pigeon".toList, "media".toList, "v1".toList, "download".toList],
      '%' ∉ s := by decide
  refine ⟨?_, ?_, ?_, ?_, ?_, ?_, ?_, ?_, fun h => hpercent s hs h.percent_mem⟩ <;>
    revert s <;> decide

theorem mem_downloadPath {server media_id : String} {s : List Char}
    (h : s ∈ downloadPath server media_id) :
    s ∈ ["_pigeon".toList, "media".toList, "v1".toList, "download".toList] ∨
      s = server.toList ∨ s = media_id.toList := by
  have hpath : downloadPath server media_id = ["_pigeon".toList, "media".toList, "v1".toList,
    "download".toList] ++ [server.toList, media_id.toList] := rfl
  rw [hpath, List.mem_append, List.mem_pair] at h
  exact h

/-- The request asks for the media just where both parts are harmless. -/
theorem asksFor_iff {parse : String → Option UrlPath.Target} {api : Api}
    (hparse : ReadsPaths parse api.base) {uri server media_id : String}
    (huri : IsContentUri uri server media_id) :
    AsksFor parse (api.download_request server media_id) server media_id ↔
      Harmless server media_id := by
  have hslash : ∀ s ∈ downloadPath server media_id, '/' ∉ s := by
    have hfixed : ∀ s ∈ ["_pigeon".toList, "media".toList, "v1".toList, "download".toList],
        '/' ∉ s := by decide
    intro s hs
    rcases mem_downloadPath hs with hs | rfl | rfl
    · exact hfixed s hs
    · exact huri.server_slash
    · exact huri.media_id_slash
  have hne : downloadPath server media_id ≠ [] := List.cons_ne_nil _ _
  obtain ⟨set, hset, hparse⟩ := hparse
  have hread := UrlPath.read_decodes_iff hset hne hslash
  have hurl : parse (api.download_request server media_id).url =
      some (UrlPath.read set (UrlPath.join (downloadPath server media_id))) := by
    rw [download_url]
    exact hparse _
  have hasks : AsksFor parse (api.download_request server media_id) server media_id ↔
      (UrlPath.read set (UrlPath.join (downloadPath server media_id))).path.map
        UrlPath.percentDecode =
          (downloadPath server media_id).map UrlPath.utf8 ∧
        (UrlPath.read set (UrlPath.join (downloadPath server media_id))).query = none ∧
        (UrlPath.read set (UrlPath.join (downloadPath server media_id))).fragment = none := by
    constructor
    · rintro ⟨t, ht, h⟩
      rw [hurl, Option.some.injEq] at ht
      rw [← ht] at h
      exact h
    · exact fun h => ⟨_, hurl, h⟩
  rw [hasks, hread, ends_downloadPath huri.media_id_ne]
  constructor
  · rintro ⟨hplain, hends⟩
    exact ⟨hplain _ (by simp [downloadPath]), hplain _ (by simp [downloadPath]), hends⟩
  · intro h
    refine ⟨?_, h.ends⟩
    intro s hs
    rcases mem_downloadPath hs with hs | rfl | rfl
    · exact fixed_plain s hs
    · exact h.server_plain
    · exact h.media_id_plain

/-- An image is asked for as its media is. -/
theorem download_image_requests (api : Api) (http : HttpRequest → MediaOutcome)
    (decrypt_media : Except CoreError (String → List UInt8 → Except CoreError (List UInt8)))
    (image : ImageContent) : (download_image api http decrypt_media image).1 =
      (download_media api http image.uri).1 := rfl

/-- Exactly the content URIs are accepted, nothing is sent for another text, and for a content
URI one request with the token, which asks for its media just where both parts are harmless. -/
theorem content_uri_iff (parse : String → Option UrlPath.Target) (base : String)
    (token : Option String) (hparse : ReadsPaths parse (normalize_base base))
    (http : HttpRequest → MediaOutcome) (uri : String) :
    (∀ server media_id, parse_content_uri uri = .ok (server, media_id) ↔
      IsContentUri uri server media_id) ∧
    (∀ e, parse_content_uri uri = .error e →
      (download_media (Api.new base token) http uri).1 = []) ∧
    ∀ server media_id, parse_content_uri uri = .ok (server, media_id) →
      ∃ r, (download_media (Api.new base token) http uri).1 = [r] ∧ r.method = "GET" ∧
        r.bearer = token ∧ (AsksFor parse r server media_id ↔ Harmless server media_id) := by
  refine ⟨fun server media_id => parse_content_uri_iff uri server media_id, ?_, ?_⟩
  · intro e he
    unfold download_media
    rw [he]
  · intro server media_id hok
    refine ⟨(Api.new base token).download_request server media_id, ?_, rfl, rfl, ?_⟩
    · unfold download_media
      rw [hok]
    · have hreads : ReadsPaths parse (Api.new base token).base := hparse
      exact asksFor_iff hreads ((parse_content_uri_iff uri server media_id).mp hok)

/-- A parser that knows one base. -/
def exampleParse (url : String) : Option UrlPath.Target :=
  some (UrlPath.read UrlPath.pathSet (url.toList.drop ("https://pigeon.example/".toList.length)))

theorem exampleParse_reads :
    ReadsPaths exampleParse (normalize_base "https://pigeon.example/") := by
  refine ⟨UrlPath.pathSet, UrlPath.pathSet_keeps, ?_⟩
  intro path
  have hbase : normalize_base "https://pigeon.example/" = "https://pigeon.example" := by decide
  unfold exampleParse
  rw [hbase]
  simp

/-- The media of a server that names it as it should. -/
theorem content_uri_iff_plain : ReadsPaths exampleParse (normalize_base "https://pigeon.example/") ∧
    ∃ r, (download_media (Api.new "https://pigeon.example/" (some "token")) (fun _ => .failed "")
        "pigeon://pigeon.example/AbC123").1 = [r] ∧ r.method = "GET" ∧ r.bearer = some "token" ∧
      AsksFor exampleParse r "pigeon.example" "AbC123" := by
  refine ⟨exampleParse_reads, ?_⟩
  have hok : parse_content_uri "pigeon://pigeon.example/AbC123" =
      .ok ("pigeon.example", "AbC123") :=
    (parse_content_uri_iff _ _ _).mpr
      ⟨by decide, by decide, by decide, by decide, by decide⟩
  obtain ⟨r, hr, hmethod, hbearer, hiff⟩ := (content_uri_iff exampleParse "https://pigeon.example/"
    (some "token") exampleParse_reads (fun _ => .failed "") _).2.2 _ _ hok
  have hpercent : ∀ s ∈ ["pigeon.example".toList, "AbC123".toList], '%' ∉ s := by decide
  have hplain : ∀ s ∈ ["pigeon.example".toList, "AbC123".toList], UrlPath.Plain s := by
    intro s hs
    refine ⟨?_, ?_, ?_, ?_, ?_, ?_, ?_, ?_, fun h => hpercent s hs h.percent_mem⟩ <;>
      revert s <;> decide
  refine ⟨r, hr, hmethod, hbearer, hiff.mpr ⟨hplain _ (by decide), hplain _ (by decide), ?_⟩⟩
  intro c hc
  cases hc
  decide

/-- A media id that climbs out of the path: a backslash is read as a slash. -/
def climbing : String := "..\\..\\..\\..\\client\\v1\\whoami"

theorem climbing_accepted : parse_content_uri ("pigeon://x/" ++ climbing) = .ok ("x", climbing) :=
  (parse_content_uri_iff _ _ _).mpr ⟨rfl, by decide, by decide, by decide, by decide⟩

/-- Its request goes to another endpoint, with the token. -/
theorem a_media_id_climbs : ¬ ∀ (parse : String → Option UrlPath.Target) (base : String)
    (token : Option String) (http : HttpRequest → MediaOutcome) (uri server media_id : String),
    ReadsPaths parse (normalize_base base) → parse_content_uri uri = .ok (server, media_id) →
    ∀ r ∈ (download_media (Api.new base token) http uri).1, AsksFor parse r server media_id := by
  intro h
  have hasks := h exampleParse "https://pigeon.example/" (some "token") (fun _ => .failed "")
    ("pigeon://x/" ++ climbing) "x" climbing exampleParse_reads climbing_accepted
    ((Api.new "https://pigeon.example/" (some "token")).download_request "x" climbing) (by
      unfold download_media
      rw [climbing_accepted]
      exact List.mem_singleton.mpr rfl)
  have hharmless := (asksFor_iff exampleParse_reads
    ((parse_content_uri_iff _ _ _).mp climbing_accepted)).mp hasks
  exact absurd hharmless.media_id_plain.noBackslash (by decide)

example : (UrlPath.read UrlPath.pathSet (UrlPath.join (downloadPath "x" climbing))).path =
    ["_pigeon".toList, "client".toList, "v1".toList, "whoami".toList] := by decide

end PigeonMobile
