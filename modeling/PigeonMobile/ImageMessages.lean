-- Texts and images in one field (`TimelineEvent::from`, `parse_image` and `send_image` in
-- `rooms.rs`). The reader inverts both writers of images. It takes a text for an image where the
-- text is the JSON of one.
import PigeonMobile.SentContents

namespace PigeonMobile

variable {D : Type} {X : PigeonCrypto D} {from_str : String → Option Json}

/-! ## The two contents of an image -/

theorem as_u64_num {n : Nat} (h : n < 2 ^ 64) : (Json.num n).as_u64 = some n := by
  unfold Json.as_u64
  simp only
  rw [if_pos (by omega)]
  simp

theorem parse_plainImage {caption uri mimetype : String} {width height size : Nat}
    (hw : width < 2 ^ 32) (hh : height < 2 ^ 32) (hs : size < 2 ^ 64) :
    parse_image (plainImage caption uri mimetype width height size) =
      some ⟨uri, mimetype, width, height, size, none⟩ := by
  have hw64 := as_u64_num (n := width) (by omega)
  have hh64 := as_u64_num (n := height) (by omega)
  unfold parse_image plainImage
  simp [Json.get, Json.as_str, hw64, hh64, as_u64_num hs]
  omega

theorem parse_encryptedImage {caption uri key mimetype : String} {width height size : Nat}
    (hw : width < 2 ^ 32) (hh : height < 2 ^ 32) (hs : size < 2 ^ 64) :
    parse_image (encryptedImage caption uri key mimetype width height size) =
      some ⟨uri, mimetype, width, height, size, some key⟩ := by
  have hw64 := as_u64_num (n := width) (by omega)
  have hh64 := as_u64_num (n := height) (by omega)
  -- the file object is the holder of the URI
  have hfile : ((encryptedImage caption uri key mimetype width height size).get "file").filter
      Json.is_object = some (.obj [("url", .str uri), ("key", .str key),
        ("mimetype", .str mimetype),
        ("w", .num width), ("h", .num height), ("size", .num size)]) := rfl
  have hinfo : (encryptedImage caption uri key mimetype width height size).get "info" = none := rfl
  unfold parse_image
  simp only [hfile, hinfo, Option.getD_some, Option.bind_some, Option.bind_none, Option.none_or]
  simp [Json.get, Json.as_str, hw64, hh64, as_u64_num hs]
  omega

theorem isImage_plainImage (caption uri mimetype : String) (width height size : Nat) :
    isImage (plainImage caption uri mimetype width height size) = true := by
  simp [isImage, plainImage, Json.get, Json.as_str]

theorem isImage_encryptedImage (caption uri key mimetype : String) (width height size : Nat) :
    isImage (encryptedImage caption uri key mimetype width height size) = true := by
  simp [isImage, encryptedImage, Json.get, Json.as_str]

/-- An image in the clear, as it is rendered. -/
theorem of_plainImage {ev : StoredEvent} {caption uri mimetype : String} {width height size : Nat}
    (htype : ev.event_type = "p.room.message")
    (hcontent : ev.content = plainImage caption uri mimetype width height size)
    (hw : width < 2 ^ 32) (hh : height < 2 ^ 32) (hs : size < 2 ^ 64) :
    (TimelineEvent.of from_str ev).body = some caption ∧
      (TimelineEvent.of from_str ev).image = some ⟨uri, mimetype, width, height, size, none⟩ := by
  have himage := isImage_plainImage caption uri mimetype width height size
  refine ⟨?_, ?_⟩
  · simp [TimelineEvent.of, htype, hcontent, plainImage, Json.get, Json.as_str]
  · simp only [TimelineEvent.of, htype, hcontent, himage, true_and, if_true]
    exact parse_plainImage hw hh hs

/-- The plaintext of an encrypted event that is the JSON of an image. -/
theorem of_hidden {ev : StoredEvent} {plaintext : String} {v : Json}
    (htype : ev.event_type = "p.room.encrypted") (hdecrypted : ev.decrypted = some plaintext)
    (hread : from_str plaintext = some v) (himage : isImage v = true) :
    (TimelineEvent.of from_str ev).body = (v.get "body").bind Json.as_str ∧
      (TimelineEvent.of from_str ev).image = parse_image v := by
  have hhidden : decrypted_image from_str ev = some v := by
    unfold decrypted_image
    rw [if_pos htype, hdecrypted, Option.bind_some, hread, Option.filter_some, if_pos himage]
  simp [TimelineEvent.of, htype, hhidden]

/-- A plaintext that is not. -/
theorem of_text {ev : StoredEvent} {plaintext : String} (htype : ev.event_type = "p.room.encrypted")
    (hdecrypted : ev.decrypted = some plaintext)
    (hread : ∀ v, from_str plaintext = some v → isImage v = false) :
    (TimelineEvent.of from_str ev).body = some plaintext ∧
      (TimelineEvent.of from_str ev).image = none := by
  have hhidden : decrypted_image from_str ev = none := by
    unfold decrypted_image
    rw [if_pos htype, hdecrypted, Option.bind_some]
    cases hv : from_str plaintext with
    | none => rfl
    | some v => rw [Option.filter_some, if_neg (by simp [hread v hv])]
  simp [TimelineEvent.of, htype, hhidden, hdecrypted]

/-! ## Images come back as they were sent -/

/-- The image that a recipient is to see. -/
def Picture.attachment (i : Picture) (uri : String) (key : Option String) : ImageContent :=
  ⟨uri, i.mimetype, i.width, i.height, i.bytes.length, key⟩

/-- An entry that shows the caption and the attachment. -/
def ShowsImage (from_str : String → Option Json) (st : Store) (event_id caption : String)
    (image : ImageContent) : Prop :=
  ∃ e, EntryOf from_str st event_id e ∧ e.body = some caption ∧ e.image = some image

/-- Both contents of an image come back as they were made, for all their values: what is sent in
the clear, and what is read of the ciphertext where the JSON reader gives back the content that
was written. And whatever `send_image` sends, in any run, is one of the two contents, with the URI
of an upload and, if it is encrypted, the key that its bytes were encrypted under. -/
theorem images_come_back_as_sent (X : PigeonCrypto D) (from_str : String → Option Json)
    (hfaithful : Faithful X) (i : Picture) (room_id : String) :
    (∀ uri j ev st st', Received j ev st st' → ev.event_type = "p.room.message" →
      ev.content = i.plain uri →
      ShowsImage from_str st' ev.event_id i.caption (i.attachment uri none)) ∧
    (∀ uri key ct plaintext j ev st st', Received j ev st st' → ev.event_type = "p.room.encrypted" →
      ev.content = encryptedContent ct → SealedAs X room_id (i.hidden uri key).to_string ct →
      OpenedAs X room_id ct plaintext →
      from_str (i.hidden uri key).to_string = some (i.hidden uri key) →
      ShowsImage from_str (st'.set_decrypted ev.event_id plaintext) ev.event_id i.caption
        (i.attachment uri (some key))) ∧
    ∀ (others : Client D → Client D → Prop) (c c' s : Client D) (es : List (Call D))
      (p' : Code (Except CoreError Unit)) (room typ txn_id : String) (content : Json)
      (r : Except ApiError String),
      Prog.Runs (Client.Exec X) others
        (send_image room_id i.bytes i.mimetype i.width i.height i.caption) c es p' c' →
      ⟨s, .api_send_event room typ txn_id content, r⟩ ∈ es →
      ImageSent X room_id i es room typ content := by
  refine ⟨?_, ?_, ?_⟩
  · intro uri j ev st st' hreceived htype hcontent
    refine ⟨_, hreceived.entry from_str, ?_⟩
    exact of_plainImage (show (Store.asShown (Store.rowOf ev) ev).event_type = _ from htype)
      hcontent i.width_lt i.height_lt i.size_lt
  · intro uri key ct plaintext j ev st st' hreceived htype _ hsealed hopened hread
    obtain rfl := hfaithful room_id _ ct plaintext hsealed hopened
    refine ⟨_, hreceived.decrypted_entry from_str _, ?_⟩
    obtain ⟨hbody, himage⟩ := @of_hidden from_str
      (Store.asShown (Store.withPlaintext (i.hidden uri key).to_string (Store.rowOf ev)) ev) _ _
      htype rfl hread (isImage_encryptedImage _ _ _ _ _ _ _)
    refine ⟨?_, ?_⟩
    · rw [hbody]
      rfl
    · rw [himage]
      exact parse_encryptedImage i.width_lt i.height_lt i.size_lt
  · intro others c c' s es p' room typ txn_id content r hr hsent
    exact send_image_sends_its_content hr hsent

/-! ## Texts -/

/-- The content went out for a text that was queued: `send_message` puts the text in the queue,
and the flush sends what is queued. -/
structure SentText (X : PigeonCrypto D) (room_id text : String) (content : Json) : Prop where
  sent : ∃ (st st₁ : Store) (sender : String) (ids : SendIds) (now : Int) (send : PendingSend)
    (others : Client D → Client D → Prop) (c c' s : Client D) (es : List (Call D))
    (p' : Code (Except CoreError Flushed)) (txn_id : String) (r : Except ApiError String),
    st.queue_send room_id sender text ids now = .ok (send.txn_id, st₁) ∧
    send ∈ st₁.pending_sends_list ∧
    Prog.Runs (Client.Exec X) others (flush_one send) c es p' c' ∧
    ⟨s, .api_send_event room_id "p.room.encrypted" txn_id content, r⟩ ∈ es

/-- It is the ciphertext of the text. -/
theorem SentText.sealed {room_id text : String} {content : Json}
    (h : SentText X room_id text content) :
    ∃ ct, content = encryptedContent ct ∧ SealedAs X room_id text ct := by
  obtain ⟨st, st₁, sender, ids, now, send, others, c, c', s, es, p', txn_id, r, hqueue, hmem, hr,
    hsent⟩ := h.sent
  obtain ⟨p, hp, rfl⟩ := (st₁.mem_pending_sends_list).mp hmem
  -- the row of the transaction is the one that was queued
  obtain ⟨htxn, -⟩ := st.queue_send_ok hqueue
  obtain ⟨-, -, -, -, -, -, hfind⟩ := st.find_queue_send hqueue
  have hrow := Table.mem_rows_iff.mp hp
  simp only at htxn
  rw [htxn, hfind, if_pos rfl] at hrow
  have hbody : p.room_id = room_id ∧ p.body = text := by
    rw [← Option.some.inj hrow]
    exact ⟨rfl, rfl⟩
  obtain ⟨-, ct, hct, hsealed⟩ := flush_one_sends_its_body hr hsent
  simp only at hsealed
  rw [hbody.1, hbody.2] at hsealed
  exact ⟨ct, hct, hsealed⟩

/-- A text inside a JSON text is not the whole of it. -/
def Nests (from_str : String → Option Json) : Prop :=
  ∀ text v inner, from_str text = some v → v.get "body" = some (.str inner) → inner ≠ text

/-- The recipient of a text that went out encrypted sees the text, and no image, just where the
text is not itself the JSON of an image. It sees no image just where the text is no JSON of an
image that has a URI. -/
theorem a_text_is_shown_iff (X : PigeonCrypto D) (from_str : String → Option Json)
    (hfaithful : Faithful X) (hnests : Nests from_str) (room_id text ct plaintext : String)
    (j : Json) (ev : StoredEvent) (st st' : Store)
    (hreceived : Received j ev st st') (hsent : SentText X room_id text ev.content)
    (htype : ev.event_type = "p.room.encrypted") (hcontent : ev.content = encryptedContent ct)
    (hopened : OpenedAs X room_id ct plaintext) :
    ∃ e, EntryOf from_str (st'.set_decrypted ev.event_id plaintext) ev.event_id e ∧
      (e.body = some text ∧ e.image = none ↔ ∀ v, from_str text = some v → isImage v = false) ∧
      (e.image = none ↔ ∀ v, from_str text = some v → isImage v = true → parse_image v = none) := by
  obtain ⟨ct', hct, hsealed⟩ := hsent.sealed
  rw [hcontent] at hct
  have hsame : ct = ct' := by
    simp only [encryptedContent, Json.obj.injEq, List.cons.injEq, Prod.mk.injEq, Json.str.injEq]
      at hct
    exact hct.2.1.2
  rw [← hsame] at hsealed
  obtain rfl := hfaithful room_id text ct plaintext hsealed hopened
  refine ⟨_, hreceived.decrypted_entry from_str _, ?_⟩
  by_cases himage : ∃ v, from_str plaintext = some v ∧ isImage v = true
  · obtain ⟨v, hv, himage⟩ := himage
    obtain ⟨hbody, hshown⟩ := @of_hidden from_str
      (Store.asShown (Store.withPlaintext plaintext (Store.rowOf ev)) ev) _ _ htype rfl hv himage
    rw [hbody, hshown]
    refine ⟨?_, ?_⟩
    · constructor
      · rintro ⟨hinner, -⟩
        exfalso
        obtain ⟨b, hb, hstr⟩ := Option.bind_eq_some_iff.mp hinner
        have hb' : b = .str plaintext := by
          cases b <;> simp_all [Json.as_str]
        exact hnests plaintext v plaintext hv (hb' ▸ hb) rfl
      · intro h
        rw [h v hv] at himage
        cases himage
    · constructor
      · intro hnone v' hv' _
        rw [hv] at hv'
        cases hv'
        exact hnone
      · intro h
        exact h v hv himage
  · have htext : ∀ v, from_str plaintext = some v → isImage v = false := by
      intro v hv
      rw [Bool.eq_false_iff]
      exact fun h => himage ⟨v, hv, h⟩
    obtain ⟨hbody, hshown⟩ := @of_text from_str
      (Store.asShown (Store.withPlaintext plaintext (Store.rowOf ev)) ev) _ htype rfl htext
    rw [hbody, hshown]
    refine ⟨iff_of_true ⟨rfl, rfl⟩ htext, iff_of_true rfl ?_⟩
    intro v hv h
    rw [htext v hv] at h
    cases h

/-! ## One text and one image, sent and read -/

theorem epochCrypto_faithful : Faithful epochCrypto := by
  rintro room_id text ct read ⟨d, ks, fault, d', ks', hsealed⟩ ⟨r, ksr, faultr, r', ksr', hopened⟩
  have hct : ∃ e, ct = epochText e text := by
    unfold E2ee.encrypt E2ee.onGroup E2ee.mutate at hsealed
    simp only [epochCrypto] at hsealed
    cases he : d.epoch room_id with
    | none => cases fault <;> simp [he] at hsealed
    | some e =>
      refine ⟨e, ?_⟩
      simp only [he, Option.isSome_some, if_true] at hsealed
      split at hsealed
      · cases hsealed
      · split at hsealed <;> cases hsealed
        rfl
  obtain ⟨e, rfl⟩ := hct
  unfold E2ee.decrypt E2ee.onGroup E2ee.mutate at hopened
  simp only [epochCrypto, epochOf_epochText, textOf_epochText] at hopened
  by_cases he : r.epoch room_id = some e
  · simp only [he, Option.isSome_some, if_true] at hopened
    split at hopened
    · next hgroup =>
      split at hgroup
      · cases hgroup
      · split at hgroup <;> cases hgroup
        cases hopened
        rfl
    · cases hopened
    · cases hopened
  · simp only [he, if_false] at hopened
    split at hopened
    · next hgroup =>
      split at hgroup
      · cases hgroup
      · split at hgroup <;> cases hgroup
    · cases hopened
    · cases hopened

/-- The client of `!room` after a message was queued. -/
def typedClient (text : String) : Client Copies :=
  (Client.local_ epochCrypto (.queue_send "!room" "@ann:pigeon.example" text) memberClient).2

/-- The event that the server makes of its ciphertext. -/
def typedEvent (text : String) : Json :=
  .obj [("event_id", .str "$typed"), ("room_id", .str "!room"),
    ("sender", .str "@ann:pigeon.example"), ("type", .str "p.room.encrypted"),
    ("origin_server_ts", .num 8), ("depth", .num 3),
    ("content", encryptedContent (epochText 0 text))]

def typedStored (text : String) : StoredEvent :=
  { event_id := "$typed", room_id := "!room", sender := "@ann:pigeon.example"
    event_type := "p.room.encrypted", state_key := none, origin_server_ts := 8, depth := 3
    content := encryptedContent (epochText 0 text), payload := typedEvent text
    send_state := .Confirmed, decrypted := none, decrypt_failed := false }

theorem typed_sent (text : String) :
    SentText epochCrypto "!room" text (typedStored text).content := by
  have hexec : ∀ op c, Client.Exec epochCrypto op c (Client.local_ epochCrypto op c).1
      (Client.local_ epochCrypto op c).2 := fun op c => ⟨Client.calm op, rfl⟩
  refine ⟨memberClient.store, (typedClient text).store, "@ann:pigeon.example", next_send_ids 0 0, 0,
    ⟨"m0-0", "!room", text⟩, Eq, typedClient text, _,
    (Client.local_ epochCrypto (.encrypt "!room" text) (typedClient text)).2, _, _, "m0-0", .error
    (.Network "offline"), rfl, List.mem_singleton_self _,
    Prog.Runs.call (hexec .e2ee _) rfl (Prog.Runs.call (hexec (.has_group "!room") _) rfl
      (Prog.Runs.call (hexec (.encrypt "!room" text) _) rfl
        (Prog.Runs.call (hexec (.api_send_event "!room" "p.room.encrypted" "m0-0"
          (typedStored text).content) _) rfl (Prog.Runs.refl _ _)))), ?_⟩
  exact List.mem_cons_of_mem _ (List.mem_cons_of_mem _ (List.mem_cons_of_mem _ List.mem_cons_self))

theorem typed_received (text : String) :
    ∃ st', Received (typedEvent text) (typedStored text) Store.init st' :=
  ⟨_, rfl, rfl, 1, rfl⟩

theorem typed_opened (text : String) : OpenedAs epochCrypto "!room" (epochText 0 text) text := by
  refine ⟨Copies.set Table.empty "!room" 0, none, .none, Copies.set Table.empty "!room" 0, none, ?_⟩
  have hepoch : Copies.epoch (Copies.set Table.empty "!room" 0) "!room" = some 0 := rfl
  unfold E2ee.decrypt E2ee.onGroup E2ee.mutate
  simp only [epochCrypto, hepoch, epochOf_epochText, textOf_epochText, Option.isSome_some, if_true]
  rfl

/-- The text of an image, as a user may type it. -/
def trap : Json := .obj [("msgtype", .str "p.image"), ("url", .str "pigeon://s/m")]

/-- A reader of JSON that knows this text. -/
def readTrap (text : String) : Option Json := if text = trap.to_string then some trap else none

theorem readTrap_nests : Nests readTrap := by
  intro text v inner hv hinner
  unfold readTrap at hv
  split at hv
  · cases hv
    cases hinner
  · cases hv

theorem a_text_is_shown_iff_hi : ∃ st',
    Received (typedEvent "hi") (typedStored "hi") Store.init st' ∧
    ∃ e, EntryOf readTrap (st'.set_decrypted "$typed" "hi") "$typed" e ∧
      (e.body = some "hi" ∧ e.image = none ↔ ∀ v, readTrap "hi" = some v → isImage v = false) ∧
      (e.image = none ↔ ∀ v, readTrap "hi" = some v → isImage v = true → parse_image v = none) := by
  obtain ⟨st', hreceived⟩ := typed_received "hi"
  exact ⟨st', hreceived, a_text_is_shown_iff epochCrypto readTrap epochCrypto_faithful
    readTrap_nests
    "!room" "hi" (epochText 0 "hi") "hi" (typedEvent "hi") (typedStored "hi") Store.init st'
    hreceived (typed_sent "hi") rfl rfl (typed_opened "hi")⟩

/-- A text that is the JSON of an image is taken for one. -/
theorem a_text_is_taken_for_an_image :
    ¬ ∀ (X : PigeonCrypto Copies) (from_str : String → Option Json)
    (room_id text ct plaintext : String) (j : Json) (ev : StoredEvent) (st st' : Store),
    Faithful X → Nests from_str → Received j ev st st' → SentText X room_id text ev.content →
    ev.event_type = "p.room.encrypted" → ev.content = encryptedContent ct →
    OpenedAs X room_id ct plaintext →
    ∀ e, EntryOf from_str (st'.set_decrypted ev.event_id plaintext) ev.event_id e →
      e.body = some text ∧ e.image = none := by
  intro h
  obtain ⟨st', hreceived⟩ := typed_received trap.to_string
  have hshown := h epochCrypto readTrap "!room" trap.to_string (epochText 0 trap.to_string)
    trap.to_string (typedEvent trap.to_string) (typedStored trap.to_string) Store.init st'
    epochCrypto_faithful readTrap_nests hreceived (typed_sent _) rfl rfl (typed_opened _) _
    (hreceived.decrypted_entry readTrap trap.to_string)
  have himage := @of_hidden readTrap
    (Store.asShown (Store.withPlaintext trap.to_string (Store.rowOf (typedStored trap.to_string)))
      (typedStored trap.to_string)) _ _ rfl rfl (if_pos rfl) rfl
  rw [himage.1] at hshown
  cases hshown.1

/-- An image of two bytes. -/
def duckling : Picture :=
  ⟨[137, 80], "image/png", 4, 3, "a duck", by decide, by decide, by decide⟩

def readDuckling (text : String) : Option Json :=
  if text = (duckling.hidden "pigeon://s/m" "a2V5").to_string then
    some (duckling.hidden "pigeon://s/m" "a2V5")
  else none

theorem images_come_back_as_sent_duckling :
    ∃ st', ShowsImage readDuckling st' "$typed" "a duck"
      ⟨"pigeon://s/m", "image/png", 4, 3, 2, some "a2V5"⟩ := by
  obtain ⟨st', hreceived⟩ := typed_received (duckling.hidden "pigeon://s/m" "a2V5").to_string
  obtain ⟨ct, hct, hsealed⟩ := (typed_sent (duckling.hidden "pigeon://s/m" "a2V5").to_string).sealed
  exact ⟨_, (images_come_back_as_sent epochCrypto readDuckling epochCrypto_faithful duckling
    "!room").2.1 "pigeon://s/m" "a2V5" ct _ _ _ _ _ hreceived rfl hct hsealed
    (by
      obtain rfl : epochText 0 (duckling.hidden "pigeon://s/m" "a2V5").to_string = ct := by
        simpa [typedStored, encryptedContent] using hct
      exact typed_opened _)
    (if_pos rfl)⟩

end PigeonMobile
