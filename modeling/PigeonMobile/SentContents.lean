-- What the contents that go out say of the message they were made of: the text that
-- `encrypt_for_send` seals, and the two contents of `send_image`. Each run is covered, with
-- whatever happens between its calls.
import PigeonMobile.NoDowngrade
import PigeonMobile.StoreMethods

namespace PigeonMobile

variable {D : Type} (X : PigeonCrypto D)

/-! ## The two ends of the ciphertext -/

/-- The engine gave `ct` for a text, on some device. -/
def SealedAs (room_id text ct : String) : Prop :=
  ∃ (d : D) (ks : Option KeyMap) (fault : Fault) (d' : D) (ks' : Option KeyMap),
    E2ee.encrypt X d ks fault room_id text = (.ok ct, d', ks')

/-- The engine read `text` of `ct`, on some device. -/
def OpenedAs (room_id ct text : String) : Prop :=
  ∃ (d : D) (ks : Option KeyMap) (fault : Fault) (d' : D) (ks' : Option KeyMap),
    E2ee.decrypt X d ks fault room_id ct = (.ok text, d', ks')

/-- What is read of a ciphertext is what was sealed in it. -/
def Faithful : Prop :=
  ∀ room_id text ct read, SealedAs X room_id text ct → OpenedAs X room_id ct read → read = text

variable {X}

theorem sealedAs_exec {room_id text ct : String} {c c' : Client D}
    (h : Client.Exec X (.encrypt room_id text) c (.ok ct) c') : SealedAs X room_id text ct := by
  obtain ⟨fault, h⟩ := h
  have h : c.onEngine (fun d ks => E2ee.encrypt X d ks fault room_id text) = (.ok ct, c') := h
  unfold Client.onEngine at h
  cases he : c.e2ee with
  | none =>
    rw [he] at h
    cases h
  | some d =>
    rw [he] at h
    obtain ⟨r, d', ks', hr⟩ : ∃ r d' ks', E2ee.encrypt X d c.key_store fault room_id text =
      (r, d', ks') := ⟨_, _, _, rfl⟩
    simp only [hr] at h
    cases h
    exact ⟨d, c.key_store, fault, d', ks', hr⟩

/-! ## A text -/

/-- A ciphertext that goes out is that of the text, in its room. -/
def TextSent (X : PigeonCrypto D) (room_id text : String) (e : Call D) : Prop :=
  ∀ room typ txn_id content, e.op = .api_send_event room typ txn_id content →
    typ = "p.room.encrypted" →
    room = room_id ∧ ∃ ct, content = encryptedContent ct ∧ SealedAs X room_id text ct

/-- The programs whose calls all send so. -/
abbrev SendsText {α : Type} (X : PigeonCrypto D) (room_id text : String) (Q : α → Prop)
    (past : List (Call D)) (p : Code α) : Prop :=
  p.Along (Client.Exec X) (fun _ e => TextSent X room_id text e) (fun _ a => Q a) past

variable {room_id text : String}

/-- A call that sends no event. -/
theorem sendsText_silent {α : Type} {Q : α → Prop} {past : List (Call D)} {op : Op}
    {k : op.Res → Code α} (hop : ∀ room typ txn_id content,
      op ≠ .api_send_event room typ txn_id content)
    (hk : ∀ s r s', Client.Exec X op s r s' →
      SendsText X room_id text Q (⟨s, op, r⟩ :: past) (k r)) :
    SendsText X room_id text Q past (.call op k) :=
  fun s r s' hx => ⟨fun room typ txn_id content he => absurd he (hop room typ txn_id content),
    hk s r s' hx⟩

theorem sendsText_encrypt_for_send (past : List (Call D)) :
    SendsText X room_id text (fun r => ∀ ct, r = .ok (some ct) → SealedAs X room_id text ct) past
      (encrypt_for_send room_id text) := by
  apply sendsText_silent (by intros; simp)
  intro _ engine _ _
  rcases engine with _ | _
  · intro ct h
    cases h
  apply sendsText_silent (by intros; simp)
  intro _ held _ _
  rcases held with e | _ | _
  · intro ct h
    cases h
  · intro ct h
    cases h
  apply sendsText_silent (by intros; simp)
  intro s r s' hx
  cases r with
  | error e =>
    intro ct h
    cases h
  | ok ct =>
    intro ct' h
    cases h
    exact sealedAs_exec hx

theorem sendsText_settle_failed (txn_id : String) (past : List (Call D)) :
    SendsText X room_id text (fun _ => True) past (settle_failed txn_id) := by
  apply sendsText_silent (by intros; simp)
  intro _ r _ _
  cases r <;> trivial

/-- The request is the one call that sends. -/
theorem sendsText_transmit {send : PendingSend} {typ : String} {content : Json}
    (past : List (Call D)) (hsent : typ = "p.room.encrypted" →
      send.room_id = room_id ∧ ∃ ct, content = encryptedContent ct ∧ SealedAs X room_id text ct) :
    SendsText X room_id text (fun _ => True) past (transmit send typ content) := by
  intro s r s' _
  refine ⟨?_, ?_⟩
  · intro room typ' txn_id content' he henc
    cases he
    exact hsent henc
  · cases r with
    | ok event_id =>
      apply sendsText_silent (by intros; simp)
      intro _ r _ _
      cases r <;> trivial
    | error err =>
      simp only
      split
      · trivial
      · exact sendsText_settle_failed _ _

theorem sendsText_flush_one (send : PendingSend) (past : List (Call D)) :
    SendsText X send.room_id send.body (fun _ => True) past (flush_one send) := by
  apply Prog.Along.bind
  refine Prog.Along.mono ?_ (sendsText_encrypt_for_send past)
  intro past' r hsealed
  rcases r with e | _ | ct
  · exact sendsText_settle_failed _ _
  · -- no group: the message goes out in the clear, if it goes out
    apply sendsText_silent (by intros; simp)
    intro _ r _ _
    rcases r with e | _ | _
    · trivial
    · exact sendsText_transmit _ (fun h => absurd h (by decide))
    · trivial
  · exact sendsText_transmit _ (fun _ => ⟨rfl, ct, rfl, hsealed ct rfl⟩)

/-- Whatever happens between the calls, a ciphertext that goes out for a queued message is that
of its body. -/
theorem flush_one_sends_its_body {others : Client D → Client D → Prop} {c c' : Client D}
    {send : PendingSend} {es : List (Call D)} {p' : Code (Except CoreError Flushed)}
    (hr : Prog.Runs (Client.Exec X) others (flush_one send) c es p' c') {s : Client D}
    {room txn_id : String} {content : Json} {r : Except ApiError String}
    (hsent : ⟨s, .api_send_event room "p.room.encrypted" txn_id content, r⟩ ∈ es) :
    room = send.room_id ∧ ∃ ct, content = encryptedContent ct ∧
      SealedAs X send.room_id send.body ct := by
  obtain ⟨es₁, es₂, he⟩ := List.append_of_mem hsent
  have hcall := hr.along (sendsText_flush_one send []) he
  exact hcall room "p.room.encrypted" txn_id content rfl rfl

/-! ## An image -/

/-- An upload was answered with `uri`. -/
def Uploaded (past : List (Call D)) (uri : String) : Prop :=
  ∃ s bytes content_type, ⟨s, .api_upload_media bytes content_type, .ok uri⟩ ∈ past

/-- The bytes were encrypted under `key`. -/
def KeyGiven (past : List (Call D)) (key : String) : Prop :=
  ∃ s bytes ciphertext, ⟨s, .encrypt_media bytes, .ok (key, ciphertext)⟩ ∈ past

theorem Uploaded.mono {past past' : List (Call D)} (hsub : ∀ e ∈ past, e ∈ past') {uri : String}
    (h : Uploaded past uri) : Uploaded past' uri := by
  obtain ⟨s, bytes, content_type, hmem⟩ := h
  exact ⟨s, bytes, content_type, hsub _ hmem⟩

theorem KeyGiven.mono {past past' : List (Call D)} (hsub : ∀ e ∈ past, e ∈ past') {key : String}
    (h : KeyGiven past key) : KeyGiven past' key := by
  obtain ⟨s, bytes, ciphertext, hmem⟩ := h
  exact ⟨s, bytes, ciphertext, hsub _ hmem⟩

/-- What the user sends: the dimensions are `u32`, and the size is a `u64`. -/
structure Picture where
  bytes : Bytes
  mimetype : String
  width : Nat
  height : Nat
  caption : String
  width_lt : width < 2 ^ 32
  height_lt : height < 2 ^ 32
  size_lt : bytes.length < 2 ^ 64

namespace Picture

/-- Its content for a plaintext room. -/
def plain (i : Picture) (uri : String) : Json :=
  plainImage i.caption uri i.mimetype i.width i.height i.bytes.length

/-- Its content for an encrypted room. -/
def hidden (i : Picture) (uri key : String) : Json :=
  encryptedImage i.caption uri key i.mimetype i.width i.height i.bytes.length

end Picture

/-- The event of an image: its content in the clear, with the URI of the upload, or the
ciphertext of its content, with the URI and the key. -/
def ImageSent (X : PigeonCrypto D) (room_id : String) (i : Picture) (past : List (Call D))
    (room typ : String) (content : Json) : Prop :=
  room = room_id ∧
    ((typ = "p.room.message" ∧ ∃ uri, Uploaded past uri ∧ content = i.plain uri) ∨
    (typ = "p.room.encrypted" ∧ ∃ uri key ct, Uploaded past uri ∧ KeyGiven past key ∧
      content = encryptedContent ct ∧ SealedAs X room_id (i.hidden uri key).to_string ct))

theorem ImageSent.mono {i : Picture} {past past' : List (Call D)} (hsub : ∀ e ∈ past, e ∈ past')
    {room typ : String} {content : Json} (h : ImageSent X room_id i past room typ content) :
    ImageSent X room_id i past' room typ content := by
  obtain ⟨hroom, ⟨htype, uri, hup, hcontent⟩ | ⟨htype, uri, key, ct, hup, hkey, hcontent⟩⟩ := h
  · exact ⟨hroom, Or.inl ⟨htype, uri, hup.mono hsub, hcontent⟩⟩
  · exact ⟨hroom, Or.inr ⟨htype, uri, key, ct, hup.mono hsub, hkey.mono hsub, hcontent⟩⟩

/-- The programs whose calls all send the image so. -/
abbrev SendsImage {α : Type} (X : PigeonCrypto D) (room_id : String) (i : Picture)
    (Q : List (Call D) → α → Prop) (past : List (Call D)) (p : Code α) : Prop :=
  p.Along (Client.Exec X) (fun past e => ∀ room typ txn_id content,
    e.op = .api_send_event room typ txn_id content → ImageSent X room_id i past room typ content)
    Q past

section Images

variable {i : Picture}

theorem sendsImage_silent {α : Type} {Q : List (Call D) → α → Prop} {past : List (Call D)} {op : Op}
    {k : op.Res → Code α} (hop : ∀ room typ txn_id content,
      op ≠ .api_send_event room typ txn_id content)
    (hk : ∀ s r s', Client.Exec X op s r s' → SendsImage X room_id i Q (⟨s, op, r⟩ :: past) (k r)) :
    SendsImage X room_id i Q past (.call op k) :=
  fun s r s' hx => ⟨fun room typ txn_id content he => absurd he (hop room typ txn_id content),
    hk s r s' hx⟩

/-- An upload leaves the calls before it in the past, and its answer. -/
theorem sendsImage_upload_media {bytes : Bytes} {content_type : String} {past : List (Call D)}
    {β : Type} {Q : List (Call D) → Except CoreError β → Prop}
    {f : String → Code (Except CoreError β)}
    (herror : ∀ past' e, Q past' (.error e))
    (hf : ∀ past' uri, (∀ e ∈ past, e ∈ past') → Uploaded past' uri →
      SendsImage X room_id i Q past' (f uri)) :
    SendsImage X room_id i Q past ((upload_media bytes content_type).andThen f) := by
  apply Prog.Along.bind
  unfold upload_media
  split
  · exact herror past _
  · apply sendsImage_silent (by intros; simp)
    intro s r s' _
    cases r with
    | error err => exact herror _ _
    | ok uri =>
      refine hf _ uri (fun e he => List.mem_cons_of_mem _ he) ?_
      exact ⟨s, bytes, content_type, List.mem_cons_self⟩

theorem sendsImage_send_event {past : List (Call D)} {typ : String} {content : Json}
    (hsent : ImageSent X room_id i past room_id typ content) :
    SendsImage X room_id i (fun _ _ => True) past (send_event room_id typ content) := by
  apply sendsImage_silent (by intros; simp)
  intro s txn_id s' _ s₁ r s₂ _
  refine ⟨?_, ?_⟩
  · intro room typ' txn_id' content' he
    cases he
    exact hsent.mono (fun e he => List.mem_cons_of_mem _ he)
  · cases r <;> trivial

theorem sendsImage_send_plain_image (past : List (Call D)) :
    SendsImage X room_id i (fun _ _ => True) past
      (send_plain_image room_id i.bytes i.mimetype i.width i.height i.caption) := by
  apply sendsImage_upload_media (fun _ _ => trivial)
  intro past' uri _ hup
  exact sendsImage_send_event ⟨rfl, Or.inl ⟨rfl, uri, hup, rfl⟩⟩

theorem sendsImage_send_encrypted_image (past : List (Call D)) :
    SendsImage X room_id i (fun _ _ => True) past
      (send_encrypted_image room_id i.bytes i.mimetype i.width i.height i.caption) := by
  apply sendsImage_silent (by intros; simp)
  intro s r s' _
  rcases r with e | ⟨key, ciphertext⟩
  · trivial
  apply sendsImage_upload_media (fun _ _ => trivial)
  intro past' uri hsub hup
  have hkey : KeyGiven past' key := ⟨s, i.bytes, ciphertext, hsub _ List.mem_cons_self⟩
  apply sendsImage_silent (by intros; simp)
  intro s₁ r s₂ hx
  cases r with
  | error e => trivial
  | ok ct =>
    have hlater : ∀ e ∈ past', e ∈ (⟨s₁, .encrypt room_id (i.hidden uri key).to_string, .ok ct⟩ ::
        past' : List (Call D)) := fun e he => List.mem_cons_of_mem _ he
    exact sendsImage_send_event ⟨rfl, Or.inr ⟨rfl, uri, key, ct, hup.mono hlater, hkey.mono hlater,
      rfl, sealedAs_exec hx⟩⟩

theorem sendsImage_send_image (room_id : String) (i : Picture) :
    SendsImage X room_id i (fun _ _ => True) []
      (send_image room_id i.bytes i.mimetype i.width i.height i.caption) := by
  apply sendsImage_silent (by intros; simp)
  intro _ engine _ _
  cases engine with
  | false => exact sendsImage_send_plain_image _
  | true =>
    apply sendsImage_silent (by intros; simp)
    intro _ held _ _
    rcases held with e | _ | _
    · trivial
    · exact sendsImage_send_plain_image _
    · exact sendsImage_send_encrypted_image _

end Images

/-- Whatever happens between the calls, the event of an image is one of the two. -/
theorem send_image_sends_its_content {others : Client D → Client D → Prop} {c c' : Client D}
    {i : Picture} {es : List (Call D)} {p' : Code (Except CoreError Unit)}
    (hr : Prog.Runs (Client.Exec X) others
      (send_image room_id i.bytes i.mimetype i.width i.height i.caption) c es p' c') {s : Client D}
    {room typ txn_id : String} {content : Json} {r : Except ApiError String}
    (hsent : ⟨s, .api_send_event room typ txn_id content, r⟩ ∈ es) :
    ImageSent X room_id i es room typ content := by
  obtain ⟨es₁, es₂, he⟩ := List.append_of_mem hsent
  have hcall := hr.along (sendsImage_send_image room_id i) he room typ txn_id content rfl
  apply hcall.mono
  intro e hmem
  rw [List.append_nil, List.mem_reverse] at hmem
  rw [he]
  exact List.mem_append_left _ hmem

/-! ## The event as a recipient has it -/

/-- The timeline entry of an event that the store has. -/
structure EntryOf (from_str : String → Option Json) (st : Store) (event_id : String)
    (e : TimelineEvent) : Prop where
  shown : ∃ r ev, st.events.find event_id = some r ∧ Store.parse_stored_payload r = .ok ev ∧
    e = TimelineEvent.of from_str ev

/-- An event of the server that a store takes in for the first time. -/
structure Received (j : Json) (ev : StoredEvent) (st st' : Store) : Prop where
  wire : StoredEvent.from_wire j = .ok ev
  fresh : st.events.find ev.event_id = none
  stored : ∃ n, st.apply_events [j] = .ok (n, st')

variable {j : Json} {ev : StoredEvent} {st st' : Store}

/-- Its row is the event as it came. -/
theorem Received.row (h : Received j ev st st') :
    st'.events.find ev.event_id = some (Store.rowOf ev) := by
  obtain ⟨n, hok⟩ := h.stored
  obtain ⟨evs, hevs, happ⟩ := st.apply_events_ok hok
  obtain ⟨ev', rest, hev', hrest, rfl⟩ := List.forall₂_cons_left_iff.mp hevs
  rw [List.forall₂_nil_left_iff] at hrest
  subst hrest
  obtain rfl : ev = ev' := Except.ok.inj (h.wire.symm.trans hev')
  have hfind := st.find_apply_parsed [ev] ev.event_id
  rw [happ, h.fresh] at hfind
  simpa using hfind

/-- So its entry is that of the event as it was parsed. -/
theorem Received.entry (h : Received j ev st st') (from_str : String → Option Json) :
    EntryOf from_str st' ev.event_id
      (TimelineEvent.of from_str (Store.asShown (Store.rowOf ev) ev)) :=
  ⟨Store.rowOf ev, _, h.row, Store.parse_columns (columns_rowOf h.wire), rfl⟩

/-- Once its plaintext is cached, the entry is made of that. -/
theorem Received.decrypted_entry (h : Received j ev st st') (from_str : String → Option Json)
    (plaintext : String) : EntryOf from_str (st'.set_decrypted ev.event_id plaintext) ev.event_id
      (TimelineEvent.of from_str
        (Store.asShown (Store.withPlaintext plaintext (Store.rowOf ev)) ev)) := by
  have hrow : (st'.set_decrypted ev.event_id plaintext).events.find ev.event_id =
      some (Store.withPlaintext plaintext (Store.rowOf ev)) := by
    refine (Table.find_update st'.events _ _ (Store.withPlaintext plaintext) (fun _ => rfl)).trans
      ?_
    rw [h.row, Option.map_some, if_pos rfl]
  have hcolumns : Columns (Store.withPlaintext plaintext (Store.rowOf ev)) ev :=
    (columns_rowOf h.wire).same rfl rfl rfl rfl rfl rfl rfl rfl
  exact ⟨_, _, hrow, Store.parse_columns hcolumns, rfl⟩

end PigeonMobile
