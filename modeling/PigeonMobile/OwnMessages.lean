-- What the sender sees of its own encrypted messages. MLS cannot decrypt what the same
-- device encrypted, so the plaintext must come from the queue. A text has a queue row,
-- and stays readable in every race. An image has none, and is never shown to its sender.
import PigeonMobile.ExactlyOnce

namespace PigeonMobile

variable {D : Type}

/-! ## What the timeline makes of a row -/

/-- A row that shows a text is rendered as that text. -/
theorem of_shows (from_str : String → Option Json) {r : EventRow} {ev : StoredEvent}
    {body : String} (hr : Store.Readable r)
    (hev : Store.parse_stored_payload r = .ok ev) (hshows : Shows r body) (hloc : r.local_ = 0)
    (hbody : ∀ v, from_str body = some v → isImage v = false) :
    (TimelineEvent.of from_str ev).event_id = r.event_id ∧
      (TimelineEvent.of from_str ev).body = some body ∧
      (TimelineEvent.of from_str ev).system_text = none ∧
      (TimelineEvent.of from_str ev).pending = false ∧
      (TimelineEvent.of from_str ev).failed = false := by
  obtain ⟨ev', hev', hid, htype, hcontent, hsend, hdec, -⟩ := Store.parse_readable hr
  obtain rfl : ev = ev' := by
    rw [hev] at hev'
    exact Except.ok.inj hev'
  have hstate : ev.send_state = .Confirmed := by
    rw [hsend, hloc]
    rfl
  have hshown : (TimelineEvent.of from_str ev).body = some body := by
    rcases hshows with ⟨hmsg, htext⟩ | ⟨henc, hplain⟩
    · unfold bodyOf at htext
      rw [← hcontent] at htext
      simp only [TimelineEvent.of, htype, hmsg, if_true]
      exact htext
    · have hhidden : decrypted_image from_str ev = none := by
        unfold decrypted_image
        rw [hdec, hplain, if_pos (htype.trans henc)]
        cases hv : from_str body with
        | none => simp [hv]
        | some v => simp [hv, hbody v hv]
      simp only [TimelineEvent.of, htype, henc, hhidden]
      rw [hdec, hplain]
      rfl
  refine ⟨hid, hshown, ?_, ?_, ?_⟩
  · have hsome : (TimelineEvent.of from_str ev).body.isSome = true := by rw [hshown]; rfl
    exact if_pos hsome
  · simp [TimelineEvent.of, hstate]
  · simp [TimelineEvent.of, hstate]

/-- An encrypted row with no plaintext is rendered as nothing, or as undecryptable. -/
theorem of_unread (from_str : String → Option Json) {r : EventRow} {ev : StoredEvent}
    (hr : Store.Readable r)
    (hev : Store.parse_stored_payload r = .ok ev) (htype : r.type = "p.room.encrypted")
    (hnone : r.decrypted = none) :
    (TimelineEvent.of from_str ev).image = none ∧ (TimelineEvent.of from_str ev).body = none ∧
      (TimelineEvent.of from_str ev).system_text =
        if r.decrypt_state = DECRYPT_FAILED then some UNABLE_TO_DECRYPT else none := by
  obtain ⟨ev', hev', -, hty, -, -, hdec, hfailed⟩ := Store.parse_readable hr
  obtain rfl : ev = ev' := by
    rw [hev] at hev'
    exact Except.ok.inj hev'
  have hhidden : decrypted_image from_str ev = none := by
    unfold decrypted_image
    rw [hdec, hnone]
    simp
  have henc := hty.trans htype
  refine ⟨?_, ?_, ?_⟩
  · simp [TimelineEvent.of, henc, hhidden]
  · simp [TimelineEvent.of, henc, hhidden, hdec, hnone]
  · simp [TimelineEvent.of, henc, hhidden, hdec, hnone, hfailed]

/-! ## Texts -/

/-- In every state that any run reaches: once the acknowledgement of a message is
processed, the timeline has one entry for it, under the id of the server, with its text. -/
theorem own_text_is_readable_after_its_ack (X : PigeonCrypto D) (from_str : String → Option Json)
    (c : Client D) (p : Pool Actor (World D) Op Op.Res)
    (h : (outbox X).Reaches (Threaded.idle (World.start c)) p) (q : Queued)
    (hq : q ∈ p.state.ledger.queued) (id : String)
    (hstored : p.state.ledger.stored q.txn_id = some id)
    (hgone : p.state.client.store.pending_sends.find q.txn_id = none)
    (hbody : ∀ v, from_str q.body = some v → isImage v = false) (limit : Nat)
    (hlimit : p.state.client.store.events.rows.length ≤ limit) :
    ∃ entries e, timeline from_str p.state.client.store q.room_id limit none = .ok entries ∧
      entries.filter (fun e => shownAs p.state.ledger q e.event_id) = [e] ∧ e.event_id = id ∧
      e.body = some q.body ∧ e.system_text = none ∧ e.pending = false ∧ e.failed = false := by
  have hcons := outbox_consistent h
  have hreadable : ∀ r ∈ p.state.client.store.events.rows, Store.Readable r :=
    fun r hr => hcons.readable hr
  obtain ⟨r, hr, hroom, htype, hone, hstate⟩ := hcons.shows_once hq hgone
  rw [hstored] at hstate
  obtain ⟨hid, hloc, hshows⟩ := hstate
  have hpick : shownAs p.state.ledger q r.event_id = true := by
    rw [hid]
    simp [shownAs, hstored]
  obtain ⟨entries, ev, hentries, hlist, hparse⟩ :=
    Store.timeline_one _ hlimit hreadable hr hroom htype hpick hone
  obtain ⟨h1, h2, h3, h4, h5⟩ := of_shows from_str (hreadable r hr) hparse hshows hloc
    hbody
  refine ⟨entries.map (TimelineEvent.of from_str), TimelineEvent.of from_str ev, ?_, ?_,
    h1.trans hid, h2, h3, h4, h5⟩
  · unfold timeline
    rw [hentries]
    rfl
  · rw [List.filter_map]
    have hcomp : (fun e : TimelineEvent => shownAs p.state.ledger q e.event_id) ∘
        TimelineEvent.of from_str = fun ev : StoredEvent => shownAs p.state.ledger q ev.event_id :=
          rfl
    rw [hcomp, hlist]
    rfl

theorem own_text_is_readable_after_its_ack_hi :
    ∃ entries e, timeline (fun _ => none) ackedClient.store "!room" 10 none = .ok entries ∧
      entries.filter (fun e => shownAs ackedLedger hi e.event_id) = [e] ∧ e.event_id = "$hi" ∧
      e.body = some "hi" ∧ e.system_text = none ∧ e.pending = false ∧ e.failed = false :=
  own_text_is_readable_after_its_ack epochCrypto (fun _ => none) memberClient _ hi_run hi
    (List.mem_singleton_self hi) "$hi" rfl (by decide) (by simp) 10 (by decide)

/-! ## Images -/

/-- An encrypted event that a one-shot send of this device left on the server: what a
successful `send_image` into a room whose group is held comes to. -/
structure SentImage (g : Ledger) (id : String) : Prop where
  acknowledged : ∃ t ∈ g.oneShot, g.stored t = some id
  encrypted : ∃ j ev, WireEvent g.log j ev ∧ ev.event_id = id ∧ ev.event_type = "p.room.encrypted"

/-- Its row in the tables is the event as it came, with no plaintext. -/
theorem Consistent.image_row {st : Store} {g : Ledger} (h : Consistent st g) {id : String}
    (hs : SentImage g id) {r : EventRow} (hr : st.events.find id = some r) :
    r.type = "p.room.encrypted" ∧ r.decrypted = none := by
  obtain ⟨⟨t, ht, hst⟩, j, ev, hw, hid, htype⟩ := hs
  refine ⟨?_, h.unread t ht id hst r hr⟩
  have hrid := Table.find_key hr
  rcases h.rows id r hr with ⟨q, hq, he, _⟩ | ⟨j', ev', hw', he, _, hty, _⟩ | ⟨q, hq, hs', _⟩
  · rw [hrid] at he
    exact absurd he (h.stored_ne_echo hst hq)
  · have hjj : j' = j := by
      apply h.log_ids j' hw'.mem j hw.mem
      rw [wireId_of_parses hw'.parses, wireId_of_parses hw.parses, ← he, hrid, hid]
    have hev : ev' = ev := by
      have hp := hw'.parses
      rw [hjj, hw.parses] at hp
      exact (Except.ok.inj hp).symm
    rw [hty, hev, htype]
  · rw [hrid] at hs'
    exact absurd (h.stored_inj _ _ _ hs' hst) (h.one_shot t ht q hq)

/-- In no state that any run reaches does the sender see an image that it sent into an
encrypted room: its entry has no attachment and no text, and where the decrypt pass has
failed on it, it says that it cannot be decrypted. -/
theorem own_image_is_never_shown (X : PigeonCrypto D) (from_str : String → Option Json)
    (c : Client D) (p : Pool Actor (World D) Op Op.Res)
    (h : (outbox X).Reaches (Threaded.idle (World.start c)) p) (id : String)
    (hsent : SentImage p.state.ledger id) (room_id : String) (limit : Nat) (before : Option Int)
    (entries : List TimelineEvent)
    (hentries : timeline from_str p.state.client.store room_id limit before = .ok entries)
    (e : TimelineEvent) (he : e ∈ entries) (hid : e.event_id = id) :
    e.image = none ∧ e.body = none ∧
      (e.system_text = none ∨ e.system_text = some UNABLE_TO_DECRYPT) := by
  have hcons := outbox_consistent h
  unfold timeline at hentries
  cases hst : p.state.client.store.timeline room_id limit before with
  | error err =>
    rw [hst] at hentries
    cases hentries
  | ok evs =>
    rw [hst] at hentries
    have hmap : evs.map (TimelineEvent.of from_str) = entries := by
      simpa [bind, Except.bind, pure, Except.pure] using hentries
    rw [← hmap, List.mem_map] at he
    obtain ⟨ev, hev, rfl⟩ := he
    obtain ⟨r, hr, hparse⟩ := Store.mem_timeline _ hst hev
    have hreadable := hcons.readable hr
    obtain ⟨ev', hev', hidr, -⟩ := Store.parse_readable hreadable
    obtain rfl : ev = ev' := by
      rw [hparse] at hev'
      exact Except.ok.inj hev'
    have hfind : p.state.client.store.events.find id = some r := by
      rw [← hid]
      exact Table.find_some_iff.mpr ⟨hr, hidr.symm⟩
    obtain ⟨htype, hnone⟩ := hcons.image_row hsent hfind
    obtain ⟨h1, h2, h3⟩ := of_unread from_str hreadable hparse htype hnone
    refine ⟨h1, h2, ?_⟩
    rw [h3]
    split
    · exact Or.inr rfl
    · exact Or.inl rfl

/-! ## One image, sent, delivered and tried -/

/-- The epoch engine, for a device that tries only what it encrypted itself. -/
def selfBlind : PigeonCrypto Copies :=
  { epochCrypto with decrypt := fun _ _ _ => .error "cannot decrypt own message" }

/-- The content of the image, as it is encrypted. -/
def duckContent : Json := encryptedImage "" "pgn://media/1" "k1" "image/png" 1 1 2

def duckText : String := epochText 0 duckContent.to_string

/-- Its event, as the server stores and delivers it. -/
def duckEvent : Json :=
  .obj [("event_id", .str "$duck"), ("room_id", .str "!room"),
    ("sender", .str "@ann:pigeon.example"), ("type", .str "p.room.encrypted"),
    ("origin_server_ts", .num 8), ("depth", .num 3), ("content", encryptedContent duckText)]

def duckStored : StoredEvent :=
  { event_id := "$duck", room_id := "!room", sender := "@ann:pigeon.example"
    event_type := "p.room.encrypted", state_key := none, origin_server_ts := 8, depth := 3
    content := encryptedContent duckText, payload := duckEvent, send_state := .Confirmed
    decrypted := none, decrypt_failed := false }

/-- A reader of JSON that knows the text of the image. -/
def readDuck (text : String) : Option Json :=
  if text = duckContent.to_string then some duckContent else none

def drawnClient : Client Copies :=
  (Client.local_ selfBlind (.encrypt "!room" duckContent.to_string) memberClient).2

def deliveredClient : Client Copies :=
  (Client.local_ selfBlind (.apply_events [duckEvent]) drawnClient).2

def triedClient : Client Copies :=
  (Client.local_ selfBlind (.set_decrypt_failed "$duck") deliveredClient).2

def sealedDuck : Ledger := ⟨[], fun _ => none, [], [], [duckText]⟩
def namedDuck : Ledger := { sealedDuck with oneShot := ["mob-td-9-0"] }
def sentDuck : Ledger := namedDuck.put "mob-td-9-0" duckEvent duckStored

theorem duck_makes : Makes namedDuck "@ann:pigeon.example" "!room" "p.room.encrypted" "mob-td-9-0"
    (encryptedContent duckText) duckEvent duckStored where
  fresh := ⟨rfl, not_local (by decide), fun _ hj => absurd hj List.not_mem_nil⟩
  unstored := rfl
  sender := rfl
  room := rfl
  type := rfl
  state_key := rfl
  content := rfl

theorem duck_sent : SentImage sentDuck "$duck" where
  acknowledged := ⟨"mob-td-9-0", List.mem_singleton_self _, rfl⟩
  encrypted := ⟨duckEvent, duckStored, ⟨List.mem_singleton_self _, rfl⟩, rfl, rfl⟩

theorem duck_run : (outbox selfBlind).Reaches (Threaded.idle (World.start memberClient))
    (Threaded.idle ⟨triedClient, sentDuck, none⟩) := by
  have h0 : (outbox selfBlind).Reaches (Threaded.idle (World.start memberClient))
      (Threaded.idle (World.start memberClient)) := Relation.ReflTransGen.refl
  have hstart : (outbox selfBlind).start (.image 0) (World.start memberClient)
      (send_image "!room" [137, 80] "image/png" 1 1 "").forget :=
    ⟨"!room", [137, 80], "image/png", 1, 1, "", rfl⟩
  have h1 := h0.start _ _ hstart
  have h2 := h1.call (World.start memberClient) ⟨Fault.none, rfl, rfl, rfl⟩
  have h3 := h2.call (World.start memberClient)
    ⟨Fault.none, rfl, ⟨fun _ hn => absurd hn (by simp), rfl⟩, rfl⟩
  have h4 := h3.call (World.start memberClient)
    ⟨(Except.ok ("k1", [0, 1, 2]) : Except CoreError (String × Bytes)), rfl, rfl, rfl⟩
  have h5 := h4.call (World.start memberClient)
    ⟨(Except.ok "pgn://media/1" : Except ApiError String), rfl, rfl, rfl⟩
  have h6 := h5.call ⟨drawnClient, sealedDuck, none⟩ ⟨Fault.none, rfl, rfl, rfl⟩
  have h7 := h6.call ⟨drawnClient, namedDuck, none⟩
    ⟨"mob-td-9-0", rfl, ⟨List.not_mem_nil, fun _ hq => absurd hq List.not_mem_nil, rfl⟩, rfl⟩
  have h8 := h7.call ⟨drawnClient, sentDuck, none⟩
    ⟨(Except.ok "$duck" : Except ApiError String), rfl, SendOutcome.stored duck_makes, rfl⟩
  have h9 := h8.finish
  have hdeliver : Surroundings selfBlind ⟨drawnClient, sentDuck, none⟩
      ⟨deliveredClient, sentDuck, none⟩ :=
    @Surroundings.deliver _ selfBlind ⟨drawnClient, sentDuck, none⟩ [duckEvent] .none
      (fun _ hj => hj)
  have h10 := h9.env _ hdeliver
  have h11 := h10.start (.pass 0) process_inbound_mls.forget rfl
  have h12 := h11.call ⟨deliveredClient, sentDuck, none⟩ ⟨Fault.none, rfl, rfl, rfl⟩
  have h13 := h12.call ⟨deliveredClient, sentDuck, none⟩ ⟨Fault.none, rfl, rfl, rfl⟩
  have h14 := h13.call ⟨deliveredClient, sentDuck, none⟩ ⟨Fault.none, rfl, rfl, rfl⟩
  have h15 := h14.call ⟨deliveredClient, sentDuck, none⟩
    ⟨Fault.none, rfl, ⟨fun _ hn => absurd hn (by simp), rfl⟩, rfl⟩
  have h16 := h15.call ⟨deliveredClient, sentDuck, none⟩ ⟨Fault.none, rfl, rfl, rfl⟩
  have h17 := h16.call ⟨deliveredClient, sentDuck, none⟩
    ⟨Fault.none, rfl, ⟨fun _ => ⟨_, rfl⟩, rfl⟩, rfl⟩
  have h18 := h17.call ⟨triedClient, sentDuck, none⟩ ⟨Fault.none, rfl, rfl, rfl⟩
  exact h18.finish

/-- The entry of the image, as its sender sees it. -/
def duckEntry : TimelineEvent := TimelineEvent.of readDuck
    { duckStored with decrypt_failed := true }

theorem duck_timeline : timeline readDuck triedClient.store "!room" 10 none = .ok [duckEntry] := rfl

theorem own_image_is_never_shown_duck :
    duckEntry.image = none ∧ duckEntry.body = none ∧
      (duckEntry.system_text = none ∨ duckEntry.system_text = some UNABLE_TO_DECRYPT) :=
  own_image_is_never_shown selfBlind readDuck memberClient _ duck_run "$duck" duck_sent "!room" 10
    none [duckEntry] duck_timeline duckEntry (List.mem_singleton_self _) rfl

/-- A sender does lose sight of its own image. -/
theorem own_image_is_lost : ¬ ∀ (p : Pool Actor (World Copies) Op Op.Res) (id : String),
    (outbox selfBlind).Reaches (Threaded.idle (World.start memberClient)) p →
    SentImage p.state.ledger id → ∀ entries,
    timeline readDuck p.state.client.store "!room" 10 none = .ok entries →
    ∀ e ∈ entries, e.event_id = id → e.image.isSome = true ∧ e.system_text = none := by
  intro h
  have hshown := h _ "$duck" duck_run duck_sent _ duck_timeline duckEntry
    (List.mem_singleton_self _) rfl
  have hline : duckEntry.system_text = some UNABLE_TO_DECRYPT := rfl
  rw [hline] at hshown
  cases hshown.2

end PigeonMobile
