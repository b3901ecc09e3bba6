-- The outbox delivers each message exactly once, as the timeline shows it: a message in
-- the queue has its echo there, and a message that left the queue has one row, the event
-- that the server stored or the echo of its failure.
import PigeonMobile.OutboxPasses
import PigeonMobile.EpochGroup

namespace PigeonMobile

variable {D : Type} {X : PigeonCrypto D}

/-- The ids under which a timeline can show a message: its echo, and the event that the
server stored for it. -/
def shownAs (g : Ledger) (q : Queued) (event_id : String) : Bool :=
  decide (event_id = q.event_id ∨ g.stored q.txn_id = some event_id)

theorem shownAs_echo (g : Ledger) (q : Queued) : shownAs g q q.event_id = true := by
  simp [shownAs]

namespace Consistent

variable {st : Store} {g : Ledger}

/-- While a message is queued, its echo is there, as sending. -/
theorem shows_waiting (h : Consistent st g) {q : Queued} (hq : q ∈ g.queued)
    (hwait : st.pending_sends.find q.txn_id ≠ none) :
    ∃ r ∈ st.events.rows, r.event_id = q.event_id ∧ r.local_ = 1 ∧ IsEcho q r := by
  rcases h.sends q hq with ⟨p, r, _, hr, hloc, hecho⟩ | ⟨_, _, hn, _⟩ | ⟨_, hn, _⟩
  · obtain ⟨hmem, hid⟩ := Table.find_some_iff.mp hr
    exact ⟨r, hmem, hid, hloc, hecho⟩
  · exact absurd hn hwait
  · exact absurd hn hwait

/-- A message that left the queue has one row. -/
theorem shows_once (h : Consistent st g) {q : Queued} (hq : q ∈ g.queued)
    (hgone : st.pending_sends.find q.txn_id = none) :
    ∃ r ∈ st.events.rows, r.room_id = q.room_id ∧ r.type ≠ "p.mls.commit" ∧
      (∀ r' ∈ st.events.rows, shownAs g q r'.event_id = true → r' = r) ∧
      match g.stored q.txn_id with
      | some id => r.event_id = id ∧ r.local_ = 0 ∧ Shows r q.body
      | none => r.event_id = q.event_id ∧ r.local_ = 2 := by
  have hunique : ∀ {r r' : EventRow} {k : String}, st.events.find k = some r → r' ∈ st.events.rows →
      r'.event_id = k → r' = r := by
    intro r r' k hr hr' hk
    have h' := Table.mem_rows_iff.mp hr'
    rw [hk, hr] at h'
    exact (Option.some.inj h').symm
  rcases h.sends q hq with ⟨p, _, hp, _⟩ | ⟨id, r, _, hs, hnone, hr, hloc, hroom, hshows⟩ |
    ⟨r, _, hs, hr, hloc, hecho⟩
  · rw [hgone] at hp
    cases hp
  · obtain ⟨hmem, hid⟩ := Table.find_some_iff.mp hr
    refine ⟨r, hmem, hroom, ?_, ?_, ?_⟩
    · rcases hshows with ⟨ht, _⟩ | ⟨ht, _⟩ <;> rw [ht] <;> decide
    · intro r' hr' hshown
      rcases of_decide_eq_true hshown with he | he
      · have h' := Table.mem_rows_iff.mp hr'
        rw [he, hnone] at h'
        cases h'
      · rw [hs] at he
        exact hunique hr hr' (Option.some.inj he).symm
    · rw [hs]
      exact ⟨hid, hloc, hshows⟩
  · obtain ⟨hmem, hid⟩ := Table.find_some_iff.mp hr
    refine ⟨r, hmem, hecho.room, by rw [hecho.type]; decide, ?_, ?_⟩
    · intro r' hr' hshown
      rcases of_decide_eq_true hshown with he | he
      · exact hunique hr hr' he
      · rw [hs] at he
        cases he
    · rw [hs]
      exact ⟨hid, hloc⟩

end Consistent

/-- In every state that any run reaches: a message in the queue has its echo in the
timeline, as sending. A message that left it has exactly one entry: the event of the
server, confirmed, if the server stored it, and its echo, failed, if not. -/
theorem a_queued_message_is_shown_exactly_once (X : PigeonCrypto D) (c : Client D)
    (p : Pool Actor (World D) Op Op.Res)
    (h : (outbox X).Reaches (Threaded.idle (World.start c)) p) (q : Queued)
    (hq : q ∈ p.state.ledger.queued) (limit : Nat)
    (hlimit : p.state.client.store.events.rows.length ≤ limit) :
    ∃ entries, p.state.client.store.timeline q.room_id limit none = .ok entries ∧
      (p.state.client.store.pending_sends.find q.txn_id ≠ none →
        ∃ e ∈ entries, e.event_id = q.event_id ∧ e.send_state = .Sending) ∧
      (p.state.client.store.pending_sends.find q.txn_id = none →
        ∃ e, entries.filter (fun e => shownAs p.state.ledger q e.event_id) = [e] ∧
          match p.state.ledger.stored q.txn_id with
          | some id => e.event_id = id ∧ e.send_state = .Confirmed
          | none => e.event_id = q.event_id ∧ e.send_state = .Failed) := by
  have hcons := outbox_consistent h
  have hreadable : ∀ r ∈ p.state.client.store.events.rows, Store.Readable r :=
    fun r hr => hcons.readable hr
  by_cases hp : p.state.client.store.pending_sends.find q.txn_id = none
  · obtain ⟨r, hr, hroom, htype, hone, hstate⟩ := hcons.shows_once hq hp
    have hpick : shownAs p.state.ledger q r.event_id = true := by
      cases hs : p.state.ledger.stored q.txn_id with
      | some id =>
        rw [hs] at hstate
        rw [hstate.1]
        simp [shownAs, hs]
      | none =>
        rw [hs] at hstate
        rw [hstate.1]
        exact shownAs_echo _ _
    obtain ⟨entries, e, hentries, hlist, hparse⟩ :=
      Store.timeline_one _ hlimit hreadable hr hroom htype hpick hone
    obtain ⟨e', he', hid, -, -, hsend, -⟩ := Store.parse_readable (hreadable r hr)
    obtain rfl : e = e' := by
      rw [hparse] at he'
      exact Except.ok.inj he'
    refine ⟨entries, hentries, fun hn => absurd hp hn, fun _ => ⟨e, hlist, ?_⟩⟩
    cases hs : p.state.ledger.stored q.txn_id with
    | some id =>
      rw [hs] at hstate
      refine ⟨hid.trans hstate.1, ?_⟩
      rw [hsend, hstate.2.1]
      rfl
    | none =>
      rw [hs] at hstate
      refine ⟨hid.trans hstate.1, ?_⟩
      rw [hsend, hstate.2]
      rfl
  · obtain ⟨r, hr, hid, hloc, hecho⟩ := hcons.shows_waiting hq hp
    have hone : ∀ r' ∈ p.state.client.store.events.rows,
        decide (r'.event_id = q.event_id) = true → r' = r := by
      intro r' hr' he
      have h₁ := Table.mem_rows_iff.mp hr
      have h₂ := Table.mem_rows_iff.mp hr'
      rw [hid] at h₁
      rw [of_decide_eq_true he, h₁] at h₂
      exact (Option.some.inj h₂).symm
    obtain ⟨entries, e, hentries, hlist, hparse⟩ :=
      Store.timeline_one (p := fun id => decide (id = q.event_id)) _ hlimit hreadable hr hecho.room
        (by rw [hecho.type]; decide) (by rw [hid]; simp) hone
    obtain ⟨e', he', hid', -, -, hsend, -⟩ := Store.parse_readable (hreadable r hr)
    obtain rfl : e = e' := by
      rw [hparse] at he'
      exact Except.ok.inj he'
    refine ⟨entries, hentries, fun _ => ⟨e, ?_, hid'.trans hid, ?_⟩, fun hn => absurd hn hp⟩
    · have hmem : e ∈ entries.filter (fun e => decide (e.event_id = q.event_id)) := by
        rw [hlist]
        exact List.mem_singleton_self e
      exact (List.mem_filter.mp hmem).1
    · rw [hsend, hloc]
      rfl

/-! ## One message, from the queue to its acknowledgement -/

/-- The message, as the queue took it. -/
def hi : Queued := ⟨"m7-0", "!room", "hi", "$local-7-0"⟩

/-- Its event, as the server stores and delivers it. -/
def hiEvent : Json :=
  .obj [("event_id", .str "$hi"), ("room_id", .str "!room"), ("sender", .str "@ann:pigeon.example"),
    ("type", .str "p.room.encrypted"), ("origin_server_ts", .num 8), ("depth", .num 3),
    ("content", encryptedContent (epochText 0 "hi"))]

def hiStored : StoredEvent :=
  { event_id := "$hi", room_id := "!room", sender := "@ann:pigeon.example"
    event_type := "p.room.encrypted", state_key := none, origin_server_ts := 8, depth := 3
    content := encryptedContent (epochText 0 "hi"), payload := hiEvent, send_state := .Confirmed
    decrypted := none, decrypt_failed := false }

def queuedClient : Client Copies :=
  (Client.perform epochCrypto (.queue_send "!room" "@ann:pigeon.example" "hi")
    (.none, next_send_ids 7 0, 7) memberClient).2

def sealedClient : Client Copies :=
  (Client.local_ epochCrypto (.encrypt "!room" "hi") queuedClient).2

def ackedClient : Client Copies :=
  (Client.local_ epochCrypto (.resolve_send "m7-0" "$hi") sealedClient).2

def queuedLedger : Ledger := ⟨[], fun _ => none, [hi], [], []⟩
def sealedLedger : Ledger := { queuedLedger with mine := [epochText 0 "hi"] }
def ackedLedger : Ledger := sealedLedger.put "m7-0" hiEvent hiStored

theorem not_local {s : String} (h : (s.startsWith "$local-") = false) : ¬ IsLocal s := by
  rintro ⟨t, rfl⟩
  simp at h

theorem parsed_not_local {j : Json} {ev : StoredEvent} (hev : StoredEvent.from_wire j = .ok ev)
    {id : String} (hid : (j.index "event_id").as_str = some id)
    (h : (id.startsWith "$local-") = false) : ¬ IsLocal ev.event_id := by
  obtain rfl : id = ev.event_id :=
    Option.some.inj (hid.symm.trans (StoredEvent.from_wire_ok.mp hev).1)
  exact not_local h

theorem hi_makes : Makes sealedLedger "@ann:pigeon.example" "!room" "p.room.encrypted" "m7-0"
    (encryptedContent (epochText 0 "hi")) hiEvent hiStored where
  fresh := ⟨rfl, not_local (by decide), fun _ hj => absurd hj List.not_mem_nil⟩
  unstored := rfl
  sender := rfl
  room := rfl
  type := rfl
  state_key := rfl
  content := rfl

theorem hi_run : (outbox epochCrypto).Reaches (Threaded.idle (World.start memberClient))
    (Threaded.idle ⟨ackedClient, ackedLedger, none⟩) := by
  have h0 : (outbox epochCrypto).Reaches (Threaded.idle (World.start memberClient))
      (Threaded.idle (World.start memberClient)) := Relation.ReflTransGen.refl
  have hstart : (outbox epochCrypto).start (.send 0) (World.start memberClient)
      (send_message "!room" "hi").forget := Or.inr ⟨"!room", "hi", rfl⟩
  have h1 := h0.start _ _ hstart
  have h2 := h1.call (World.start memberClient) ⟨Fault.none, rfl, rfl, rfl⟩
  have h3 := h2.call ⟨queuedClient, queuedLedger, none⟩ ⟨(Fault.none, next_send_ids 7 0, 7), rfl,
    ⟨⟨7, 0, rfl⟩, rfl, fun _ hq => absurd hq List.not_mem_nil, List.not_mem_nil, rfl⟩, rfl⟩
  have h4 := h3.call ⟨queuedClient, queuedLedger, some (.send 0)⟩ ⟨Fault.none, rfl, rfl, rfl, rfl⟩
  have h5 := h4.call ⟨queuedClient, queuedLedger, some (.send 0)⟩ ⟨Fault.none, rfl, rfl, rfl⟩
  have h6 := h5.call ⟨queuedClient, queuedLedger, some (.send 0)⟩ ⟨Fault.none, rfl, rfl, rfl⟩
  have h7 := h6.call ⟨queuedClient, queuedLedger, some (.send 0)⟩
    ⟨Fault.none, rfl, ⟨fun _ _ => ⟨_, rfl⟩, rfl⟩, rfl⟩
  have h8 := h7.call ⟨sealedClient, sealedLedger, some (.send 0)⟩ ⟨Fault.none, rfl, rfl, rfl⟩
  have h9 := h8.call ⟨sealedClient, ackedLedger, some (.send 0)⟩
    ⟨(Except.ok "$hi" : Except ApiError String), rfl, SendOutcome.stored hi_makes, rfl⟩
  have h10 := h9.call ⟨ackedClient, ackedLedger, some (.send 0)⟩ ⟨Fault.none, rfl, rfl, rfl⟩
  have h11 := h10.call ⟨ackedClient, ackedLedger, none⟩ ⟨Fault.none, rfl, rfl, rfl⟩
  exact h11.finish

theorem a_queued_message_is_shown_exactly_once_hi :
    ∃ entries, ackedClient.store.timeline "!room" 10 none = .ok entries ∧
      (ackedClient.store.pending_sends.find "m7-0" ≠ none →
        ∃ e ∈ entries, e.event_id = "$local-7-0" ∧ e.send_state = .Sending) ∧
      (ackedClient.store.pending_sends.find "m7-0" = none →
        ∃ e, entries.filter (fun e => shownAs ackedLedger hi e.event_id) = [e] ∧
          e.event_id = "$hi" ∧ e.send_state = .Confirmed) :=
  a_queued_message_is_shown_exactly_once epochCrypto memberClient _ hi_run hi
    (List.mem_singleton_self hi) 10 (by decide)

end PigeonMobile
