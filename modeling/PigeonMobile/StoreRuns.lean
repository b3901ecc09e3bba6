-- Every store that the methods of `store.rs` can lead to, from a fresh file. `Sound` is
-- what holds of each of them: the columns of a row are those of its payload, a queued
-- send has its echo, and the folded state refers to events of the server only.
import PigeonMobile.LedgerStore

namespace PigeonMobile

/-! ## The runs -/

/-- The servers that a store hears of: the events they send, in wire form, and the ids
they acknowledge a send under. No server has the id of an echo. -/
structure Server where
  sends : Json → Prop
  acks : String → Prop
  sends_remote : ∀ j ev, sends j → StoredEvent.from_wire j = .ok ev → ¬ IsLocal ev.event_id
  acks_remote : ∀ id, acks id → ¬ IsLocal id

/-- One method that succeeds. -/
inductive StoreStep (S : Server) : Store → Store → Prop
  | save_sync_token {st : Store} (token : String) : StoreStep S st (st.save_sync_token token)
  | apply_events {st st' : Store} {batch : List Json} {n : Nat} : (∀ j ∈ batch, S.sends j) →
      st.apply_events batch = .ok (n, st') → StoreStep S st st'
  | queue_send {st st' : Store} {room_id sender body txn_id : String} {ts now : Int} {n : Nat} :
      Json.inI64 now = true →
      st.queue_send room_id sender body (next_send_ids ts n) now = .ok (txn_id, st') →
      StoreStep S st st'
  | resolve_send {st st' : Store} {txn_id real_event_id : String} : S.acks real_event_id →
      st.resolve_send txn_id real_event_id = .ok st' → StoreStep S st st'
  | fail_send {st : Store} (txn_id : String) : StoreStep S st (st.fail_send txn_id)
  | set_decrypted {st : Store} (event_id plaintext : String) :
      StoreStep S st (st.set_decrypted event_id plaintext)
  | set_decrypt_failed {st : Store} (event_id : String) :
      StoreStep S st (st.set_decrypt_failed event_id)
  | set_commit_processed {st : Store} (event_id : String) :
      StoreStep S st (st.set_commit_processed event_id)

/-- A store that some run of the methods leads to. -/
def Store.Reachable (S : Server) (st : Store) : Prop :=
  Relation.ReflTransGen (StoreStep S) Store.init st

/-! ## What holds of every such store -/

/-- A row whose columns are the fields of its payload. -/
structure Columns (r : EventRow) (ev : StoredEvent) : Prop where
  parses : StoredEvent.from_wire r.payload = .ok ev
  event_id : ev.event_id = r.event_id
  room_id : ev.room_id = r.room_id
  sender : ev.sender = r.sender
  type : ev.event_type = r.type
  state_key : ev.state_key = r.state_key
  origin_server_ts : ev.origin_server_ts = r.origin_server_ts
  depth : ev.depth = r.depth

/-- The echo of a queued send. -/
structure EchoOf (p : PendingRow) (r : EventRow) : Prop where
  room_id : r.room_id = p.room_id
  type : r.type = "p.room.message"
  state_key : r.state_key = none
  sending : r.local_ = 1
  body : bodyOf r.payload = some p.body

structure Sound (st : Store) : Prop where
  columns : ∀ k r, st.events.find k = some r → ∃ ev, Columns r ev
  echoes : ∀ t p, st.pending_sends.find t = some p →
    IsLocal p.event_id ∧ ∃ r, st.events.find p.event_id = some r ∧ EchoOf p r
  apart : ∀ t t' p p', st.pending_sends.find t = some p → st.pending_sends.find t' = some p' →
    p.event_id = p'.event_id → t = t'
  refs : ∀ s ∈ st.room_state.rows, ¬ IsLocal s.event_id
  /-- no event of the server has the id of an echo -/
  locals : ∀ k r, st.events.find k = some r → IsLocal k → r.type = "p.room.message"

theorem Columns.readable {r : EventRow} {ev : StoredEvent} (h : Columns r ev) : Store.Readable r :=
  ⟨ev, h.parses, h.event_id, h.type⟩

/-- The row of an event has its columns. -/
theorem columns_rowOf {j : Json} {ev : StoredEvent} (h : StoredEvent.from_wire j = .ok ev) :
    Columns (Store.rowOf ev) ev := by
  have hpayload : ev.payload = j := (StoredEvent.from_wire_ok.mp h).2.2.2.2.2.2.2.2.1
  refine ⟨?_, rfl, rfl, rfl, rfl, rfl, rfl, rfl⟩
  unfold Store.rowOf
  rw [hpayload]
  exact h

/-- So has the echo of a send. -/
theorem columns_echoRow (room_id sender body event_id : String) {ts depth : Int}
    (hts : Json.inI64 ts = true) (hdepth : Json.inI64 depth = true) :
    ∃ ev, Columns (Store.echoRow room_id sender body event_id ts depth) ev :=
  ⟨_, parses_echo event_id room_id sender body hts hdepth, rfl, rfl, rfl, rfl, rfl, rfl, rfl⟩

/-- A promoted echo has its columns, under its new id. -/
theorem Columns.promote {r : EventRow} {ev : StoredEvent} (h : Columns r ev) (id : String) :
    Columns (Store.promote id r)
      { ev with event_id := id, payload := r.payload.json_set "event_id" (.str id) } :=
  ⟨parses_promoted h.parses id, rfl, h.room_id, h.sender, h.type, h.state_key, h.origin_server_ts,
    h.depth⟩

theorem bodyOf_promoted {r : EventRow} {ev : StoredEvent} (h : Columns r ev) (id : String) :
    bodyOf (Store.promote id r).payload = bodyOf r.payload := by
  unfold bodyOf Store.promote
  simp only
  rw [get_promoted h.parses, if_neg (by decide)]

/-- The writes that touch neither the columns nor the payload of a row. -/
theorem Columns.same {r r' : EventRow} {ev : StoredEvent} (h : Columns r ev)
    (hpayload : r'.payload = r.payload) (hid : r'.event_id = r.event_id)
    (hroom : r'.room_id = r.room_id) (hsender : r'.sender = r.sender) (htype : r'.type = r.type)
    (hkey : r'.state_key = r.state_key) (hts : r'.origin_server_ts = r.origin_server_ts)
    (hdepth : r'.depth = r.depth) : Columns r' ev :=
  ⟨by rw [hpayload]; exact h.parses, h.event_id.trans hid.symm, h.room_id.trans hroom.symm,
    h.sender.trans hsender.symm, h.type.trans htype.symm, h.state_key.trans hkey.symm,
    h.origin_server_ts.trans hts.symm, h.depth.trans hdepth.symm⟩

/-- A row of the same event is the same echo, where it is still sending. -/
theorem EchoOf.touched {p : PendingRow} {r r' : EventRow} {ev : StoredEvent} (he : EchoOf p r)
    (hc : Columns r ev) (hc' : Columns r' ev) (hloc : r'.local_ = r.local_) : EchoOf p r' := by
  refine ⟨hc'.room_id.symm.trans (hc.room_id.trans he.room_id),
    hc'.type.symm.trans (hc.type.trans he.type),
    hc'.state_key.symm.trans (hc.state_key.trans he.state_key), hloc.trans he.sending, ?_⟩
  rw [bodyOf_parses hc'.parses, ← bodyOf_parses hc.parses]
  exact he.body

/-! ## Rows and their queue -/

/-- Each row has its columns, and each queued send has an echo of its own. -/
structure Echoed (st : Store) : Prop where
  columns : ∀ k r, st.events.find k = some r → ∃ ev, Columns r ev
  echoes : ∀ t p, st.pending_sends.find t = some p →
    ∃ r, st.events.find p.event_id = some r ∧ EchoOf p r
  apart : ∀ t t' p p', st.pending_sends.find t = some p → st.pending_sends.find t' = some p' →
    p.event_id = p'.event_id → t = t'

theorem columns_carryPlaintext (body : String) {r : EventRow} {ev : StoredEvent}
    (h : Columns r ev) : Columns (Store.carryPlaintext body r) ev := by
  unfold Store.carryPlaintext
  split
  · exact h.same rfl rfl rfl rfl rfl rfl rfl rfl
  · exact h

/-- What an ack carries over to the row of an event is nothing, for a row that is no ciphertext. -/
theorem carryPlaintext_message (body : String) {r : EventRow} (h : r.type = "p.room.message") :
    Store.carryPlaintext body r = r := by
  unfold Store.carryPlaintext
  rw [if_neg]
  rw [h]
  decide

namespace Echoed

variable {st st' : Store}

/-- Events of any content: a new row is no echo, and the rows that are there stay. -/
theorem apply_events (h : Echoed st) {batch : List Json} {n : Nat}
    (hok : st.apply_events batch = .ok (n, st')) : Echoed st' := by
  obtain ⟨evs, hall, happ⟩ := st.apply_events_ok hok
  obtain rfl : (st.apply_parsed evs).2 = st' := by rw [happ]
  have hpending := st.apply_parsed_pending_sends evs
  refine ⟨?_, ?_, ?_⟩
  · intro k r hr
    rcases st.row_of_apply_parsed hr with hold | ⟨ev, hev, -, rfl⟩
    · exact h.columns k r hold
    · obtain ⟨j, -, hp⟩ := mem_of_forall₂ hall hev
      exact ⟨ev, columns_rowOf hp⟩
  · intro t p hp
    rw [hpending] at hp
    obtain ⟨r, hr, hecho⟩ := h.echoes t p hp
    exact ⟨r, st.find_apply_parsed_old hr, hecho⟩
  · intro t t' p p' hp hp'
    rw [hpending] at hp hp'
    exact h.apart t t' p p' hp hp'

theorem queue_send (h : Echoed st) {room_id sender body txn_id : String} {ids : SendIds} {now : Int}
    (hnow : Json.inI64 now = true)
    (hok : st.queue_send room_id sender body ids now = .ok (txn_id, st')) : Echoed st' := by
  obtain ⟨depth, hdepth, hfree, -, -, hevents, hpending⟩ := st.find_queue_send hok
  -- the echo of another send is a row that was there, so it has another id
  have hother : ∀ t p, st.pending_sends.find t = some p → ids.event_id ≠ p.event_id := by
    intro t p hp he
    obtain ⟨r, hr, _⟩ := h.echoes t p hp
    rw [← he, hfree] at hr
    cases hr
  refine ⟨?_, ?_, ?_⟩
  · intro k r hr
    rw [hevents] at hr
    split at hr
    · cases hr
      exact columns_echoRow room_id sender body _ hnow hdepth
    · exact h.columns k r hr
  · intro t p hp
    rw [hpending] at hp
    rw [hevents]
    split at hp
    · cases hp
      exact ⟨_, if_pos rfl, rfl, rfl, rfl, rfl, rfl⟩
    · obtain ⟨r, hr, hecho⟩ := h.echoes t p hp
      refine ⟨r, ?_, hecho⟩
      rw [if_neg (hother t p hp)]
      exact hr
  · intro t t' p p' hp hp' he
    rw [hpending] at hp hp'
    by_cases ht : ids.txn_id = t <;> by_cases ht' : ids.txn_id = t'
    · exact ht.symm.trans ht'
    · rw [if_pos ht] at hp
      rw [if_neg ht'] at hp'
      cases hp
      exact absurd he (hother t' p' hp')
    · rw [if_neg ht] at hp
      rw [if_pos ht'] at hp'
      cases hp'
      exact absurd he.symm (hother t p hp)
    · rw [if_neg ht] at hp
      rw [if_neg ht'] at hp'
      exact h.apart t t' p p' hp hp' he

/-- A write to one row that keeps its columns and its send state. -/
theorem touch (h : Echoed st) {id : String} {f : EventRow → EventRow}
    {hf : ∀ r, (f r).event_id = r.event_id} (hcolumns : ∀ r ev, Columns r ev → Columns (f r) ev)
    (hloc : ∀ r, (f r).local_ = r.local_) :
    Echoed { st with events := st.events.update id f hf } := by
  refine ⟨?_, ?_, h.apart⟩
  · intro k r hr
    simp only [Table.find_update, Option.map_eq_some_iff] at hr
    obtain ⟨r₀, hr₀, rfl⟩ := hr
    obtain ⟨ev, hev⟩ := h.columns k r₀ hr₀
    refine ⟨ev, ?_⟩
    split
    · exact hcolumns r₀ ev hev
    · exact hev
  · intro t p hp
    obtain ⟨r, hr, hecho⟩ := h.echoes t p hp
    obtain ⟨ev, hev⟩ := h.columns _ r hr
    refine ⟨if p.event_id = id then f r else r, ?_, ?_⟩
    · simp only [Table.find_update, hr, Option.map_some]
    · split
      · exact hecho.touched hev (hcolumns r ev hev) (hloc r)
      · exact hecho

/-- A send leaves the queue. The other echoes stay. -/
theorem dequeue (h : Echoed st) {txn_id : String} {p : PendingRow}
    (hp : st.pending_sends.find txn_id = some p)
    (hpending : st'.pending_sends = st.pending_sends.erase txn_id)
    (hcolumns : ∀ k r, st'.events.find k = some r → ∃ ev, Columns r ev)
    (hkeep : ∀ k r, k ≠ p.event_id → st.events.find k = some r → r.type = "p.room.message" →
      st'.events.find k = some r) : Echoed st' := by
  refine ⟨hcolumns, ?_, ?_⟩
  · intro t q hq
    rw [hpending, Table.find_erase] at hq
    split at hq
    · cases hq
    · next ht =>
      obtain ⟨r, hr, hecho⟩ := h.echoes t q hq
      refine ⟨r, ?_, hecho⟩
      apply hkeep q.event_id r _ hr hecho.type
      intro he
      exact ht (h.apart t txn_id q p hq hp he)
  · intro t t' q q' hq hq'
    rw [hpending, Table.find_erase] at hq hq'
    split at hq
    · cases hq
    · split at hq'
      · cases hq'
      · exact h.apart t t' q q' hq hq'

/-- A transaction that is not queued: nothing happens to the log. -/
theorem erase_unknown (h : Echoed st) {txn_id : String} (hn : st.pending_sends.find txn_id = none) :
    Echoed { st with pending_sends := st.pending_sends.erase txn_id } := by
  refine ⟨h.columns, ?_, ?_⟩
  · intro t p hp
    simp only [Table.find_erase_none hn] at hp
    exact h.echoes t p hp
  · intro t t' p p' hp hp'
    simp only [Table.find_erase_none hn] at hp hp'
    exact h.apart t t' p p' hp hp'

/-- An ack for an event that is there, under any id. -/
theorem raced (h : Echoed st) {txn_id id : String} {p : PendingRow}
    (hp : st.pending_sends.find txn_id = some p)
    (hpending : st'.pending_sends = st.pending_sends.erase txn_id)
    (hfind : ∀ k, st'.events.find k = if k = p.event_id then none
      else (st.events.find k).map (fun r => if k = id then Store.carryPlaintext p.body r else r)) :
    Echoed st' := by
  apply h.dequeue hp hpending
  · intro k r hr
    rw [hfind] at hr
    split at hr
    · cases hr
    · obtain ⟨r₁, hr₁, rfl⟩ := Option.map_eq_some_iff.mp hr
      obtain ⟨ev, hev⟩ := h.columns k r₁ hr₁
      refine ⟨ev, ?_⟩
      split
      · exact columns_carryPlaintext p.body hev
      · exact hev
  · intro k r hne hr htype
    rw [hfind, if_neg hne, hr, Option.map_some, carryPlaintext_message p.body htype, ite_self]

/-- An ack under an id that is free. -/
theorem promoted (h : Echoed st) {txn_id id : String} {p : PendingRow}
    (hp : st.pending_sends.find txn_id = some p) (hfree : st.events.find id = none)
    (hpending : st'.pending_sends = st.pending_sends.erase txn_id)
    (hfind : ∀ k, st'.events.find k =
      if k = id then (st.events.find p.event_id).map (Store.promote id)
      else if k = p.event_id then none else st.events.find k) : Echoed st' := by
  apply h.dequeue hp hpending
  · intro k r hr
    rw [hfind] at hr
    split at hr
    · obtain ⟨r₁, hr₁, rfl⟩ := Option.map_eq_some_iff.mp hr
      obtain ⟨ev, hev⟩ := h.columns p.event_id r₁ hr₁
      exact ⟨_, hev.promote id⟩
    · split at hr
      · cases hr
      · exact h.columns k r hr
  · intro k r hkne hr _
    have hkid : k ≠ id := by
      rintro rfl
      rw [hfree] at hr
      cases hr
    rw [hfind, if_neg hkid, if_neg hkne]
    exact hr

/-- A send that failed leaves the queue, and its echo says so. -/
theorem failed (h : Echoed st) {txn_id : String} {p : PendingRow}
    (hp : st.pending_sends.find txn_id = some p) : Echoed (st.fail_send txn_id) := by
  obtain ⟨-, hpending, hfind⟩ := st.fail_send_queued hp
  apply h.dequeue hp hpending
  · intro k r hr
    rw [hfind] at hr
    obtain ⟨r₀, hr₀, rfl⟩ := Option.map_eq_some_iff.mp hr
    obtain ⟨ev, hev⟩ := h.columns k r₀ hr₀
    refine ⟨ev, ?_⟩
    split
    · exact hev.same rfl rfl rfl rfl rfl rfl rfl rfl
    · exact hev
  · intro k r hne hr _
    rw [hfind, hr, Option.map_some, if_neg hne]

end Echoed

namespace Sound

variable {st st' : Store}

theorem init : Sound Store.init := by
  refine ⟨?_, ?_, ?_, ?_, ?_⟩
  · intro k r hr
    cases hr
  · intro t p hp
    cases hp
  · intro t t' p p' hp
    cases hp
  · intro s hs
    cases hs
  · intro k r hr
    cases hr

/-- Nothing refers to the echo of a queued send. -/
theorem unreferenced (h : Sound st) {t : String} {p : PendingRow}
    (hp : st.pending_sends.find t = some p) : st.referenced p.event_id = false := by
  unfold Store.referenced
  rw [List.any_eq_false]
  intro s hs hid
  have hid := of_decide_eq_true hid
  exact h.refs s hs (hid ▸ (h.echoes t p hp).1)

/-- Every row reads back. -/
theorem readable (h : Sound st) {r : EventRow} (hr : r ∈ st.events.rows) : Store.Readable r := by
  obtain ⟨ev, hev⟩ := h.columns r.event_id r (Table.mem_rows_iff.mp hr)
  exact hev.readable

/-! ## The methods one by one -/

theorem echoed (h : Sound st) : Echoed st :=
  ⟨h.columns, fun t p hp => (h.echoes t p hp).2, h.apart⟩

/-- A store that is sound: its queued echoes have local ids. -/
theorem of_echoed (he : Echoed st') (hlocal : ∀ t p, st'.pending_sends.find t = some p →
    IsLocal p.event_id) (hrefs : ∀ s ∈ st'.room_state.rows, ¬ IsLocal s.event_id)
    (hlocals : ∀ k r, st'.events.find k = some r → IsLocal k → r.type = "p.room.message") :
    Sound st' :=
  ⟨he.columns, fun t p hp => ⟨hlocal t p hp, he.echoes t p hp⟩, he.apart, hrefs, hlocals⟩

/-- What is left of a queue after an erase was in it. -/
theorem erased_local (h : Sound st) {txn_id : String}
    (hpending : st'.pending_sends = st.pending_sends.erase txn_id) (t : String) (p : PendingRow)
    (hp : st'.pending_sends.find t = some p) : IsLocal p.event_id := by
  rw [hpending, Table.find_erase] at hp
  split at hp
  · cases hp
  · exact (h.echoes t p hp).1

/-- A batch of events that a server sends. -/
theorem apply_events (h : Sound st) {S : Server} {batch : List Json} {n : Nat}
    (hb : ∀ j ∈ batch, S.sends j) (hok : st.apply_events batch = .ok (n, st')) : Sound st' := by
  have hechoed := h.echoed.apply_events hok
  obtain ⟨evs, hall, happ⟩ := st.apply_events_ok hok
  obtain rfl : (st.apply_parsed evs).2 = st' := by rw [happ]
  have hremote : ∀ ev ∈ evs, ¬ IsLocal ev.event_id := by
    intro ev hev
    obtain ⟨j, hj, hp⟩ := mem_of_forall₂ hall hev
    exact S.sends_remote j ev (hb j hj) hp
  refine of_echoed hechoed ?_ ?_ ?_
  · intro t p hp
    rw [st.apply_parsed_pending_sends] at hp
    exact (h.echoes t p hp).1
  · intro s hs
    rcases st.mem_room_state_apply_parsed hs with hs | ⟨ev, hev, hid⟩
    · exact h.refs s hs
    · rw [hid]
      exact hremote ev hev
  · intro k r hr hk
    rcases st.row_of_apply_parsed hr with hold | ⟨ev, hev, rfl, -⟩
    · exact h.locals k r hold hk
    · exact absurd hk (hremote ev hev)

theorem queue_send (h : Sound st) {room_id sender body txn_id : String} {ts now : Int} {n : Nat}
    (hnow : Json.inI64 now = true)
    (hok : st.queue_send room_id sender body (next_send_ids ts n) now = .ok (txn_id, st')) :
    Sound st' := by
  have hechoed := h.echoed.queue_send hnow hok
  obtain ⟨depth, -, -, -, hstate, hevents, hpending⟩ := st.find_queue_send hok
  refine of_echoed hechoed ?_ (by rw [hstate]; exact h.refs) ?_
  · intro t p hp
    rw [hpending] at hp
    split at hp
    · cases hp
      refine ⟨toString ts ++ "-" ++ toString n, ?_⟩
      unfold next_send_ids
      simp only [String.append_assoc]
    · exact (h.echoes t p hp).1
  · intro k r hr hk
    rw [hevents] at hr
    split at hr
    · cases hr
      rfl
    · exact h.locals k r hr hk

/-- A write that keeps the columns and the echoes. -/
theorem touch (h : Sound st) {id : String} {f : EventRow → EventRow}
    {hf : ∀ r, (f r).event_id = r.event_id}
    (hcolumns : ∀ r ev, Columns r ev → Columns (f r) ev) (hloc : ∀ r, (f r).local_ = r.local_) :
    Sound { st with events := st.events.update id f hf } := by
  refine of_echoed (h.echoed.touch hcolumns hloc) (fun t p hp => (h.echoes t p hp).1) h.refs ?_
  intro k r hr hk
  simp only [Table.find_update, Option.map_eq_some_iff] at hr
  obtain ⟨r₀, hr₀, rfl⟩ := hr
  obtain ⟨ev, hev⟩ := h.columns k r₀ hr₀
  split
  · rw [← (hcolumns r₀ ev hev).type, hev.type]
    exact h.locals k r₀ hr₀ hk
  · exact h.locals k r₀ hr₀ hk

theorem set_decrypted (h : Sound st) (event_id plaintext : String) :
    Sound (st.set_decrypted event_id plaintext) :=
  h.touch (fun _ _ hc => hc.same rfl rfl rfl rfl rfl rfl rfl rfl) (fun _ => rfl)

theorem set_decrypt_failed (h : Sound st) (event_id : String) :
    Sound (st.set_decrypt_failed event_id) :=
  h.touch (fun _ _ hc => hc.same rfl rfl rfl rfl rfl rfl rfl rfl) (fun _ => rfl)

theorem set_commit_processed (h : Sound st) (event_id : String) :
    Sound (st.set_commit_processed event_id) :=
  h.touch (fun _ _ hc => hc.same rfl rfl rfl rfl rfl rfl rfl rfl) (fun _ => rfl)

theorem erase_unknown (h : Sound st) {txn_id : String} (hn : st.pending_sends.find txn_id = none) :
    Sound { st with pending_sends := st.pending_sends.erase txn_id } :=
  of_echoed (h.echoed.erase_unknown hn) (h.erased_local rfl) h.refs h.locals

/-- Each queued send has its echo, so an ack is one of three. -/
theorem acked (h : Sound st) {txn_id id : String} (hok : st.resolve_send txn_id id = .ok st') :
    Store.Acked st txn_id id st' := by
  apply st.acked hok
  intro p hp
  obtain ⟨-, r, hr, -⟩ := h.echoes txn_id p hp
  exact ⟨r, hr⟩

theorem resolve_send (h : Sound st) {txn_id id : String} (hid : ¬ IsLocal id)
    (hok : st.resolve_send txn_id id = .ok st') : Sound st' := by
  have hother : ∀ k, IsLocal k → k ≠ id := by
    rintro k hk rfl
    exact hid hk
  cases h.acked hok with
  | unknown hp hst =>
    rw [hst]
    exact h.erase_unknown hp
  | raced p _ hp _ hstate hpending hfind =>
    refine of_echoed (h.echoed.raced hp hpending hfind) (h.erased_local hpending)
      (by rw [hstate]; exact h.refs) ?_
    intro k r hr hk
    rw [hfind] at hr
    split at hr
    · cases hr
    · obtain ⟨r₁, hr₁, rfl⟩ := Option.map_eq_some_iff.mp hr
      rw [if_neg (hother k hk)]
      exact h.locals k r₁ hr₁ hk
  | promoted p hp hfree hstate hpending hfind =>
    refine of_echoed (h.echoed.promoted hp hfree hpending hfind) (h.erased_local hpending)
      (by rw [hstate]; exact h.refs) ?_
    intro k r hr hk
    rw [hfind, if_neg (hother k hk)] at hr
    split at hr
    · cases hr
    · exact h.locals k r hr hk

theorem fail_send (h : Sound st) (txn_id : String) : Sound (st.fail_send txn_id) := by
  cases hp : st.pending_sends.find txn_id with
  | none =>
    rw [st.fail_send_unknown hp]
    exact h.erase_unknown hp
  | some p =>
    obtain ⟨hrefs, hpending, hfind⟩ := st.fail_send_queued hp
    refine of_echoed (h.echoed.failed hp) (h.erased_local hpending) (by rw [hrefs]; exact h.refs) ?_
    intro k r hr hk
    rw [hfind] at hr
    obtain ⟨r₀, hr₀, rfl⟩ := Option.map_eq_some_iff.mp hr
    split <;> exact h.locals k r₀ hr₀ hk

/-- Each method keeps it. -/
theorem step {S : Server} (h : Sound st) (hs : StoreStep S st st') : Sound st' := by
  cases hs with
  | save_sync_token token => exact ⟨h.columns, h.echoes, h.apart, h.refs, h.locals⟩
  | apply_events hb hok => exact h.apply_events hb hok
  | queue_send hnow hok => exact h.queue_send hnow hok
  | resolve_send hack hok => exact h.resolve_send (S.acks_remote _ hack) hok
  | fail_send txn_id => exact h.fail_send txn_id
  | set_decrypted event_id plaintext => exact h.set_decrypted event_id plaintext
  | set_decrypt_failed event_id => exact h.set_decrypt_failed event_id
  | set_commit_processed event_id => exact h.set_commit_processed event_id

end Sound

/-! ## What lasts of a row -/

/-- The row of an event, later: the same event, and processed if it was. -/
structure Lasts (r r' : EventRow) : Prop where
  event_id : r'.event_id = r.event_id
  room_id : r'.room_id = r.room_id
  sender : r'.sender = r.sender
  type : r'.type = r.type
  depth : r'.depth = r.depth
  payload : r'.payload = r.payload
  processed : r.decrypt_state ≠ 0 → r'.decrypt_state ≠ 0

theorem Lasts.refl (r : EventRow) : Lasts r r := ⟨rfl, rfl, rfl, rfl, rfl, rfl, fun h => h⟩

theorem Lasts.trans {r r' r'' : EventRow} (h : Lasts r r') (h' : Lasts r' r'') : Lasts r r'' :=
  ⟨h'.event_id.trans h.event_id, h'.room_id.trans h.room_id, h'.sender.trans h.sender,
    h'.type.trans h.type, h'.depth.trans h.depth, h'.payload.trans h.payload,
    fun hp => h'.processed (h.processed hp)⟩

theorem Lasts.position {r r' : EventRow} (h : Lasts r r') : r'.position = r.position := by
  unfold EventRow.position
  rw [h.depth, h.event_id]

theorem ok_ne_zero : DECRYPT_OK ≠ 0 := by decide

theorem failed_ne_zero : DECRYPT_FAILED ≠ 0 := by decide

theorem lasts_carryPlaintext (body : String) (r : EventRow) :
    Lasts r (Store.carryPlaintext body r) := by
  unfold Store.carryPlaintext
  split
  · exact ⟨rfl, rfl, rfl, rfl, rfl, rfl, fun _ => ok_ne_zero⟩
  · exact Lasts.refl r

theorem lasts_withPlaintext (plaintext : String) (r : EventRow) :
    Lasts r (Store.withPlaintext plaintext r) :=
  ⟨rfl, rfl, rfl, rfl, rfl, rfl, fun _ => ok_ne_zero⟩

theorem lasts_withState {n : Nat} (hn : n ≠ 0) (r : EventRow) : Lasts r (Store.withState n r) :=
  ⟨rfl, rfl, rfl, rfl, rfl, rfl, fun _ => hn⟩

/-- A write to one row, where it keeps the event of that row. -/
theorem lasts_update {t : Table EventRow.event_id} {id k : String} {f : EventRow → EventRow}
    (hlasts : ∀ r, Lasts r (f r)) {r : EventRow} (hr : t.find k = some r) :
    ∃ r', (t.update id f (fun r => (hlasts r).event_id)).find k = some r' ∧ Lasts r r' := by
  refine ⟨if k = id then f r else r, ?_, ?_⟩
  · rw [Table.find_update, hr, Option.map_some]
  · split
    · exact hlasts r
    · exact Lasts.refl r

section Rows

variable {S : Server} {st st' : Store} {k : String} {r : EventRow}

/-- Every method keeps the row of an event of the server. -/
theorem StoreStep.lasts (h : Sound st) (hs : StoreStep S st st') (hk : ¬ IsLocal k)
    (hr : st.events.find k = some r) : ∃ r', st'.events.find k = some r' ∧ Lasts r r' := by
  have hecho : ∀ t p, st.pending_sends.find t = some p → k ≠ p.event_id := by
    intro t p hp he
    exact hk (he ▸ (h.echoes t p hp).1)
  cases hs with
  | save_sync_token token => exact ⟨r, hr, Lasts.refl r⟩
  | apply_events _ hok =>
    obtain ⟨evs, -, happ⟩ := st.apply_events_ok hok
    obtain rfl : (st.apply_parsed evs).2 = st' := by rw [happ]
    exact ⟨r, st.find_apply_parsed_old hr, Lasts.refl r⟩
  | @queue_send _ _ _ _ _ ts _ n _ hok =>
    obtain ⟨depth, -, hfree, -, -, hevents, -⟩ := st.find_queue_send hok
    refine ⟨r, ?_, Lasts.refl r⟩
    have hne : (next_send_ids ts n).event_id ≠ k := by
      intro he
      rw [he, hr] at hfree
      cases hfree
    rw [hevents, if_neg hne, hr]
  | @resolve_send _ txn_id id _ hok =>
    cases h.acked hok with
    | unknown _ hst =>
      rw [hst]
      exact ⟨r, hr, Lasts.refl r⟩
    | raced p _ hp _ _ _ hfind =>
      refine ⟨if k = id then Store.carryPlaintext p.body r else r, ?_, ?_⟩
      · rw [hfind, if_neg (hecho txn_id p hp), hr, Option.map_some]
      · split
        · exact lasts_carryPlaintext p.body r
        · exact Lasts.refl r
    | promoted p hp hfree _ _ hfind =>
      refine ⟨r, ?_, Lasts.refl r⟩
      have hkid : k ≠ id := by
        rintro rfl
        rw [hfree] at hr
        cases hr
      rw [hfind, if_neg hkid, if_neg (hecho txn_id p hp), hr]
  | fail_send txn_id =>
    cases hp : st.pending_sends.find txn_id with
    | none =>
      rw [st.fail_send_unknown hp]
      exact ⟨r, hr, Lasts.refl r⟩
    | some p =>
      obtain ⟨-, -, hfind⟩ := st.fail_send_queued hp
      refine ⟨r, ?_, Lasts.refl r⟩
      rw [hfind, hr, Option.map_some, if_neg (hecho txn_id p hp)]
  | set_decrypted event_id plaintext => exact lasts_update (lasts_withPlaintext plaintext) hr
  | set_decrypt_failed event_id =>
    exact lasts_update (lasts_withState failed_ne_zero) hr
  | set_commit_processed event_id =>
    exact lasts_update (lasts_withState ok_ne_zero) hr

/-- Any number of methods. -/
abbrev StoreSteps (S : Server) : Store → Store → Prop := Relation.ReflTransGen (StoreStep S)

theorem StoreSteps.sound (h : Sound st) (hs : StoreSteps S st st') : Sound st' := by
  induction hs with
  | refl => exact h
  | tail _ hstep ih => exact ih.step hstep

/-- Every store that can be reached is sound. -/
theorem Store.Reachable.sound (h : st.Reachable S) : Sound st := StoreSteps.sound Sound.init h

theorem StoreSteps.lasts (h : Sound st) (hs : StoreSteps S st st') (hk : ¬ IsLocal k)
    (hr : st.events.find k = some r) : ∃ r', st'.events.find k = some r' ∧ Lasts r r' := by
  induction hs with
  | refl => exact ⟨r, hr, Lasts.refl r⟩
  | tail hs hstep ih =>
    obtain ⟨r₁, hr₁, hl₁⟩ := ih
    obtain ⟨r₂, hr₂, hl₂⟩ := hstep.lasts (StoreSteps.sound h hs) hk hr₁
    exact ⟨r₂, hr₂, hl₁.trans hl₂⟩

end Rows

end PigeonMobile
