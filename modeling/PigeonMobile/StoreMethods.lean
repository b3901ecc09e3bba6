-- Every store that the methods of `store.rs` can lead to, whatever events and ids they are
-- given: wire batches of any content, ids of any form, transactions that are not queued. The
-- columns of a row are those of its payload, and the queue is the set of echoes that are sending.
import PigeonMobile.StoreRuns
import PigeonMobile.Timeline
import Mathlib.Data.List.Forall2

namespace PigeonMobile

/-! ## The methods that write -/

/-- What the clock gives: an `i64`. -/
abbrev Millis := { n : Int // Json.inI64 n = true }

/-- A call of a method that writes. A send is queued at `now`, under the ids that the clock
and the counter make. -/
inductive Method where
  | save_sync_token (token : String)
  | apply_events (events : List Json)
  | queue_send (room_id sender body : String) (ts : Int) (n : Nat) (now : Millis)
  | resolve_send (txn_id real_event_id : String)
  | fail_send (txn_id : String)
  | set_decrypted (event_id plaintext : String)
  | set_decrypt_failed (event_id : String)
  | set_commit_processed (event_id : String)

namespace Store

def call (st : Store) : Method → Except StoreError Store
  | .save_sync_token token => .ok (st.save_sync_token token)
  | .apply_events events => (st.apply_events events).map (·.2)
  | .queue_send room_id sender body ts n now =>
    (st.queue_send room_id sender body (next_send_ids ts n) now).map (·.2)
  | .resolve_send txn_id real_event_id => st.resolve_send txn_id real_event_id
  | .fail_send txn_id => .ok (st.fail_send txn_id)
  | .set_decrypted event_id plaintext => .ok (st.set_decrypted event_id plaintext)
  | .set_decrypt_failed event_id => .ok (st.set_decrypt_failed event_id)
  | .set_commit_processed event_id => .ok (st.set_commit_processed event_id)

/-- The store after a call: one that fails is rolled back. -/
def after (st : Store) (m : Method) : Store :=
  match st.call m with
  | .ok st' => st'
  | .error _ => st

/-- The store after any calls on a fresh file. -/
def written (ms : List Method) : Store := ms.foldl after init

/-- What holds of a fresh file, and is kept by each call that succeeds, holds after any calls. -/
theorem written_induction {P : Store → Prop} (h0 : P init)
    (hstep : ∀ st st' m, P st → st.call m = .ok st' → P st') (ms : List Method) :
    P (written ms) := by
  unfold written
  generalize init = st at h0
  induction ms generalizing st with
  | nil => exact h0
  | cons m ms ih =>
    apply ih
    unfold after
    split
    · next st' hok => exact hstep st st' m h0 hok
    · exact h0

theorem call_apply_events {st st' : Store} {events : List Json}
    (h : st.call (.apply_events events) = .ok st') :
    ∃ n, st.apply_events events = .ok (n, st') := by
  have h : (st.apply_events events).map (·.2) = .ok st' := h
  cases happly : st.apply_events events with
  | error e =>
    rw [happly] at h
    cases h
  | ok out =>
    rw [happly] at h
    cases h
    exact ⟨out.1, rfl⟩

theorem call_queue_send {st st' : Store} {room_id sender body : String} {ts : Int} {n : Nat}
    {now : Millis} (h : st.call (.queue_send room_id sender body ts n now) = .ok st') :
    ∃ txn_id, st.queue_send room_id sender body (next_send_ids ts n) now = .ok (txn_id, st') := by
  have h : (st.queue_send room_id sender body (next_send_ids ts n) now).map (·.2) = .ok st' := h
  cases hqueue : st.queue_send room_id sender body (next_send_ids ts n) now with
  | error e =>
    rw [hqueue] at h
    cases h
  | ok out =>
    rw [hqueue] at h
    cases h
    exact ⟨out.1, rfl⟩

end Store

/-! ## What the two tables say of each other -/

/-- A queued send has its echo, and an echo that is sending is queued. -/
structure Paired (st : Store) : Prop where
  columns : ∀ k r, st.events.find k = some r → ∃ ev, Columns r ev
  echoes : ∀ t p, st.pending_sends.find t = some p →
    ∃ r, st.events.find p.event_id = some r ∧ EchoOf p r
  apart : ∀ t t' p p', st.pending_sends.find t = some p → st.pending_sends.find t' = some p' →
    p.event_id = p'.event_id → t = t'
  queued : ∀ k r, st.events.find k = some r → r.local_ = 1 →
    ∃ t p, st.pending_sends.find t = some p ∧ p.event_id = k

namespace Paired

variable {st st' : Store}

theorem init : Paired Store.init := by
  refine ⟨?_, ?_, ?_, ?_⟩
  · intro k r hr
    cases hr
  · intro t p hp
    cases hp
  · intro t t' p p' hp
    cases hp
  · intro k r hr
    cases hr

theorem echoed (h : Paired st) : Echoed st := ⟨h.columns, h.echoes, h.apart⟩

theorem of_echoed (he : Echoed st') (hqueued : ∀ k r, st'.events.find k = some r → r.local_ = 1 →
    ∃ t p, st'.pending_sends.find t = some p ∧ p.event_id = k) : Paired st' :=
  ⟨he.columns, he.echoes, he.apart, hqueued⟩

/-- Events of any content: a new row is no echo. -/
theorem apply_events (h : Paired st) {batch : List Json} {n : Nat}
    (hok : st.apply_events batch = .ok (n, st')) : Paired st' := by
  refine of_echoed (h.echoed.apply_events hok) ?_
  obtain ⟨evs, -, happ⟩ := st.apply_events_ok hok
  obtain rfl : (st.apply_parsed evs).2 = st' := by rw [happ]
  intro k r hr hsending
  rw [st.apply_parsed_pending_sends]
  rcases st.row_of_apply_parsed hr with hold | ⟨ev, -, -, rfl⟩
  · exact h.queued k r hold hsending
  · cases hsending

theorem queue_send (h : Paired st) {room_id sender body txn_id : String} {ids : SendIds} {now : Int}
    (hnow : Json.inI64 now = true)
    (hok : st.queue_send room_id sender body ids now = .ok (txn_id, st')) : Paired st' := by
  refine of_echoed (h.echoed.queue_send hnow hok) ?_
  obtain ⟨depth, -, -, hnew, -, hevents, hpending⟩ := st.find_queue_send hok
  intro k r hr hsending
  rw [hevents] at hr
  split at hr
  · next hk => exact ⟨ids.txn_id, _, (hpending ids.txn_id).trans (if_pos rfl), hk⟩
  · obtain ⟨t, p, hp, hid⟩ := h.queued k r hr hsending
    refine ⟨t, p, ?_, hid⟩
    rw [hpending, if_neg]
    · exact hp
    · rintro rfl
      rw [hnew] at hp
      cases hp

/-- A write to one row that keeps its columns and its send state. -/
theorem touch (h : Paired st) {id : String} {f : EventRow → EventRow}
    {hf : ∀ r, (f r).event_id = r.event_id} (hcolumns : ∀ r ev, Columns r ev → Columns (f r) ev)
    (hloc : ∀ r, (f r).local_ = r.local_) :
    Paired { st with events := st.events.update id f hf } := by
  refine of_echoed (h.echoed.touch hcolumns hloc) ?_
  intro k r hr hsending
  simp only [Table.find_update, Option.map_eq_some_iff] at hr
  obtain ⟨r₀, hr₀, rfl⟩ := hr
  apply h.queued k r₀ hr₀
  split at hsending
  · rw [hloc] at hsending
    exact hsending
  · exact hsending

/-- A send leaves the queue, and its echo is no longer sending. -/
theorem dequeue (h : Paired st) (hechoed : Echoed st') {txn_id : String} {p : PendingRow}
    (hp : st.pending_sends.find txn_id = some p)
    (hpending : st'.pending_sends = st.pending_sends.erase txn_id)
    (hback : ∀ k r, st'.events.find k = some r → r.local_ = 1 →
      k ≠ p.event_id ∧ ∃ r₀, st.events.find k = some r₀ ∧ r₀.local_ = 1) : Paired st' := by
  refine of_echoed hechoed ?_
  intro k r hr hsending
  obtain ⟨hne, r₀, hr₀, hsending₀⟩ := hback k r hr hsending
  obtain ⟨t, q, hq, hid⟩ := h.queued k r₀ hr₀ hsending₀
  refine ⟨t, q, ?_, hid⟩
  rw [hpending, Table.find_erase, if_neg]
  · exact hq
  · rintro rfl
    rw [hp] at hq
    cases hq
    exact hne hid.symm

/-- A transaction that is not queued: nothing happens to the log. -/
theorem erase_unknown (h : Paired st) {txn_id : String} (hn : st.pending_sends.find txn_id = none) :
    Paired { st with pending_sends := st.pending_sends.erase txn_id } := by
  refine of_echoed (h.echoed.erase_unknown hn) ?_
  intro k r hr hsending
  simp only [Table.find_erase_none hn]
  exact h.queued k r hr hsending

/-- An ack under any id, also one that is the id of an echo. -/
theorem resolve_send (h : Paired st) {txn_id id : String}
    (hok : st.resolve_send txn_id id = .ok st') : Paired st' := by
  have hechoes : ∀ p, st.pending_sends.find txn_id = some p →
      ∃ r, st.events.find p.event_id = some r := by
    intro p hp
    obtain ⟨r, hr, -⟩ := h.echoes txn_id p hp
    exact ⟨r, hr⟩
  cases st.acked hok hechoes with
  | unknown hp hst =>
    rw [hst]
    exact h.erase_unknown hp
  | raced p _ hp _ _ hpending hfind =>
    apply h.dequeue (h.echoed.raced hp hpending hfind) hp hpending
    intro k r hr hsending
    rw [hfind] at hr
    split at hr
    · cases hr
    · next hne =>
      obtain ⟨r₁, hr₁, rfl⟩ := Option.map_eq_some_iff.mp hr
      refine ⟨hne, r₁, hr₁, ?_⟩
      unfold Store.carryPlaintext at hsending
      split at hsending
      · split at hsending <;> exact hsending
      · exact hsending
  | promoted p hp hfree _ hpending hfind =>
    apply h.dequeue (h.echoed.promoted hp hfree hpending hfind) hp hpending
    intro k r hr hsending
    rw [hfind] at hr
    split at hr
    · -- the promoted echo is confirmed
      obtain ⟨r₁, -, rfl⟩ := Option.map_eq_some_iff.mp hr
      cases hsending
    · split at hr
      · cases hr
      · next hkne => exact ⟨hkne, r, hr, hsending⟩

theorem fail_send (h : Paired st) (txn_id : String) : Paired (st.fail_send txn_id) := by
  cases hp : st.pending_sends.find txn_id with
  | none =>
    rw [st.fail_send_unknown hp]
    exact h.erase_unknown hp
  | some p =>
    obtain ⟨-, hpending, hfind⟩ := st.fail_send_queued hp
    apply h.dequeue (h.echoed.failed hp) hp hpending
    intro k r hr hsending
    rw [hfind] at hr
    obtain ⟨r₀, hr₀, rfl⟩ := Option.map_eq_some_iff.mp hr
    split at hsending
    · cases hsending
    · next hne => exact ⟨hne, r₀, hr₀, hsending⟩

/-- Each method keeps it. -/
theorem call (h : Paired st) {m : Method} (hok : st.call m = .ok st') : Paired st' := by
  cases m with
  | save_sync_token token =>
    cases hok
    exact ⟨h.columns, h.echoes, h.apart, h.queued⟩
  | apply_events events =>
    obtain ⟨n, happly⟩ := Store.call_apply_events hok
    exact h.apply_events happly
  | queue_send room_id sender body ts n now =>
    obtain ⟨txn_id, hqueue⟩ := Store.call_queue_send hok
    exact h.queue_send now.2 hqueue
  | resolve_send txn_id real_event_id => exact h.resolve_send hok
  | fail_send txn_id =>
    cases hok
    exact h.fail_send txn_id
  | set_decrypted event_id plaintext =>
    cases hok
    exact h.touch (fun _ _ hc => hc.same rfl rfl rfl rfl rfl rfl rfl rfl) (fun _ => rfl)
  | set_decrypt_failed event_id =>
    cases hok
    exact h.touch (fun _ _ hc => hc.same rfl rfl rfl rfl rfl rfl rfl rfl) (fun _ => rfl)
  | set_commit_processed event_id =>
    cases hok
    exact h.touch (fun _ _ hc => hc.same rfl rfl rfl rfl rfl rfl rfl rfl) (fun _ => rfl)

end Paired

theorem written_paired (ms : List Method) : Paired (Store.written ms) :=
  Store.written_induction Paired.init (fun _ _ _ h hok => h.call hok) ms

/-! ## The queue and the echoes that are sending -/

/-- The queue row and the echo of one send. -/
structure OneSend (p : PendingRow) (r : EventRow) : Prop where
  event_id : r.event_id = p.event_id
  room_id : r.room_id = p.room_id
  body : bodyOf r.payload = some p.body
  sending : SendState.from_local r.local_ = .Sending

theorem from_local_sending {n : Nat} : SendState.from_local n = .Sending ↔ n = 1 := by
  unfold SendState.from_local
  constructor
  · intro h
    split at h
    · rfl
    · cases h
    · cases h
  · rintro rfl
    rfl

namespace Paired

variable {st : Store}

/-- Each queued send has one echo that is sending. -/
theorem echo (h : Paired st) {p : PendingRow} (hp : p ∈ st.pending_sends.rows) :
    ∃ r ∈ st.events.rows, OneSend p r := by
  obtain ⟨r, hr, hecho⟩ := h.echoes p.txn_id p (Table.mem_rows_iff.mp hp)
  obtain ⟨hmem, hid⟩ := Table.find_some_iff.mp hr
  exact ⟨r, hmem, hid, hecho.room_id, hecho.body, from_local_sending.mpr hecho.sending⟩

/-- Each echo that is sending has one queue row. -/
theorem queue_row (h : Paired st) {r : EventRow} (hr : r ∈ st.events.rows)
    (hsending : SendState.from_local r.local_ = .Sending) :
    ∃ p ∈ st.pending_sends.rows, OneSend p r := by
  have hfind := Table.mem_rows_iff.mp hr
  obtain ⟨t, p, hp, hid⟩ := h.queued r.event_id r hfind (from_local_sending.mp hsending)
  obtain ⟨r', hr', hecho⟩ := h.echoes t p hp
  rw [hid, hfind] at hr'
  obtain rfl : r = r' := Option.some.inj hr'
  exact ⟨p, (Table.find_some_iff.mp hp).1, hid.symm, hecho.room_id, hecho.body, hsending⟩

end Paired

/-- Whatever the store was told, the sends in the queue are those whose echo is sending: one
queue row for each such echo and one such echo for each queue row, of the same room and
body. So a room has a send in its queue just where it shows one that is sending, and no
echo that failed or was confirmed has a queue row. -/
theorem sending_means_queued (ms : List Method) :
    (∀ p ∈ (Store.written ms).pending_sends.rows,
      ∃! r, r ∈ (Store.written ms).events.rows ∧ OneSend p r) ∧
    (∀ r ∈ (Store.written ms).events.rows, SendState.from_local r.local_ = .Sending →
      ∃! p, p ∈ (Store.written ms).pending_sends.rows ∧ OneSend p r) ∧
    (∀ room_id, (Store.written ms).has_pending_send room_id = true ↔
      ∃ r ∈ (Store.written ms).events.rows, r.room_id = room_id ∧
        SendState.from_local r.local_ = .Sending) ∧
    ∀ r ∈ (Store.written ms).events.rows, SendState.from_local r.local_ ≠ .Sending →
      ∀ p ∈ (Store.written ms).pending_sends.rows, p.event_id ≠ r.event_id := by
  have h := written_paired ms
  generalize Store.written ms = st at h
  refine ⟨?_, ?_, ?_, ?_⟩
  · intro p hp
    obtain ⟨r, hr, hone⟩ := h.echo hp
    refine ⟨r, ⟨hr, hone⟩, ?_⟩
    rintro r' ⟨hr', hone'⟩
    exact List.inj_on_of_nodup_map st.events.nodup hr' hr (hone'.event_id.trans hone.event_id.symm)
  · intro r hr hsending
    obtain ⟨p, hp, hone⟩ := h.queue_row hr hsending
    refine ⟨p, ⟨hp, hone⟩, ?_⟩
    rintro p' ⟨hp', hone'⟩
    have htxn := h.apart _ _ p' p (Table.mem_rows_iff.mp hp') (Table.mem_rows_iff.mp hp)
      (hone'.event_id.symm.trans hone.event_id)
    exact List.inj_on_of_nodup_map st.pending_sends.nodup hp' hp htxn
  · intro room_id
    unfold Store.has_pending_send
    simp only [List.any_eq_true, decide_eq_true_eq]
    constructor
    · rintro ⟨p, hp, hroom⟩
      obtain ⟨r, hr, hone⟩ := h.echo hp
      exact ⟨r, hr, hone.room_id.trans hroom, hone.sending⟩
    · rintro ⟨r, hr, hroom, hsending⟩
      obtain ⟨p, hp, hone⟩ := h.queue_row hr hsending
      exact ⟨p, hp, hone.room_id.symm.trans hroom⟩
  · intro r hr hnot p hp he
    obtain ⟨r', hr', hone⟩ := h.echo hp
    have hsame := List.inj_on_of_nodup_map st.events.nodup hr hr' (he.symm.trans hone.event_id.symm)
    rw [hsame] at hnot
    exact hnot hone.sending

/-! ## The payload and its columns -/

namespace Store

/-- An event as a page shows it: its payload, with the columns that are not in it. -/
def asShown (r : EventRow) (ev : StoredEvent) : StoredEvent := { ev with
  send_state := .from_local r.local_
  decrypted := r.decrypted
  decrypt_failed := decide (r.decrypt_state = DECRYPT_FAILED) }

theorem parse_columns {r : EventRow} {ev : StoredEvent} (h : Columns r ev) :
    parse_stored_payload r = .ok (asShown r ev) := by
  unfold parse_stored_payload
  rw [h.parses]
  rfl

/-- The rows of a page, oldest first. -/
def pageRows (st : Store) (room_id : String) (limit : Nat) (before : Option Int) : List EventRow :=
  ((st.timelineRows room_id before).take limit).reverse

theorem mem_pageRows {st : Store} {room_id : String} {limit : Nat} {before : Option Int}
    {r : EventRow} (h : r ∈ st.pageRows room_id limit before) :
    r ∈ st.events.rows ∧ r.room_id = room_id ∧ (∀ d ∈ before, r.depth < d) ∧
      r.type ≠ "p.mls.commit" := by
  have hrow := List.mem_of_mem_take (List.mem_reverse.mp h)
  unfold timelineRows dagSort at hrow
  simpa only [List.mem_reverse, List.mem_insertionSort, List.mem_filter, decide_eq_true_eq] using
    hrow

/-- A page is in the order of `(depth, event_id)`, each event once. -/
theorem pageRows_sorted (st : Store) (room_id : String) (limit : Nat) (before : Option Int) :
    (st.pageRows room_id limit before).Pairwise (fun a b => a.position < b.position) := by
  unfold pageRows timelineRows
  rw [List.pairwise_reverse]
  apply List.Pairwise.sublist (List.take_sublist _ _)
  rw [List.pairwise_reverse]
  have hnodup : (st.events.rows.filter (fun r => decide (r.room_id = room_id ∧
      (∀ d ∈ before, r.depth < d) ∧ r.type ≠ "p.mls.commit"))).Pairwise (· ≠ ·) :=
    (List.Nodup.of_map EventRow.event_id st.events.nodup).filter _
  have hdistinct := (dagSort_perm _).pairwise_iff (fun h => h.symm) |>.mpr hnodup
  have hboth := (dagSort_sorted _).and hdistinct
  apply hboth.imp_of_mem
  intro a b ha hb hab
  apply lt_of_le_of_ne hab.1
  intro he
  have hrows : ∀ r, r ∈ dagSort (st.events.rows.filter (fun r => decide (r.room_id = room_id ∧
      (∀ d ∈ before, r.depth < d) ∧ r.type ≠ "p.mls.commit"))) → r ∈ st.events.rows :=
    fun r hr => (List.mem_filter.mp ((dagSort_perm _).mem_iff.mp hr)).1
  exact hab.2 (position_inj st.events.nodup (hrows a ha) (hrows b hb) he)

end Store

/-- A page never fails, and its events are its rows. -/
theorem Paired.page {st : Store} (h : Paired st) (room_id : String) (limit : Nat)
    (before : Option Int) : ∃ page, st.timeline room_id limit before = .ok page ∧
      List.Forall₂ (fun r ev => ∃ ev₀, Columns r ev₀ ∧ ev = Store.asShown r ev₀)
        (st.pageRows room_id limit before) page := by
  have hcolumns : ∀ r ∈ (st.timelineRows room_id before).take limit, ∃ ev, Columns r ev := by
    intro r hr
    have hmem := (Store.mem_pageRows (List.mem_reverse.mpr hr)).1
    exact h.columns r.event_id r (Table.mem_rows_iff.mp hmem)
  obtain ⟨evs, hevs⟩ : ∃ evs, ((st.timelineRows room_id before).take limit).mapM
      Store.parse_stored_payload = .ok evs := by
    apply mapM_total
    intro r hr
    obtain ⟨ev, hev⟩ := hcolumns r hr
    exact ⟨_, Store.parse_columns hev⟩
  refine ⟨evs.reverse, ?_, ?_⟩
  · unfold Store.timeline
    rw [hevs]
    rfl
  · unfold Store.pageRows
    rw [List.forall₂_reverse_iff]
    have hall := (List.forall₂_and_left _ _).mpr ⟨hcolumns, mapM_ok_iff.mp hevs⟩
    apply hall.imp
    rintro r ev ⟨⟨ev₀, hev₀⟩, hparse⟩
    refine ⟨ev₀, hev₀, ?_⟩
    rw [Store.parse_columns hev₀] at hparse
    exact (Except.ok.inj hparse).symm

/-- The entries of a page have the ids and the cursors of its rows. -/
theorem Paired.page_keys {st : Store} (h : Paired st) (from_str : String → Option Json)
    (room_id : String) (limit : Nat) (before : Option Int) :
    ∃ page, st.timeline room_id limit before = .ok page ∧
      timeline from_str st room_id limit before = .ok (page.map (TimelineEvent.of from_str)) ∧
      (page.map (TimelineEvent.of from_str)).map (fun e => (e.event_id, e.cursor)) =
        (st.pageRows room_id limit before).map (fun r => (r.event_id, r.depth)) ∧
      List.Forall₂ (fun r ev => ∃ ev₀, Columns r ev₀ ∧ ev = Store.asShown r ev₀)
        (st.pageRows room_id limit before) page := by
  obtain ⟨page, hpage, hrows⟩ := h.page room_id limit before
  refine ⟨page, hpage, ?_, ?_, hrows⟩
  · unfold timeline
    rw [hpage]
    rfl
  · rw [List.map_map]
    clear hpage
    generalize st.pageRows room_id limit before = rows at hrows
    induction hrows with
    | nil => rfl
    | cons hr _ ih =>
      obtain ⟨ev₀, hev₀, rfl⟩ := hr
      simp only [List.map_cons, Function.comp_apply, ih]
      rw [← hev₀.event_id, ← hev₀.depth]
      rfl

/-- The current event of a key is read of a row whose columns are its fields. -/
theorem Paired.current_state {st : Store} (h : Paired st) (room_id event_type state_key : String) :
    ∃ found, st.current_state room_id event_type state_key = .ok found ∧
      ∀ ev, found = some ev → ∃ s r, st.room_state.find (room_id, event_type, state_key) = some s ∧
        st.events.find s.event_id = some r ∧ Columns r ev := by
  unfold Store.current_state
  cases hs : st.room_state.find (room_id, event_type, state_key) with
  | none => exact ⟨none, rfl, fun ev he => by cases he⟩
  | some s =>
    simp only [Option.bind_some]
    cases hr : st.events.find s.event_id with
    | none => exact ⟨none, rfl, fun ev he => by cases he⟩
    | some r =>
      obtain ⟨ev, hev⟩ := h.columns _ r hr
      refine ⟨some ev, ?_, ?_⟩
      · simp only [hev.parses]
        rfl
      · intro ev' he
        cases he
        exact ⟨s, r, rfl, hr, hev⟩

/-- Whatever the store was told, the payload of each row parses to the columns of the row. So
no page and no current state fails to be read, a page's ids and cursors are those of its rows,
and these are the ones it was filtered and ordered by. -/
theorem columns_are_the_payload (from_str : String → Option Json) (ms : List Method) :
    (∀ r ∈ (Store.written ms).events.rows, ∃ ev, Columns r ev) ∧
    (∀ room_id limit before, ∃ page entries,
      (Store.written ms).timeline room_id limit before = .ok page ∧
      timeline from_str (Store.written ms) room_id limit before = .ok entries ∧
      entries.map (fun e => (e.event_id, e.cursor)) =
        ((Store.written ms).pageRows room_id limit before).map (fun r => (r.event_id, r.depth)) ∧
      (∀ ev ∈ page, ev.room_id = room_id ∧ (∀ d ∈ before, ev.depth < d) ∧
        ev.event_type ≠ "p.mls.commit") ∧
      entries.Pairwise (fun a b => toLex (a.cursor, a.event_id) < toLex (b.cursor, b.event_id))) ∧
    ∀ room_id event_type state_key, ∃ found,
      (Store.written ms).current_state room_id event_type state_key = .ok found ∧
      ∀ ev, found = some ev → ∃ s r,
        (Store.written ms).room_state.find (room_id, event_type, state_key) = some s ∧
        (Store.written ms).events.find s.event_id = some r ∧ Columns r ev := by
  have h := written_paired ms
  generalize Store.written ms = st at h
  refine ⟨?_, ?_, h.current_state⟩
  · intro r hr
    exact h.columns r.event_id r (Table.mem_rows_iff.mp hr)
  · intro room_id limit before
    obtain ⟨page, hpage, hentries, hkeys, hrows⟩ := h.page_keys from_str room_id limit before
    refine ⟨page, _, hpage, hentries, hkeys, ?_, ?_⟩
    · intro ev hev
      obtain ⟨r, hr, ev₀, hev₀, rfl⟩ := mem_of_forall₂ hrows hev
      obtain ⟨-, hroom, hbefore, htype⟩ := Store.mem_pageRows hr
      refine ⟨hev₀.room_id.trans hroom, ?_, ?_⟩
      · intro d hd
        have hlt := hbefore d hd
        rw [← hev₀.depth] at hlt
        exact hlt
      · intro he
        exact htype (hev₀.type.symm.trans he)
    · have hsorted := st.pageRows_sorted room_id limit before
      have hpairs : ((st.pageRows room_id limit before).map (fun r =>
          (r.event_id, r.depth))).Pairwise
          (fun a b => toLex (a.2, a.1) < toLex (b.2, b.1)) := List.pairwise_map.mpr hsorted
      rw [← hkeys, List.pairwise_map] at hpairs
      exact hpairs

end PigeonMobile
