-- The store methods on consistent tables: a delivery, a queued message, an
-- acknowledgement, a rejection and the writes of the decrypt pass each leave the tables
-- in agreement with the ledger.
import PigeonMobile.Ledger

namespace PigeonMobile

/-! ## Texts in payloads -/

theorem bodyOf_parses {j : Json} {ev : StoredEvent} (h : StoredEvent.from_wire j = .ok ev) :
    bodyOf j = (ev.content.get "body").bind Json.as_str := by
  unfold bodyOf
  rw [(StoredEvent.from_wire_ok.mp h).2.2.2.2.2.2.2.1]

theorem body_textContent (body : String) :
    ((textContent body).get "body").bind Json.as_str = some body := rfl

/-- The payload of an echo parses, to what was queued. -/
theorem parses_echo (event_id room_id sender body : String) {ts depth : Int}
    (hts : Json.inI64 ts = true) (hdepth : Json.inI64 depth = true) :
    StoredEvent.from_wire (Store.echoPayload event_id room_id sender body ts depth) = .ok
      { event_id, room_id, sender, event_type := "p.room.message", state_key := none
        origin_server_ts := ts, depth, content := textContent body
        payload := Store.echoPayload event_id room_id sender body ts depth
        send_state := .Confirmed, decrypted := none, decrypt_failed := false } := by
  rw [StoredEvent.from_wire_ok]
  exact ⟨rfl, rfl, rfl, rfl, if_pos hts, if_pos hdepth, rfl, rfl, rfl, rfl, rfl, rfl⟩

/-- So an echo reads back. -/
theorem echo_isEcho (q : Queued) (sender : String) {ts depth : Int} (hts : Json.inI64 ts = true)
    (hdepth : Json.inI64 depth = true) :
    IsEcho q (Store.echoRow q.room_id sender q.body q.event_id ts depth) :=
  ⟨⟨_, parses_echo q.event_id q.room_id sender q.body hts hdepth, rfl, rfl⟩, rfl, rfl, rfl⟩

/-- A payload that parses is an object, and `json_set` changes one field of it. -/
theorem get_promoted {j : Json} {ev : StoredEvent} (h : StoredEvent.from_wire j = .ok ev)
    (id key : String) : (j.json_set "event_id" (.str id)).get key =
      if key = "event_id" then some (.str id) else j.get key := by
  have hid := (StoredEvent.from_wire_ok.mp h).1
  cases j with
  | obj fields => exact Json.get_json_set fields "event_id" key (.str id)
  | null | bool | num | float | str | arr => cases hid

theorem parses_promoted {j : Json} {ev : StoredEvent} (h : StoredEvent.from_wire j = .ok ev)
    (id : String) : StoredEvent.from_wire (j.json_set "event_id" (.str id)) =
      .ok { ev with event_id := id, payload := j.json_set "event_id" (.str id) } := by
  have hget := get_promoted h id
  have hindex : ∀ key, key ≠ "event_id" →
      (j.json_set "event_id" (.str id)).index key = j.index key := by
    intro key hkey
    unfold Json.index
    rw [hget, if_neg hkey]
  have hset : (j.json_set "event_id" (.str id)).index "event_id" = .str id := by
    unfold Json.index
    rw [hget, if_pos rfl]
    rfl
  obtain ⟨-, h2, h3, h4, h5, h6, h7, h8, -, h10, h11, h12⟩ := StoredEvent.from_wire_ok.mp h
  rw [StoredEvent.from_wire_ok]
  refine ⟨by rw [hset]; rfl, ?_, ?_, ?_, ?_, ?_, ?_, ?_, rfl, h10, h11, h12⟩
  · rw [hindex "room_id" (by decide)]
    exact h2
  · rw [hindex "sender" (by decide)]
    exact h3
  · rw [hindex "type" (by decide)]
    exact h4
  · rw [hindex "origin_server_ts" (by decide)]
    exact h5
  · rw [hindex "depth" (by decide)]
    exact h6
  · rw [hindex "state_key" (by decide)]
    exact h7
  · rw [hget, if_neg (by decide)]
    exact h8

/-- A promoted echo still reads back, under its new id, with the same text. -/
theorem promote_isEcho {q : Queued} {r : EventRow} (h : IsEcho q r) (id : String) :
    IsEcho q (Store.promote id r) := by
  obtain ⟨ev, hev, -, htype⟩ := h.readable
  refine ⟨⟨_, parses_promoted hev id, rfl, htype⟩, h.room, h.type, ?_⟩
  have hb := h.body
  unfold bodyOf at hb ⊢
  simp only [Store.promote]
  rw [get_promoted hev, if_neg (by decide)]
  exact hb

/-- What an ack carries over to a row that sync brought leaves its event alone. -/
theorem carryPlaintext_core (body : String) (r : EventRow) :
    (Store.carryPlaintext body r).event_id = r.event_id ∧
      (Store.carryPlaintext body r).room_id = r.room_id ∧
      (Store.carryPlaintext body r).type = r.type ∧
      (Store.carryPlaintext body r).payload = r.payload ∧
      (Store.carryPlaintext body r).local_ = r.local_ := by
  unfold Store.carryPlaintext
  split <;> exact ⟨rfl, rfl, rfl, rfl, rfl⟩

namespace Consistent

variable {st : Store} {g : Ledger}

/-! ## What moves the tables -/

/-- A batch of events that the server has, any of them any number of times. -/
theorem deliver (h : Consistent st g) {batch : List Json} (hb : ∀ j ∈ batch, j ∈ g.log) {n : Nat}
    {st' : Store} (ha : st.apply_events batch = .ok (n, st')) : Consistent st' g := by
  obtain ⟨evs, hall, hparsed⟩ := Store.apply_events_ok st ha
  have hwire : ∀ ev ∈ evs, ∃ j, WireEvent g.log j ev := by
    intro ev hev
    obtain ⟨j, hj, hp⟩ := mem_of_forall₂ hall hev
    exact ⟨j, hb j hj, hp⟩
  have hst : st' = (st.apply_parsed evs).2 := by rw [hparsed]
  have hfind : ∀ k, st'.events.find k =
      (st.events.find k).or ((evs.find? (fun ev => decide (ev.event_id = k))).map Store.rowOf) := by
    intro k
    rw [hst]
    exact Store.find_apply_parsed st evs k
  have hpend : st'.pending_sends = st.pending_sends := by
    rw [hst]
    exact Store.apply_parsed_pending_sends st evs
  have hkeep : ∀ k r, st.events.find k = some r → st'.events.find k = some r := by
    intro k r hr
    rw [hst]
    exact st.find_apply_parsed_old hr
  have hnew : ∀ k r, st'.events.find k = some r → st.events.find k = some r ∨
      ∃ j ev, WireEvent g.log j ev ∧ ev.event_id = k ∧ r = Store.rowOf ev := by
    intro k r hr
    rw [hst] at hr
    rcases st.row_of_apply_parsed hr with hold | ⟨ev, hev, hid, hrow⟩
    · exact Or.inl hold
    · obtain ⟨j, hw⟩ := hwire ev hev
      exact Or.inr ⟨j, ev, hw, hid, hrow⟩
  have hecho : ∀ q ∈ g.queued, st'.events.find q.event_id = st.events.find q.event_id := by
    intro q hq
    cases hr : st'.events.find q.event_id with
    | some r =>
      rcases hnew _ r hr with hr' | ⟨j, ev, hw, he, -⟩
      · exact hr'.symm
      · exact absurd (he ▸ h.echo_local hq) (h.wire_not_local hw)
    | none =>
      cases hr' : st.events.find q.event_id with
      | none => rfl
      | some r =>
        rw [hkeep _ r hr'] at hr
        cases hr
  refine { h with refs := ?_, pending := ?_, rows := ?_, sends := ?_, unread := ?_ }
  · intro s hs
    rw [hst] at hs
    rcases Store.mem_room_state_apply_parsed st hs with hs | ⟨ev, hev, hid⟩
    · exact h.refs s hs
    · obtain ⟨j, hw⟩ := hwire ev hev
      exact ⟨j, hw.mem, by rw [hid]; exact wireId_of_parses hw.parses⟩
  · rw [hpend]
    exact h.pending
  · intro k r hr
    rcases hnew k r hr with hr | ⟨j, ev, hw, he, rfl⟩
    · refine (h.rows k r hr).mono (fun _ hj => hj) (fun _ hq => hq) (fun _ _ hs => hs) ?_
      rw [hpend]
      exact fun _ _ hn => hn
    · exact .wire j ev hw rfl rfl rfl (StoredEvent.from_wire_ok.mp hw.parses).2.2.2.2.2.2.2.2.1 rfl
  · intro q hq
    exact (h.sends q hq).mono (by rw [hpend]) (hecho q hq) rfl (fun id r _ hr => hkeep id r hr)
  · intro t ht id hs r hr
    rcases hnew id r hr with hr | ⟨j, ev, hw, he, rfl⟩
    · exact h.unread t ht id hs r hr
    · rfl

/-- A message is queued under ids that were never given. -/
theorem queue (h : Consistent st g) {q : Queued} {sender : String} {ts ts' depth : Int} {s : String}
    (hts : Json.inI64 ts = true) (hdepth : Json.inI64 depth = true) (htxn : q.txn_id = "m" ++ s)
    (hecho : q.event_id = "$local-" ++ s) (hfree : ∀ q' ∈ g.queued, q'.txn_id ≠ q.txn_id)
    (hone : q.txn_id ∉ g.oneShot) (hev : st.events.find q.event_id = none)
    (hpend : st.pending_sends.find q.txn_id = none) :
    Consistent { st with
      events := st.events.insertNew (Store.echoRow q.room_id sender q.body q.event_id ts depth)
      pending_sends := st.pending_sends.insertNew ⟨q.txn_id, q.room_id, q.body, q.event_id, ts'⟩ }
      { g with queued := g.queued ++ [q] } := by
  have hmem : ∀ {q'}, q' ∈ g.queued ++ [q] ↔ q' ∈ g.queued ∨ q' = q := by simp
  have hechoNe : ∀ q' ∈ g.queued, q.event_id ≠ q'.event_id := by
    intro q' hq' he
    obtain ⟨s', ht', hs'⟩ := h.queued_ids q' hq'
    rw [hecho, hs'] at he
    have hss : s = s' := by
      apply String.toList_injective
      have hl := congrArg String.toList he
      simpa using hl
    exact hfree q' hq' (by rw [ht', htxn, hss])
  have hlocal : IsLocal q.event_id := ⟨s, hecho⟩
  have hnone : ∀ id, g.stored q.txn_id ≠ some id := by
    intro id hs
    rcases h.stored_known _ id hs with ht | ⟨q', hq', ht⟩
    · exact hone ht
    · exact hfree q' hq' ht
  have hfind : ∀ k, (st.events.insertNew
      (Store.echoRow q.room_id sender q.body q.event_id ts depth)).find k =
      if q.event_id = k then
        some ((st.events.find k).getD (Store.echoRow q.room_id sender q.body q.event_id ts depth))
      else st.events.find k := fun k => Table.find_insertNew _ _ k
  have hfindP : ∀ k, (st.pending_sends.insertNew
      ⟨q.txn_id, q.room_id, q.body, q.event_id, ts'⟩).find k =
      if q.txn_id = k then
        some ((st.pending_sends.find k).getD ⟨q.txn_id, q.room_id, q.body, q.event_id, ts'⟩)
      else st.pending_sends.find k := fun k => Table.find_insertNew _ _ k
  refine { h with
    queued_ids := ?_, queued_txn := ?_, one_shot := ?_, stored_known := ?_, carried := ?_
    pending := ?_, rows := ?_, sends := ?_, unread := ?_ }
  · intro q' hq'
    rcases hmem.mp hq' with hq' | rfl
    · exact h.queued_ids q' hq'
    · exact ⟨s, htxn, hecho⟩
  · intro q₁ h₁ q₂ h₂ ht
    rcases hmem.mp h₁ with old₁ | e₁ <;> rcases hmem.mp h₂ with old₂ | e₂
    · exact h.queued_txn q₁ old₁ q₂ old₂ ht
    · rw [e₂] at ht
      exact absurd ht (hfree q₁ old₁)
    · rw [e₁] at ht
      exact absurd ht.symm (hfree q₂ old₂)
    · rw [e₁, e₂]
  · intro t ht q' hq'
    rcases hmem.mp hq' with hq' | rfl
    · exact h.one_shot t ht q' hq'
    · rintro rfl
      exact hone ht
  · intro t id hs
    rcases h.stored_known t id hs with ht | ⟨q', hq', ht⟩
    · exact Or.inl ht
    · exact Or.inr ⟨q', hmem.mpr (Or.inl hq'), ht⟩
  · intro q' hq' id hs
    rcases hmem.mp hq' with hq' | rfl
    · exact h.carried q' hq' id hs
    · exact absurd hs (hnone id)
  · intro p hp
    rw [Table.mem_rows_iff, hfindP] at hp
    split at hp
    · next ht =>
      rw [← ht, hpend] at hp
      cases hp
      exact ⟨q, hmem.mpr (Or.inr rfl), rfl, rfl, rfl, rfl⟩
    · obtain ⟨q', hq', hrest⟩ := h.pending p (Table.mem_rows_iff.mpr hp)
      exact ⟨q', hmem.mpr (Or.inl hq'), hrest⟩
  · intro k r hr
    rw [hfind] at hr
    split at hr
    · next hk =>
      rw [← hk, hev] at hr
      cases hr
      exact .echo q (hmem.mpr (Or.inr rfl)) rfl (echo_isEcho q sender hts hdepth)
    · refine (h.rows k r hr).mono (fun _ hj => hj) (fun _ hq => hmem.mpr (Or.inl hq))
        (fun _ _ hs => hs) ?_
      intro q' hq' hn
      rw [hfindP, if_neg (Ne.symm (hfree q' hq'))]
      exact hn
  · intro q' hq'
    rcases hmem.mp hq' with hq' | rfl
    · refine (h.sends q' hq').mono ?_ ?_ rfl ?_
      · exact (hfindP _).trans (if_neg (Ne.symm (hfree q' hq')))
      · exact (hfind _).trans (if_neg (hechoNe q' hq'))
      · intro id r hs hr
        refine (hfind _).trans ((if_neg ?_).trans hr)
        rintro rfl
        exact h.stored_not_local hs hlocal
    · refine .waiting _ _ ((hfindP _).trans (if_pos rfl)) ((hfind _).trans (if_pos rfl)) ?_ ?_
      · rw [hev]
        rfl
      · rw [hev]
        exact echo_isEcho q' sender hts hdepth
  · intro t ht id hs r hr
    rw [hfind, if_neg] at hr
    · exact h.unread t ht id hs r hr
    · rintro rfl
      exact h.stored_not_local hs hlocal

/-- The queue row of a message holds what was queued. -/
theorem pending_row (h : Consistent st g) {q : Queued} (hq : q ∈ g.queued) {p : PendingRow}
    (hp : st.pending_sends.find q.txn_id = some p) : p.event_id = q.event_id ∧ p.body = q.body := by
  obtain ⟨hmem, ht⟩ := Table.find_some_iff.mp hp
  obtain ⟨q', hq', ht', -, hb, he⟩ := h.pending p hmem
  obtain rfl : q = q' := h.queued_txn q hq q' hq' (ht.symm.trans ht')
  exact ⟨he, hb⟩

/-- A message that waits has its echo. -/
theorem waiting_echo (h : Consistent st g) {q : Queued} (hq : q ∈ g.queued)
    (hwait : st.pending_sends.find q.txn_id ≠ none) :
    ∃ r, st.events.find q.event_id = some r ∧ IsEcho q r := by
  rcases h.sends q hq with ⟨p, r, _, hr, _, hecho⟩ | ⟨_, _, hn, _⟩ | ⟨_, hn, _⟩
  · exact ⟨r, hr, hecho⟩
  · exact absurd hn hwait
  · exact absurd hn hwait

/-- A queue row leaves that is not there. -/
theorem erase_absent (h : Consistent st g) {t : String} (hn : st.pending_sends.find t = none) :
    Consistent { st with pending_sends := st.pending_sends.erase t } g := by
  have hfind : ∀ k, (st.pending_sends.erase t).find k = st.pending_sends.find k :=
    fun k => Table.find_erase_none hn k
  refine { h with pending := ?_, rows := ?_, sends := ?_ }
  · intro p hp
    rw [Table.mem_rows_iff, hfind, ← Table.mem_rows_iff] at hp
    exact h.pending p hp
  · intro k r hr
    exact (h.rows k r hr).mono (fun _ hj => hj) (fun _ hq => hq) (fun _ _ hs => hs)
      (fun q _ hq => (hfind q.txn_id).trans hq)
  · intro q hq
    exact (h.sends q hq).mono (hfind q.txn_id) rfl rfl (fun _ _ _ hr => hr)

/-- A waiting message is settled: its queue row and its echo go, and the row of its
event shows it. -/
theorem settle (h : Consistent st g) {q : Queued} (hq : q ∈ g.queued) {id : String}
    (hs : g.stored q.txn_id = some id) {st' : Store} (hstate : st'.room_state = st.room_state)
    (hpend : st'.pending_sends = st.pending_sends.erase q.txn_id)
    (hother : ∀ k, k ≠ q.event_id → k ≠ id → st'.events.find k = st.events.find k)
    (hecho : st'.events.find q.event_id = none) {r : EventRow} (hr : st'.events.find id = some r)
    (hloc : r.local_ = 0) (hroom : r.room_id = q.room_id) (hshows : Shows r q.body)
    (hkind : RowKind st' g r) : Consistent st' g := by
  have hfindP : ∀ k, st'.pending_sends.find k =
      if k = q.txn_id then none else st.pending_sends.find k := by
    intro k
    rw [hpend]
    exact Table.find_erase _ _ _
  have hgone : ∀ k, st.pending_sends.find k = none → st'.pending_sends.find k = none := by
    intro k hn
    rw [hfindP, hn]
    split <;> rfl
  refine { h with refs := ?_, pending := ?_, rows := ?_, sends := ?_, unread := ?_ }
  · rw [hstate]
    exact h.refs
  · intro p hp
    rw [Table.mem_rows_iff, hfindP] at hp
    split at hp
    · cases hp
    · exact h.pending p (Table.mem_rows_iff.mpr hp)
  · intro k r' hr'
    by_cases hk : k = id
    · rw [hk, hr] at hr'
      cases hr'
      exact hkind
    · have hk' : k ≠ q.event_id := by
        rintro rfl
        rw [hecho] at hr'
        cases hr'
      rw [hother k hk' hk] at hr'
      exact (h.rows k r' hr').mono (fun _ hj => hj) (fun _ hq => hq) (fun _ _ hs => hs)
        (fun _ _ hn => hgone _ hn)
  · intro q' hq'
    by_cases he : q' = q
    · rw [he]
      exact .settled id r ((hfindP _).trans (if_pos rfl)) hs hecho hr hloc hroom hshows
    · have ht : q'.txn_id ≠ q.txn_id := fun ht => he (h.queued_txn q' hq' q hq ht)
      have hee : q'.event_id ≠ q.event_id := fun he' => he (h.echo_inj hq' hq he')
      refine (h.sends q' hq').mono ((hfindP _).trans (if_neg ht))
        (hother _ hee (Ne.symm (h.stored_ne_echo hs hq'))) rfl ?_
      intro id' r' hs' hr'
      refine (hother id' (h.stored_ne_echo hs' hq) ?_).trans hr'
      rintro rfl
      exact ht (h.stored_inj _ _ _ hs' hs)
  · intro t ht id' hs' r' hr'
    have hid : id' ≠ id := by
      rintro rfl
      exact h.one_shot t ht q hq (h.stored_inj _ _ _ hs hs')
    rw [hother id' (h.stored_ne_echo hs' hq) hid] at hr'
    exact h.unread t ht id' hs' r' hr'

/-- An acknowledged message: sync has its event, and the echo goes, or the echo turns
into the event. -/
theorem resolve (h : Consistent st g) {q : Queued} (hq : q ∈ g.queued) {id : String}
    (hs : g.stored q.txn_id = some id) {st' : Store} (hr : st.resolve_send q.txn_id id = .ok st') :
    Consistent st' g := by
  have hne : id ≠ q.event_id := h.stored_ne_echo hs hq
  have hechoes : ∀ p, st.pending_sends.find q.txn_id = some p →
      ∃ r, st.events.find p.event_id = some r := by
    intro p hp
    obtain ⟨r, hr, -⟩ := h.waiting_echo hq (by rw [hp]; exact Option.some_ne_none p)
    exact ⟨r, by rw [(h.pending_row hq hp).1]; exact hr⟩
  cases st.acked hr hechoes with
  | unknown hp hst =>
    rw [hst]
    exact h.erase_absent hp
  | raced p r hp hfound hstate hpending hfind =>
    -- sync came first: the event is there, and takes the text if it is ciphertext
    obtain ⟨he, hb⟩ := h.pending_row hq hp
    simp only [he, hb] at hfind
    obtain ⟨j, ev, hw, hid, hroom, htype, hpay, hloc⟩ :=
      h.row_of_stored hs hfound (by rw [hp]; exact Option.some_ne_none p)
    obtain ⟨hcroom, hcarry⟩ := h.carried q hq id hs j ev hw hid
    obtain ⟨c1, c2, c3, c4, c5⟩ := carryPlaintext_core q.body r
    refine h.settle hq hs hstate hpending ?_ ?_ (r := Store.carryPlaintext q.body r) ?_
      (c5.trans hloc) ?_ ?_ ?_
    · intro k hk hk'
      rw [hfind, if_neg hk]
      simp only [hk', if_false, Option.map_id']
    · rw [hfind, if_pos rfl]
    · rw [hfind, if_neg hne, hfound, Option.map_some, if_pos rfl]
    · rw [c2, hroom, hcroom]
    · rcases hcarry with ⟨hmsg, hcontent⟩ | ⟨henc, -⟩
      · refine Or.inl ⟨by rw [c3, htype, hmsg], ?_⟩
        rw [c4, hpay, bodyOf_parses hw.parses, hcontent, body_textContent]
      · refine Or.inr ⟨by rw [c3, htype, henc], ?_⟩
        unfold Store.carryPlaintext
        rw [if_pos (htype.trans henc)]
    · refine .wire j ev hw ?_ (c2.trans hroom) (c3.trans htype) (c4.trans hpay) (c5.trans hloc)
      rw [c1, Table.find_key hfound, hid]
  | promoted p hp hfree hstate hpending hfind =>
    -- the echo becomes the event
    obtain ⟨he, hb⟩ := h.pending_row hq hp
    obtain ⟨re, hre, hecho⟩ := h.waiting_echo hq (by rw [hp]; exact Option.some_ne_none p)
    simp only [he, hre, Option.map_some] at hfind
    refine h.settle hq hs hstate hpending ?_ ?_ (r := Store.promote id re) ?_ rfl hecho.room ?_ ?_
    · intro k hk hk'
      rw [hfind, if_neg hk', if_neg hk]
    · rw [hfind, if_neg (Ne.symm hne), if_pos rfl]
    · rw [hfind, if_pos rfl]
    · exact Or.inl ⟨hecho.type, (promote_isEcho hecho id).body⟩
    · refine .promoted q hq hs ?_ (promote_isEcho hecho id) rfl
      rw [hpending, Table.find_erase, if_pos rfl]

/-- A message that the server never stored has failed. -/
theorem fail (h : Consistent st g) {q : Queued} (hq : q ∈ g.queued)
    (hs : g.stored q.txn_id = none) : Consistent (st.fail_send q.txn_id) g := by
  cases hp : st.pending_sends.find q.txn_id with
  | none =>
    rw [st.fail_send_unknown hp]
    exact h.erase_absent hp
  | some p =>
    obtain ⟨he, -⟩ := h.pending_row hq hp
    obtain ⟨hstate, hpending, hfind⟩ := st.fail_send_queued hp
    rw [he] at hfind
    have hfindP : ∀ k, (st.fail_send q.txn_id).pending_sends.find k =
        if k = q.txn_id then none else st.pending_sends.find k := by
      intro k
      rw [hpending, Table.find_erase]
    have hother : ∀ k, k ≠ q.event_id →
        (st.fail_send q.txn_id).events.find k = st.events.find k := by
      intro k hk
      rw [hfind]
      simp only [hk, if_false, Option.map_id']
    have hgone : ∀ k, st.pending_sends.find k = none →
        (st.fail_send q.txn_id).pending_sends.find k = none := by
      intro k hn
      rw [hfindP, hn, ite_self]
    obtain ⟨re, hre, hecho⟩ := h.waiting_echo hq (by rw [hp]; exact Option.some_ne_none p)
    have hmarked : IsEcho q (Store.markFailed re) :=
      ⟨hecho.readable, hecho.room, hecho.type, hecho.body⟩
    refine { h with refs := ?_, pending := ?_, rows := ?_, sends := ?_, unread := ?_ }
    · rw [hstate]
      exact h.refs
    · intro p' hp'
      rw [Table.mem_rows_iff, hfindP] at hp'
      split at hp'
      · cases hp'
      · exact h.pending p' (Table.mem_rows_iff.mpr hp')
    · intro k r hr
      by_cases hk : k = q.event_id
      · rw [hk, hfind, hre] at hr
        simp only [Option.map_some, if_true, Option.some.injEq] at hr
        rw [← hr]
        have hid : re.event_id = q.event_id := Table.find_key hre
        exact .echo q hq hid hmarked
      · rw [hother k hk] at hr
        exact (h.rows k r hr).mono (fun _ hj => hj) (fun _ hq => hq) (fun _ _ hs => hs)
          (fun _ _ hn => hgone _ hn)
    · intro q' hq'
      by_cases hqq : q' = q
      · rw [hqq]
        refine .dropped (Store.markFailed re) ((hfindP _).trans (if_pos rfl)) hs ?_ rfl hmarked
        rw [hfind, hre]
        simp
      · have ht : q'.txn_id ≠ q.txn_id := fun ht => hqq (h.queued_txn q' hq' q hq ht)
        have hee : q'.event_id ≠ q.event_id := fun he' => hqq (h.echo_inj hq' hq he')
        refine (h.sends q' hq').mono ((hfindP _).trans (if_neg ht)) (hother _ hee) rfl ?_
        intro id r hs' hr
        exact (hother id (h.stored_ne_echo hs' hq)).trans hr
    · intro t ht id hs' r hr
      rw [hother id (h.stored_ne_echo hs' hq)] at hr
      exact h.unread t ht id hs' r hr

/-- The columns of the decrypt pass change: the state of any event, and the plaintext of
an event that this device did not send. -/
theorem touch (h : Consistent st g) {id : String} {f : EventRow → EventRow}
    (hkey : ∀ r, (f r).event_id = r.event_id) (hroom : ∀ r, (f r).room_id = r.room_id)
    (htype : ∀ r, (f r).type = r.type) (hpay : ∀ r, (f r).payload = r.payload)
    (hloc : ∀ r, (f r).local_ = r.local_)
    (hdec : (∀ r, (f r).decrypted = r.decrypted) ∨ ∀ t, g.stored t ≠ some id) :
    Consistent { st with events := st.events.update id f hkey } g := by
  have hfind : ∀ k, (st.events.update id f hkey).find k =
      (st.events.find k).map (fun a => if k = id then f a else a) :=
    fun k => Table.find_update _ _ _ _ _
  have hsome : ∀ k r, st.events.find k = some r →
      (st.events.update id f hkey).find k = some (if k = id then f r else r) := by
    intro k r hr
    rw [hfind, hr]
    rfl
  have hback : ∀ k r', (st.events.update id f hkey).find k = some r' →
      ∃ r, st.events.find k = some r ∧ r' = if k = id then f r else r := by
    intro k r' hr'
    rw [hfind] at hr'
    obtain ⟨r, hr, rfl⟩ := Option.map_eq_some_iff.mp hr'
    exact ⟨r, hr, rfl⟩
  have hreadable : ∀ r, Store.Readable r → Store.Readable (f r) := by
    rintro r ⟨ev, hev, hid, ht⟩
    exact ⟨ev, by rw [hpay]; exact hev, hid.trans (hkey r).symm, ht.trans (htype r).symm⟩
  -- what `f` keeps, the updated row keeps
  have hfield : ∀ {β : Type} (π : EventRow → β), (∀ r, π (f r) = π r) →
      ∀ (k : String) (r : EventRow),
      π (if k = id then f r else r) = π r := by
    intro β π hπ k r
    split
    · exact hπ r
    · rfl
  have hecho : ∀ (k : String) (q : Queued) (r : EventRow), IsEcho q r →
      IsEcho q (if k = id then f r else r) := by
    intro k q r he
    split
    · exact ⟨hreadable r he.readable, (hroom r).trans he.room, (htype r).trans he.type,
        by rw [hpay]; exact he.body⟩
    · exact he
  -- a row of a transaction of this device keeps its plaintext
  have hown : ∀ t k r, g.stored t = some k →
      (if k = id then f r else r).decrypted = r.decrypted := by
    intro t k r hs
    split
    · next hk =>
      rcases hdec with hdec | hdec
      · exact hdec r
      · exact absurd (hk ▸ hs) (hdec t)
    · rfl
  refine { h with rows := ?_, sends := ?_, unread := ?_ }
  · intro k r' hr'
    obtain ⟨r, hr, rfl⟩ := hback k r' hr'
    rcases h.rows k r hr with ⟨q, hq, he, hec⟩ | ⟨j, ev, hw, he, hro, hty, hpa, hlo⟩ |
      ⟨q, hq, hs, hn, hec, hlo⟩
    · exact .echo q hq ((hfield _ hkey k r).trans he) (hecho k q r hec)
    · exact .wire j ev hw ((hfield _ hkey k r).trans he) ((hfield _ hroom k r).trans hro)
        ((hfield _ htype k r).trans hty) ((hfield _ hpay k r).trans hpa)
          ((hfield _ hloc k r).trans hlo)
    · refine .promoted q hq ?_ hn (hecho k q r hec) ((hfield _ hloc k r).trans hlo)
      rw [hfield _ hkey k r]
      exact hs
  · intro q hq
    rcases h.sends q hq with ⟨p, r, h1, h2, h3, h4⟩ | ⟨k, r, h1, h2, h3, h4, h5, h6, h7⟩ |
      ⟨r, h1, h2, h3, h4, h5⟩
    · exact .waiting p _ h1 (hsome _ r h2) ((hfield _ hloc _ r).trans h3) (hecho _ q r h4)
    · refine .settled k _ h1 h2 ?_ (hsome k r h4) ((hfield _ hloc k r).trans h5)
        ((hfield _ hroom k r).trans h6) ?_
      · rw [hfind, h3]
        rfl
      · rcases h7 with ⟨hty, hb⟩ | ⟨hty, hb⟩
        · refine Or.inl ⟨(hfield _ htype k r).trans hty, ?_⟩
          rw [hfield _ hpay k r]
          exact hb
        · exact Or.inr ⟨(hfield _ htype k r).trans hty, (hown _ k r h2).trans hb⟩
    · exact .dropped _ h1 h2 (hsome _ r h3) ((hfield _ hloc _ r).trans h4) (hecho _ q r h5)
  · intro t ht k hs r' hr'
    obtain ⟨r, hr, rfl⟩ := hback k r' hr'
    exact (hown t k r hs).trans (h.unread t ht k hs r hr)

/-- The plaintext of someone else's event is cached. -/
theorem set_decrypted (h : Consistent st g) {id : String} (hid : ∀ t, g.stored t ≠ some id)
    (plaintext : String) : Consistent (st.set_decrypted id plaintext) g :=
  h.touch (f := Store.withPlaintext plaintext) (fun _ => rfl) (fun _ => rfl) (fun _ => rfl)
    (fun _ => rfl) (fun _ => rfl) (Or.inr hid)

theorem set_decrypt_failed (h : Consistent st g) (id : String) :
    Consistent (st.set_decrypt_failed id) g :=
  h.touch (f := Store.withState DECRYPT_FAILED) (fun _ => rfl) (fun _ => rfl) (fun _ => rfl)
    (fun _ => rfl) (fun _ => rfl) (Or.inl fun _ => rfl)

theorem set_commit_processed (h : Consistent st g) (id : String) :
    Consistent (st.set_commit_processed id) g :=
  h.touch (f := Store.withState DECRYPT_OK) (fun _ => rfl) (fun _ => rfl) (fun _ => rfl)
    (fun _ => rfl) (fun _ => rfl) (Or.inl fun _ => rfl)

/-- The start: nothing was queued, sent or received. -/
theorem init : Consistent Store.init ⟨[], fun _ => none, [], [], []⟩ where
  log_wire _ hj := absurd hj List.not_mem_nil
  log_ids _ hj := absurd hj List.not_mem_nil
  queued_ids _ hq := absurd hq List.not_mem_nil
  queued_txn _ hq := absurd hq List.not_mem_nil
  one_shot _ ht := absurd ht List.not_mem_nil
  stored_known _ _ hs := by cases hs
  stored_log _ _ hs := by cases hs
  stored_inj _ _ _ hs := by cases hs
  carried _ hq := absurd hq List.not_mem_nil
  images _ ht := absurd ht List.not_mem_nil
  refs _ hs := absurd hs List.not_mem_nil
  pending _ hp := absurd hp List.not_mem_nil
  rows _ _ hr := by cases hr
  sends _ hq := absurd hq List.not_mem_nil
  unread _ ht := absurd ht List.not_mem_nil

end Consistent

end PigeonMobile
