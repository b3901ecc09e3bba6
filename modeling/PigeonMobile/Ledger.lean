-- The local store beside what the server knows. `Ledger` records what was queued and
-- sent and what the server made of it. `Consistent` ties the tables to it: every row is
-- the echo of a queued message or an event of the server, and every queued message is
-- waiting, settled or dropped. Each store method keeps it.
import PigeonMobile.StoreFacts
import PigeonMobile.Rooms

namespace PigeonMobile

/-! ## The ledger -/

/-- A message as `queue_send` took it. -/
structure Queued where
  txn_id : String
  room_id : String
  body : String
  /-- the id of its echo -/
  event_id : String

structure Ledger where
  /-- the events of the server, in wire form -/
  log : List Json
  /-- the event that the server stored for a transaction of this device -/
  stored : String → Option String
  queued : List Queued
  /-- the transaction ids given to one-shot sends -/
  oneShot : List String
  /-- the ciphertexts that the engine of this device made -/
  mine : List String

/-- The id that a wire event carries. -/
def wireId (j : Json) : Option String := (j.index "event_id").as_str

/-- The id of an echo. -/
def IsLocal (event_id : String) : Prop := ∃ s, event_id = "$local-" ++ s

/-- The body that a payload shows. -/
def bodyOf (payload : Json) : Option String :=
  (((payload.get "content").getD .null).get "body").bind Json.as_str

/-! ## What is consistent -/

/-- An event of the server. -/
structure WireEvent (log : List Json) (j : Json) (ev : StoredEvent) : Prop where
  mem : j ∈ log
  parses : StoredEvent.from_wire j = .ok ev

/-- A row that shows the text of a queued message. -/
structure IsEcho (q : Queued) (r : EventRow) : Prop where
  readable : Store.Readable r
  room : r.room_id = q.room_id
  type : r.type = "p.room.message"
  body : bodyOf r.payload = some q.body

/-- Where a row of the log comes from. -/
inductive RowKind (st : Store) (g : Ledger) (r : EventRow) : Prop
  | echo (q : Queued) : q ∈ g.queued → r.event_id = q.event_id → IsEcho q r → RowKind st g r
  | wire (j : Json) (ev : StoredEvent) : WireEvent g.log j ev → r.event_id = ev.event_id →
      r.room_id = ev.room_id → r.type = ev.event_type → r.payload = j → r.local_ = 0 →
      RowKind st g r
  /-- an echo that was acknowledged before the event came back -/
  | promoted (q : Queued) : q ∈ g.queued → g.stored q.txn_id = some r.event_id →
      st.pending_sends.find q.txn_id = none → IsEcho q r → r.local_ = 0 → RowKind st g r

/-- The row that shows a sent message, plain or by its cached plaintext. -/
def Shows (r : EventRow) (body : String) : Prop :=
  (r.type = "p.room.message" ∧ bodyOf r.payload = some body) ∨
    (r.type = "p.room.encrypted" ∧ r.decrypted = some body)

/-- How far a queued message is. -/
inductive Progress (st : Store) (g : Ledger) (q : Queued) : Prop
  | waiting (p : PendingRow) (r : EventRow) : st.pending_sends.find q.txn_id = some p →
      st.events.find q.event_id = some r → r.local_ = 1 → IsEcho q r → Progress st g q
  | settled (id : String) (r : EventRow) : st.pending_sends.find q.txn_id = none →
      g.stored q.txn_id = some id → st.events.find q.event_id = none →
      st.events.find id = some r → r.local_ = 0 → r.room_id = q.room_id → Shows r q.body →
      Progress st g q
  | dropped (r : EventRow) : st.pending_sends.find q.txn_id = none → g.stored q.txn_id = none →
      st.events.find q.event_id = some r → r.local_ = 2 → IsEcho q r → Progress st g q

/-- An event of the server that carries a queued message. -/
def Carries (mine : List String) (q : Queued) (ev : StoredEvent) : Prop :=
  ev.room_id = q.room_id ∧
    ((ev.event_type = "p.room.message" ∧ ev.content = textContent q.body) ∨
      (ev.event_type = "p.room.encrypted" ∧ ∃ ct ∈ mine, ev.content = encryptedContent ct))

structure Consistent (st : Store) (g : Ledger) : Prop where
  log_wire : ∀ j ∈ g.log, ∃ ev, StoredEvent.from_wire j = .ok ev ∧ ¬ IsLocal ev.event_id
  log_ids : ∀ j ∈ g.log, ∀ j' ∈ g.log, wireId j = wireId j' → j = j'
  queued_ids : ∀ q ∈ g.queued, ∃ s, q.txn_id = "m" ++ s ∧ q.event_id = "$local-" ++ s
  queued_txn : ∀ q ∈ g.queued, ∀ q' ∈ g.queued, q.txn_id = q'.txn_id → q = q'
  one_shot : ∀ t ∈ g.oneShot, ∀ q ∈ g.queued, q.txn_id ≠ t
  stored_known : ∀ t id, g.stored t = some id → t ∈ g.oneShot ∨ ∃ q ∈ g.queued, q.txn_id = t
  stored_log : ∀ t id, g.stored t = some id → ∃ j ∈ g.log, wireId j = some id
  stored_inj : ∀ t t' id, g.stored t = some id → g.stored t' = some id → t = t'
  carried : ∀ q ∈ g.queued, ∀ id, g.stored q.txn_id = some id → ∀ j ev, WireEvent g.log j ev →
    ev.event_id = id → Carries g.mine q ev
  images : ∀ t ∈ g.oneShot, ∀ id, g.stored t = some id → ∀ j ev, WireEvent g.log j ev →
    ev.event_id = id → ev.event_type = "p.room.encrypted" → ∃ ct ∈ g.mine,
      ev.content = encryptedContent ct
  refs : ∀ s ∈ st.room_state.rows, ∃ j ∈ g.log, wireId j = some s.event_id
  pending : ∀ p ∈ st.pending_sends.rows, ∃ q ∈ g.queued, p.txn_id = q.txn_id ∧
    p.room_id = q.room_id ∧
    p.body = q.body ∧ p.event_id = q.event_id
  rows : ∀ k r, st.events.find k = some r → RowKind st g r
  sends : ∀ q ∈ g.queued, Progress st g q
  /-- no plaintext is ever cached for an image that this device encrypted -/
  unread : ∀ t ∈ g.oneShot, ∀ id, g.stored t = some id → ∀ r, st.events.find id = some r →
    r.decrypted = none

theorem wireId_of_parses {j : Json} {ev : StoredEvent} (h : StoredEvent.from_wire j = .ok ev) :
    wireId j = some ev.event_id := (StoredEvent.from_wire_ok.mp h).1

/-! ## What carries over -/

/-- A row keeps its kind when the ledger grows and no settled send is queued again. -/
theorem RowKind.mono {st st' : Store} {g g' : Ledger} {r : EventRow} (hr : RowKind st g r)
    (hlog : ∀ j ∈ g.log, j ∈ g'.log) (hqueued : ∀ q ∈ g.queued, q ∈ g'.queued)
    (hstored : ∀ t id, g.stored t = some id → g'.stored t = some id)
    (hpending : ∀ q ∈ g.queued, st.pending_sends.find q.txn_id = none →
      st'.pending_sends.find q.txn_id = none) : RowKind st' g' r := by
  rcases hr with ⟨q, hq, he, hecho⟩ | ⟨j, ev, hw, he, hroom, htype, hpay, hloc⟩ |
    ⟨q, hq, hs, hnone, hecho, hloc⟩
  · exact .echo q (hqueued q hq) he hecho
  · exact .wire j ev ⟨hlog j hw.mem, hw.parses⟩ he hroom htype hpay hloc
  · exact .promoted q (hqueued q hq) (hstored _ _ hs) (hpending q hq hnone) hecho hloc

/-- A send is where it was when neither its rows nor its transaction changed. -/
theorem Progress.mono {st st' : Store} {g g' : Ledger} {q : Queued} (hp : Progress st g q)
    (hpending : st'.pending_sends.find q.txn_id = st.pending_sends.find q.txn_id)
    (hecho : st'.events.find q.event_id = st.events.find q.event_id)
    (hstored : g'.stored q.txn_id = g.stored q.txn_id)
    (hreal : ∀ id r, g.stored q.txn_id = some id → st.events.find id = some r →
      st'.events.find id = some r) : Progress st' g' q := by
  rcases hp with ⟨p, r, h1, h2, h3, h4⟩ | ⟨id, r, h1, h2, h3, h4, h5, h6, h7⟩ |
    ⟨r, h1, h2, h3, h4, h5⟩
  · exact .waiting p r (hpending.trans h1) (hecho.trans h2) h3 h4
  · exact .settled id r (hpending.trans h1) (hstored.trans h2) (hecho.trans h3) (hreal id r h2 h4)
      h5 h6 h7
  · exact .dropped r (hpending.trans h1) (hstored.trans h2) (hecho.trans h3) h4 h5

namespace Consistent

variable {st : Store} {g : Ledger}

/-! ## First consequences -/

theorem echo_local (h : Consistent st g) {q : Queued} (hq : q ∈ g.queued) : IsLocal q.event_id := by
  obtain ⟨s, -, hs⟩ := h.queued_ids q hq
  exact ⟨s, hs⟩

/-- Two messages with one echo id are one. -/
theorem echo_inj (h : Consistent st g) {q q' : Queued} (hq : q ∈ g.queued) (hq' : q' ∈ g.queued)
    (he : q.event_id = q'.event_id) : q = q' := by
  obtain ⟨s, ht, hs⟩ := h.queued_ids q hq
  obtain ⟨s', ht', hs'⟩ := h.queued_ids q' hq'
  apply h.queued_txn q hq q' hq'
  rw [hs, hs'] at he
  have hss : s = s' := by
    apply String.toList_injective
    have hl := congrArg String.toList he
    simpa using hl
  rw [ht, ht', hss]

theorem wire_not_local (h : Consistent st g) {j : Json} {ev : StoredEvent}
    (hw : WireEvent g.log j ev) : ¬ IsLocal ev.event_id := by
  obtain ⟨ev', hev', hl⟩ := h.log_wire j hw.mem
  have hp := hw.parses
  rw [hev'] at hp
  cases hp
  exact hl

/-- Every stored transaction has its event in the log of the server. -/
theorem stored_event (h : Consistent st g) {t id : String} (ht : g.stored t = some id) :
    ∃ j ev, WireEvent g.log j ev ∧ ev.event_id = id := by
  obtain ⟨j, hj, hid⟩ := h.stored_log t id ht
  obtain ⟨ev, hev, -⟩ := h.log_wire j hj
  refine ⟨j, ev, ⟨hj, hev⟩, ?_⟩
  rw [wireId_of_parses hev] at hid
  exact Option.some.inj hid

theorem stored_not_local (h : Consistent st g) {t id : String} (ht : g.stored t = some id) :
    ¬ IsLocal id := by
  obtain ⟨j, ev, hw, rfl⟩ := h.stored_event ht
  exact h.wire_not_local hw

theorem stored_ne_echo (h : Consistent st g) {t id : String} (ht : g.stored t = some id)
    {q : Queued} (hq : q ∈ g.queued) : id ≠ q.event_id := by
  rintro rfl
  exact h.stored_not_local ht (h.echo_local hq)

/-- Every row reads back. -/
theorem readable (h : Consistent st g) {r : EventRow} (hr : r ∈ st.events.rows) :
    Store.Readable r := by
  rcases h.rows r.event_id r (Table.mem_rows_iff.mp hr) with ⟨q, _, _, he⟩ |
    ⟨j, ev, hw, hid, _, htype, hpay, _⟩ | ⟨q, _, _, _, he, _⟩
  · exact he.readable
  · exact ⟨ev, by rw [hpay]; exact hw.parses, hid.symm, htype.symm⟩
  · exact he.readable

/-- A row under an id of the log is the event of that id, or its promoted echo. -/
theorem row_of_stored (h : Consistent st g) {q : Queued} {id : String}
    (hs : g.stored q.txn_id = some id) {r : EventRow} (hr : st.events.find id = some r)
    (hwait : st.pending_sends.find q.txn_id ≠ none) :
    ∃ j ev, WireEvent g.log j ev ∧ ev.event_id = id ∧ r.room_id = ev.room_id ∧
      r.type = ev.event_type ∧ r.payload = j ∧ r.local_ = 0 := by
  have hid := Table.find_key hr
  rcases h.rows id r hr with ⟨q', hq', he, _⟩ | ⟨j, ev, hw, he, hroom, htype, hpay, hloc⟩ |
    ⟨q', hq', hst, hnone, _⟩
  · rw [hid] at he
    exact absurd he (h.stored_ne_echo hs hq')
  · exact ⟨j, ev, hw, by rw [← he, hid], hroom, htype, hpay, hloc⟩
  · rw [hid] at hst
    have htt := h.stored_inj _ _ _ hs hst
    rw [htt] at hwait
    exact absurd hnone hwait

/-! ## What moves the ledger alone -/

/-- New ciphertexts change nothing. -/
theorem made (h : Consistent st g) (ct : String) :
    Consistent st { g with mine := ct :: g.mine } := by
  have hcarry : ∀ q ev, Carries g.mine q ev → Carries (ct :: g.mine) q ev := by
    rintro q ev ⟨hroom, hplain | ⟨htype, ct', hct', hc⟩⟩
    · exact ⟨hroom, Or.inl hplain⟩
    · exact ⟨hroom, Or.inr ⟨htype, ct', List.mem_cons_of_mem _ hct', hc⟩⟩
  refine { h with carried := ?_, images := ?_, rows := ?_, sends := ?_ }
  · intro q hq id hs j ev hw he
    exact hcarry q ev (h.carried q hq id hs j ev hw he)
  · intro t ht id hs j ev hw he htype
    obtain ⟨ct', hct', hc⟩ := h.images t ht id hs j ev hw he htype
    exact ⟨ct', List.mem_cons_of_mem _ hct', hc⟩
  · intro k r hr
    exact (h.rows k r hr).mono (fun _ hj => hj) (fun _ hq => hq) (fun _ _ hs => hs)
      (fun _ _ hn => hn)
  · intro q hq
    exact (h.sends q hq).mono rfl rfl rfl (fun _ _ _ hr => hr)

/-- A one-shot id that is new. -/
theorem give_id (h : Consistent st g) {t : String} (hone : t ∉ g.oneShot)
    (hq : ∀ q ∈ g.queued, q.txn_id ≠ t) : Consistent st { g with oneShot := t :: g.oneShot } := by
  have hnone : ∀ id, g.stored t ≠ some id := by
    intro id hs
    rcases h.stored_known t id hs with ht | ⟨q, hmem, ht⟩
    · exact hone ht
    · exact hq q hmem ht
  refine { h with
    one_shot := ?_, stored_known := ?_, images := ?_, rows := ?_, sends := ?_, unread := ?_ }
  · intro t' ht' q hmem
    rcases List.mem_cons.mp ht' with rfl | ht'
    · exact hq q hmem
    · exact h.one_shot t' ht' q hmem
  · intro t' id hs
    rcases h.stored_known t' id hs with ht | hmem
    · exact Or.inl (List.mem_cons_of_mem _ ht)
    · exact Or.inr hmem
  · intro t' ht' id hs
    rcases List.mem_cons.mp ht' with rfl | ht'
    · exact absurd hs (hnone id)
    · exact h.images t' ht' id hs
  · intro k r hr
    exact (h.rows k r hr).mono (fun _ hj => hj) (fun _ hq => hq) (fun _ _ hs => hs)
      (fun _ _ hn => hn)
  · intro q hmem
    exact (h.sends q hmem).mono rfl rfl rfl (fun _ _ _ hr => hr)
  · intro t' ht' id hs
    rcases List.mem_cons.mp ht' with rfl | ht'
    · exact absurd hs (hnone id)
    · exact h.unread t' ht' id hs

/-- An event that the server has not had: it parses, under an id that is new. -/
structure Fresh (g : Ledger) (j : Json) (ev : StoredEvent) : Prop where
  parses : StoredEvent.from_wire j = .ok ev
  wire : ¬ IsLocal ev.event_id
  new : ∀ j' ∈ g.log, wireId j' ≠ some ev.event_id

end Consistent

/-- What may go out under a transaction: a queued message that waits, as its text or as
a ciphertext of this device, or a one-shot send. -/
inductive Sendable (st : Store) (g : Ledger) (txn_id : String) (ev : StoredEvent) : Prop
  | queued (q : Queued) : q ∈ g.queued → q.txn_id = txn_id →
      st.pending_sends.find txn_id ≠ none → Carries g.mine q ev → Sendable st g txn_id ev
  | oneShot : txn_id ∈ g.oneShot →
      (ev.event_type = "p.room.encrypted" → ∃ ct ∈ g.mine, ev.content = encryptedContent ct) →
      Sendable st g txn_id ev

namespace Consistent

variable {st : Store} {g : Ledger}

/-- The log and the row of a new id. -/
theorem no_row_of_fresh (h : Consistent st g) {j : Json} {ev : StoredEvent} (hf : Fresh g j ev)
    {r : EventRow} : st.events.find ev.event_id ≠ some r := by
  intro hr
  have hid := Table.find_key hr
  rcases h.rows _ r hr with ⟨q, hq, he, _⟩ | ⟨j', ev', hw, he, _⟩ | ⟨q, _, hs, _⟩
  · rw [hid] at he
    exact hf.wire (he ▸ h.echo_local hq)
  · rw [hid] at he
    exact hf.new j' hw.mem (he ▸ wireId_of_parses hw.parses)
  · rw [hid] at hs
    obtain ⟨j', hj', hid'⟩ := h.stored_log _ _ hs
    exact hf.new j' hj' hid'

/-- An event that someone else sends. -/
theorem append (h : Consistent st g) {j : Json} {ev : StoredEvent} (hf : Fresh g j ev) :
    Consistent st { g with log := g.log ++ [j] } := by
  have hmem : ∀ {j'}, j' ∈ g.log ++ [j] ↔ j' ∈ g.log ∨ j' = j := by simp
  have hold : ∀ {t id j' ev'}, g.stored t = some id → WireEvent (g.log ++ [j]) j' ev' →
      ev'.event_id = id → WireEvent g.log j' ev' := by
    intro t id j' ev' hs hw he
    rcases hmem.mp hw.mem with hj | rfl
    · exact ⟨hj, hw.parses⟩
    · obtain ⟨j'', hj'', hid⟩ := h.stored_log t id hs
      have hev : ev' = ev := by
        have hp := hw.parses
        rw [hf.parses] at hp
        exact (Except.ok.inj hp).symm
      rw [← he, hev] at hid
      exact absurd hid (hf.new j'' hj'')
  refine { h with
    log_wire := ?_, log_ids := ?_, stored_log := ?_, carried := ?_, images := ?_, refs := ?_
    rows := ?_, sends := ?_ }
  · intro j' hj'
    rcases hmem.mp hj' with hj' | rfl
    · exact h.log_wire j' hj'
    · exact ⟨ev, hf.parses, hf.wire⟩
  · intro j₁ h₁ j₂ h₂ hid
    have hnew := wireId_of_parses hf.parses
    rcases hmem.mp h₁ with old₁ | e₁ <;> rcases hmem.mp h₂ with old₂ | e₂
    · exact h.log_ids j₁ old₁ j₂ old₂ hid
    · rw [e₂] at hid
      exact absurd (hid.trans hnew) (hf.new j₁ old₁)
    · rw [e₁] at hid
      exact absurd (hid.symm.trans hnew) (hf.new j₂ old₂)
    · rw [e₁, e₂]
  · intro t id hs
    obtain ⟨j', hj', hid⟩ := h.stored_log t id hs
    exact ⟨j', hmem.mpr (Or.inl hj'), hid⟩
  · intro q hq id hs j' ev' hw he
    exact h.carried q hq id hs j' ev' (hold hs hw he) he
  · intro t ht id hs j' ev' hw he
    exact h.images t ht id hs j' ev' (hold hs hw he) he
  · intro s hs
    obtain ⟨j', hj', hid⟩ := h.refs s hs
    exact ⟨j', hmem.mpr (Or.inl hj'), hid⟩
  · intro k r hr
    exact (h.rows k r hr).mono (fun _ hj => hmem.mpr (Or.inl hj)) (fun _ hq => hq)
      (fun _ _ hs => hs) (fun _ _ hn => hn)
  · intro q hq
    exact (h.sends q hq).mono rfl rfl rfl (fun _ _ _ hr => hr)

/-- The server stores a transaction that it had not, under a new event. -/
theorem store (h : Consistent st g) {j : Json} {ev : StoredEvent} (hf : Fresh g j ev)
    {txn_id : String} (hnone : g.stored txn_id = none) (hsend : Sendable st g txn_id ev) :
    Consistent st { g with
      log := g.log ++ [j]
      stored := Function.update g.stored txn_id (some ev.event_id) } := by
  have hl := h.append hf
  have hold : ∀ {t id}, Function.update g.stored txn_id (some ev.event_id) t = some id →
      (t = txn_id ∧ id = ev.event_id) ∨ (t ≠ txn_id ∧ g.stored t = some id) := by
    intro t id hs
    by_cases ht : t = txn_id
    · subst ht
      rw [Function.update_self] at hs
      exact Or.inl ⟨rfl, (Option.some.inj hs).symm⟩
    · rw [Function.update_of_ne ht] at hs
      exact Or.inr ⟨ht, hs⟩
  have hkeep : ∀ {t id}, g.stored t = some id →
      Function.update g.stored txn_id (some ev.event_id) t = some id := by
    intro t id hs
    rw [Function.update_of_ne]
    · exact hs
    · rintro rfl
      rw [hnone] at hs
      cases hs
  have hnew : ∀ {t}, g.stored t ≠ some ev.event_id := by
    intro t hs
    obtain ⟨j', hj', hid⟩ := h.stored_log t _ hs
    exact hf.new j' hj' hid
  -- the event of the new id is the new one
  have hone : ∀ {j' ev'}, WireEvent (g.log ++ [j]) j' ev' → ev'.event_id = ev.event_id →
      ev' = ev := by
    intro j' ev' hw he
    rcases List.mem_append.mp hw.mem with hj | hj
    · exact absurd (he ▸ wireId_of_parses hw.parses) (hf.new j' hj)
    · rw [List.mem_singleton.mp hj] at hw
      have hp := hw.parses
      rw [hf.parses] at hp
      exact (Except.ok.inj hp).symm
  have hheld : ∀ q ∈ g.queued, q.txn_id = txn_id →
      Carries g.mine q ev ∧ st.pending_sends.find q.txn_id ≠ none := by
    intro q hq ht
    rcases hsend with ⟨q', hq', ht', hwait, hc⟩ | ⟨hmem, _⟩
    · obtain rfl : q = q' := h.queued_txn q hq q' hq' (ht.trans ht'.symm)
      exact ⟨hc, ht ▸ hwait⟩
    · exact absurd ht (h.one_shot txn_id hmem q hq)
  refine { hl with
    stored_known := ?_, stored_log := ?_, stored_inj := ?_, carried := ?_, images := ?_
    rows := ?_, sends := ?_, unread := ?_ }
  · intro t id hs
    rcases hold hs with ⟨rfl, _⟩ | ⟨_, hs⟩
    · rcases hsend with ⟨q, hq, ht, _⟩ | ⟨hmem, _⟩
      · exact Or.inr ⟨q, hq, ht⟩
      · exact Or.inl hmem
    · exact h.stored_known t id hs
  · intro t id hs
    rcases hold hs with ⟨_, rfl⟩ | ⟨_, hs⟩
    · exact ⟨j, List.mem_append_right _ (List.mem_singleton_self j), wireId_of_parses hf.parses⟩
    · exact hl.stored_log t id hs
  · intro t t' id hs hs'
    rcases hold hs with ⟨e₁, hid₁⟩ | ⟨_, old₁⟩ <;> rcases hold hs' with ⟨e₂, hid₂⟩ | ⟨_, old₂⟩
    · rw [e₁, e₂]
    · rw [hid₁] at old₂
      exact absurd old₂ hnew
    · rw [hid₂] at old₁
      exact absurd old₁ hnew
    · exact h.stored_inj t t' id old₁ old₂
  · intro q hq id hs j' ev' hw he
    rcases hold hs with ⟨ht, rfl⟩ | ⟨_, hs⟩
    · rw [hone hw he]
      exact (hheld q hq ht).1
    · exact hl.carried q hq id hs j' ev' hw he
  · intro t ht id hs j' ev' hw he htype
    rcases hold hs with ⟨rfl, rfl⟩ | ⟨_, hs⟩
    · rw [hone hw he] at htype ⊢
      rcases hsend with ⟨q, hq, htq, _⟩ | ⟨_, himage⟩
      · exact absurd htq (h.one_shot t ht q hq)
      · exact himage htype
    · exact hl.images t ht id hs j' ev' hw he htype
  · intro k r hr
    exact (hl.rows k r hr).mono (fun _ hj => hj) (fun _ hq => hq) (fun _ _ hs => hkeep hs)
      (fun _ _ hn => hn)
  · intro q hq
    by_cases ht : q.txn_id = txn_id
    · -- a message that waits goes on waiting
      have hwait := (hheld q hq ht).2
      rcases h.sends q hq with ⟨p, r, h1, h2, h3, h4⟩ | ⟨_, _, hn, _⟩ | ⟨_, hn, _⟩
      · exact .waiting p r h1 h2 h3 h4
      · exact absurd hn hwait
      · exact absurd hn hwait
    · exact (h.sends q hq).mono rfl rfl (Function.update_of_ne ht _ _) (fun _ _ _ hr => hr)
  · intro t ht id hs r hr
    rcases hold hs with ⟨_, rfl⟩ | ⟨_, hs⟩
    · exact absurd hr (h.no_row_of_fresh hf)
    · exact h.unread t ht id hs r hr

end Consistent

end PigeonMobile
