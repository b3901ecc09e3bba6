-- What the server sees of the sends of one app run: no transaction is under way twice, none
-- follows its end, and a room's messages go out in order just where their pass held back no
-- earlier one of the room.
import PigeonMobile.SenderPasses
import PigeonMobile.EpochGroup

namespace PigeonMobile

variable {D : Type} {X : PigeonCrypto D} {ordered : Prop}

/-! ## A transmission under way -/

/-- A task that has sent a transaction was allowed to, and still is. -/
theorem in_flight_may_send {c : Client D} {p : Pool Nat (Senders D) Op (fun op => Option op.Res)}
    (hr : (senders X ordered).Reaches (Threaded.idle (Senders.start c)) p) {i : Nat}
    {room_id txn_id : String} (hi : InFlight p i room_id txn_id) :
    MaySend ordered i room_id txn_id p.state := by
  obtain ⟨hinv, hsafe⟩ := Threaded.holds _ (senders_keep X ordered) (start_sends_once ordered c) hr
  obtain ⟨event_type, content, k, hk⟩ := hi
  -- its answer may get lost: the records of that attempt are what the contract speaks of
  let answer : Except ApiError String := .error (.Network "")
  let op : Op := .api_send_event room_id event_type txn_id content
  have hcall : SendCall X ordered i op p.state (some answer)
      ⟨p.state.client, p.state.trail.next i op answer answer⟩ := ⟨answer, rfl, trivial, rfl⟩
  obtain ⟨-, hgive, -⟩ := hsafe i _ hk p.state ((sendersContract ordered).refl i _) hinv
    (some answer) _ hcall
  exact hgive.2 ⟨txn_id, .answered room_id answer, decide (room_id ∈ p.state.trail.held)⟩ room_id
    rfl rfl

/-- However the flushes and the sends overlap, a transaction has one transmission under way
at most, and each attempt comes after attempts that were cancelled or failed for now. -/
theorem no_transaction_is_sent_after_its_end (X : PigeonCrypto D) (c : Client D)
    (p : Pool Nat (Senders D) Op (fun op => Option op.Res))
    (hr : (senders X False).Reaches (Threaded.idle (Senders.start c)) p) :
    (∀ i j room_id room_id' txn_id, InFlight p i room_id txn_id → InFlight p j room_id' txn_id →
      i = j) ∧
    (∀ i room_id txn_id, InFlight p i room_id txn_id →
      ∀ a ∈ p.state.trail.past, a.txn_id = txn_id → a.ending.closes = false) ∧
    p.state.trail.past.Pairwise (fun later earlier => later.txn_id = earlier.txn_id →
      later.ending.sentTo ≠ none → earlier.ending.closes = false) := by
  have hinv := Threaded.invariant _ (senders_keep X False) (start_sends_once False c) hr
  refine ⟨?_, ?_, ?_⟩
  · intro i j room_id room_id' txn_id hi hj
    have hli := (in_flight_may_send hr hi).lock
    have hlj := (in_flight_may_send hr hj).lock
    rw [hli] at hlj
    exact Option.some.inj hlj
  · rintro i room_id txn_id hi a ha rfl
    have hmay := in_flight_may_send hr hi
    obtain ⟨q, hq, -, -⟩ := hmay.queued
    by_contra hc
    rw [Bool.not_eq_false] at hc
    rcases hinv.closed a ha hc with hn | hn
    · rw [hn] at hq
      cases hq
    · rw [hmay.clear] at hn
      cases hn
  · apply hinv.once.imp
    intro later earlier h he hsent
    by_contra hc
    rw [Bool.not_eq_false] at hc
    exact hsent (h he hc)

/-! ## A lost answer -/

/-- A client with one message in its queue. -/
def waitingClient : Client Copies :=
  { freshClient with store := { Store.init with
      pending_sends := Table.empty.insertNew ⟨"m0", "!room", "hi", "$l0", 0⟩ } }

def lostAnswer : Except ApiError String := .error (.Network "timed out")

/-- After its first attempt. -/
def lostTrail : Trail :=
  ⟨none, waitingClient.store.pending_sends.rows,
    [⟨"m0", .answered "!room" lostAnswer, false⟩], none, []⟩

/-- The first flush, and the second one up to its transmission. -/
theorem second_flush (ordered : Prop) : ∃ p, (senders epochCrypto ordered).Reaches
    (Threaded.idle (Senders.start waitingClient)) p ∧ InFlight p 1 "!room" "m0" ∧
    p.state.trail.past = lostTrail.past := by
  let S := senders epochCrypto ordered
  let start : Trail := (Senders.start waitingClient).trail
  have h0 : S.Reaches (Threaded.idle (Senders.start waitingClient))
    (Threaded.idle (Senders.start waitingClient)) := Relation.ReflTransGen.refl
  have h1 := h0.start 0 flush_pending.droppable.forget (Or.inl rfl)
  have h2 := reaches_answer h1 ⟨waitingClient, { start with lock := some 0 }⟩
    ⟨Fault.none, rfl, rfl, rfl⟩
  have h3 := reaches_answer h2 ⟨waitingClient, { start with lock := some 0 }⟩
    ⟨Fault.none, rfl, ⟨_, rfl⟩, rfl⟩
  have h4 := reaches_answer h3 ⟨waitingClient, { start with lock := some 0 }⟩
    ⟨Fault.none, rfl, trivial, rfl⟩
  have h5 := reaches_answer h4 ⟨waitingClient, { start with lock := some 0 }⟩
    ⟨Fault.none, rfl, trivial, rfl⟩
  have h6 := reaches_answer h5 ⟨waitingClient, { start with lock := some 0 }⟩
    ⟨Fault.none, rfl, ⟨false, rfl⟩, rfl⟩
  have h7 := reaches_answer h6 ⟨waitingClient, { lostTrail with lock := some 0 }⟩
    ⟨lostAnswer, rfl, trivial, rfl⟩
  have h8 := reaches_answer h7 ⟨waitingClient, lostTrail⟩ ⟨Fault.none, rfl, trivial, rfl⟩
  have h9 := h8.finish
  have h10 := h9.start 1 flush_pending.droppable.forget (Or.inl rfl)
  have h11 := reaches_answer h10 ⟨waitingClient, { lostTrail with lock := some 1 }⟩
    ⟨Fault.none, rfl, rfl, rfl⟩
  have h12 := reaches_answer h11 ⟨waitingClient, { lostTrail with lock := some 1 }⟩
    ⟨Fault.none, rfl, ⟨_, rfl⟩, rfl⟩
  have h13 := reaches_answer h12 ⟨waitingClient, { lostTrail with lock := some 1 }⟩
    ⟨Fault.none, rfl, trivial, rfl⟩
  have h14 := reaches_answer h13 ⟨waitingClient, { lostTrail with lock := some 1 }⟩
    ⟨Fault.none, rfl, trivial, rfl⟩
  have h15 := reaches_answer h14 ⟨waitingClient, { lostTrail with lock := some 1 }⟩
    ⟨Fault.none, rfl, ⟨false, rfl⟩, rfl⟩
  exact ⟨_, h15, ⟨_, _, _, Threaded.solo_threads _⟩, rfl⟩

/-- The message is sent again after a lost answer. -/
theorem no_transaction_is_sent_after_its_end_hi :
    ∃ p, InFlight (D := Copies) p 1 "!room" "m0" ∧ p.state.trail.past = lostTrail.past ∧
      ∀ a ∈ p.state.trail.past, a.txn_id = "m0" → a.ending.closes = false := by
  obtain ⟨p, hr, hflight, hpast⟩ := second_flush False
  exact ⟨p, hflight, hpast, (no_transaction_is_sent_after_its_end epochCrypto waitingClient p
    hr).2.1 1 "!room" "m0" hflight⟩

/-! ## The order of a room -/

/-- Where the queue is listed as it was written, a message goes out before every other one
of its room that waits, just where its pass held back none of the room. Where that was so
at each attempt, each room's messages went out in order. -/
theorem a_room_is_sent_in_order_iff (X : PigeonCrypto D) (c : Client D)
    (p : Pool Nat (Senders D) Op (fun op => Option op.Res))
    (hr : (senders X True).Reaches (Threaded.idle (Senders.start c)) p) :
    (∀ i room_id txn_id, InFlight p i room_id txn_id → ∃ q, p.state.row txn_id = some q ∧
      q.room_id = room_id ∧ (FirstOfRoom p.state q ↔ room_id ∉ p.state.trail.held)) ∧
    ((∀ a ∈ p.state.trail.past, a.overtakes = false) → SentInOrder p.state) := by
  have hinv := Threaded.invariant _ (senders_keep X True) (start_sends_once True c) hr
  refine ⟨?_, hinv.inOrder trivial⟩
  intro i room_id txn_id hi
  obtain ⟨q, hq, hroom, hfirst⟩ := (in_flight_may_send hr hi).queued
  exact ⟨q, hq, hroom, hfirst trivial⟩

/-- The message that is sent again is the first of its room. -/
theorem a_room_is_sent_in_order_iff_hi :
    ∃ p q, InFlight (D := Copies) p 1 "!room" "m0" ∧ p.state.row "m0" = some q ∧
      (FirstOfRoom p.state q ↔ "!room" ∉ p.state.trail.held) := by
  obtain ⟨p, hr, hflight, -⟩ := second_flush True
  obtain ⟨q, hq, -, hiff⟩ := (a_room_is_sent_in_order_iff epochCrypto waitingClient p hr).1
    1 "!room" "m0" hflight
  exact ⟨p, q, hflight, hq, hiff⟩

/-! ## A group that is joined during a pass -/

/-- Two messages of an encrypted room whose group is not there yet, and one of another
room between them. -/
def heldClient : Client Copies :=
  { freshClient with store := { Store.init with
      room_state := Table.empty.upsert ⟨"!room", "p.room.encryption", "", "$enc", 1⟩ (fun _ => true)
      pending_sends := ((Table.empty.insertNew ⟨"m0", "!room", "first", "$l0", 0⟩).insertNew
        ⟨"m1", "!town", "aside", "$l1", 1⟩).insertNew ⟨"m2", "!room", "second", "$l2", 2⟩ } }

/-- The sync loop has joined the group. -/
def joinedClient : Client Copies :=
  { heldClient with e2ee := some (Copies.set Table.empty "!room" 0) }

def townAnswer : Except ApiError String := .ok "$town"

/-- The message of the other room is acknowledged. -/
def townClient : Client Copies :=
  (Client.local_ epochCrypto (.resolve_send "m1" "$town") joinedClient).2

/-- The second message of the room is encrypted. -/
def overtakingClient : Client Copies :=
  (Client.local_ epochCrypto (.encrypt "!room" "second") townClient).2

/-- Its pass has held back the first message of the room. -/
def heldTrail : Trail := ⟨some 0, heldClient.store.pending_sends.rows, [], none, ["!room"]⟩

def townTrail : Trail := { heldTrail with past := [⟨"m1", .answered "!town" townAnswer, false⟩] }

/-- The second message of the room goes out while the first one waits. -/
theorem a_held_message_is_overtaken : ¬ ∀ (c : Client Copies)
    (p : Pool Nat (Senders Copies) Op (fun op => Option op.Res)),
    (senders epochCrypto True).Reaches (Threaded.idle (Senders.start c)) p →
    ∀ i room_id txn_id, InFlight p i room_id txn_id →
      ∀ q, p.state.row txn_id = some q → FirstOfRoom p.state q := by
  intro h
  let S := senders epochCrypto True
  have h0 : S.Reaches (Threaded.idle (Senders.start heldClient))
    (Threaded.idle (Senders.start heldClient)) := Relation.ReflTransGen.refl
  have h1 := h0.start 0 flush_pending.droppable.forget (Or.inl rfl)
  have h2 := reaches_answer h1 ⟨heldClient, { heldTrail with held := [] }⟩
    ⟨Fault.none, rfl, rfl, rfl⟩
  have h3 := reaches_answer h2 ⟨heldClient, { heldTrail with held := [] }⟩
    ⟨Fault.none, rfl, ⟨_, rfl⟩, rfl⟩
  -- the first message is held back
  have h4 := reaches_answer h3 ⟨heldClient, { heldTrail with held := [] }⟩
    ⟨Fault.none, rfl, trivial, rfl⟩
  have h5 := reaches_answer h4 ⟨heldClient, { heldTrail with held := [] }⟩
    ⟨Fault.none, rfl, trivial, rfl⟩
  have h6 := reaches_answer h5 ⟨heldClient, heldTrail⟩ ⟨Fault.none, rfl, ⟨true, rfl⟩, rfl⟩
  -- the message of the other room is sent, and the group is joined before its answer
  have h7 := reaches_answer h6 ⟨heldClient, heldTrail⟩ ⟨Fault.none, rfl, trivial, rfl⟩
  have h8 := reaches_answer h7 ⟨heldClient, heldTrail⟩ ⟨Fault.none, rfl, trivial, rfl⟩
  have h9 := reaches_answer h8 ⟨heldClient, heldTrail⟩ ⟨Fault.none, rfl, ⟨false, rfl⟩, rfl⟩
  have h10 := h9.env_during ⟨joinedClient, heldTrail⟩ ⟨rfl, rfl⟩
  have h11 := reaches_answer h10 ⟨joinedClient, { townTrail with settling := some "m1" }⟩
    ⟨townAnswer, rfl, trivial, rfl⟩
  have h12 := reaches_answer h11 ⟨townClient, townTrail⟩ ⟨Fault.none, rfl, rfl, rfl⟩
  -- the second message is encrypted and sent
  have h13 := reaches_answer h12 ⟨townClient, townTrail⟩ ⟨Fault.none, rfl, trivial, rfl⟩
  have h14 := reaches_answer h13 ⟨townClient, townTrail⟩ ⟨Fault.none, rfl, trivial, rfl⟩
  have h15 := reaches_answer h14 ⟨overtakingClient, townTrail⟩ ⟨Fault.none, rfl, trivial, rfl⟩
  have hfirst := h heldClient _ h15 0 "!room" "m2" ⟨_, _, _, Threaded.solo_threads _⟩ _ rfl
  have hearlier : (⟨"m0", "!room", "first", "$l0", 0⟩ : PendingRow) ∈
      overtakingClient.store.pending_sends.rows := List.mem_cons_self
  exact hfirst _ hearlier rfl (Prod.Lex.left _ _ (by decide))

end PigeonMobile
