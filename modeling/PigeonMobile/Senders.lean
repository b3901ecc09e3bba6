-- The senders of one app run: any number of `flush_pending` and `send_message` calls, their
-- calls interleaved in any order, each of them possibly dropped while it awaits the lock or
-- an answer. `Trail` records what the client does not: who holds the lock, and how each
-- attempt to send ended.
import PigeonMobile.OutboxSends

namespace PigeonMobile

/-! ## What is recorded -/

/-- How an attempt to send a transaction ended. -/
inductive Ending where
  | answered (room_id : String) (answer : Except ApiError String)
  /-- its future was dropped -/
  | cancelled (room_id : String)
  /-- the send was marked failed -/
  | failed

/-- The transaction is acknowledged, rejected or failed. -/
def Ending.closes : Ending → Bool
  | .answered _ (.ok _) => true
  | .answered _ (.error err) => !err.is_transient
  | .cancelled _ => false
  | .failed => true

/-- The room that the transaction was sent to, where it was sent. -/
def Ending.sentTo : Ending → Option String
  | .answered room_id _ => some room_id
  | .cancelled room_id => some room_id
  | .failed => none

structure Attempt where
  txn_id : String
  ending : Ending
  /-- its pass held back a message of the room before -/
  overtakes : Bool

structure Trail where
  /-- who holds the send lock -/
  lock : Option Nat
  /-- the sends that were queued, the last one first -/
  given : List PendingRow
  /-- the attempts that ended, the last one first -/
  past : List Attempt
  /-- a closed transaction whose queue row the holder is about to erase -/
  settling : Option String
  /-- the rooms that the holder held a message back of -/
  held : List String

/-- What a call of task `i` adds. -/
def Trail.next (i : Nat) : (op : Op) → op.Choice → op.Res → Trail → Trail
  | .lock_send, _, _, t => { t with lock := some i, held := [] }
  | .unlock_send, _, _, t => { t with lock := if t.lock = some i then none else t.lock }
  | .queue_send room_id _ body, (_, ids, created_ts), .ok txn_id, t => { t with
      given := ⟨txn_id, room_id, body, ids.event_id, created_ts⟩ :: t.given }
  | .is_room_encrypted room_id, _, .ok true, t => { t with held := room_id :: t.held }
  | .api_send_event room_id _ txn_id _, _, answer, t => { t with
      past := ⟨txn_id, .answered room_id answer, decide (room_id ∈ t.held)⟩ :: t.past
      settling := if (Ending.answered room_id answer).closes then some txn_id else none }
  | .resolve_send _ _, _, _, t => { t with settling := none }
  | .fail_send txn_id, _, _, t => { t with
      past := ⟨txn_id, .failed, false⟩ :: t.past, settling := none }
  | _, _, _, t => t

/-- The calls that are awaited: only there can a future be dropped. -/
def Op.awaits : Op → Bool
  | .lock_send => true
  | .api_send_event _ _ _ _ => true
  | _ => false

/-- What a drop of task `i` adds. The guard of the lock goes with the future. -/
def Trail.dropped (i : Nat) : Op → Trail → Trail
  | .api_send_event room_id _ txn_id _, t => { t with
      past := ⟨txn_id, .cancelled room_id, decide (room_id ∈ t.held)⟩ :: t.past
      lock := if t.lock = some i then none else t.lock }
  | _, t => t

structure Senders (D : Type) where
  client : Client D
  trail : Trail

/-! ## The system -/

variable {D : Type} (X : PigeonCrypto D) (ordered : Prop)

/-- What the surroundings keep to: the lock is a mutex, the calls on the store succeed,
and the ids of a send are new. Where `ordered` holds, the queue is listed in the order
it was written in. -/
def SendRule (w : Senders D) : (op : Op) → op.Choice → op.Res → Prop
  | .lock_send, _, _ => w.trail.lock = none
  | .queue_send _ _ _, choice, r => (∃ txn_id, r = .ok txn_id) ∧
      choice.2.1.txn_id ∉ w.trail.given.map (·.txn_id) ∧
      (ordered → ∀ q ∈ w.trail.given, q.position < toLex (choice.2.2, choice.2.1.txn_id))
  | .pending_sends, _, r => ∃ sends, r = .ok sends
  | .is_room_encrypted _, _, r => ∃ encrypted, r = .ok encrypted
  | .resolve_send _ _, _, r => r = .ok ()
  | .fail_send _, _, r => r = .ok ()
  | _, _, _ => True

/-- One call of task `i`, or its drop. -/
def SendCall (i : Nat) (op : Op) (w : Senders D) (r : Option op.Res) (w' : Senders D) : Prop :=
  match r with
  | none => op.awaits = true ∧ w' = ⟨w.client, w.trail.dropped i op⟩
  | some r => ∃ choice, Client.perform X op choice w.client = (r, w'.client) ∧
      SendRule ordered w op choice r ∧ w'.trail = w.trail.next i op choice r

/-- Tasks start at any time. The rest of the app does anything but touch the queue. -/
def senders : Threaded Nat (Senders D) Op (fun op => Option op.Res) where
  call := SendCall X ordered
  start _ _ p := p = flush_pending.droppable.forget ∨
    ∃ room_id body, p = (send_message room_id body).droppable.forget
  drop _ _ _ := False
  env w w' := w'.trail = w.trail ∧
    w'.client.store.pending_sends = w.client.store.pending_sends
  restart _ _ := False

variable {X ordered} in
/-- A run goes on with the answer to a call of the only task. -/
theorem reaches_answer {c : Pool Nat (Senders D) Op (fun op => Option op.Res)} {i : Nat}
    {op : Op} {k : Option op.Res → Prog Op (fun op => Option op.Res) Unit} {w : Senders D}
    (h : (senders X ordered).Reaches c (Threaded.solo i (.call op k) w)) {r : op.Res}
    (w' : Senders D) (ha : ∃ choice, Client.perform X op choice w.client = (r, w'.client) ∧
      SendRule ordered w op choice r ∧ w'.trail = w.trail.next i op choice r) :
    (senders X ordered).Reaches c (Threaded.solo i (k (some r)) w') := h.call w' ha

/-- A client with any queue, and no task under way. -/
def Senders.start (c : Client D) : Senders D :=
  ⟨c, ⟨none, c.store.pending_sends.rows, [], none, []⟩⟩

/-- Task `i` has sent a transaction to its room, and no answer has come. -/
def InFlight (p : Pool Nat (Senders D) Op (fun op => Option op.Res)) (i : Nat)
    (room_id txn_id : String) : Prop :=
  ∃ event_type content k, p.threads i =
    some (.call (.api_send_event room_id event_type txn_id content) k)

/-! ## What the tasks rely on -/

/-- The queue row of a transaction. -/
abbrev Senders.row (w : Senders D) (txn_id : String) : Option PendingRow :=
  w.client.store.pending_sends.find txn_id

theorem Senders.row_of_queue {w w' : Senders D}
    (hs : w'.client.store.pending_sends = w.client.store.pending_sends) (t : String) :
    w'.row t = w.row t := by
  unfold Senders.row
  rw [hs]

theorem Senders.row_of_store {w w' : Senders D} (hs : w'.client.store = w.client.store)
    (t : String) : w'.row t = w.row t := Senders.row_of_queue (congrArg Store.pending_sends hs) t

theorem Senders.row_of_erase {w w' : Senders D} {s : String}
    (hs : w'.client.store.pending_sends = w.client.store.pending_sends.erase s) (t : String) :
    w'.row t = if t = s then none else w.row t := by
  unfold Senders.row
  rw [hs, Table.find_erase]

/-- The lock and the records of its holder stay, and the queue only grows at its end. -/
structure LeftAlone (w w' : Senders D) : Prop where
  lock : w'.trail.lock = w.trail.lock
  past : w'.trail.past = w.trail.past
  settling : w'.trail.settling = w.trail.settling
  held : w'.trail.held = w.trail.held
  rows : ∀ t q, w.row t = some q → w'.row t = some q
  newer : ordered → ∀ t q, w'.row t = some q →
    w.row t = some q ∨ ∀ t₀ q₀, w.row t₀ = some q₀ → q₀.position < q.position

/-- No earlier message of the room waits in the queue. -/
def FirstOfRoom (w : Senders D) (q : PendingRow) : Prop :=
  ∀ q₀ ∈ w.client.store.pending_sends.rows, q₀.room_id = q.room_id → ¬ q₀.position < q.position

/-- Task `i` may send the transaction: it holds the lock, and the transaction waits. It is
the first of its room just where the task held back no message of the room. -/
structure MaySend (i : Nat) (room_id txn_id : String) (w : Senders D) : Prop where
  lock : w.trail.lock = some i
  clear : w.trail.settling = none
  queued : ∃ q, w.row txn_id = some q ∧ q.room_id = room_id ∧
    (ordered → (FirstOfRoom w q ↔ room_id ∉ w.trail.held))

/-- The attempts on each room went in the order that its messages were written in, and
what waits was written after what was tried. -/
structure SentInOrder (w : Senders D) : Prop where
  waiting : ∀ a ∈ w.trail.past, ∀ room_id, a.ending.sentTo = some room_id →
    ∀ q ∈ w.trail.given, q.txn_id = a.txn_id →
    ∀ q' ∈ w.client.store.pending_sends.rows, q'.room_id = room_id → ¬ q'.position < q.position
  past : w.trail.past.Pairwise (fun later earlier => ∀ room_id,
    later.ending.sentTo = some room_id → earlier.ending.sentTo = some room_id →
    ∀ q ∈ w.trail.given, q.txn_id = later.txn_id → ∀ q' ∈ w.trail.given,
      q'.txn_id = earlier.txn_id →
    ¬ q.position < q'.position)

/-- What holds in every state: closed transactions are out of the queue, or about to be,
and nothing follows the attempt that closed one. -/
structure SendsOnce (w : Senders D) : Prop where
  given : ∀ t q, w.row t = some q → q ∈ w.trail.given
  names : (w.trail.given.map (·.txn_id)).Nodup
  tried : ∀ a ∈ w.trail.past, a.txn_id ∈ w.trail.given.map (·.txn_id)
  closed : ∀ a ∈ w.trail.past, a.ending.closes = true →
    w.row a.txn_id = none ∨ w.trail.settling = some a.txn_id
  settling : w.trail.settling ≠ none → w.trail.lock ≠ none
  once : w.trail.past.Pairwise (fun later earlier =>
    later.txn_id = earlier.txn_id → earlier.ending.closes = true → later.ending.sentTo = none)
  inOrder : ordered → (∀ a ∈ w.trail.past, a.overtakes = false) → SentInOrder w

theorem LeftAlone.refl (w : Senders D) : LeftAlone ordered w w :=
  ⟨rfl, rfl, rfl, rfl, fun _ _ h => h, fun _ _ _ h => Or.inl h⟩

variable {ordered}

theorem LeftAlone.trans {w₁ w₂ w₃ : Senders D} (h : LeftAlone ordered w₁ w₂)
    (h' : LeftAlone ordered w₂ w₃) : LeftAlone ordered w₁ w₃ := by
  refine ⟨h'.lock.trans h.lock, h'.past.trans h.past, h'.settling.trans h.settling,
    h'.held.trans h.held, fun t q hq => h'.rows t q (h.rows t q hq), ?_⟩
  intro ho t q hq
  rcases h'.newer ho t q hq with hq | hnew
  · exact h.newer ho t q hq
  · exact Or.inr (fun t₀ q₀ hq₀ => hnew t₀ q₀ (h.rows t₀ q₀ hq₀))

variable (ordered)

/-- The holder of the lock relies on the others to leave the queue alone, and only a
holder attempts a transaction. -/
def sendersContract : Contract Nat (Senders D) where
  inv := SendsOnce ordered
  rely i w w' := w.trail.lock = some i → LeftAlone ordered w w'
  give i w w' := (∀ j, j ≠ i → w.trail.lock = some j → LeftAlone ordered w w') ∧
    ∀ a room_id, w'.trail.past = a :: w.trail.past → a.ending.sentTo = some room_id →
      MaySend ordered i room_id a.txn_id w
  refl i w _ := LeftAlone.refl ordered w
  trans i w₁ w₂ w₃ h h' hl := by
    have h₁ := h hl
    exact h₁.trans (h' (h₁.lock.trans hl))
  frame i j w w' hij h := h.1 j (Ne.symm hij)

/-! ## The tasks, call by call -/

section Tasks

variable {X ordered} {i : Nat} {α β : Type}

/-- What the programs of the tasks must be: safe, whether they are dropped or end. -/
def Sends (X : PigeonCrypto D) (ordered : Prop) (i : Nat) (Q : α → Senders D → Prop) (p : Code α)
    (w : Senders D) : Prop := SafeDropped (sendersContract ordered) (SendCall X ordered) i Q p w

theorem Sends.done {Q : α → Senders D → Prop} {a : α} {w : Senders D} (h : Q a w) :
    Sends X ordered i Q (.done a) w := SafeDropped.done h

theorem Sends.bind {Q : β → Senders D → Prop} {p : Code α} {f : α → Code β} {w : Senders D}
    (h : Sends X ordered i (fun a w => Sends X ordered i Q (f a) w) p w) :
    Sends X ordered i Q (p.bind f) w := SafeDropped.bind h

/-- A call is safe where its drop is, and where each of its answers is. -/
theorem Sends.call {Q : α → Senders D → Prop} {op : Op} {k : op.Res → Code α} {w : Senders D}
    (h : ∀ w₁, (w.trail.lock = some i → LeftAlone ordered w w₁) → SendsOnce ordered w₁ →
      (op.awaits = true → SendsOnce ordered ⟨w₁.client, w₁.trail.dropped i op⟩ ∧
        (sendersContract ordered).give i w₁ ⟨w₁.client, w₁.trail.dropped i op⟩) ∧
      ∀ r w₂, SendCall X ordered i op w₁ (some r) w₂ → SendsOnce ordered w₂ ∧
        (sendersContract ordered).give i w₁ w₂ ∧ Sends X ordered i Q (k r) w₂) :
    Sends X ordered i Q (.call op k) w := by
  unfold Sends SafeDropped
  rw [Prog.droppable]
  intro w₁ hrely hinv r w₂ hc
  obtain ⟨hdrop, hk⟩ := h w₁ hrely hinv
  cases r with
  | none =>
    obtain ⟨hawaits, rfl⟩ := hc
    obtain ⟨h1, h2⟩ := hdrop hawaits
    refine ⟨h1, h2, ?_⟩
    intro a ha
    cases ha
  | some r => exact hk r w₂ hc

/-! ## Calls that leave the queue and the records alone -/

/-- The calls of the tasks that read, or only touch the engine. -/
def Op.aside : Op → Bool
  | .session => true
  | .e2ee => true
  | .has_group _ => true
  | .encrypt _ _ => true
  | .pending_sends => true
  | _ => false

structure Quiet (w w' : Senders D) : Prop where
  store : w'.client.store = w.client.store
  trail : w'.trail = w.trail

theorem quiet_call {op : Op} {w w' : Senders D} {r : op.Res} (hop : op.aside = true)
    (h : SendCall X ordered i op w (some r) w') : Quiet w w' := by
  obtain ⟨choice, hp, -, ht⟩ := h
  have hstore : Client.writesStore op = false → w'.client.store = w.client.store := by
    intro hw
    have h := Client.perform_store (X := X) hw choice w.client
    rw [hp] at h
    exact h
  cases op with
  | session | e2ee | has_group | encrypt | pending_sends => exact ⟨hstore rfl, ht⟩
  | _ => cases hop

theorem Quiet.leftAlone {w w' : Senders D} (h : Quiet w w') : LeftAlone ordered w w' := by
  obtain ⟨hs, ht⟩ := h
  have hrow : ∀ t, w'.row t = w.row t := Senders.row_of_store hs
  refine ⟨by rw [ht], by rw [ht], by rw [ht], by rw [ht], ?_, ?_⟩
  · intro t q hq
    rw [hrow]
    exact hq
  · intro _ t q hq
    rw [hrow] at hq
    exact Or.inl hq

/-- A step that adds no attempt gives the others what they rely on. -/
theorem give_of_same {w w' : Senders D} (hpast : w'.trail.past = w.trail.past)
    (hothers : ∀ j, j ≠ i → w.trail.lock = some j → LeftAlone ordered w w') :
    (sendersContract ordered).give i w w' := by
  refine ⟨hothers, ?_⟩
  intro a room_id ha
  rw [hpast] at ha
  exact absurd ha.symm (List.cons_ne_self a _)

/-- The order of the sends stays where no attempt and no message is added. -/
theorem SentInOrder.keep {w w' : Senders D} (h : SentInOrder w)
    (hrows : ∀ t q, w'.row t = some q → w.row t = some q)
    (hpast : w'.trail.past = w.trail.past) (hgiven : w'.trail.given = w.trail.given) :
    SentInOrder w' := by
  refine ⟨?_, ?_⟩
  · rw [hpast, hgiven]
    intro a ha room_id hroom q hq hqa q' hq' hq'room
    have hold := hrows _ q' (Table.mem_rows_iff.mp hq')
    exact h.waiting a ha room_id hroom q hq hqa q' (Table.find_some_iff.mp hold).1 hq'room
  · rw [hpast, hgiven]
    exact h.past

/-- A step that adds no attempt and no message. -/
theorem SendsOnce.keep {w w' : Senders D} (h : SendsOnce ordered w)
    (hrow : ∀ t, w'.row t = w.row t) (hpast : w'.trail.past = w.trail.past)
    (hgiven : w'.trail.given = w.trail.given) (hset : w'.trail.settling = w.trail.settling)
    (hlock : w'.trail.settling ≠ none → w'.trail.lock ≠ none) : SendsOnce ordered w' := by
  refine ⟨?_, ?_, ?_, ?_, hlock, ?_, ?_⟩
  · intro t q hq
    rw [hrow] at hq
    rw [hgiven]
    exact h.given t q hq
  · rw [hgiven]
    exact h.names
  · rw [hpast, hgiven]
    exact h.tried
  · intro a ha hc
    rw [hpast] at ha
    rw [hrow, hset]
    exact h.closed a ha hc
  · rw [hpast]
    exact h.once
  · intro ho hover
    rw [hpast] at hover
    apply (h.inOrder ho hover).keep _ hpast hgiven
    intro t q hq
    rw [hrow] at hq
    exact hq

theorem SendsOnce.same {w w' : Senders D} (h : SendsOnce ordered w)
    (hs : w'.client.store.pending_sends = w.client.store.pending_sends)
    (ht : w'.trail = w.trail) : SendsOnce ordered w' := by
  apply h.keep
  · exact Senders.row_of_queue hs
  · rw [ht]
  · rw [ht]
  · rw [ht]
  · rw [ht]
    exact h.settling

/-- A quiet call: it keeps what a task knows. -/
theorem Sends.quiet {Q : α → Senders D → Prop} {op : Op} {k : op.Res → Code α} {w : Senders D}
    (hop : op.aside = true)
    (hk : ∀ w₁ r w₂, (w.trail.lock = some i → LeftAlone ordered w w₁) →
      SendCall X ordered i op w₁ (some r) w₂ → Quiet w₁ w₂ →
      (w.trail.lock = some i → LeftAlone ordered w w₂) → Sends X ordered i Q (k r) w₂) :
    Sends X ordered i Q (.call op k) w := by
  have hwait : op.awaits = false := by cases op <;> first | rfl | cases hop
  apply Sends.call
  intro w₁ hrely hinv
  refine ⟨?_, ?_⟩
  · intro ha
    rw [hwait] at ha
    cases ha
  · intro r w₂ hc
    have hq := quiet_call hop hc
    refine ⟨hinv.same (by rw [hq.store]) hq.trail,
      give_of_same (by rw [hq.trail]) (fun _ _ _ => hq.leftAlone), ?_⟩
    exact hk w₁ r w₂ hrely hc hq (fun hl => (hrely hl).trans hq.leftAlone)

end Tasks

end PigeonMobile
