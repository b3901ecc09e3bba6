-- The device and its server as one system. Any number of sends, image sends and decrypt
-- passes run call by call in any order, sync delivers what the server has at any moment,
-- and the process may be cancelled or restarted. The send lock is what a flush relies on:
-- while it is held nobody else settles a queued message or sends it.
import PigeonMobile.LedgerStore
import PigeonMobile.Threads

namespace PigeonMobile

/-! ## The system -/

/-- The programs under way, by what they are. -/
inductive Actor where
  /-- `send_message`, or a flush of the sync loop -/
  | send (n : Nat)
  /-- `send_image` -/
  | image (n : Nat)
  /-- `process_inbound_mls` -/
  | pass (n : Nat)
  deriving DecidableEq

structure World (D : Type) where
  client : Client D
  ledger : Ledger
  /-- who holds the send lock -/
  lock : Option Actor

/-- The event that a `/send` makes of its transaction. -/
structure Makes (g : Ledger) (sender room_id event_type txn_id : String) (content j : Json)
    (ev : StoredEvent) : Prop where
  fresh : Consistent.Fresh g j ev
  unstored : g.stored txn_id = none
  sender : ev.sender = sender
  room : ev.room_id = room_id
  type : ev.event_type = event_type
  state_key : ev.state_key = none
  content : ev.content = content

def Ledger.put (g : Ledger) (txn_id : String) (j : Json) (ev : StoredEvent) : Ledger :=
  { g with log := g.log ++ [j], stored := Function.update g.stored txn_id (some ev.event_id) }

/-- What the server makes of a `/send`, and what comes back. It knows a transaction
again, an answer may get lost, and a rejection stores nothing. -/
inductive SendOutcome (sender room_id event_type txn_id : String) (content : Json) (g : Ledger) :
    Except ApiError String → Ledger → Prop
  | again {id : String} : g.stored txn_id = some id →
      SendOutcome sender room_id event_type txn_id content g (.ok id) g
  | stored {j : Json} {ev : StoredEvent} : Makes g sender room_id event_type txn_id content j ev →
      SendOutcome sender room_id event_type txn_id content g (.ok ev.event_id) (g.put txn_id j ev)
  | lost {j : Json} {ev : StoredEvent} {reason : String} :
      Makes g sender room_id event_type txn_id content j ev →
      SendOutcome sender room_id event_type txn_id content g (.error (.Network reason))
        (g.put txn_id j ev)
  | delayed {err : ApiError} : err.is_transient = true →
      SendOutcome sender room_id event_type txn_id content g (.error err) g
  | rejected {err : ApiError} : err.is_transient = false → g.stored txn_id = none →
      SendOutcome sender room_id event_type txn_id content g (.error err) g

/-- What the server, the clock and the engine may do in a call, and what the ledger
records of it. The ids that the client generates are new. Encrypting for the queue does
not fail, and the engine cannot decrypt what it encrypted. -/
def Rule (i : Actor) (session : Session) (g : Ledger) :
    (op : Op) → op.Choice → op.Res → Ledger → Prop
  | .queue_send room_id _ body, choice, r, g' =>
    (∃ ts n, choice.2.1 = next_send_ids ts n) ∧ Json.inI64 choice.2.2 = true ∧
    (∀ q ∈ g.queued, q.txn_id ≠ choice.2.1.txn_id) ∧ choice.2.1.txn_id ∉ g.oneShot ∧
    match r with
    | .ok txn_id =>
      g' = { g with queued := g.queued ++ [⟨txn_id, room_id, body, choice.2.1.event_id⟩] }
    | .error _ => g' = g
  | .next_txn_id, _, txn_id, g' =>
    txn_id ∉ g.oneShot ∧ (∀ q ∈ g.queued, q.txn_id ≠ txn_id) ∧
      g' = { g with oneShot := txn_id :: g.oneShot }
  | .has_group _, _, r, g' => (∀ n, i = .send n → ∃ held, r = .ok held) ∧ g' = g
  | .encrypt _ _, _, .ok ciphertext, g' => g' = { g with mine := ciphertext :: g.mine }
  | .encrypt _ _, _, .error _, g' => (∀ n, i ≠ .send n) ∧ g' = g
  | .decrypt _ ciphertext, _, r, g' => (ciphertext ∈ g.mine → ∃ e, r = .error e) ∧ g' = g
  | .api_send_event room_id event_type txn_id content, _, r, g' =>
    SendOutcome session.user_id room_id event_type txn_id content g r g'
  | _, _, _, g' => g' = g

/-- A mutex: it is taken when it is free, and given back by its holder. -/
def LockRule (i : Actor) : Op → Option Actor → Option Actor → Prop
  | .lock_send, l, l' => l = none ∧ l' = some i
  | .unlock_send, l, l' => l' = if l = some i then none else l
  | _, l, l' => l' = l

variable {D : Type} (X : PigeonCrypto D)

/-- One call of one program. -/
def OutboxCall (i : Actor) (op : Op) (w : World D) (r : op.Res) (w' : World D) : Prop :=
  ∃ choice, Client.perform X op choice w.client = (r, w'.client) ∧
    Rule i w.client.session w.ledger op choice r w'.ledger ∧ LockRule i op w.lock w'.lock

/-- What moves beside the programs: sync delivers events that the server has, someone
else sends an event, and the rest of the client works on its engine. -/
inductive Surroundings : World D → World D → Prop
  | deliver {w : World D} {batch : List Json} {fault : Fault} : (∀ j ∈ batch, j ∈ w.ledger.log) →
      Surroundings w { w with client := (Client.perform X (.apply_events batch) fault w.client).2 }
  | arrive {w : World D} {j : Json} {ev : StoredEvent} : Consistent.Fresh w.ledger j ev →
      Surroundings w { w with ledger := { w.ledger with log := w.ledger.log ++ [j] } }
  | work {w : World D} {e2ee : Option D} {key_store : Option KeyMap} :
      Surroundings w { w with client := { w.client with e2ee, key_store } }

def outbox : Threaded Actor (World D) Op Op.Res where
  call := OutboxCall X
  start i _ p :=
    match i with
    | .send _ => p = flush_pending.forget ∨ ∃ room_id body, p = (send_message room_id body).forget
    | .image _ => ∃ room_id bytes mimetype width height caption,
        p = (send_image room_id bytes mimetype width height caption).forget
    | .pass _ => p = process_inbound_mls.forget
  drop i w w' := w' = { w with lock := if w.lock = some i then none else w.lock }
  env := Surroundings X
  restart w w' := ∃ c, c.store = w.client.store ∧ w' = { w with client := c, lock := none }

/-- A client on a fresh store, with nothing sent. -/
def World.start (c : Client D) : World D :=
  ⟨{ c with store := Store.init }, ⟨[], fun _ => none, [], [], []⟩, none⟩

/-! ## What the programs rely on -/

/-- The ledger only grows, and a new event of this device has a new id. -/
structure Ledger.Grows (g g' : Ledger) : Prop where
  log : ∀ j ∈ g.log, j ∈ g'.log
  queued : ∀ q ∈ g.queued, q ∈ g'.queued
  oneShot : ∀ t ∈ g.oneShot, t ∈ g'.oneShot
  mine : ∀ ct ∈ g.mine, ct ∈ g'.mine
  stored : ∀ t id, g'.stored t = some id → g.stored t = some id ∨ ∀ j ∈ g.log, wireId j ≠ some id

theorem Ledger.Grows.refl (g : Ledger) : g.Grows g :=
  ⟨fun _ h => h, fun _ h => h, fun _ h => h, fun _ h => h, fun _ _ h => Or.inl h⟩

theorem Ledger.Grows.trans {g₁ g₂ g₃ : Ledger} (h : g₁.Grows g₂) (h' : g₂.Grows g₃) :
    g₁.Grows g₃ := by
  refine ⟨fun j hj => h'.log j (h.log j hj), fun q hq => h'.queued q (h.queued q hq),
    fun t ht => h'.oneShot t (h.oneShot t ht), fun ct hct => h'.mine ct (h.mine ct hct), ?_⟩
  intro t id hs
  rcases h'.stored t id hs with hs | hnew
  · exact h.stored t id hs
  · exact Or.inr (fun j hj => hnew j (h.log j hj))

/-- Nobody sends or settles a queued message. -/
def Undisturbed (w w' : World D) : Prop :=
  ∀ q ∈ w.ledger.queued, w'.ledger.stored q.txn_id = w.ledger.stored q.txn_id ∧
    (w.client.store.pending_sends.find q.txn_id ≠ none →
      w'.client.store.pending_sends.find q.txn_id ≠ none)

theorem Undisturbed.trans {w₁ w₂ w₃ : World D} (h : Undisturbed w₁ w₂)
    (hg : w₁.ledger.Grows w₂.ledger) (h' : Undisturbed w₂ w₃) : Undisturbed w₁ w₃ := by
  intro q hq
  obtain ⟨h1, h2⟩ := h q hq
  obtain ⟨h3, h4⟩ := h' q (hg.queued q hq)
  exact ⟨h3.trans h1, fun hp => h4 (h2 hp)⟩

/-- The tables agree with the ledger. The holder of the lock relies on the others to
leave the queue alone. -/
def outboxContract : Contract Actor (World D) where
  inv w := Consistent w.client.store w.ledger
  rely i w w' := w.ledger.Grows w'.ledger ∧ (w.lock = some i → w'.lock = some i ∧ Undisturbed w w')
  give i w w' := w.ledger.Grows w'.ledger ∧
    ∀ j, j ≠ i → w.lock = some j → w'.lock = some j ∧ Undisturbed w w'
  refl i w := ⟨Ledger.Grows.refl _, fun hl => ⟨hl, fun _ _ => ⟨rfl, fun h => h⟩⟩⟩
  trans i w₁ w₂ w₃ h h' := by
    refine ⟨h.1.trans h'.1, fun hl => ?_⟩
    obtain ⟨hl₂, h₂⟩ := h.2 hl
    obtain ⟨hl₃, h₃⟩ := h'.2 hl₂
    exact ⟨hl₃, h₂.trans h.1 h₃⟩
  frame i j w w' hij h := ⟨h.1, h.2 j (Ne.symm hij)⟩

end PigeonMobile
