-- The sends of the outbox are safe call by call: the flush, under the lock, settles each
-- queued message as the server answered, and a one-shot send touches no queued message.
import PigeonMobile.Outbox

namespace PigeonMobile

variable {D : Type} {X : PigeonCrypto D} {i : Actor}

/-! ## Calls that change neither the tables nor the ledger -/

/-- The calls whose only effect is in memory, on the engine, or at the server. -/
def Op.still : Op → Bool
  | .lock_send => false
  | .unlock_send => false
  | .next_txn_id => false
  | .encrypt _ _ => false
  | .api_send_event _ _ _ _ => false
  | op => !Client.writesStore op

structure Still (w w' : World D) : Prop where
  store : w'.client.store = w.client.store
  ledger : w'.ledger = w.ledger
  lock : w'.lock = w.lock

theorem call_still {op : Op} {w w' : World D} {r : op.Res} (hop : op.still = true)
    (h : OutboxCall X i op w r w') : Still w w' := by
  obtain ⟨choice, hp, hr, hl⟩ := h
  have hstore : Client.writesStore op = false → w'.client.store = w.client.store := by
    intro hw
    have h := Client.perform_store (X := X) hw choice w.client
    rw [hp] at h
    exact h
  cases op with
  | lock_send | unlock_send | next_txn_id | encrypt | api_send_event | save_sync_token
  | apply_events | queue_send | resolve_send | fail_send | set_decrypted | set_decrypt_failed
  | set_commit_processed => cases hop
  | has_group room_id => exact ⟨hstore rfl, hr.2, hl⟩
  | decrypt room_id ct => exact ⟨hstore rfl, hr.2, hl⟩
  | load_sync_token | pending_sends | has_pending_send | is_room_encrypted | pending_mls | session
  | e2ee | create_group | add_member | process_commit | join_from_welcome | encrypt_media
  | key_packages | last_resort_key_package | signature_public_key_b64 | api_logout | api_sync
  | api_messages | api_invite | api_query_keys | api_claim_keys | api_upload_keys
  | api_send_to_device | api_upload_media | ks_delete | on_status | on_change | sleep =>
    exact ⟨hstore rfl, hr, hl⟩

/-- Calls that leave the queue alone keep the invariant and what the others rely on. -/
theorem keep_of {w w' : World D} (hinv : Consistent w'.client.store w'.ledger)
    (hg : w.ledger.Grows w'.ledger) (hl : w'.lock = w.lock) (hu : Undisturbed w w') :
    outboxContract.inv w' ∧ outboxContract.give i w w' :=
  ⟨hinv, hg, fun _ _ hj => ⟨hl.trans hj, hu⟩⟩

theorem Still.keep {w w' : World D} (h : Still w w') (hinv : outboxContract.inv w) :
    outboxContract.inv w' ∧ outboxContract.give i w w' := by
  obtain ⟨hs, hg, hl⟩ := h
  refine keep_of ?_ ?_ hl ?_
  · rw [hs, hg]
    exact hinv
  · rw [hg]
    exact Ledger.Grows.refl _
  · intro q _
    rw [hs, hg]
    exact ⟨rfl, fun h => h⟩

/-- What the programs of the outbox must be. -/
abbrev Keeping {α : Type} (X : PigeonCrypto D) (i : Actor) (Q : α → World D → Prop) (p : Code α)
    (w : World D) : Prop := Safe outboxContract (OutboxCall X) i Q p w

/-- What a program knows, where the others cannot take it away. -/
def Lasting (i : Actor) (P : World D → Prop) : Prop :=
  ∀ w w', outboxContract.rely i w w' → P w → P w'

/-- A still call: what the program knows lasts over it. -/
theorem keeping_still {α : Type} {Q : α → World D → Prop} {op : Op} {k : op.Res → Code α}
    {P : World D → Prop} {w : World D} (hop : op.still = true) (hP : Lasting i P)
    (hstill : ∀ w w', Still w w' → P w → P w') (hw : P w)
    (hk : ∀ w₁ r w₂, outboxContract.inv w₁ → OutboxCall X i op w₁ r w₂ → Still w₁ w₂ → P w₁ → P w₂ →
      Keeping X i Q (k r) w₂) : Keeping X i Q (.call op k) w := by
  intro w₁ hrely hinv r w₂ hc
  have hs := call_still hop hc
  have h₁ := hP w w₁ hrely hw
  obtain ⟨hinv', hgive⟩ := hs.keep hinv
  exact ⟨hinv', hgive, hk w₁ r w₂ hinv hc hs h₁ (hstill w₁ w₂ hs h₁)⟩

/-- The same for a program that knows nothing yet. -/
theorem keeping_call {α : Type} {Q : α → World D → Prop} {op : Op} {k : op.Res → Code α}
    {w : World D} (hop : op.still = true)
    (hk : ∀ w₁ r w₂, outboxContract.inv w₁ → OutboxCall X i op w₁ r w₂ → Still w₁ w₂ →
      Keeping X i Q (k r) w₂) : Keeping X i Q (.call op k) w :=
  keeping_still (P := fun _ => True) hop (fun _ _ _ _ => trivial) (fun _ _ _ _ => trivial) trivial
    (fun w₁ r w₂ hinv hc hs _ _ => hk w₁ r w₂ hinv hc hs)

/-! ## The flush -/

/-- A send read from the queue that is still in it. -/
def Waits (w : World D) (send : PendingSend) : Prop :=
  ∃ q ∈ w.ledger.queued, q.txn_id = send.txn_id ∧ q.room_id = send.room_id ∧ q.body = send.body ∧
    w.client.store.pending_sends.find send.txn_id ≠ none

/-- The pass holds the lock, and the sends that it has yet to do are queued. -/
structure Working (i : Actor) (rest : List PendingSend) (w : World D) : Prop where
  lock : w.lock = some i
  waits : ∀ send ∈ rest, Waits w send

theorem working_lasting (i : Actor) (rest : List PendingSend) :
    Lasting i (Working (D := D) i rest) := by
  intro w w' hrely h
  obtain ⟨hl, hu⟩ := hrely.2 h.lock
  refine ⟨hl, ?_⟩
  intro send hmem
  obtain ⟨q, hq, ht, hr, hb, hp⟩ := h.waits send hmem
  refine ⟨q, hrely.1.queued q hq, ht, hr, hb, ?_⟩
  rw [← ht] at hp ⊢
  exact (hu q hq).2 hp

theorem Working.still {rest : List PendingSend} {w w' : World D} (hs : Still w w')
    (h : Working i rest w) : Working i rest w' := by
  obtain ⟨hst, hg, hl⟩ := hs
  refine ⟨hl.trans h.lock, ?_⟩
  intro send hmem
  unfold Waits
  rw [hst, hg]
  exact h.waits send hmem

theorem Working.mono {rest rest' : List PendingSend} {w : World D} (h : Working i rest w)
    (hsub : ∀ s ∈ rest', s ∈ rest) : Working i rest' w :=
  ⟨h.lock, fun s hs => h.waits s (hsub s hs)⟩

/-- The holder of the lock may settle and send what is queued: nobody else holds it. -/
theorem keep_holder {w w' : World D} (hl : w.lock = some i)
    (hinv : Consistent w'.client.store w'.ledger) (hg : w.ledger.Grows w'.ledger) :
    outboxContract.inv w' ∧ outboxContract.give i w w' := by
  refine ⟨hinv, hg, ?_⟩
  intro j hij hj
  rw [hl] at hj
  exact absurd (Option.some.inj hj).symm hij

/-- A send leaves the queue, the others stay in it. -/
theorem waits_erase {w w' : World D} {send send' : PendingSend} (hg : w'.ledger = w.ledger)
    (hp : w'.client.store.pending_sends = w.client.store.pending_sends ∨
      w'.client.store.pending_sends = w.client.store.pending_sends.erase send.txn_id)
    (hne : send'.txn_id ≠ send.txn_id) (h : Waits w send') : Waits w' send' := by
  obtain ⟨q, hq, ht, hr, hb, hpend⟩ := h
  refine ⟨q, by rw [hg]; exact hq, ht, hr, hb, ?_⟩
  rcases hp with hp | hp
  · rw [hp]
    exact hpend
  · rw [hp, Table.find_erase, if_neg hne]
    exact hpend

theorem resolve_pending {st st' : Store} {txn real : String}
    (h : st.resolve_send txn real = .ok st') :
    st'.pending_sends = st.pending_sends.erase txn := by
  unfold Store.resolve_send at h
  split at h
  · cases h
    rfl
  · split at h
    · cases h
    split at h <;> cases h <;> rfl

theorem fail_pending (st : Store) (txn : String) :
    (st.fail_send txn).pending_sends = st.pending_sends.erase txn := by
  unfold Store.fail_send
  split <;> rfl

/-- The pass knows what the server made of a send. -/
structure Answered (i : Actor) (rest : List PendingSend) (send : PendingSend) (o : Option String)
    (w : World D) : Prop where
  working : Working i rest w
  queued : ∃ q ∈ w.ledger.queued, q.txn_id = send.txn_id
  stored : w.ledger.stored send.txn_id = o

theorem answered_lasting (i : Actor) (rest : List PendingSend) (send : PendingSend)
    (o : Option String) : Lasting i (Answered (D := D) i rest send o) := by
  intro w w' hrely h
  obtain ⟨q, hq, ht⟩ := h.queued
  refine ⟨working_lasting i rest w w' hrely h.working, ⟨q, hrely.1.queued q hq, ht⟩, ?_⟩
  have hu := ((hrely.2 h.working.lock).2 q hq).1
  rw [ht] at hu
  exact hu.trans h.stored

variable {rest : List PendingSend} {send : PendingSend}

/-- What a store method does to the world, in a call that the ledger does not record. -/
theorem store_call {β : Type} {fault : Fault} {w w' : World D}
    {f : Store → Except StoreError (β × Store)} {r : Except CoreError β}
    (hp : w.client.onStore fault f = (r, w'.client)) (hg : w'.ledger = w.ledger)
    (hl : w'.lock = w.lock) : ((∃ e, r = .error e) ∧ Still w w') ∨
      ∃ b, f w.client.store = .ok (b, w'.client.store) ∧ r = .ok b := by
  rcases Client.onStore_cases hp with ⟨e, rfl, hc⟩ | ⟨b, st, hf, rfl, hc⟩
  · exact Or.inl ⟨⟨e, rfl⟩, by rw [hc], hg, hl⟩
  · refine Or.inr ⟨b, ?_, rfl⟩
    rw [hf, hc]

/-- An acknowledged send is settled. -/
theorem keeping_resolve {Q : Except CoreError Flushed → World D → Prop} {id : String} {w : World D}
    (hw : Answered i rest send (some id) w) (hne : ∀ s ∈ rest, s.txn_id ≠ send.txn_id)
    (hQ : ∀ r w', Working i rest w' → Q r w') :
    Keeping X i Q (.call (.resolve_send send.txn_id id) fun
      | .error e => .done (.error e)
      | .ok () => .done (.ok .settled)) w := by
  rintro w₁ hrely hinv r w₂ ⟨choice, hp, hg, hl⟩
  have h₁ := answered_lasting i rest send (some id) w w₁ hrely hw
  have hp' : w₁.client.onStore choice (fun st => (st.resolve_send send.txn_id id).map ((), ·)) =
      (r, w₂.client) := hp
  rcases store_call hp' hg hl with ⟨⟨e, rfl⟩, hs⟩ | ⟨u, hf, rfl⟩
  · obtain ⟨hinv', hgive⟩ := hs.keep hinv
    exact ⟨hinv', hgive, hQ _ _ (h₁.working.still hs)⟩
  · obtain ⟨q, hq, ht⟩ := h₁.queued
    have hst : w₁.client.store.resolve_send send.txn_id id = .ok w₂.client.store := by
      cases hr : w₁.client.store.resolve_send send.txn_id id with
      | error e =>
        rw [hr] at hf
        cases hf
      | ok st =>
        rw [hr] at hf
        cases hf
        rfl
    have hinv' : Consistent w₂.client.store w₂.ledger := by
      rw [show w₂.ledger = w₁.ledger from hg]
      have hstored : w₁.ledger.stored q.txn_id = some id := by
        rw [ht]
        exact h₁.stored
      exact hinv.resolve hq hstored (by rw [ht]; exact hst)
    have hkeep := keep_holder h₁.working.lock hinv' (by
      rw [show w₂.ledger = w₁.ledger from hg]
      exact Ledger.Grows.refl _)
    refine ⟨hkeep.1, hkeep.2, hQ _ _ ⟨hl.trans h₁.working.lock, ?_⟩⟩
    intro s hs
    exact waits_erase hg (Or.inr (resolve_pending hst)) (hne s hs) (h₁.working.waits s hs)

/-- A send that the server does not have is failed. -/
theorem keeping_settle_failed {Q : Except CoreError Flushed → World D → Prop} {w : World D}
    (hw : Answered i rest send none w) (hne : ∀ s ∈ rest, s.txn_id ≠ send.txn_id)
    (hQ : ∀ r w', Working i rest w' → Q r w') :
    Keeping X i Q (settle_failed send.txn_id) w := by
  rintro w₁ hrely hinv r w₂ ⟨choice, hp, hg, hl⟩
  have h₁ := answered_lasting i rest send none w w₁ hrely hw
  have hp' : w₁.client.onStore choice (fun st => .ok ((), st.fail_send send.txn_id)) =
      (r, w₂.client) := hp
  rcases store_call hp' hg hl with ⟨⟨e, rfl⟩, hs⟩ | ⟨u, hf, rfl⟩
  · obtain ⟨hinv', hgive⟩ := hs.keep hinv
    exact ⟨hinv', hgive, hQ _ _ (h₁.working.still hs)⟩
  · obtain ⟨q, hq, ht⟩ := h₁.queued
    have hst : w₂.client.store = w₁.client.store.fail_send send.txn_id := by
      simp only [Except.ok.injEq, Prod.mk.injEq] at hf
      exact hf.2.symm
    have hinv' : Consistent w₂.client.store w₂.ledger := by
      rw [show w₂.ledger = w₁.ledger from hg, hst, ← ht]
      apply hinv.fail hq
      rw [ht]
      exact h₁.stored
    have hkeep := keep_holder h₁.working.lock hinv' (by
      rw [show w₂.ledger = w₁.ledger from hg]
      exact Ledger.Grows.refl _)
    refine ⟨hkeep.1, hkeep.2, hQ _ _ ⟨hl.trans h₁.working.lock, ?_⟩⟩
    intro s hs
    refine waits_erase hg (Or.inr ?_) (hne s hs) (h₁.working.waits s hs)
    rw [hst]
    exact fail_pending _ _

/-! ## Requests -/

theorem put_grows {g : Ledger} {sender room_id event_type txn_id : String} {content j : Json}
    {ev : StoredEvent} (hm : Makes g sender room_id event_type txn_id content j ev) :
    g.Grows (g.put txn_id j ev) := by
  refine ⟨fun j hj => List.mem_append_left _ hj, fun _ h => h, fun _ h => h, fun _ h => h, ?_⟩
  intro t id hs
  by_cases ht : t = txn_id
  · subst ht
    simp only [Ledger.put, Function.update_self, Option.some.injEq] at hs
    rw [← hs]
    exact Or.inr hm.fresh.new
  · simp only [Ledger.put, Function.update_of_ne ht] at hs
    exact Or.inl hs

/-- A `/send` of something that may go out keeps the tables and the ledger consistent. -/
theorem sendOutcome_keeps {st : Store} {g g' : Ledger} {sender room_id event_type txn_id : String}
    {content : Json} {r : Except ApiError String} (h : Consistent st g)
    (ho : SendOutcome sender room_id event_type txn_id content g r g')
    (hsend : ∀ ev : StoredEvent, ev.room_id = room_id → ev.event_type = event_type →
      ev.content = content → Sendable st g txn_id ev) :
    Consistent st g' ∧ g.Grows g' ∧
      (∀ t, t ≠ txn_id → g'.stored t = g.stored t) ∧ g'.queued = g.queued ∧
      (∀ id, r = .ok id → g'.stored txn_id = some id) ∧
      (∀ err, r = .error err → err.is_transient = false → g'.stored txn_id = none) := by
  have hput : ∀ {j : Json} {ev : StoredEvent},
      Makes g sender room_id event_type txn_id content j ev →
      Consistent st (g.put txn_id j ev) ∧ g.Grows (g.put txn_id j ev) ∧
      (∀ t, t ≠ txn_id → (g.put txn_id j ev).stored t = g.stored t) ∧
      (g.put txn_id j ev).queued = g.queued ∧
      (g.put txn_id j ev).stored txn_id = some ev.event_id := by
    intro j ev hm
    refine ⟨h.store hm.fresh hm.unstored (hsend ev hm.room hm.type hm.content), put_grows hm, ?_,
      rfl, Function.update_self _ _ _⟩
    intro t ht
    exact Function.update_of_ne ht _ _
  cases ho with
  | again hs =>
    refine ⟨h, Ledger.Grows.refl g, fun _ _ => rfl, rfl, ?_, fun err he => by cases he⟩
    intro id hid
    cases hid
    exact hs
  | stored hm =>
    obtain ⟨h1, h2, h3, h4, h5⟩ := hput hm
    refine ⟨h1, h2, h3, h4, ?_, fun err he => by cases he⟩
    intro id hid
    cases hid
    exact h5
  | lost hm =>
    obtain ⟨h1, h2, h3, h4, h5⟩ := hput hm
    refine ⟨h1, h2, h3, h4, fun id hid => (by cases hid), ?_⟩
    intro err he htr
    cases he
    cases htr
  | delayed htr =>
    refine ⟨h, Ledger.Grows.refl g, fun _ _ => rfl, rfl, fun id hid => (by cases hid), ?_⟩
    intro err he htr'
    cases he
    rw [htr] at htr'
    cases htr'
  | rejected htr hs =>
    refine ⟨h, Ledger.Grows.refl g, fun _ _ => rfl, rfl, fun id hid => (by cases hid), ?_⟩
    intro err he _
    exact hs

/-- What the flush may put on the wire for a send. -/
def Wire (w : World D) (send : PendingSend) (event_type : String) (content : Json) : Prop :=
  (event_type = "p.room.message" ∧ content = textContent send.body) ∨
    (event_type = "p.room.encrypted" ∧ ∃ ct ∈ w.ledger.mine, content = encryptedContent ct)

theorem keeping_transmit {Q : Except CoreError Flushed → World D → Prop} {event_type : String}
    {content : Json} {w : World D} (hw : Working i (send :: rest) w)
    (hwire : Wire w send event_type content) (hne : ∀ s ∈ rest, s.txn_id ≠ send.txn_id)
    (hQ : ∀ r w', Working i rest w' → Q r w') :
    Keeping X i Q (transmit send event_type content) w := by
  rintro w₁ hrely hinv r w₂ ⟨choice, hp, hg, hl⟩
  have h₁ := working_lasting i (send :: rest) w w₁ hrely hw
  have hc : w₂.client = w₁.client := (congrArg Prod.snd hp).symm
  obtain ⟨q, hq, ht, hroom, hbody, hpend⟩ := h₁.waits send List.mem_cons_self
  obtain ⟨hinv', hgrows, hother, hqueued, hok, herr⟩ := sendOutcome_keeps hinv hg (by
    intro ev hevr hevt hevc
    refine .queued q hq ht hpend ⟨by rw [hevr, hroom], ?_⟩
    rcases hwire with ⟨htype, hcont⟩ | ⟨htype, ct, hct, hcont⟩
    · exact Or.inl ⟨hevt.trans htype, by rw [hevc, hcont, hbody]⟩
    · exact Or.inr ⟨hevt.trans htype, ct, hrely.1.mine ct hct, hevc.trans hcont⟩)
  have hinv₂ : Consistent w₂.client.store w₂.ledger := by
    rw [hc]
    exact hinv'
  obtain ⟨hk₁, hk₂⟩ := keep_holder h₁.lock hinv₂ hgrows
  refine ⟨hk₁, hk₂, ?_⟩
  have h₂ : Working i rest w₂ := by
    refine ⟨hl.trans h₁.lock, ?_⟩
    intro s hs
    unfold Waits
    rw [hc, hqueued]
    exact h₁.waits s (List.mem_cons_of_mem _ hs)
  have hq₂ : ∃ q ∈ w₂.ledger.queued, q.txn_id = send.txn_id := ⟨q, by rw [hqueued]; exact hq, ht⟩
  rcases r with err | id
  · dsimp only
    split
    · exact hQ _ _ h₂
    · next htr =>
      refine keeping_settle_failed ⟨h₂, hq₂, ?_⟩ hne hQ
      exact herr err rfl (by simpa using htr)
  · exact keeping_resolve ⟨h₂, hq₂, hok id rfl⟩ hne hQ

/-- The engine makes a ciphertext: it is one that this device cannot read back. -/
theorem encrypt_keep {room_id plaintext : String} {w w' : World D} {r : Except CoreError String}
    (hinv : outboxContract.inv w) (hc : OutboxCall X i (.encrypt room_id plaintext) w r w') :
    outboxContract.inv w' ∧ outboxContract.give i w w' ∧ w.ledger.Grows w'.ledger ∧
      w'.client.store = w.client.store ∧ w'.ledger.queued = w.ledger.queued ∧ w'.lock = w.lock ∧
      (∀ ct, r = .ok ct → ct ∈ w'.ledger.mine) ∧ ((∃ n, i = .send n) → ∃ ct, r = .ok ct) := by
  obtain ⟨choice, hp, hr, hl⟩ := hc
  have hst : w'.client.store = w.client.store := by
    have hquiet : Client.writesStore (.encrypt room_id plaintext) = false := rfl
    have h := Client.perform_store (X := X) hquiet choice w.client
    rw [hp] at h
    exact h
  rcases r with e | ct
  · obtain ⟨hsend, hg⟩ := hr
    obtain ⟨h1, h2⟩ := (⟨hst, hg, hl⟩ : Still w w').keep hinv (i := i)
    refine ⟨h1, h2, ?_, hst, by rw [hg], hl, fun ct h => (by cases h), ?_⟩
    · rw [hg]
      exact Ledger.Grows.refl _
    · rintro ⟨n, hn⟩
      exact absurd hn (hsend n)
  · have hg : w'.ledger = { w.ledger with mine := ct :: w.ledger.mine } := hr
    have hgrows : w.ledger.Grows w'.ledger := by
      rw [hg]
      exact ⟨fun _ h => h, fun _ h => h, fun _ h => h, fun _ h => List.mem_cons_of_mem _ h,
        fun _ _ h => Or.inl h⟩
    have hinv' : Consistent w'.client.store w'.ledger := by
      rw [hst, hg]
      exact Consistent.made hinv ct
    obtain ⟨h1, h2⟩ := keep_of (i := i) hinv' hgrows hl (by
      intro q _
      rw [hst, hg]
      exact ⟨rfl, fun h => h⟩)
    refine ⟨h1, h2, hgrows, hst, by rw [hg], hl, ?_, fun _ => ⟨ct, rfl⟩⟩
    intro ct' h
    cases h
    rw [hg]
    exact List.mem_cons_self

section Flush

variable {n : Nat}

/-- Encrypting for the queue gives no error, and a ciphertext is one of this device. -/
theorem keeping_encrypt_for_send {room_id body : String} {sends : List PendingSend} {w : World D}
    {Q : Except CoreError (Option String) → World D → Prop} (hw : Working (.send n) sends w)
    (hnone : ∀ w', Working (.send n) sends w' → Q (.ok none) w')
    (hsome : ∀ w' ct, Working (.send n) sends w' → ct ∈ w'.ledger.mine → Q (.ok (some ct)) w') :
    Keeping X (.send n) Q (encrypt_for_send room_id body) w := by
  refine keeping_still rfl (working_lasting _ sends) (fun _ _ hs h => h.still hs) hw ?_
  intro w₁ engine w₂ _ _ _ _ h₂
  cases engine with
  | false => exact hnone w₂ h₂
  | true =>
    refine keeping_still rfl (working_lasting _ sends) (fun _ _ hs h => h.still hs) h₂ ?_
    rintro w₃ held w₄ _ ⟨choice, _, ⟨hheld, _⟩, _⟩ _ _ h₄
    obtain ⟨b, rfl⟩ := hheld n rfl
    cases b with
    | false => exact hnone w₄ h₄
    | true =>
      intro w₅ hrely hinv r w₆ hc
      have h₅ := working_lasting _ sends w₄ w₅ hrely h₄
      obtain ⟨h1, h2, _, hst, hqueued, hl, hct, hok⟩ := encrypt_keep hinv hc
      refine ⟨h1, h2, ?_⟩
      obtain ⟨ct, rfl⟩ := hok ⟨n, rfl⟩
      refine hsome w₆ ct ⟨hl.trans h₅.lock, ?_⟩ (hct ct rfl)
      intro s hs
      unfold Waits
      rw [hst, hqueued]
      exact h₅.waits s hs

theorem keeping_flush_one {send : PendingSend} {rest : List PendingSend} {w : World D}
    {Q : Except CoreError Flushed → World D → Prop} (hw : Working (.send n) (send :: rest) w)
    (hne : ∀ s ∈ rest, s.txn_id ≠ send.txn_id) (hQ : ∀ r w', Working (.send n) rest w' → Q r w') :
    Keeping X (.send n) Q (flush_one send) w := by
  apply Safe.bind
  refine keeping_encrypt_for_send hw ?_ ?_
  · intro w' hw'
    refine keeping_still rfl (working_lasting _ _) (fun _ _ hs h => h.still hs) hw' ?_
    intro w₁ r w₂ _ _ _ _ h₂
    have hrest : Working (.send n) rest w₂ := h₂.mono (fun s hs => List.mem_cons_of_mem _ hs)
    rcases r with e | _ | _
    · exact hQ _ _ hrest
    · exact keeping_transmit h₂ (Or.inl ⟨rfl, rfl⟩) hne hQ
    · exact hQ _ _ hrest
  · intro w' ct hw' hct
    exact keeping_transmit hw' (Or.inr ⟨rfl, ct, hct, rfl⟩) hne hQ

/-- The pass over the queue, each send of it once. -/
theorem keeping_flush_sends {sends : List PendingSend} {changed : Bool} {w : World D}
    {Q : Except CoreError Bool → World D → Prop} (hw : Working (.send n) sends w)
    (hnodup : (sends.map (·.txn_id)).Nodup) (hQ : ∀ r w', w'.lock = some (.send n) → Q r w') :
    Keeping X (.send n) Q (flush_sends sends changed) w := by
  induction sends generalizing changed w with
  | nil => exact hQ _ _ hw.lock
  | cons send rest ih =>
    simp only [List.map_cons, List.nodup_cons, List.mem_map, not_exists, not_and] at hnodup
    apply Safe.bind
    refine keeping_flush_one hw (fun s hs he => hnodup.1 s hs he) ?_
    intro r w' hw'
    rcases r with e | flushed
    · exact hQ _ _ hw'.lock
    · cases flushed with
      | held => exact ih hw' hnodup.2
      | stop => exact hQ _ _ hw'.lock
      | settled => exact ih hw' hnodup.2

theorem pending_txns_nodup (st : Store) : (st.pending_sends_list.map (·.txn_id)).Nodup := by
  have hperm : (st.pending_sends_list.map (·.txn_id)).Perm
      (st.pending_sends.rows.map PendingRow.txn_id) := by
    unfold Store.pending_sends_list
    rw [List.map_map]
    exact (List.perm_insertionSort _ _).map _
  exact hperm.nodup_iff.mpr st.pending_sends.nodup

/-- Giving the lock back. -/
theorem keeping_unlock {α : Type} {a : α} {w : World D} (hl : w.lock = some i) :
    Keeping X i (fun _ _ => True) (.call .unlock_send fun _ => .done a) w := by
  rintro w₁ hrely hinv r w₂ ⟨choice, hp, hg, hlock⟩
  have hl₁ := (hrely.2 hl).1
  have hc : w₂.client = w₁.client := (congrArg Prod.snd hp).symm
  have hg' : w₂.ledger = w₁.ledger := hg
  have hinv₂ : Consistent w₂.client.store w₂.ledger := by
    rw [hc, hg']
    exact hinv
  obtain ⟨h1, h2⟩ := keep_holder hl₁ hinv₂ (by rw [hg']; exact Ledger.Grows.refl _)
  exact ⟨h1, h2, trivial⟩

theorem keeping_flush_pending {w : World D} :
    Keeping X (.send n) (fun _ _ => True) flush_pending w := by
  rintro w₁ hrely hinv r w₂ ⟨choice, hp, hg, hfree, hl⟩
  have hc : w₂.client = w₁.client := (congrArg Prod.snd hp).symm
  have hg' : w₂.ledger = w₁.ledger := hg
  have hinv₂ : Consistent w₂.client.store w₂.ledger := by
    rw [hc, hg']
    exact hinv
  refine ⟨hinv₂, ⟨by rw [hg']; exact Ledger.Grows.refl _, ?_⟩, ?_⟩
  · intro j _ hj
    rw [hfree] at hj
    cases hj
  have h₂ : Working (.send n) [] w₂ := ⟨hl, fun s hs => absurd hs List.not_mem_nil⟩
  refine keeping_still rfl (working_lasting _ []) (fun _ _ hs h => h.still hs) h₂ ?_
  rintro w₃ r w₄ hinv₃ ⟨choice, hp, _, _⟩ hs h₃ h₄
  have hp' : w₃.client.onStore choice (fun st => .ok (st.pending_sends_list, st)) =
      (r, w₄.client) := hp
  obtain ⟨-, ⟨e, rfl⟩ | rfl⟩ := Client.exec_read hp'
  · exact keeping_unlock h₄.lock
  · apply Safe.bind
    refine keeping_flush_sends (Q := fun r w' => Keeping X (.send n) (fun _ _ => True)
      (.call .unlock_send fun _ => .done r) w') ⟨h₄.lock, ?_⟩ (pending_txns_nodup _) ?_
    · -- what the queue holds was queued
      intro send hsend
      obtain ⟨p, hmem, rfl⟩ := (Store.mem_pending_sends_list _).mp hsend
      obtain ⟨q, hq, ht, hr, hb, -⟩ := hinv₃.pending p hmem
      refine ⟨q, by rw [hs.ledger]; exact hq, ht.symm, hr.symm, hb.symm, ?_⟩
      rw [hs.store, Table.mem_rows_iff.mp hmem]
      exact Option.some_ne_none p
    · intro r w' hl'
      exact keeping_unlock hl'

/-- A message enters the queue. -/
theorem queue_send_keep {room_id sender body : String} {w w' : World D}
    {r : Except CoreError String}
    (hinv : outboxContract.inv w) (hc : OutboxCall X i (.queue_send room_id sender body) w r w') :
    outboxContract.inv w' ∧ outboxContract.give i w w' := by
  obtain ⟨⟨fault, ids, ts⟩, hp, ⟨⟨ts₀, k, hids⟩, hts, hfree, hone, hr⟩, hl⟩ := hc
  have hp' : w.client.onStore fault (fun st => st.queue_send room_id sender body ids ts) =
      (r, w'.client) := hp
  rcases Client.onStore_cases hp' with ⟨e, rfl, hcl⟩ | ⟨txn, st, hf, rfl, hcl⟩
  · have hg : w'.ledger = w.ledger := hr
    exact (⟨by rw [hcl], hg, hl⟩ : Still w w').keep hinv
  · obtain ⟨rfl, depth, hdepth, hev, hpend, hst⟩ := Store.queue_send_ok _ hf
    have hg : w'.ledger = { w.ledger with
        queued := w.ledger.queued ++ [⟨ids.txn_id, room_id, body, ids.event_id⟩] } := hr
    have hids' : ids = next_send_ids ts₀ k := hids
    have htxn : ids.txn_id = "m" ++ (toString ts₀ ++ "-" ++ toString k) := by
      rw [hids']
      simp only [next_send_ids, String.append_assoc]
    have hecho : ids.event_id = "$local-" ++ (toString ts₀ ++ "-" ++ toString k) := by
      rw [hids']
      simp only [next_send_ids, String.append_assoc]
    have hstore : w'.client.store = st := by rw [hcl]
    have hinv' : Consistent w'.client.store w'.ledger := by
      rw [hstore, hst, hg]
      exact Consistent.queue (q := ⟨ids.txn_id, room_id, body, ids.event_id⟩) hinv hts hdepth htxn
        hecho hfree hone hev hpend
    refine keep_of hinv' ?_ hl ?_
    · rw [hg]
      exact ⟨fun _ h => h, fun _ h => List.mem_append_left _ h, fun _ h => h, fun _ h => h,
        fun _ _ h => Or.inl h⟩
    · intro q hq
      refine ⟨by rw [hg], fun hn => ?_⟩
      rw [hstore, hst]
      simp only
      rw [Table.find_insertNew, if_neg (Ne.symm (hfree q hq))]
      exact hn

theorem keeping_send_message {room_id body : String} {w : World D} :
    Keeping X (.send n) (fun _ _ => True) (send_message room_id body) w := by
  refine keeping_call rfl ?_
  intro _ session w₁ _ _ _ w₂ _ hinv r w₃ hc
  obtain ⟨h1, h2⟩ := queue_send_keep hinv hc
  refine ⟨h1, h2, ?_⟩
  rcases r with e | txn
  · trivial
  · apply Safe.bind
    refine Safe.mono ?_ keeping_flush_pending
    rintro (e | changed) w' _ <;> trivial

end Flush

/-! ## Image sends -/

/-- What a one-shot send may carry: ciphertext of this device, where it is encrypted. -/
def Sealed (event_type : String) (content : Json) (w : World D) : Prop :=
  event_type = "p.room.encrypted" → ∃ ct ∈ w.ledger.mine, content = encryptedContent ct

theorem sealed_grows {event_type : String} {content : Json} {w w' : World D}
    (hg : w.ledger.Grows w'.ledger) (h : Sealed event_type content w) :
    Sealed event_type content w' := by
  intro htype
  obtain ⟨ct, hct, hc⟩ := h htype
  exact ⟨ct, hg.mine ct hct, hc⟩

/-- A one-shot send, under an id of its own. -/
theorem keeping_send_event {room_id event_type : String} {content : Json} {w : World D}
    (hw : Sealed event_type content w) :
    Keeping X i (fun _ _ => True) (send_event room_id event_type content) w := by
  rintro w₁ hrely hinv txn_id w₂ ⟨choice, hp, ⟨hone, hq, hg⟩, hl⟩
  have hc : w₂.client = w₁.client := (congrArg Prod.snd hp).symm
  have hgrows : w₁.ledger.Grows w₂.ledger := by
    rw [hg]
    exact ⟨fun _ h => h, fun _ h => h, fun _ h => List.mem_cons_of_mem _ h, fun _ h => h,
      fun _ _ h => Or.inl h⟩
  have hinv₂ : Consistent w₂.client.store w₂.ledger := by
    rw [hc, hg]
    exact Consistent.give_id hinv hone hq
  obtain ⟨h1, h2⟩ := keep_of (i := i) hinv₂ hgrows hl (by
    intro q _
    rw [hc, hg]
    exact ⟨rfl, fun h => h⟩)
  refine ⟨h1, h2, ?_⟩
  have hmem : txn_id ∈ w₂.ledger.oneShot := by
    rw [hg]
    exact List.mem_cons_self
  have hsealed : Sealed event_type content w₂ := sealed_grows (hrely.1.trans hgrows) hw
  rintro w₃ hrely₃ hinv₃ r w₄ ⟨choice₄, hp₄, hr₄, hl₄⟩
  have hc₄ : w₄.client = w₃.client := (congrArg Prod.snd hp₄).symm
  have hmem₃ := hrely₃.1.oneShot txn_id hmem
  have hsealed₃ : Sealed event_type content w₃ := sealed_grows hrely₃.1 hsealed
  obtain ⟨hinv', hgrows', hother, hqueued, -, -⟩ := sendOutcome_keeps hinv₃ hr₄ (by
    intro ev _ hevt hevc
    refine .oneShot hmem₃ ?_
    rw [hevt, hevc]
    exact hsealed₃)
  have hinv₄ : Consistent w₄.client.store w₄.ledger := by
    rw [hc₄]
    exact hinv'
  obtain ⟨h3, h4⟩ := keep_of (i := i) hinv₄ hgrows' hl₄ (by
    intro q hq
    refine ⟨hother q.txn_id (hinv₃.one_shot txn_id hmem₃ q hq), ?_⟩
    rw [hc₄]
    exact fun h => h)
  refine ⟨h3, h4, ?_⟩
  rcases r with err | id <;> trivial

theorem keeping_upload_media {α : Type} {Q : Except CoreError α → World D → Prop} {bytes : Bytes}
    {content_type : String} {f : String → Code (Except CoreError α)} {w : World D}
    (hf : ∀ uri w', Keeping X i Q (f uri) w') (hQ : ∀ e w', Q (.error e) w') :
    Keeping X i Q ((upload_media bytes content_type).andThen f) w := by
  apply Safe.bind
  unfold upload_media
  split
  · exact hQ _ _
  · refine keeping_call rfl ?_
    rintro _ (err | uri) w₁ _ _ _
    · exact hQ _ _
    · exact hf uri w₁

theorem keeping_send_image {room_id mimetype caption : String} {bytes : Bytes} {width height : Nat}
    {w : World D} :
    Keeping X i (fun _ _ => True) (send_image room_id bytes mimetype width height caption) w := by
  have hplain : ∀ w', Keeping X i (fun _ _ => True)
      (send_plain_image room_id bytes mimetype width height caption) w' := by
    intro w'
    refine keeping_upload_media ?_ (fun _ _ => trivial)
    intro uri w''
    exact keeping_send_event (fun h => absurd h (by decide))
  refine keeping_call rfl ?_
  rintro _ (_ | _) w₁ _ _ _
  · exact hplain w₁
  refine keeping_call rfl ?_
  rintro _ (e | _ | _) w₂ _ _ _
  · trivial
  · exact hplain w₂
  refine keeping_call rfl ?_
  rintro _ (e | ⟨key, ciphertext⟩) w₃ _ _ _
  · trivial
  refine keeping_upload_media ?_ (fun _ _ => trivial)
  rintro uri w₄ w₅ _ hinv r w₆ hc
  obtain ⟨h1, h2, _, _, _, _, hct, _⟩ := encrypt_keep hinv hc
  refine ⟨h1, h2, ?_⟩
  rcases r with e | ct
  · trivial
  · exact keeping_send_event (fun _ => ⟨ct, hct ct rfl, rfl⟩)

end PigeonMobile
