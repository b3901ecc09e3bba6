-- The tasks of the senders are safe: a pass over the queue knows, at each of its calls,
-- which messages are still to do, which rooms it held a message back of, and that nobody
-- else touches a message that waits.
import PigeonMobile.Senders

namespace PigeonMobile

variable {D : Type} {X : PigeonCrypto D} {ordered : Prop} {i : Nat}

/-! ## What the holder of the lock knows -/

/-- The pass of task `i` still has `rest` to do, and `settling` is about to be erased. -/
structure Flushing (ordered : Prop) (i : Nat) (settling : Option String) (rest : List PendingSend)
    (w : Senders D) : Prop where
  lock : w.trail.lock = some i
  settling : w.trail.settling = settling
  queued : ∀ s ∈ rest, ∃ q, w.row s.txn_id = some q ∧ q.room_id = s.room_id
  sorted : rest.Pairwise (fun s s' => ∀ q q', w.row s.txn_id = some q → w.row s'.txn_id = some q' →
    q.position < q'.position)
  /-- what waits and is not to do was held back, or came later -/
  passed : ordered → ∀ t q, w.row t = some q → (∃ s ∈ rest, s.txn_id = t) ∨
    q.room_id ∈ w.trail.held ∨ ∀ s ∈ rest, ∀ q', w.row s.txn_id = some q' → q'.position < q.position
  /-- a message held back waits before all that is to do -/
  held : ∀ room_id ∈ w.trail.held, ∃ t q, w.row t = some q ∧ q.room_id = room_id ∧
    ∀ s ∈ rest, ∀ q', w.row s.txn_id = some q' → q.position < q'.position

theorem Flushing.leftAlone {o : Option String} {rest : List PendingSend} {w w' : Senders D}
    (h : Flushing ordered i o rest w) (hl : LeftAlone ordered w w') :
    Flushing ordered i o rest w' := by
  have hsame : ∀ s ∈ rest, ∀ q', w'.row s.txn_id = some q' → w.row s.txn_id = some q' := by
    intro s hs q' hq'
    obtain ⟨q, hq, -⟩ := h.queued s hs
    have hboth := hl.rows _ q hq
    rw [hboth] at hq'
    rw [← Option.some.inj hq']
    exact hq
  refine ⟨hl.lock.trans h.lock, hl.settling.trans h.settling, ?_, ?_, ?_, ?_⟩
  · intro s hs
    obtain ⟨q, hq, hroom⟩ := h.queued s hs
    exact ⟨q, hl.rows _ q hq, hroom⟩
  · apply h.sorted.imp_of_mem
    intro s s' hs hs' hlt q q' hq hq'
    exact hlt q q' (hsame s hs q hq) (hsame s' hs' q' hq')
  · intro ho t q hq
    rcases hl.newer ho t q hq with hold | hnew
    · rcases h.passed ho t q hold with hmem | hheld | hlater
      · exact Or.inl hmem
      · rw [hl.held]
        exact Or.inr (Or.inl hheld)
      · exact Or.inr (Or.inr (fun s hs q' hq' => hlater s hs q' (hsame s hs q' hq')))
    · exact Or.inr (Or.inr (fun s hs q' hq' => hnew _ q' (hsame s hs q' hq')))
  · intro room_id hroom
    rw [hl.held] at hroom
    obtain ⟨t, q, hq, hqr, hlt⟩ := h.held room_id hroom
    exact ⟨t, q, hl.rows t q hq, hqr, fun s hs q' hq' => hlt s hs q' (hsame s hs q' hq')⟩

/-- The pass goes on to the next message, and leaves this one in the queue. -/
theorem Flushing.hold {s : PendingSend} {rest : List PendingSend} {w w' : Senders D}
    (h : Flushing ordered i none (s :: rest) w)
    (hs : w'.client.store.pending_sends = w.client.store.pending_sends)
    (ht : w'.trail = { w.trail with held := s.room_id :: w.trail.held }) :
    Flushing ordered i none rest w' := by
  have hrow : ∀ t, w'.row t = w.row t := Senders.row_of_queue hs
  have hheld : w'.trail.held = s.room_id :: w.trail.held := by rw [ht]
  have hsorted := List.pairwise_cons.mp h.sorted
  obtain ⟨qs, hqs, hsroom⟩ := h.queued s List.mem_cons_self
  refine ⟨by rw [ht]; exact h.lock, by rw [ht]; exact h.settling, ?_, ?_, ?_, ?_⟩
  · intro s' hs'
    rw [hrow]
    exact h.queued s' (List.mem_cons_of_mem _ hs')
  · simp only [hrow]
    exact hsorted.2
  · intro ho t q hq
    rw [hrow] at hq
    rw [hheld]
    simp only [hrow]
    rcases h.passed ho t q hq with ⟨s', hs', rfl⟩ | hroom | hlater
    · rcases List.mem_cons.mp hs' with rfl | hs'
      · rw [hqs] at hq
        right
        left
        rw [← Option.some.inj hq, hsroom]
        exact List.mem_cons_self
      · exact Or.inl ⟨s', hs', rfl⟩
    · exact Or.inr (Or.inl (List.mem_cons_of_mem _ hroom))
    · exact Or.inr (Or.inr (fun s' hs' => hlater s' (List.mem_cons_of_mem _ hs')))
  · intro room_id hroom
    rw [hheld] at hroom
    simp only [hrow]
    rcases List.mem_cons.mp hroom with rfl | hroom
    · exact ⟨s.txn_id, qs, hqs, hsroom, fun s' hs' q' hq' => hsorted.1 s' hs' qs q' hqs hq'⟩
    · obtain ⟨t, q, hq, hqr, hlt⟩ := h.held room_id hroom
      exact ⟨t, q, hq, hqr, fun s' hs' => hlt s' (List.mem_cons_of_mem _ hs')⟩

/-- The message is settled: its row leaves the queue. -/
theorem Flushing.erase {o : Option String} {s : PendingSend} {rest : List PendingSend}
    {w w' : Senders D} (h : Flushing ordered i o (s :: rest) w)
    (hs : w'.client.store.pending_sends = w.client.store.pending_sends.erase s.txn_id)
    (hlock : w'.trail.lock = w.trail.lock) (hheld : w'.trail.held = w.trail.held)
    (hset : w'.trail.settling = none) : Flushing ordered i none rest w' := by
  have hrow : ∀ t, w'.row t = if t = s.txn_id then none else w.row t := Senders.row_of_erase hs
  have hsorted := List.pairwise_cons.mp h.sorted
  obtain ⟨qs, hqs, -⟩ := h.queued s List.mem_cons_self
  have hne : ∀ s' ∈ rest, s'.txn_id ≠ s.txn_id := by
    intro s' hs' he
    have hlt := hsorted.1 s' hs' qs qs hqs (by rw [he]; exact hqs)
    exact lt_irrefl _ hlt
  have hrest : ∀ s' ∈ rest, w'.row s'.txn_id = w.row s'.txn_id := by
    intro s' hs'
    rw [hrow, if_neg (hne s' hs')]
  refine ⟨hlock.trans h.lock, hset, ?_, ?_, ?_, ?_⟩
  · intro s' hs'
    rw [hrest s' hs']
    exact h.queued s' (List.mem_cons_of_mem _ hs')
  · apply hsorted.2.imp_of_mem
    intro a b ha hb hab
    rw [hrest a ha, hrest b hb]
    exact hab
  · intro ho t q hq
    rw [hrow] at hq
    by_cases ht : t = s.txn_id
    · rw [if_pos ht] at hq
      cases hq
    · rw [if_neg ht] at hq
      rw [hheld]
      rcases h.passed ho t q hq with ⟨s', hs', rfl⟩ | hroom | hlater
      · rcases List.mem_cons.mp hs' with rfl | hs'
        · exact absurd rfl ht
        · exact Or.inl ⟨s', hs', rfl⟩
      · exact Or.inr (Or.inl hroom)
      · right
        right
        intro s' hs' q' hq'
        rw [hrest s' hs'] at hq'
        exact hlater s' (List.mem_cons_of_mem _ hs') q' hq'
  · intro room_id hroom
    rw [hheld] at hroom
    obtain ⟨t, q, hq, hqr, hlt⟩ := h.held room_id hroom
    have ht : t ≠ s.txn_id := by
      rintro rfl
      exact lt_irrefl _ (hlt s List.mem_cons_self q hq)
    refine ⟨t, q, ?_, hqr, ?_⟩
    · rw [hrow, if_neg ht]
      exact hq
    · intro s' hs' q' hq'
      rw [hrest s' hs'] at hq'
      exact hlt s' (List.mem_cons_of_mem _ hs') q' hq'

/-- The message that is next may be sent. It is the first of its room where the pass held
back none of the room. -/
theorem Flushing.maySend {s : PendingSend} {rest : List PendingSend} {w : Senders D}
    (h : Flushing ordered i none (s :: rest) w) : MaySend ordered i s.room_id s.txn_id w := by
  have hsorted := List.pairwise_cons.mp h.sorted
  obtain ⟨q, hq, hroom⟩ := h.queued s List.mem_cons_self
  refine ⟨h.lock, h.settling, q, hq, hroom, ?_⟩
  intro ho
  constructor
  · intro hfirst hheld
    obtain ⟨t, q₀, hq₀, hroom₀, hlt⟩ := h.held _ hheld
    exact hfirst q₀ (Table.find_some_iff.mp hq₀).1 (hroom₀.trans hroom.symm)
      (hlt s List.mem_cons_self q hq)
  · intro hnone q₀ hmem hroom₀ hlt
    have hq₀ : w.row q₀.txn_id = some q₀ := Table.mem_rows_iff.mp hmem
    rcases h.passed ho _ q₀ hq₀ with ⟨s', hs', ht⟩ | hheld | hlater
    · rcases List.mem_cons.mp hs' with rfl | hs'
      · rw [ht, hq₀] at hq
        rw [Option.some.inj hq] at hlt
        exact lt_irrefl _ hlt
      · have hgt := hsorted.1 s' hs' q q₀ hq (by rw [ht]; exact hq₀)
        exact lt_asymm hlt hgt
    · rw [hroom₀, hroom] at hheld
      exact hnone hheld
    · exact lt_asymm hlt (hlater s List.mem_cons_self q hq)

/-! ## The calls of the holder -/

section Calls

variable {α : Type} {o : Option String} {s : PendingSend} {rest : List PendingSend}

/-- What a step of the holder must give. -/
theorem holder_gives {w w' : Senders D} (hl : w.trail.lock = some i)
    (hsent : ∀ a room_id, w'.trail.past = a :: w.trail.past → a.ending.sentTo = some room_id →
      MaySend ordered i room_id a.txn_id w) : (sendersContract ordered).give i w w' := by
  refine ⟨?_, hsent⟩
  intro j hj hlj
  rw [hl] at hlj
  exact absurd (Option.some.inj hlj).symm hj

/-- A step of the holder that adds no attempt. -/
theorem holder_gives_same {w w' : Senders D} (hl : w.trail.lock = some i)
    (hpast : w'.trail.past = w.trail.past) : (sendersContract ordered).give i w w' := by
  apply give_of_same hpast
  intro j hj hlj
  rw [hl] at hlj
  exact absurd (Option.some.inj hlj).symm hj

/-- A quiet call of a pass. -/
theorem Flushing.quiet {op : Op} {k : op.Res → Code α} {w : Senders D} {Q : α → Senders D → Prop}
    (hop : op.aside = true) (hw : Flushing ordered i o rest w)
    (hk : ∀ w₁ r w₂, SendCall X ordered i op w₁ (some r) w₂ → Quiet w₁ w₂ →
      Flushing ordered i o rest w₂ → Sends X ordered i Q (k r) w₂) :
    Sends X ordered i Q (.call op k) w := by
  apply Sends.quiet hop
  intro w₁ r w₂ _ hc hq hl
  exact hk w₁ r w₂ hc hq (hw.leftAlone (hl hw.lock))

theorem sends_encrypt_for_send {room_id body : String} {w : Senders D}
    {Q : Except CoreError (Option String) → Senders D → Prop} (hw : Flushing ordered i none rest w)
    (hQ : ∀ r w', Flushing ordered i none rest w' → Q r w') :
    Sends X ordered i Q (encrypt_for_send room_id body) w := by
  refine hw.quiet rfl ?_
  intro w₁ r w₂ _ _ h₂
  cases r with
  | false => exact Sends.done (hQ _ _ h₂)
  | true =>
    refine h₂.quiet rfl ?_
    intro w₃ r w₄ _ _ h₄
    rcases r with e | _ | _
    · exact Sends.done (hQ _ _ h₄)
    · exact Sends.done (hQ _ _ h₄)
    · refine h₄.quiet rfl ?_
      intro w₅ r w₆ _ _ h₆
      cases r with
      | error e => exact Sends.done (hQ _ _ h₆)
      | ok ciphertext => exact Sends.done (hQ _ _ h₆)

/-- What a store method that succeeds does. -/
theorem store_done {fault : Fault} {c c' : Client D} {f : Store → Except StoreError (Unit × Store)}
    (h : c.onStore fault f = (.ok (), c')) : ∃ st, f c.store = .ok ((), st) ∧ c'.store = st := by
  rcases Client.onStore_cases h with ⟨e, he, -⟩ | ⟨b, st, hf, -, rfl⟩
  · cases he
  · exact ⟨st, hf, rfl⟩

/-- The settled message leaves the queue: nothing is about to be erased any more. -/
theorem SendsOnce.erase {w w' : Senders D} (hinv : SendsOnce ordered w) {t : String}
    (hset : w.trail.settling = none ∨ w.trail.settling = some t)
    (hs : w'.client.store.pending_sends = w.client.store.pending_sends.erase t)
    (hgiven : w'.trail.given = w.trail.given) (hset' : w'.trail.settling = none)
    (hpast : w'.trail.past = w.trail.past) : SendsOnce ordered w' := by
  have hrow : ∀ t', w'.row t' = if t' = t then none else w.row t' := Senders.row_of_erase hs
  have hold : ∀ t' q, w'.row t' = some q → w.row t' = some q := by
    intro t' q hq
    rw [hrow] at hq
    by_cases ht : t' = t
    · rw [if_pos ht] at hq
      cases hq
    · rw [if_neg ht] at hq
      exact hq
  refine ⟨?_, ?_, ?_, ?_, ?_, ?_, ?_⟩
  · intro t' q hq
    rw [hgiven]
    exact hinv.given t' q (hold t' q hq)
  · rw [hgiven]
    exact hinv.names
  · rw [hpast, hgiven]
    exact hinv.tried
  · intro a ha hc
    rw [hpast] at ha
    left
    rw [hrow]
    by_cases hat : a.txn_id = t
    · rw [if_pos hat]
    · rw [if_neg hat]
      rcases hinv.closed a ha hc with hn | hn
      · exact hn
      · rcases hset with h | h
        · rw [h] at hn
          cases hn
        · rw [h] at hn
          exact absurd (Option.some.inj hn).symm hat
  · intro hn
    exact absurd hset' hn
  · rw [hpast]
    exact hinv.once
  · intro ho hover
    rw [hpast] at hover
    exact (hinv.inOrder ho hover).keep hold hpast hgiven

/-- It is recorded that the send failed: it is out of the queue. -/
theorem SendsOnce.failed {w w' : Senders D} (hinv : SendsOnce ordered w) {t : String}
    (hrow : ∀ t', w'.row t' = w.row t') (hnone : w.row t = none)
    (hmem : t ∈ w.trail.given.map (·.txn_id))
    (ht : w'.trail = { w.trail with past := ⟨t, .failed, false⟩ :: w.trail.past }) :
    SendsOnce ordered w' := by
  refine ⟨?_, ?_, ?_, ?_, ?_, ?_, ?_⟩
  · intro t' q hq
    rw [hrow] at hq
    rw [ht]
    exact hinv.given t' q hq
  · rw [ht]
    exact hinv.names
  · intro a ha
    rw [ht] at ha ⊢
    rcases List.mem_cons.mp ha with rfl | ha
    · exact hmem
    · exact hinv.tried a ha
  · intro a ha hc
    rw [ht] at ha ⊢
    rw [hrow]
    rcases List.mem_cons.mp ha with rfl | ha
    · exact Or.inl hnone
    · exact hinv.closed a ha hc
  · rw [ht]
    exact hinv.settling
  · rw [ht]
    exact List.Pairwise.cons (fun _ _ _ _ => rfl) hinv.once
  · intro ho hover
    rw [ht] at hover
    have h := hinv.inOrder ho (fun a ha => hover a (List.mem_cons_of_mem _ ha))
    refine ⟨?_, ?_⟩
    · intro a ha room_id hroom
      rw [ht] at ha ⊢
      rcases List.mem_cons.mp ha with rfl | ha
      · cases hroom
      · intro q hq hqa q' hq'
        have hq' := Table.mem_rows_iff.mp hq'
        have hq' := (hrow _).symm.trans hq'
        exact h.waiting a ha room_id hroom q hq hqa q' (Table.find_some_iff.mp hq').1
    · rw [ht]
      apply List.Pairwise.cons _ h.past
      intro b _ room_id hroom
      cases hroom

/-- The send is marked failed. -/
theorem sends_settle_failed {w : Senders D} {Q : Except CoreError Flushed → Senders D → Prop}
    (hset : o = none ∨ o = some s.txn_id)
    (hw : Flushing ordered i o (s :: rest) w)
    (hQ : ∀ w', Flushing ordered i none rest w' → Q (.ok .settled) w') :
    Sends X ordered i Q (settle_failed s.txn_id) w := by
  apply Sends.call
  intro w₁ hrely hinv
  have h₁ := hw.leftAlone (hrely hw.lock)
  refine ⟨?_, ?_⟩
  · intro ha
    cases ha
  rintro r w₂ ⟨fault, hp, rfl, ht⟩
  have hp : w₁.client.onStore fault (fun st => .ok ((), st.fail_send s.txn_id)) =
      (.ok (), w₂.client) := hp
  obtain ⟨st, hst, hstore⟩ := store_done hp
  have hpending : w₂.client.store.pending_sends =
      w₁.client.store.pending_sends.erase s.txn_id := by
    cases hst
    rw [hstore, fail_pending]
  have ht : w₂.trail = { w₁.trail with
      past := ⟨s.txn_id, .failed, false⟩ :: w₁.trail.past, settling := none } := ht
  obtain ⟨q, hq, -⟩ := h₁.queued s List.mem_cons_self
  refine ⟨?_, ?_, ?_⟩
  · -- the row goes first, then the failure is recorded
    let erased : Senders D := ⟨w₂.client, { w₁.trail with settling := none }⟩
    have herased : SendsOnce ordered erased := by
      refine hinv.erase (t := s.txn_id) ?_ ?_ rfl rfl rfl
      · rw [h₁.settling]
        exact hset
      · exact hpending
    refine herased.failed (t := s.txn_id) (fun _ => rfl) ?_ ?_ ht
    · change w₂.client.store.pending_sends.find s.txn_id = none
      rw [hpending, Table.find_erase, if_pos rfl]
    · have hmem := List.mem_map_of_mem (f := PendingRow.txn_id) (hinv.given _ q hq)
      rw [(Table.find_some_iff.mp hq).2] at hmem
      exact hmem
  · apply holder_gives h₁.lock
    intro a room_id ha hroom
    rw [ht] at ha
    rw [← (List.cons.inj ha).1] at hroom
    cases hroom
  · exact Sends.done (hQ w₂ (h₁.erase hpending (by rw [ht]) (by rw [ht]) (by rw [ht])))

/-- An attempt ends: only the records of the sends change. -/
theorem Flushing.ended {o' : Option String} {w w' : Senders D} (h : Flushing ordered i o rest w)
    (hs : w'.client.store = w.client.store) (hlock : w'.trail.lock = w.trail.lock)
    (hheld : w'.trail.held = w.trail.held) (hset : w'.trail.settling = o') :
    Flushing ordered i o' rest w' := by
  have hrow : ∀ t, w'.row t = w.row t := Senders.row_of_store hs
  refine ⟨hlock.trans h.lock, hset, ?_, ?_, ?_, ?_⟩
  · intro s hs
    rw [hrow]
    exact h.queued s hs
  · simp only [hrow]
    exact h.sorted
  · intro ho t q hq
    rw [hrow] at hq
    rw [hheld]
    simp only [hrow]
    exact h.passed ho t q hq
  · intro room_id hroom
    rw [hheld] at hroom
    simp only [hrow]
    exact h.held room_id hroom

/-- The rows that were given are told apart by their ids. -/
theorem SendsOnce.given_inj {w : Senders D} (hinv : SendsOnce ordered w) {q q' : PendingRow}
    (hq : q ∈ w.trail.given) (hq' : q' ∈ w.trail.given) (he : q.txn_id = q'.txn_id) : q = q' :=
  List.inj_on_of_nodup_map hinv.names hq hq' he

/-- An attempt that was allowed ends: nothing closed the transaction before it, and no
later message of the room was tried before. -/
theorem SendsOnce.attempt {w w' : Senders D} (hinv : SendsOnce ordered w) {a : Attempt}
    {room_id : String} (hmay : MaySend ordered i room_id a.txn_id w)
    (hs : w'.client.store = w.client.store) (hgiven : w'.trail.given = w.trail.given)
    (hpast : w'.trail.past = a :: w.trail.past) (hroom : a.ending.sentTo = some room_id)
    (hover : a.overtakes = decide (room_id ∈ w.trail.held))
    (hset : w'.trail.settling = if a.ending.closes then some a.txn_id else none)
    (hlock : w'.trail.settling ≠ none → w'.trail.lock ≠ none) : SendsOnce ordered w' := by
  have hrow : ∀ t, w'.row t = w.row t := Senders.row_of_store hs
  obtain ⟨q, hq, hqroom, hfirst⟩ := hmay.queued
  obtain ⟨hqmem, hqid⟩ := Table.find_some_iff.mp hq
  have hqgiven := hinv.given _ q hq
  have hopen : ∀ b ∈ w.trail.past, b.ending.closes = true → w.row b.txn_id = none := by
    intro b hb hc
    rcases hinv.closed b hb hc with hn | hn
    · exact hn
    · rw [hmay.clear] at hn
      cases hn
  refine ⟨?_, ?_, ?_, ?_, hlock, ?_, ?_⟩
  · intro t q' hq'
    rw [hrow] at hq'
    rw [hgiven]
    exact hinv.given t q' hq'
  · rw [hgiven]
    exact hinv.names
  · intro b hb
    rw [hpast] at hb
    rw [hgiven]
    rcases List.mem_cons.mp hb with rfl | hb
    · rw [← hqid]
      exact List.mem_map_of_mem hqgiven
    · exact hinv.tried b hb
  · intro b hb hc
    rw [hpast] at hb
    rcases List.mem_cons.mp hb with rfl | hb
    · rw [hset, if_pos hc]
      exact Or.inr rfl
    · rw [hrow]
      exact Or.inl (hopen b hb hc)
  · rw [hpast]
    apply List.Pairwise.cons _ hinv.once
    intro b hb he hc
    have hnone := hopen b hb hc
    rw [← he, hq] at hnone
    cases hnone
  · intro ho hall
    rw [hpast] at hall
    have h := hinv.inOrder ho (fun b hb => hall b (List.mem_cons_of_mem _ hb))
    have hnone : room_id ∉ w.trail.held := by
      have ha := hall a List.mem_cons_self
      rw [hover] at ha
      exact of_decide_eq_false ha
    have hfirst := (hfirst ho).mpr hnone
    refine ⟨?_, ?_⟩
    · intro b hb room hbroom q₁ hq₁ hq₁b q' hq' hq'room
      rw [hpast] at hb
      rw [hgiven] at hq₁
      rw [hs] at hq'
      rcases List.mem_cons.mp hb with rfl | hb
      · obtain rfl : q₁ = q := hinv.given_inj hq₁ hqgiven (hq₁b.trans hqid.symm)
        rw [hroom] at hbroom
        obtain rfl := Option.some.inj hbroom
        exact hfirst q' hq' (hq'room.trans hqroom.symm)
      · exact h.waiting b hb room hbroom q₁ hq₁ hq₁b q' hq' hq'room
    · rw [hpast, hgiven]
      apply List.Pairwise.cons _ h.past
      intro b hb room haroom hbroom q₁ hq₁ hq₁a q₂ hq₂ hq₂b
      rw [hroom] at haroom
      obtain rfl := Option.some.inj haroom
      obtain rfl : q₁ = q := hinv.given_inj hq₁ hqgiven (hq₁a.trans hqid.symm)
      exact h.waiting b hb room_id hbroom q₂ hq₂ hq₂b q₁ hqmem hqroom

/-- The acknowledged send leaves the queue. -/
theorem sends_resolve {event_id : String} {w : Senders D}
    {Q : Except CoreError Flushed → Senders D → Prop}
    (hw : Flushing ordered i (some s.txn_id) (s :: rest) w)
    (hQ : ∀ w', Flushing ordered i none rest w' → Q (.ok .settled) w') :
    Sends X ordered i Q (.call (.resolve_send s.txn_id event_id) fun
      | .error e => .done (.error e)
      | .ok () => .done (.ok .settled)) w := by
  apply Sends.call
  intro w₁ hrely hinv
  have h₁ := hw.leftAlone (hrely hw.lock)
  refine ⟨?_, ?_⟩
  · intro ha
    cases ha
  rintro r w₂ ⟨fault, hp, rfl, ht⟩
  have hp : w₁.client.onStore fault
      (fun st => (st.resolve_send s.txn_id event_id).map ((), ·)) = (.ok (), w₂.client) := hp
  obtain ⟨st, hst, hstore⟩ := store_done hp
  have hpending : w₂.client.store.pending_sends =
      w₁.client.store.pending_sends.erase s.txn_id := by
    cases hr : w₁.client.store.resolve_send s.txn_id event_id with
    | error e =>
      rw [hr] at hst
      cases hst
    | ok st' =>
      rw [hr] at hst
      cases hst
      rw [hstore]
      exact resolve_pending hr
  have ht : w₂.trail = { w₁.trail with settling := none } := ht
  refine ⟨?_, ?_, ?_⟩
  · apply hinv.erase (Or.inr h₁.settling) hpending <;> rw [ht]
  · exact holder_gives_same h₁.lock (by rw [ht])
  · exact Sends.done (hQ w₂ (h₁.erase hpending (by rw [ht]) (by rw [ht]) (by rw [ht])))

/-- The attempt itself: it may be dropped, and each answer closes it or stops the pass. -/
theorem sends_transmit {event_type : String} {content : Json} {w : Senders D}
    {Q : Except CoreError Flushed → Senders D → Prop}
    (hw : Flushing ordered i none (s :: rest) w)
    (hstop : ∀ w', Flushing ordered i none (s :: rest) w' → Q (.ok .stop) w')
    (hQ : ∀ w', Flushing ordered i none rest w' → Q (.ok .settled) w') :
    Sends X ordered i Q (transmit s event_type content) w := by
  apply Sends.call
  intro w₁ hrely hinv
  have h₁ := hw.leftAlone (hrely hw.lock)
  have hmay := h₁.maySend
  have hgive : ∀ (w₂ : Senders D) (e : Ending) (overtakes : Bool),
      w₂.trail.past = ⟨s.txn_id, e, overtakes⟩ :: w₁.trail.past →
      e.sentTo = some s.room_id → (sendersContract ordered).give i w₁ w₂ := by
    intro w₂ e overtakes hpast he
    apply holder_gives h₁.lock
    intro a room_id ha hroom
    rw [hpast] at ha
    obtain rfl := (List.cons.inj ha).1
    rw [he] at hroom
    obtain rfl := Option.some.inj hroom
    exact hmay
  refine ⟨?_, ?_⟩
  · -- dropped: the attempt is cancelled, and the lock is free
    intro _
    refine ⟨?_, hgive _ (.cancelled s.room_id) _ rfl rfl⟩
    refine hinv.attempt (a := ⟨s.txn_id, .cancelled s.room_id, _⟩) hmay ?_ ?_ ?_ rfl rfl ?_ ?_
    · rfl
    · rfl
    · rfl
    · exact hmay.clear
    · intro hset
      exact absurd hmay.clear hset
  · rintro answer w₂ ⟨choice, hp, -, ht⟩
    have hc : w₂.client = w₁.client := (congrArg Prod.snd hp).symm
    have ht : w₂.trail = { w₁.trail with
        past := ⟨s.txn_id, .answered s.room_id answer, decide (s.room_id ∈ w₁.trail.held)⟩ ::
          w₁.trail.past
        settling := if (Ending.answered s.room_id answer).closes then some s.txn_id else none } :=
          ht
    have hlock : w₂.trail.lock = w₁.trail.lock := by rw [ht]
    have hset : w₂.trail.settling =
        if (Ending.answered s.room_id answer).closes then some s.txn_id else none := by rw [ht]
    refine ⟨?_, hgive w₂ (.answered s.room_id answer) _ (by rw [ht]) rfl, ?_⟩
    · refine hinv.attempt
        (a := ⟨s.txn_id, .answered s.room_id answer, decide (s.room_id ∈ w₁.trail.held)⟩)
        hmay (by rw [hc]) ?_ ?_ rfl rfl ?_ ?_
      · rw [ht]
      · rw [ht]
      · exact hset
      · intro _ hnone
        rw [hlock, h₁.lock] at hnone
        cases hnone
    · have hended := h₁.ended (by rw [hc]) hlock (by rw [ht]) hset
      cases answer with
      | ok event_id => exact sends_resolve hended hQ
      | error err =>
        cases htr : err.is_transient with
        | true =>
          simp only [Ending.closes, htr, Bool.not_true] at hended
          simp only [htr]
          exact Sends.done (hstop w₂ hended)
        | false =>
          simp only [Ending.closes, htr, Bool.not_false] at hended
          simp only [htr]
          exact sends_settle_failed (Or.inr rfl) hended hQ

end Calls

/-! ## The tasks -/

section Passes

variable {s : PendingSend} {rest : List PendingSend}

theorem sends_flush_one {w : Senders D} {Q : Except CoreError Flushed → Senders D → Prop}
    (hw : Flushing ordered i none (s :: rest) w)
    (hstop : ∀ w', Flushing ordered i none (s :: rest) w' → Q (.ok .stop) w')
    (hQ : ∀ flushed w', Flushing ordered i none rest w' → Q (.ok flushed) w') :
    Sends X ordered i Q (flush_one s) w := by
  unfold flush_one
  apply Sends.bind
  apply sends_encrypt_for_send hw
  intro r w₁ h₁
  rcases r with e | _ | ciphertext
  · exact sends_settle_failed (Or.inl rfl) h₁ (hQ .settled)
  · apply Sends.call
    intro w₂ hrely hinv
    have h₂ := h₁.leftAlone (hrely h₁.lock)
    refine ⟨?_, ?_⟩
    · intro ha
      cases ha
    rintro r w₃ ⟨fault, hp, ⟨encrypted, rfl⟩, ht⟩
    have hp : w₂.client.onStore fault (fun st => .ok (st.is_room_encrypted s.room_id, st)) =
        (.ok encrypted, w₃.client) := hp
    have hc : w₃.client = w₂.client := (Client.exec_read hp).1
    cases encrypted with
    | false =>
      have ht : w₃.trail = w₂.trail := ht
      refine ⟨hinv.same (by rw [hc]) ht, ?_, ?_⟩
      · exact holder_gives_same h₂.lock (by rw [ht])
      · have h₃ := h₂.ended (by rw [hc]) (by rw [ht]) (by rw [ht]) (by rw [ht, h₂.settling])
        exact sends_transmit h₃ hstop (hQ .settled)
    | true =>
      have ht : w₃.trail = { w₂.trail with held := s.room_id :: w₂.trail.held } := ht
      refine ⟨?_, ?_, ?_⟩
      · apply hinv.keep <;> simp only [Senders.row, hc, ht, implies_true]
        exact hinv.settling
      · exact holder_gives_same h₂.lock (by rw [ht])
      · exact Sends.done (hQ .held w₃ (h₂.hold (by rw [hc]) ht))
  · exact sends_transmit h₁ hstop (hQ .settled)

theorem sends_flush_sends {sends : List PendingSend} {changed : Bool} {w : Senders D}
    {Q : Except CoreError Bool → Senders D → Prop} (hw : Flushing ordered i none sends w)
    (hQ : ∀ r w', w'.trail.lock = some i → w'.trail.settling = none → Q r w') :
    Sends X ordered i Q (flush_sends sends changed) w := by
  induction sends generalizing changed w with
  | nil => exact Sends.done (hQ _ w hw.lock hw.settling)
  | cons s rest ih =>
    apply Sends.bind
    apply sends_flush_one hw
    · intro w' h
      exact Sends.done (hQ _ w' h.lock h.settling)
    · intro flushed w' h
      cases flushed with
      | held => exact ih h
      | stop => exact Sends.done (hQ _ w' h.lock h.settling)
      | settled => exact ih h

theorem sends_unlock {α : Type} {a : α} {w : Senders D} (hl : w.trail.lock = some i)
    (hset : w.trail.settling = none) :
    Sends X ordered i (fun _ _ => True) (.call .unlock_send fun _ => .done a) w := by
  apply Sends.call
  intro w₁ hrely hinv
  have h₁ := hrely hl
  have hl₁ := h₁.lock.trans hl
  have hset₁ := h₁.settling.trans hset
  refine ⟨?_, ?_⟩
  · intro ha
    cases ha
  rintro r w₂ ⟨choice, hp, -, ht⟩
  have hc : w₂.client = w₁.client := (congrArg Prod.snd hp).symm
  have ht : w₂.trail = { w₁.trail with
      lock := if w₁.trail.lock = some i then none else w₁.trail.lock } := ht
  refine ⟨?_, ?_, Sends.done trivial⟩
  · apply hinv.keep <;> simp only [Senders.row, hc, ht, implies_true]
    intro hn
    exact absurd hset₁ hn
  · exact holder_gives_same hl₁ (by rw [ht])

/-- The queue as a pass reads it: every row of it, in the order of the queue. -/
theorem Flushing.read {w : Senders D} (hl : w.trail.lock = some i) (hset : w.trail.settling = none)
    (hheld : w.trail.held = []) :
    Flushing ordered i none w.client.store.pending_sends_list w := by
  refine ⟨hl, hset, ?_, ?_, ?_, ?_⟩
  · intro s hs
    obtain ⟨q, hq, rfl⟩ := (Store.mem_pending_sends_list _).mp hs
    exact ⟨q, Table.mem_rows_iff.mp hq, rfl⟩
  · have hperm := List.perm_insertionSort (fun a b : PendingRow => a.position ≤ b.position)
      w.client.store.pending_sends.rows
    have hle := List.pairwise_insertionSort (fun a b : PendingRow => a.position ≤ b.position)
      w.client.store.pending_sends.rows
    have hne : ((w.client.store.pending_sends.rows.insertionSort
        (fun a b => a.position ≤ b.position)).map (·.txn_id)).Nodup :=
      (hperm.map PendingRow.txn_id).nodup_iff.mpr w.client.store.pending_sends.nodup
    unfold Store.pending_sends_list
    rw [List.pairwise_map]
    apply (hle.and (List.pairwise_map.mp hne)).imp_of_mem
    rintro a b ha hb ⟨hab, hne⟩ q q' hq hq'
    have hqa : w.row a.txn_id = some a := Table.mem_rows_iff.mp (hperm.mem_iff.mp ha)
    have hqb : w.row b.txn_id = some b := Table.mem_rows_iff.mp (hperm.mem_iff.mp hb)
    obtain rfl : q = a := Option.some.inj (hq.symm.trans hqa)
    obtain rfl : q' = b := Option.some.inj (hq'.symm.trans hqb)
    apply lt_of_le_of_ne hab
    intro he
    exact hne (congrArg (fun p => (ofLex p).2) he)
  · intro _ t q hq
    obtain ⟨hmem, hkey⟩ := Table.find_some_iff.mp hq
    exact Or.inl ⟨_, (Store.mem_pending_sends_list _).mpr ⟨q, hmem, rfl⟩, hkey⟩
  · intro room_id hroom
    rw [hheld] at hroom
    cases hroom

/-- Task `i` holds the lock, and has not read the queue. -/
structure Locked (i : Nat) (w : Senders D) : Prop where
  lock : w.trail.lock = some i
  settling : w.trail.settling = none
  held : w.trail.held = []

theorem Locked.leftAlone {w w' : Senders D} (h : Locked i w) (hl : LeftAlone ordered w w') :
    Locked i w' := ⟨hl.lock.trans h.lock, hl.settling.trans h.settling, hl.held.trans h.held⟩

theorem sends_flush_pending {w : Senders D} :
    Sends X ordered i (fun _ _ => True) flush_pending w := by
  apply Sends.call
  intro w₁ _ hinv
  refine ⟨?_, ?_⟩
  · -- dropped while it waits for the lock
    intro _
    refine ⟨hinv.same rfl rfl, give_of_same rfl ?_⟩
    intro j _ _
    exact LeftAlone.refl ordered w₁
  rintro r w₂ ⟨choice, hp, hfree, ht⟩
  have hc : w₂.client = w₁.client := (congrArg Prod.snd hp).symm
  have hfree : w₁.trail.lock = none := hfree
  have ht : w₂.trail = { w₁.trail with lock := some i, held := [] } := ht
  have hclear : w₁.trail.settling = none := by
    by_contra hn
    exact hinv.settling hn hfree
  refine ⟨?_, ?_, ?_⟩
  · apply hinv.keep <;> simp only [Senders.row, hc, ht, implies_true]
    intro _ hn
    cases hn
  · apply give_of_same (by rw [ht])
    intro j _ hj
    rw [hfree] at hj
    cases hj
  · have h₂ : Locked i w₂ := ⟨by rw [ht], by rw [ht]; exact hclear, by rw [ht]⟩
    apply Sends.quiet rfl
    rintro w₃ r w₄ hrely hcall hquiet hleft
    have h₄ := h₂.leftAlone (hleft h₂.lock)
    obtain ⟨fault, hp, ⟨sends, rfl⟩, -⟩ := hcall
    have hp : w₃.client.onStore fault (fun st => .ok (st.pending_sends_list, st)) =
        (.ok sends, w₄.client) := hp
    obtain ⟨hc₄, ⟨e, he⟩ | he⟩ := Client.exec_read hp
    · cases he
    · obtain rfl := Except.ok.inj he
      apply Sends.bind
      apply sends_flush_sends
      · rw [← hc₄]
        exact Flushing.read h₄.lock h₄.settling h₄.held
      · intro r w' hl hset
        exact sends_unlock hl hset

/-- A new message is written after all that were. -/
theorem SendsOnce.queued {w w' : Senders D} (hinv : SendsOnce ordered w) {new : PendingRow}
    (hnewid : ∀ q ∈ w.trail.given, q.txn_id ≠ new.txn_id)
    (hrow : ∀ t, w'.row t = if new.txn_id = t then some new else w.row t)
    (ht : w'.trail = { w.trail with given := new :: w.trail.given })
    (hlast : ordered → ∀ q ∈ w.trail.given, q.position < new.position) : SendsOnce ordered w' := by
  have hother : ∀ a ∈ w.trail.past, new.txn_id ≠ a.txn_id := by
    intro a ha he
    obtain ⟨q, hq, hqa⟩ := List.mem_map.mp (hinv.tried a ha)
    exact hnewid q hq (hqa.trans he.symm)
  have hgiven : w'.trail.given = new :: w.trail.given := by rw [ht]
  have hpast : w'.trail.past = w.trail.past := by rw [ht]
  refine ⟨?_, ?_, ?_, ?_, ?_, ?_, ?_⟩
  · intro t q hq
    rw [hrow] at hq
    rw [hgiven]
    by_cases he : new.txn_id = t
    · rw [if_pos he] at hq
      rw [← Option.some.inj hq]
      exact List.mem_cons_self
    · rw [if_neg he] at hq
      exact List.mem_cons_of_mem _ (hinv.given t q hq)
  · rw [hgiven, List.map_cons, List.nodup_cons]
    refine ⟨?_, hinv.names⟩
    intro hmem
    obtain ⟨q, hq, he⟩ := List.mem_map.mp hmem
    exact hnewid q hq he
  · intro a ha
    rw [hpast] at ha
    rw [hgiven]
    exact List.mem_cons_of_mem _ (hinv.tried a ha)
  · intro a ha hc
    rw [hpast] at ha
    rw [hrow, if_neg (hother a ha), ht]
    exact hinv.closed a ha hc
  · rw [ht]
    exact hinv.settling
  · rw [hpast]
    exact hinv.once
  · intro ho hover
    rw [hpast] at hover
    have h := hinv.inOrder ho hover
    have hold : ∀ a ∈ w.trail.past, ∀ q ∈ w'.trail.given, q.txn_id = a.txn_id →
        q ∈ w.trail.given := by
      intro a ha q hq he
      rw [hgiven] at hq
      rcases List.mem_cons.mp hq with rfl | hq
      · exact absurd he (hother a ha)
      · exact hq
    refine ⟨?_, ?_⟩
    · intro a ha room_id hroom q hq hqa q' hq' hq'room
      rw [hpast] at ha
      have hq := hold a ha q hq hqa
      have hq' := Table.mem_rows_iff.mp hq'
      have hq' := (hrow _).symm.trans hq'
      by_cases he : new.txn_id = q'.txn_id
      · rw [if_pos he] at hq'
        rw [← Option.some.inj hq']
        exact lt_asymm (hlast ho q hq)
      · rw [if_neg he] at hq'
        exact h.waiting a ha room_id hroom q hq hqa q' (Table.find_some_iff.mp hq').1 hq'room
    · rw [hpast]
      apply h.past.imp_of_mem
      intro a b ha hb hab room_id haroom hbroom q hq hqa q' hq' hq'b
      exact hab room_id haroom hbroom q (hold a ha q hq hqa) hqa q' (hold b hb q' hq' hq'b) hq'b

/-- A message enters the queue, after all that wait. -/
theorem sends_queue_send {α : Type} {room_id sender body : String}
    {k : Except CoreError String → Code α} {w : Senders D} {Q : α → Senders D → Prop}
    (hk : ∀ r w', Sends X ordered i Q (k r) w') :
    Sends X ordered i Q (.call (.queue_send room_id sender body) k) w := by
  apply Sends.call
  intro w₁ _ hinv
  refine ⟨?_, ?_⟩
  · intro ha
    cases ha
  rintro r w₂ ⟨⟨fault, ids, ts⟩, hp, ⟨⟨txn_id, rfl⟩, hnew, hlast⟩, ht⟩
  have hp : w₁.client.onStore fault (fun st => st.queue_send room_id sender body ids ts) =
      (.ok txn_id, w₂.client) := hp
  rcases Client.onStore_cases hp with ⟨e, he, -⟩ | ⟨txn, st, hf, he, hc⟩
  · cases he
  obtain rfl := Except.ok.inj he
  obtain ⟨rfl, depth, -, -, hpend, hst⟩ := Store.queue_send_ok _ hf
  let new : PendingRow := ⟨ids.txn_id, room_id, body, ids.event_id, ts⟩
  have ht : w₂.trail = { w₁.trail with given := new :: w₁.trail.given } := ht
  have hrow : ∀ t, w₂.row t = if ids.txn_id = t then some new else w₁.row t := by
    intro t
    unfold Senders.row
    rw [hc, hst]
    exact Table.find_insertNew_free hpend t
  have hnewid : ∀ q ∈ w₁.trail.given, q.txn_id ≠ ids.txn_id := by
    intro q hq he
    apply hnew
    rw [← he]
    exact List.mem_map_of_mem hq
  have hkeep : ∀ t q, w₁.row t = some q → w₂.row t = some q := by
    intro t q hq
    rw [hrow, if_neg]
    · exact hq
    · intro he
      exact hnewid q (hinv.given t q hq) ((Table.find_some_iff.mp hq).2.trans he.symm)
  refine ⟨hinv.queued hnewid hrow ht hlast, ?_, hk _ w₂⟩
  · apply give_of_same (by rw [ht])
    intro j _ _
    refine ⟨by rw [ht], by rw [ht], by rw [ht], by rw [ht], hkeep, ?_⟩
    intro ho t q hq
    rw [hrow] at hq
    by_cases he : ids.txn_id = t
    · rw [if_pos he] at hq
      cases hq
      right
      intro t₀ q₀ hq₀
      exact hlast ho q₀ (hinv.given t₀ q₀ hq₀)
    · rw [if_neg he] at hq
      exact Or.inl hq

theorem sends_send_message {room_id body : String} {w : Senders D} :
    Sends X ordered i (fun _ _ => True) (send_message room_id body) w := by
  apply Sends.quiet rfl
  rintro w₁ session w₂ - - - -
  apply sends_queue_send
  intro r w₃
  cases r with
  | error e => exact Sends.done trivial
  | ok txn_id =>
    apply Sends.bind
    refine SafeDropped.mono ?_ sends_flush_pending
    rintro (e | changed) w₄ - <;> exact Sends.done trivial

/-- The tasks, dropped at any await or not, keep to the contract. -/
theorem senders_keep (X : PigeonCrypto D) (ordered : Prop) :
    (senders X ordered).Keeps (sendersContract ordered) where
  start i w p _ hs := by
    rcases hs with rfl | ⟨room_id, body, rfl⟩
    · apply Safe.bind
      exact Safe.mono (fun _ _ _ => trivial) sends_flush_pending
    · apply Safe.bind
      exact Safe.mono (fun _ _ _ => trivial) sends_send_message
  drop i w w' _ hd := hd.elim
  env w w' hinv he := by
    obtain ⟨ht, hs⟩ := he
    refine ⟨hinv.same hs ht, fun i hl => ?_⟩
    refine ⟨by rw [ht], by rw [ht], by rw [ht], by rw [ht], ?_, ?_⟩ <;>
      simp only [Senders.row, hs]
    · intro t q hq
      exact hq
    · intro _ t q hq
      exact Or.inl hq
  restart w w' _ hr := hr.elim

theorem start_sends_once (ordered : Prop) (c : Client D) : SendsOnce ordered (Senders.start c) := by
  refine ⟨?_, ?_, ?_, ?_, ?_, List.Pairwise.nil, ?_⟩
  · intro t q hq
    exact (Table.find_some_iff.mp hq).1
  · exact c.store.pending_sends.nodup
  · intro a ha
    cases ha
  · intro a ha
    cases ha
  · intro hn
    exact absurd rfl hn
  · intro _ _
    refine ⟨?_, List.Pairwise.nil⟩
    intro a ha
    cases ha

end Passes

end PigeonMobile
