-- What is marked failed was not accepted. `Tally` records beside the senders what the server
-- accepts of their attempts, how each of these was answered, which message the engine could
-- not encrypt, and what is marked failed.
import PigeonMobile.SendOrder
import PigeonMobile.Http

namespace PigeonMobile

/-! ## What is recorded -/

/-- The client takes the outcome of a send for its end, and the send for failed: a success
without an `event_id`, or an error status that is no rate limit. -/
def HttpOutcome.refuses : HttpOutcome → Bool
  | .failed _ => false
  | .response status body =>
    if is_success status then (body.value.index "event_id").as_str.isNone
    else decide (body.errcode ≠ some "P_LIMIT_EXCEEDED")

theorem refuses_iff {o : HttpOutcome} :
    o.refuses = true ↔ ∃ err, Api.send_event o = .error err ∧ err.is_transient = false := by
  unfold HttpOutcome.refuses Api.send_event Api.send
  cases o with
  | failed reason => simp [Except.bind, ApiError.is_transient]
  | response status body =>
    by_cases hs : is_success status
    · simp only [hs, if_true, Except.bind, json_string]
      cases (body.value.index "event_id").as_str with
      | none => simp [ApiError.is_transient]
      | some id => simp
    · have hlimit := @parse_error_transient status body
      simp only [hs, Bool.false_eq_true, if_false, Except.bind, Except.error.injEq, exists_eq_left',
        decide_eq_true_eq]
      rw [ne_eq, ← hlimit, Bool.not_eq_true]

/-- What a pass comes upon. Each says whether the server accepts the attempt, or accepted one
of the transaction before. -/
inductive Tally.Entry where
  /-- an attempt was answered -/
  | answered (txn_id : String) (outcome : HttpOutcome) (accepted : Bool)
  /-- the engine failed while the message was encrypted -/
  | unencrypted (txn_id : String) (accepted : Bool)
  /-- `fail_send` was called -/
  | marked (txn_id : String) (accepted : Bool)

structure Tally where
  /-- the transactions of which the server accepts an attempt, at once or later -/
  accepted : List String
  /-- what the pass read of the queue and has not come to -/
  todo : List PendingSend
  /-- the message whose turn it is -/
  hand : Option PendingSend
  /-- what passes came upon, the last one first -/
  log : List Tally.Entry

/-- The engine fails on the message whose turn it is. -/
def Tally.stuck (t : Tally) : Tally :=
  { t with log := (t.hand.map fun send =>
      .unencrypted send.txn_id (decide (send.txn_id ∈ t.accepted))).toList ++ t.log }

structure Tallying (D : Type) where
  senders : Senders D
  tally : Tally

/-! ## The system -/

/-- What a call adds. A message's turn begins where `encrypt_for_send` looks for the engine.
The server may accept an attempt whatever comes back of it, and accepts those that it answers
with a success. -/
def TallyRule (t t' : Tally) : (op : Op) → Option op.Res → Prop
  | .pending_sends, some (.ok sends) => t' = { t with todo := sends }
  | .e2ee, some _ => t' = { t with todo := t.todo.tail, hand := t.todo.head? }
  | .has_group _, some (.error _) => t' = t.stuck
  | .encrypt _ _, some (.error _) => t' = t.stuck
  | .api_send_event _ _ txn_id _, some answer => ∃ o accepted, answer = Api.send_event o ∧
      (accepted = t.accepted ∨ accepted = txn_id :: t.accepted) ∧
      (∀ status body, o = .response status body → is_success status = true → txn_id ∈ accepted) ∧
      t' = { t with
        accepted, log := .answered txn_id o (decide (txn_id ∈ accepted)) :: t.log }
  | .api_send_event _ _ txn_id _, none => ∃ accepted,
      (accepted = t.accepted ∨ accepted = txn_id :: t.accepted) ∧ t' = { t with accepted }
  | .fail_send txn_id, _ =>
      t' = { t with log := .marked txn_id (decide (txn_id ∈ t.accepted)) :: t.log }
  | _, _ => t' = t

variable {D : Type} (X : PigeonCrypto D)

/-- The senders, with what the server makes of their attempts. -/
def tallying : Threaded Nat (Tallying D) Op (fun op => Option op.Res) where
  call i op w r w' := SendCall X False i op w.senders r w'.senders ∧ TallyRule w.tally w'.tally op r
  start i w p := (senders X False).start i w.senders p
  drop _ _ _ := False
  env w w' := (senders X False).env w.senders w'.senders ∧ w'.tally = w.tally
  restart _ _ := False

/-- A client with any queue, of which the server has accepted any part in earlier runs of
the app. -/
def Tallying.start (c : Client D) (accepted : List String) : Tallying D :=
  ⟨Senders.start c, ⟨accepted, [], none, []⟩⟩

/-! ## Every mark has its cause -/

/-- What calls for a mark: the transaction, and whether it is accepted. -/
def Tally.Entry.calls : Tally.Entry → Option (String × Bool)
  | .answered txn_id o accepted => if o.refuses then some (txn_id, accepted) else none
  | .unencrypted txn_id accepted => some (txn_id, accepted)
  | .marked _ _ => none

def Tally.Entry.marks : Tally.Entry → Option (String × Bool)
  | .marked txn_id accepted => some (txn_id, accepted)
  | _ => none

/-- The mark that is to come next. -/
def Tally.due (log : List Tally.Entry) : Option (String × Bool) := log.head?.bind Tally.Entry.calls

/-- Whatever calls for a mark is followed by it, and there is no other mark. -/
def Tally.Caused : List Tally.Entry → Prop
  | [] => True
  | e :: log => e.marks = Tally.due log ∧ Tally.Caused log

open Tally

theorem Tally.Caused.cons {e : Tally.Entry} {log : List Tally.Entry} (h : Caused log)
    (he : e.marks = due log) : Caused (e :: log) := ⟨he, h⟩

/-- A mark has its cause before it. -/
theorem Tally.Caused.cause {log : List Tally.Entry} (h : Caused log) {e : Tally.Entry}
    (he : e ∈ log) {x : String × Bool} (hx : e.marks = some x) : ∃ c ∈ log, c.calls = some x := by
  induction log with
  | nil => cases he
  | cons first log ih =>
    obtain ⟨hfirst, h⟩ := h
    rcases List.mem_cons.mp he with rfl | he
    · -- the entry before it
      cases log with
      | nil =>
        rw [hfirst] at hx
        cases hx
      | cons c log => exact ⟨c, by simp, hfirst.symm.trans hx⟩
    · obtain ⟨c, hc, hcalls⟩ := ih h he
      exact ⟨c, List.mem_cons_of_mem _ hc, hcalls⟩

/-- What calls for a mark has it, or is the last to be recorded. -/
theorem Tally.Caused.effect {log : List Tally.Entry} (h : Caused log) {c : Tally.Entry}
    (hc : c ∈ log) {x : String × Bool} (hx : c.calls = some x) :
    (∃ e ∈ log, e.marks = some x) ∨ due log = some x := by
  induction log with
  | nil => cases hc
  | cons first log ih =>
    obtain ⟨hfirst, h⟩ := h
    rcases List.mem_cons.mp hc with rfl | hc
    · exact Or.inr hx
    · left
      rcases ih h hc with ⟨e, he, hmark⟩ | hdue
      · exact ⟨e, List.mem_cons_of_mem _ he, hmark⟩
      · exact ⟨first, List.mem_cons_self, hfirst.trans hdue⟩

/-! ## What a pass knows -/

/-- The holder of the lock relies on the others to record nothing. -/
def tallyContract : Contract Nat (Tallying D) where
  inv w := Caused w.tally.log ∧ (w.senders.trail.lock = none → due w.tally.log = none)
  rely i w w' := w.senders.trail.lock = some i →
    w'.senders.trail.lock = some i ∧ w'.tally = w.tally
  give i w w' := ∀ j, j ≠ i → w.senders.trail.lock = some j →
    w'.senders.trail.lock = some j ∧ w'.tally = w.tally
  refl i w hl := ⟨hl, rfl⟩
  trans i w₁ w₂ w₃ h h' hl := by
    obtain ⟨hl₂, ht₂⟩ := h hl
    obtain ⟨hl₃, ht₃⟩ := h' hl₂
    exact ⟨hl₃, ht₃.trans ht₂⟩
  frame i j w w' hij h := h j (Ne.symm hij)

section Passes

variable {X} {i : Nat} {α : Type}

/-- What the programs of the tasks must be, for the tally. -/
abbrev Tallies (X : PigeonCrypto D) (i : Nat) (Q : α → Tallying D → Prop) (p : Code α)
    (w : Tallying D) : Prop := SafeDropped tallyContract (tallying X).call i Q p w

/-- The holder of the lock makes a call: nobody else is there to be disturbed. -/
theorem tallies_call {Q : α → Tallying D → Prop} {op : Op} {k : op.Res → Code α} {w : Tallying D}
    (hl : w.senders.trail.lock = some i)
    (h : ∀ w₁, w₁.senders.trail.lock = some i → w₁.tally = w.tally → tallyContract.inv w₁ →
      ∀ r w₂, (tallying X).call i op w₁ r w₂ → tallyContract.inv w₂ ∧
        ∀ a, r = some a → Tallies X i Q (k a) w₂) : Tallies X i Q (.call op k) w := by
  intro w₁ hrely hinv r w₂ hc
  obtain ⟨hl₁, ht⟩ := hrely hl
  obtain ⟨hinv₂, hk⟩ := h w₁ hl₁ ht hinv r w₂ hc
  refine ⟨hinv₂, ?_, ?_⟩
  · intro j hj hlj
    rw [hl₁] at hlj
    exact absurd (Option.some.inj hlj).symm hj
  · cases r with
    | none =>
      intro a ha
      cases ha
    | some r => exact hk r rfl

/-- Only the two calls on the lock change who holds it. -/
theorem lock_stays {op : Op} {r : op.Res} {w w' : Senders D}
    (h : SendCall X False i op w (some r) w') (hlock : op ≠ .lock_send)
    (hunlock : op ≠ .unlock_send) : w'.trail.lock = w.trail.lock := by
  obtain ⟨choice, -, -, htrail⟩ := h
  rw [htrail]
  unfold Trail.next
  split <;> first | rfl | exact absurd rfl hlock | exact absurd rfl hunlock

theorem not_lock_of_not_awaits {op : Op} (h : op.awaits = false) : op ≠ .lock_send := by
  rintro rfl
  cases h

/-- A call of the holder that keeps the lock and cannot be dropped. -/
theorem tallies_held {Q : α → Tallying D → Prop} {op : Op} {k : op.Res → Code α} {w : Tallying D}
    (hl : w.senders.trail.lock = some i) (hwait : op.awaits = false) (hunlock : op ≠ .unlock_send)
    (h : ∀ r w₂, w₂.senders.trail.lock = some i → TallyRule w.tally w₂.tally op (some r) →
      (Caused w.tally.log → Caused w₂.tally.log) ∧ Tallies X i Q (k r) w₂) :
    Tallies X i Q (.call op k) w := by
  apply tallies_call hl
  rintro w₁ hl₁ ht hinv r w₂ ⟨hc, hrule⟩
  cases r with
  | none =>
    obtain ⟨hawaits, -⟩ := hc
    rw [hwait] at hawaits
    cases hawaits
  | some r =>
    have hl₂ : w₂.senders.trail.lock = some i :=
      (lock_stays hc (not_lock_of_not_awaits hwait) hunlock).trans hl₁
    rw [ht] at hrule
    obtain ⟨hcaused, hk⟩ := h r w₂ hl₂ hrule
    refine ⟨⟨hcaused (ht ▸ hinv.1), ?_⟩, ?_⟩
    · intro hnone
      rw [hl₂] at hnone
      cases hnone
    · intro a ha
      cases ha
      exact hk

/-- Task `i` holds the lock and has `todo` before it, and no mark is to come. -/
structure BetweenTurns (i : Nat) (todo : List PendingSend) (w : Tallying D) : Prop where
  lock : w.senders.trail.lock = some i
  todo : w.tally.todo = todo
  due : due w.tally.log = none

/-- Task `i` is about to mark the transaction. -/
structure Marking (i : Nat) (todo : List PendingSend) (txn_id : String) (w : Tallying D) :
    Prop where
  lock : w.senders.trail.lock = some i
  todo : w.tally.todo = todo
  due : due w.tally.log = some (txn_id, decide (txn_id ∈ w.tally.accepted))

variable {rest : List PendingSend} {send : PendingSend} {w : Tallying D}

theorem tallies_settle_failed {Q : Except CoreError Flushed → Tallying D → Prop} {txn_id : String}
    (hw : Marking i rest txn_id w) (hQ : ∀ r w', BetweenTurns i rest w' → Q r w') :
    Tallies X i Q (settle_failed txn_id) w := by
  apply tallies_held hw.lock rfl
  · intro h
    cases h
  intro r w₂ hl hrule
  have hrule : w₂.tally = { w.tally with
    log := .marked txn_id (decide (txn_id ∈ w.tally.accepted)) :: w.tally.log } := hrule
  have h₂ : BetweenTurns i rest w₂ := by
    refine ⟨hl, ?_, ?_⟩ <;> rw [hrule]
    · exact hw.todo
    · rfl
  refine ⟨?_, ?_⟩
  · intro h
    rw [hrule]
    exact h.cons hw.due.symm
  · cases r <;> exact SafeDropped.done (hQ _ _ h₂)

/-- A call that records nothing. -/
theorem BetweenTurns.call {Q : α → Tallying D → Prop} {op : Op} {k : op.Res → Code α}
    (hw : BetweenTurns i rest w) (hwait : op.awaits = false) (hunlock : op ≠ .unlock_send)
    (hrule : ∀ r t', TallyRule w.tally t' op (some r) → t' = w.tally)
    (hk : ∀ r w₂, BetweenTurns i rest w₂ → Tallies X i Q (k r) w₂) :
    Tallies X i Q (.call op k) w := by
  apply tallies_held hw.lock hwait hunlock
  intro r w₂ hl hr
  have ht := hrule r _ hr
  refine ⟨?_, hk r w₂ ⟨hl, ?_, ?_⟩⟩ <;> rw [ht]
  · exact id
  · exact hw.todo
  · exact hw.due

theorem tallies_transmit {Q : Except CoreError Flushed → Tallying D → Prop} {event_type : String}
    {content : Json} (hw : BetweenTurns i rest w) (hQ : ∀ r w', BetweenTurns i rest w' → Q r w') :
    Tallies X i Q (transmit send event_type content) w := by
  apply tallies_call hw.lock
  rintro w₁ hl₁ ht hinv r w₂ ⟨hc, hrule⟩
  have hcaused : Caused w₁.tally.log := hinv.1
  have hdue : due w₁.tally.log = none := by
    rw [ht]
    exact hw.due
  cases r with
  | none =>
    -- dropped: the server may still accept it
    obtain ⟨accepted, -, ht₂⟩ := hrule
    refine ⟨?_, ?_⟩
    · refine ⟨?_, fun _ => ?_⟩ <;> rw [ht₂]
      · exact hcaused
      · exact hdue
    · intro a ha
      cases ha
  | some answer =>
    obtain ⟨o, accepted, rfl, -, -, ht₂⟩ := hrule
    have hl₂ : w₂.senders.trail.lock = some i := by
      obtain ⟨choice, -, -, htrail⟩ := hc
      rw [htrail]
      exact hl₁
    have hcaused₂ : Caused w₂.tally.log := by
      rw [ht₂]
      exact hcaused.cons hdue.symm
    have htodo : w₂.tally.todo = rest := by
      rw [ht₂]
      change w₁.tally.todo = rest
      rw [ht]
      exact hw.todo
    have hnext : due w₂.tally.log =
        if o.refuses then some (send.txn_id, decide (send.txn_id ∈ w₂.tally.accepted))
        else none := by
      rw [ht₂]
      rfl
    refine ⟨⟨hcaused₂, ?_⟩, ?_⟩
    · intro hnone
      rw [hl₂] at hnone
      cases hnone
    intro answer ha
    obtain rfl := Option.some.inj ha
    by_cases hrefuses : o.refuses = true
    · obtain ⟨err, herr, htransient⟩ := refuses_iff.mp hrefuses
      rw [if_pos hrefuses] at hnext
      simp only [herr, htransient]
      exact tallies_settle_failed ⟨hl₂, htodo, hnext⟩ hQ
    · have h₂ : BetweenTurns i rest w₂ := ⟨hl₂, htodo, by rw [hnext, if_neg hrefuses]⟩
      cases hanswer : Api.send_event o with
      | ok event_id =>
        apply h₂.call rfl
        · intro h
          cases h
        · intro r t' h
          exact h
        · intro r w₃ h₃
          cases r <;> exact SafeDropped.done (hQ _ _ h₃)
      | error err =>
        have htransient : err.is_transient = true := by
          by_contra hfinal
          exact hrefuses (refuses_iff.mpr ⟨err, hanswer, Bool.not_eq_true _ ▸ hfinal⟩)
        simp only [htransient]
        exact SafeDropped.done (hQ _ _ h₂)

/-- Encrypting ends in an error only where the engine failed on the message. -/
theorem tallies_encrypt_for_send {Q : Except CoreError (Option String) → Tallying D → Prop}
    {room_id body : String} (hw : BetweenTurns i (send :: rest) w)
    (hok : ∀ r w', BetweenTurns i rest w' → Q (.ok r) w')
    (herr : ∀ err w', Marking i rest send.txn_id w' → Q (.error err) w') :
    Tallies X i Q (encrypt_for_send room_id body) w := by
  apply tallies_held hw.lock rfl
  · intro h
    cases h
  intro engine w₁ hl₁ ht₁
  have ht₁ : w₁.tally = { w.tally with todo := w.tally.todo.tail, hand := w.tally.todo.head? } :=
    ht₁
  rw [hw.todo] at ht₁
  have hturn : ∀ w' : Tallying D, w'.senders.trail.lock = some i → w'.tally = w₁.tally →
      BetweenTurns i rest w' := by
    intro w' hl' ht'
    refine ⟨hl', ?_, ?_⟩ <;> rw [ht', ht₁]
    · rfl
    · exact hw.due
  have hstuck : ∀ w' : Tallying D, w'.senders.trail.lock = some i → w'.tally = w₁.tally.stuck →
      (Caused w₁.tally.log → Caused w'.tally.log) ∧ Marking i rest send.txn_id w' := by
    intro w' hl' ht'
    rw [ht₁] at ht'
    refine ⟨?_, hl', ?_, ?_⟩ <;> rw [ht']
    · intro h
      rw [ht₁] at h
      exact h.cons hw.due.symm
    · rfl
    · rfl
  refine ⟨?_, ?_⟩
  · rw [ht₁]
    exact id
  cases engine with
  | false => exact SafeDropped.done (hok _ _ (hturn w₁ hl₁ rfl))
  | true =>
    apply tallies_held hl₁ rfl
    · intro h
      cases h
    intro held w₂ hl₂ ht₂
    cases held with
    | error err =>
      obtain ⟨hcaused, hmarking⟩ := hstuck w₂ hl₂ ht₂
      exact ⟨hcaused, SafeDropped.done (herr _ _ hmarking)⟩
    | ok held =>
      have ht₂ : w₂.tally = w₁.tally := ht₂
      refine ⟨by rw [ht₂]; exact id, ?_⟩
      cases held with
      | false => exact SafeDropped.done (hok _ _ (hturn w₂ hl₂ ht₂))
      | true =>
        apply tallies_held hl₂ rfl
        · intro h
          cases h
        intro ciphertext w₃ hl₃ ht₃
        rw [ht₂] at ht₃
        cases ciphertext with
        | error err =>
          obtain ⟨hcaused, hmarking⟩ := hstuck w₃ hl₃ ht₃
          exact ⟨ht₂ ▸ hcaused, SafeDropped.done (herr _ _ hmarking)⟩
        | ok ciphertext =>
          have ht₃ : w₃.tally = w₁.tally := ht₃
          refine ⟨?_, SafeDropped.done (hok _ _ (hturn w₃ hl₃ ht₃))⟩
          rw [ht₃, ht₂]
          exact id

theorem tallies_flush_one {Q : Except CoreError Flushed → Tallying D → Prop}
    (hw : BetweenTurns i (send :: rest) w) (hQ : ∀ r w', BetweenTurns i rest w' → Q r w') :
    Tallies X i Q (flush_one send) w := by
  apply SafeDropped.bind
  apply tallies_encrypt_for_send hw
  · intro r w₁ h₁
    cases r with
    | some ciphertext => exact tallies_transmit h₁ hQ
    | none =>
      apply h₁.call rfl
      · intro h
        cases h
      · intro r t' h
        exact h
      intro encrypted w₂ h₂
      rcases encrypted with err | _ | _
      · exact SafeDropped.done (hQ _ _ h₂)
      · exact tallies_transmit h₂ hQ
      · exact SafeDropped.done (hQ _ _ h₂)
  · intro err w₁ h₁
    exact tallies_settle_failed h₁ hQ

theorem tallies_flush_sends {Q : Except CoreError Bool → Tallying D → Prop}
    {sends : List PendingSend} {changed : Bool} (hw : BetweenTurns i sends w)
    (hQ : ∀ r todo w', BetweenTurns i todo w' → Q r w') :
    Tallies X i Q (flush_sends sends changed) w := by
  induction sends generalizing changed w with
  | nil => exact SafeDropped.done (hQ _ _ w hw)
  | cons send rest ih =>
    apply SafeDropped.bind
    apply tallies_flush_one hw
    intro r w' h
    rcases r with err | _ | _ | _
    · exact SafeDropped.done (hQ _ _ w' h)
    · exact ih h
    · exact SafeDropped.done (hQ _ _ w' h)
    · exact ih h

theorem tallies_unlock {β : Type} {b : β} {todo : List PendingSend} (hw : BetweenTurns i todo w) :
    Tallies X i (fun _ _ => True) (.call .unlock_send fun _ => .done b) w := by
  apply tallies_call hw.lock
  rintro w₁ - ht hinv r w₂ ⟨-, hrule⟩
  have ht₂ : w₂.tally = w.tally := by
    rw [← ht]
    cases r <;> exact hrule
  refine ⟨⟨?_, fun _ => ?_⟩, fun _ _ => SafeDropped.done trivial⟩ <;> rw [ht₂]
  · exact ht ▸ hinv.1
  · exact hw.due

/-- A call that takes nothing from anybody: the lock may be free, or another's. -/
theorem tallies_aside {Q : α → Tallying D → Prop} {op : Op} {k : op.Res → Code α}
    (hwait : op.awaits = false) (hunlock : op ≠ .unlock_send)
    (hrule : ∀ t t' r, TallyRule t t' op r → t' = t)
    (hk : ∀ r w', Tallies X i Q (k r) w') : Tallies X i Q (.call op k) w := by
  rintro w₁ - hinv r w₂ ⟨hc, hr⟩
  have ht := hrule _ _ _ hr
  cases r with
  | none =>
    obtain ⟨hawaits, -⟩ := hc
    rw [hwait] at hawaits
    cases hawaits
  | some r =>
    have hl := lock_stays hc (not_lock_of_not_awaits hwait) hunlock
    refine ⟨?_, ?_, hk r w₂⟩
    · refine ⟨?_, ?_⟩ <;> rw [ht]
      · exact hinv.1
      · rw [hl]
        exact hinv.2
    · intro j _ hj
      exact ⟨hl.trans hj, ht⟩

theorem tallies_flush_pending : Tallies X i (fun _ _ => True) flush_pending w := by
  rintro w₁ - hinv r w₂ ⟨hc, hrule⟩
  have ht₂ : w₂.tally = w₁.tally := by cases r <;> exact hrule
  cases r with
  | none =>
    -- dropped while it waits for the lock
    obtain ⟨-, hs⟩ := hc
    refine ⟨?_, ?_, ?_⟩
    · refine ⟨?_, ?_⟩ <;> rw [ht₂]
      · exact hinv.1
      · rw [hs]
        exact hinv.2
    · intro j _ hj
      rw [hs]
      exact ⟨hj, ht₂⟩
    · intro a ha
      cases ha
  | some r =>
    obtain ⟨choice, -, hfree, htrail⟩ := hc
    have hfree : w₁.senders.trail.lock = none := hfree
    have hl₂ : w₂.senders.trail.lock = some i := by
      rw [htrail]
      rfl
    have hdue : due w₂.tally.log = none := by
      rw [ht₂]
      exact hinv.2 hfree
    refine ⟨⟨ht₂ ▸ hinv.1, fun _ => hdue⟩, ?_, ?_⟩
    · intro j _ hj
      rw [hfree] at hj
      cases hj
    apply tallies_held hl₂ rfl
    · intro h
      cases h
    intro sends w₃ hl₃ ht₃
    cases sends with
    | error err =>
      have ht₃ : w₃.tally = w₂.tally := ht₃
      refine ⟨by rw [ht₃]; exact id, ?_⟩
      exact tallies_unlock ⟨hl₃, rfl, by rw [ht₃]; exact hdue⟩
    | ok sends =>
      have ht₃ : w₃.tally = { w₂.tally with todo := sends } := ht₃
      refine ⟨by rw [ht₃]; exact id, ?_⟩
      have h₃ : BetweenTurns i sends w₃ := by
        refine ⟨hl₃, ?_, ?_⟩ <;> rw [ht₃]
        exact hdue
      apply SafeDropped.bind
      exact tallies_flush_sends h₃ (fun r todo w' h => tallies_unlock h)

theorem tallies_send_message {room_id body : String} :
    Tallies X i (fun _ _ => True) (send_message room_id body) w := by
  apply tallies_aside rfl
  · intro h
    cases h
  · intro t t' r h
    cases r <;> exact h
  intro session w₁
  apply tallies_aside rfl
  · intro h
    cases h
  · intro t t' r h
    cases r <;> exact h
  intro queued w₂
  cases queued with
  | error err => exact SafeDropped.done trivial
  | ok txn_id =>
    apply SafeDropped.bind
    refine SafeDropped.mono ?_ tallies_flush_pending
    rintro (err | changed) w₃ - <;> exact SafeDropped.done trivial

end Passes

theorem tallying_keeps (X : PigeonCrypto D) : (tallying X).Keeps tallyContract where
  start i w p _ hs := by
    rcases hs with rfl | ⟨room_id, body, rfl⟩
    · apply Safe.bind
      exact Safe.mono (fun _ _ _ => trivial) tallies_flush_pending
    · apply Safe.bind
      exact Safe.mono (fun _ _ _ => trivial) tallies_send_message
  drop i w w' _ hd := hd.elim
  env w w' hinv he := by
    obtain ⟨⟨htrail, -⟩, ht⟩ := he
    refine ⟨?_, ?_⟩
    · refine ⟨?_, ?_⟩ <;> rw [ht]
      · exact hinv.1
      · rw [htrail]
        exact hinv.2
    · intro i hl
      rw [htrail]
      exact ⟨hl, ht⟩
  restart w w' _ hr := hr.elim

/-! ## What the client must not be told -/

/-- No attempt is refused, and no encryption fails, once the server has accepted one: no
success without its `event_id`, and after an answer that got lost nothing but a rate limit
or the success. -/
structure Tally.Fair (t : Tally) : Prop where
  answers : ∀ txn_id o accepted, .answered txn_id o accepted ∈ t.log → o.refuses = true →
    accepted = false
  encryptions : ∀ txn_id accepted, .unencrypted txn_id accepted ∈ t.log → accepted = false

/-- No message that the server accepted is marked failed. -/
def Tally.NoneMarked (t : Tally) : Prop :=
  ∀ txn_id accepted, .marked txn_id accepted ∈ t.log → accepted = false

theorem Tally.Entry.marks_eq {e : Tally.Entry} {txn_id : String} {accepted : Bool} :
    e.marks = some (txn_id, accepted) ↔ e = .marked txn_id accepted := by
  cases e <;> simp [Tally.Entry.marks]

theorem Tally.fair_iff {t : Tally} :
    t.Fair ↔ ∀ e ∈ t.log, ∀ x, e.calls = some x → x.2 = false := by
  constructor
  · intro h e he x hx
    cases e with
    | answered txn_id o accepted =>
      simp only [Tally.Entry.calls] at hx
      split at hx
      · next hrefuses =>
        rw [← Option.some.inj hx]
        exact h.answers txn_id o accepted he hrefuses
      · cases hx
    | unencrypted txn_id accepted =>
      rw [← Option.some.inj hx]
      exact h.encryptions txn_id accepted he
    | marked txn_id accepted => cases hx
  · intro h
    refine ⟨?_, ?_⟩
    · intro txn_id o accepted he hrefuses
      exact h _ he (txn_id, accepted) (by simp [Tally.Entry.calls, hrefuses])
    · intro txn_id accepted he
      exact h _ he (txn_id, accepted) rfl

/-- However the attempts of the app's runs are cut, answered or dropped: where no answer
refuses, and the engine fails on, no message of which the server accepts an attempt, no such
message is marked failed. Where none is marked and no pass is under way, there was no such
answer and no such failure. -/
theorem accepted_sends_are_never_marked_iff (X : PigeonCrypto D) (c : Client D)
    (accepted : List String) (p : Pool Nat (Tallying D) Op (fun op => Option op.Res))
    (hr : (tallying X).Reaches (Threaded.idle (Tallying.start c accepted)) p) :
    (p.state.tally.Fair → p.state.tally.NoneMarked) ∧
    (p.state.senders.trail.lock = none → (p.state.tally.NoneMarked ↔ p.state.tally.Fair)) := by
  have hstart : tallyContract.inv (Tallying.start c accepted) := ⟨trivial, fun _ => rfl⟩
  obtain ⟨hcaused, hfree⟩ := Threaded.invariant _ (tallying_keeps X) hstart hr
  have hkept : p.state.tally.Fair → p.state.tally.NoneMarked := by
    intro hfair txn_id b he
    obtain ⟨e, hcause, hcalls⟩ := hcaused.cause he (x := (txn_id, b)) rfl
    exact fair_iff.mp hfair e hcause _ hcalls
  refine ⟨hkept, fun hlock => ⟨?_, hkept⟩⟩
  intro hnone
  apply fair_iff.mpr
  rintro e he ⟨txn_id, b⟩ hcalls
  rcases hcaused.effect he hcalls with ⟨m, hm, hmark⟩ | hdue
  · rw [Entry.marks_eq.mp hmark] at hm
    exact hnone txn_id b hm
  · rw [hfree hlock] at hdue
    cases hdue

/-! ## A success whose body is cut -/

/-- A run goes on with the answer to a call of the only task. -/
theorem tally_answer {X : PigeonCrypto D} {c : Pool Nat (Tallying D) Op (fun op => Option op.Res)}
    {i : Nat} {op : Op} {k : Option op.Res → Prog Op (fun op => Option op.Res) Unit}
    {w : Tallying D}
    (h : (tallying X).Reaches c (Threaded.solo i (.call op k) w)) {r : op.Res} (w' : Tallying D)
    (ha : ∃ choice, Client.perform X op choice w.senders.client = (r, w'.senders.client) ∧
      SendRule False w.senders op choice r ∧
      w'.senders.trail = w.senders.trail.next i op choice r)
    (hrule : TallyRule w.tally w'.tally op (some r)) :
    (tallying X).Reaches c (Threaded.solo i (k (some r)) w') := h.call w' ⟨ha, hrule⟩

def m0 : PendingSend := ⟨"m0", "!room", "hi"⟩

/-- What is left of a flush at the transmission of its only message, `m0`. -/
def sendingM0 : Prog Op (fun op => Option op.Res) Unit :=
  (((transmit m0 "p.room.message" (textContent "hi")).andThen fun
    | .held => flush_sends [] false
    | .stop => .done (.ok false)
    | .settled => flush_sends [] true).bind fun r => .call .unlock_send fun _ => .done r
    ).droppable.forget

/-- The lock is taken by the only task. -/
def m0Locked (tally : Tally) : Tallying Copies :=
  ⟨⟨waitingClient, { (Senders.start waitingClient).trail with lock := some 0 }⟩, tally⟩

/-- `m0` is on its way. -/
def m0Sent : Tallying Copies := m0Locked ⟨[], [], some m0, []⟩

theorem m0_goes_out : (tallying epochCrypto).Reaches
    (Threaded.idle (Tallying.start waitingClient [])) (Threaded.solo 0 sendingM0 m0Sent) := by
  let S := tallying epochCrypto
  have h0 : S.Reaches (Threaded.idle (Tallying.start waitingClient []))
    (Threaded.idle (Tallying.start waitingClient [])) := Relation.ReflTransGen.refl
  have h1 := h0.start 0 flush_pending.droppable.forget (Or.inl rfl)
  have h2 := tally_answer h1 (m0Locked ⟨[], [], none, []⟩) ⟨Fault.none, rfl, rfl, rfl⟩ rfl
  have h3 := tally_answer h2 (m0Locked ⟨[], [m0], none, []⟩) ⟨Fault.none, rfl, ⟨_, rfl⟩, rfl⟩ rfl
  have h4 := tally_answer h3 m0Sent ⟨Fault.none, rfl, trivial, rfl⟩ rfl
  have h5 := tally_answer h4 m0Sent ⟨Fault.none, rfl, trivial, rfl⟩ rfl
  exact tally_answer h5 m0Sent ⟨Fault.none, rfl, ⟨false, rfl⟩, rfl⟩ rfl

/-- After an answer that refuses `m0`. -/
def m0Refused (o : HttpOutcome) (accepted : List String) : Tallying Copies :=
  ⟨⟨waitingClient, { m0Sent.senders.trail with
      past := [⟨"m0", .answered "!room" (Api.send_event o), false⟩]
      settling := some "m0" }⟩,
    ⟨accepted, [], some m0, [.answered "m0" o (decide ("m0" ∈ accepted))]⟩⟩

/-- And once it is marked failed. -/
def m0Marked (o : HttpOutcome) (accepted : List String) : Tallying Copies :=
  ⟨⟨(Client.local_ epochCrypto (.fail_send "m0") waitingClient).2, { m0Sent.senders.trail with
      past := [⟨"m0", .failed, false⟩, ⟨"m0", .answered "!room" (Api.send_event o), false⟩]
      settling := none }⟩,
    ⟨accepted, [], some m0, [.marked "m0" (decide ("m0" ∈ accepted)),
      .answered "m0" o (decide ("m0" ∈ accepted))]⟩⟩

/-- The user has left the room. -/
def forbidden : HttpOutcome :=
  .response 403 (.json (.obj [("errcode", .str "P_FORBIDDEN"), ("error", .str "not joined")]))

/-- A message that the server rejects is marked failed, and was not accepted. -/
theorem accepted_sends_are_never_marked_iff_hi :
    ∃ p : Pool Nat (Tallying Copies) Op (fun op => Option op.Res),
      .marked "m0" false ∈ p.state.tally.log ∧ p.state.tally.Fair ∧ p.state.tally.NoneMarked := by
  have hrejects : ∀ status body, forbidden = .response status body → is_success status = true →
      "m0" ∈ ([] : List String) := by
    intro status body h hs
    cases h
    cases hs
  have h1 := tally_answer m0_goes_out (m0Refused forbidden [])
    ⟨Api.send_event forbidden, rfl, trivial, rfl⟩ ⟨forbidden, [], rfl, Or.inl rfl, hrejects, rfl⟩
  have h2 := tally_answer h1 (m0Marked forbidden []) ⟨Fault.none, rfl, rfl, rfl⟩ rfl
  have hfair : (m0Marked forbidden []).tally.Fair := by
    refine ⟨?_, ?_⟩
    · rintro txn_id o accepted he -
      rcases List.mem_cons.mp he with he | he
      · cases he
      · cases List.mem_singleton.mp he
        rfl
    · intro txn_id accepted he
      rcases List.mem_cons.mp he with he | he
      · cases he
      · cases List.mem_singleton.mp he
  exact ⟨_, List.mem_cons_self, hfair,
    (accepted_sends_are_never_marked_iff epochCrypto waitingClient [] _ h2).1 hfair⟩

/-- The server stores `m0` and answers with a success, whose body is cut: `m0` is marked
failed. -/
theorem a_cut_success_is_marked_failed : ¬ ∀ (c : Client Copies) (accepted : List String)
    (p : Pool Nat (Tallying Copies) Op (fun op => Option op.Res)),
    (tallying epochCrypto).Reaches (Threaded.idle (Tallying.start c accepted)) p →
      p.state.tally.NoneMarked := by
  intro h
  let o : HttpOutcome := .response 200 .cut
  have h1 := tally_answer m0_goes_out (m0Refused o ["m0"]) ⟨Api.send_event o, rfl, trivial, rfl⟩
    ⟨o, ["m0"], rfl, Or.inr rfl, fun _ _ _ _ => List.mem_singleton_self _, rfl⟩
  have h2 := tally_answer h1 (m0Marked o ["m0"]) ⟨Fault.none, rfl, rfl, rfl⟩ rfl
  have hmark := h waitingClient [] _ h2 "m0" true List.mem_cons_self
  cases hmark

end PigeonMobile
