-- The order in which a pass consumes the MLS events of a room, whatever the other tasks
-- do between its calls. The pass reads its list once, in DAG order, so an event is out of
-- order only where the pass held an earlier one back and went on, or where an earlier one
-- came in after the list was read.
import PigeonMobile.AckOrder
import PigeonMobile.EpochPass

namespace PigeonMobile

variable {D : Type} (X : PigeonCrypto D) (S : Server)

/-! ## A pass among other tasks -/

/-- What the other tasks do between two calls of a pass: they run any methods of the
store, and change anything else of the client. -/
def Beside (c c' : Client D) : Prop := StoreSteps S c.store c'.store

/-- The next call of a program applies the commit. -/
def Applies {α : Type} (m : PendingCommit) (p : Code α) : Prop :=
  ∃ k, p = .call (.process_commit m.room_id m.commit_b64) k ∧
    ∀ r, ∃ k', k r = .call (.set_commit_processed m.event_id) k'

/-- The two are one event: what a pass applies does not name its sender. -/
structure PendingCommit.Same (m commit : PendingCommit) : Prop where
  event_id : commit.event_id = m.event_id
  room_id : commit.room_id = m.room_id
  commit_b64 : commit.commit_b64 = m.commit_b64

/-- A message of the room of the commit, before it in the DAG. -/
structure Precedes (st : Store) (m : PendingCommit) (r : EventRow) : Prop where
  mem : r ∈ st.events.rows
  room_id : r.room_id = m.room_id
  type : r.type = "p.room.encrypted"
  ciphertext : ∃ ct, ((r.payload.index "content").index "ciphertext").as_str = some ct
  earlier : ∃ rc, st.events.find m.event_id = some rc ∧ r.position < rc.position

/-- Every message before the commit is decrypted or marked failed. -/
def InTurn (st : Store) (m : PendingCommit) : Prop := ∀ r, Precedes st m r → r.decrypt_state ≠ 0

/-- A call where a pass finds that it must hold an event of the room back: a send of the
room is queued, or its group is not there. -/
def heldBack (room_id : String) : (op : Op) → op.Res → Prop
  | .has_pending_send r, answer => r = room_id ∧ answer = .ok true
  | .has_group r, answer => r = room_id ∧ answer = .ok false
  | _, _ => False

/-- The calls of a pass that held back no event of the room. -/
def HeldNone (room_id : String) (es : List (Prog.Event (Client D) Op Op.Res)) : Prop :=
  ∀ e ∈ es, ¬ heldBack room_id e.op e.answer

/-- No message before the commit came in after the pass had read its list. -/
def NoneLate (m : PendingCommit) (es : List (Prog.Event (Client D) Op Op.Res)) (st : Store) :
    Prop :=
  ∀ e ∈ es, e.op = .pending_mls → ∀ r, Precedes st m r →
    (e.before.store.events.find r.event_id).isSome = true

/-! ## What a pass does to the store -/

section Calls

variable {X S} {c c' : Client D}

/-- A call of a pass runs at most one method of the store. -/
theorem pass_call_steps {op : Op} {r : op.Res} (hop : op.ofPass = true)
    (hx : Client.Exec X op c r c') : StoreSteps S c.store c'.store := by
  obtain ⟨choice, hx⟩ := hx
  have hwrite : ∀ {f : Store → Store}, (∀ st, StoreStep S st (f st)) → ∀ {fault : Fault}
      {r : Except CoreError Unit}, c.onStore fault (fun st => .ok ((), f st)) = (r, c') →
      StoreSteps S c.store c'.store := by
    intro f hf fault r h
    rcases Client.onStore_cases h with ⟨e, -, rfl⟩ | ⟨b, st, hst, -, rfl⟩
    · exact Relation.ReflTransGen.refl
    · cases hst
      exact Relation.ReflTransGen.single (hf c.store)
  have hread : Client.writesStore op = false → StoreSteps S c.store c'.store := by
    intro hop
    have hstore := Client.perform_store hop choice c (X := X)
    rw [hx] at hstore
    exact hstore ▸ Relation.ReflTransGen.refl
  cases op with
  | set_decrypted id plaintext => exact hwrite (fun st => StoreStep.set_decrypted id plaintext) hx
  | set_decrypt_failed id => exact hwrite (fun st => StoreStep.set_decrypt_failed id) hx
  | set_commit_processed id => exact hwrite (fun st => StoreStep.set_commit_processed id) hx
  | e2ee | session | pending_mls | has_group | has_pending_send | process_commit | decrypt =>
    exact hread rfl
  | _ => cases hop

/-- A run of such calls is a run of methods. -/
theorem pass_runs_steps {α : Type} {p p' : Code α} {es : List (Prog.Event (Client D) Op Op.Res)}
    (hr : Prog.Runs (Client.Exec X) (Beside S) p c es p' c')
    (hp : p.All (fun op => op.ofPass = true)) : StoreSteps S c.store c'.store := by
  induction hr with
  | refl p s => exact Relation.ReflTransGen.refl
  | call hc ho _ ih => exact ((pass_call_steps hp.1 hc).trans ho).trans (ih (hp.2 _))

end Calls

/-- The event was processed. -/
def Consumed (st : Store) (event_id : String) : Prop :=
  ∃ r, st.events.find event_id = some r ∧ r.decrypt_state ≠ 0

theorem Consumed.steps {S : Server} {st st' : Store} {k : String} (h : Consumed st k)
    (hst : Sound st) (hk : ¬ IsLocal k) (hs : StoreSteps S st st') : Consumed st' k := by
  obtain ⟨r, hr, hp⟩ := h
  obtain ⟨r', hr', hl⟩ := hs.lasts hst hk hr
  exact ⟨r', hr', hl.processed hp⟩

/-! ## One turn -/

section Turn

variable {X S} {c c' : Client D} {es : List (Prog.Event (Client D) Op Op.Res)}

/-- A mark that is written. -/
theorem consumed_write {id : String} {f : EventRow → EventRow} (hf : ∀ r, Lasts r (f r))
    (hdone : ∀ r, (f r).decrypt_state ≠ 0) {st : Store} {r : EventRow}
    (hr : st.events.find id = some r) :
    Consumed { st with events := st.events.update id f (fun r => (hf r).event_id) } id := by
  refine ⟨f r, ?_, hdone r⟩
  simp only [Table.find_update, hr, Option.map_some, if_true]

/-- A write that succeeds is made. -/
theorem write_made {fault : Fault} {f : Store → Store}
    (h : c.onStore fault (fun st => .ok ((), f st)) = (.ok (), c')) : c'.store = f c.store := by
  rcases Client.onStore_cases h with ⟨e, he, -⟩ | ⟨b, st, hst, -, rfl⟩
  · cases he
  · cases hst
    rfl

/-- After an attempt that ends, the message is processed. -/
theorem attempt_consumes {m : PendingDecrypt} {r : EventRow} {b : Bool} (hst : Sound c.store)
    (hk : ¬ IsLocal m.event_id) (hr : c.store.events.find m.event_id = some r)
    (hrun : Prog.Runs (Client.Exec X) (Beside S) (attempt_decrypt m) c es (.done (.ok b)) c') :
    Consumed c'.store m.event_id := by
  unfold attempt_decrypt at hrun
  rcases hrun.call_inv with ⟨-, h, -⟩ | ⟨answer, c₁, c₂, es₁, hdecrypt, ho₁, rfl, hrun₁⟩
  · cases h
  have hs₂ : StoreSteps S c.store c₂.store := (pass_call_steps rfl hdecrypt).trans ho₁
  have hst₂ := hs₂.sound hst
  obtain ⟨r₂, hr₂, -⟩ := hs₂.lasts hst hk hr
  have hwritten : ∀ c₃ : Client D, Consumed c₃.store m.event_id → StoreSteps S c₂.store c₃.store →
      Beside S c₃ c' → Consumed c'.store m.event_id := by
    intro c₃ hdone hs hb
    exact hdone.steps (hs.sound hst₂) hk hb
  cases answer with
  | ok plaintext =>
    rcases hrun₁.call_inv with ⟨-, h, -⟩ | ⟨answer, c₃, c₄, es₂, hset, ho₂, rfl, hrun₂⟩
    · cases h
    cases answer with
    | error e => cases hrun₂.done_inv.2.1
    | ok u =>
      obtain ⟨-, -, rfl⟩ := hrun₂.done_inv
      have hs₃ := pass_call_steps (S := S) rfl hset
      obtain ⟨fault, hset⟩ := hset
      have hset : c₂.onStore fault (fun st => .ok ((), st.set_decrypted m.event_id plaintext)) =
        (.ok (), c₃) := hset
      refine hwritten c₃ ?_ hs₃ ho₂
      rw [write_made hset]
      exact consumed_write (lasts_withPlaintext plaintext) (fun _ => ok_ne_zero) hr₂
  | error err =>
    rcases hrun₁.call_inv with ⟨-, h, -⟩ | ⟨answer, c₃, c₄, es₂, hset, ho₂, rfl, hrun₂⟩
    · cases h
    cases answer with
    | error e => cases hrun₂.done_inv.2.1
    | ok u =>
      obtain ⟨-, -, rfl⟩ := hrun₂.done_inv
      have hs₃ := pass_call_steps (S := S) rfl hset
      obtain ⟨fault, hset⟩ := hset
      have hset : c₂.onStore fault (fun st => .ok ((), st.set_decrypt_failed m.event_id)) =
        (.ok (), c₃) := hset
      refine hwritten c₃ ?_ hs₃ ho₂
      rw [write_made hset]
      exact consumed_write (lasts_withState failed_ne_zero) (fun _ => failed_ne_zero) hr₂

/-- A turn on a message that ends holds it back, or leaves it processed. -/
theorem turn_consumes {m : PendingDecrypt} {self_user : String} {r : EventRow} {b : Bool}
    (hst : Sound c.store) (hk : ¬ IsLocal m.event_id) (hr : c.store.events.find m.event_id = some r)
    (hheld : HeldNone m.room_id es)
    (hrun : Prog.Runs (Client.Exec X) (Beside S) (process_one self_user (.Message m)) c es
      (.done (.ok b)) c') : Consumed c'.store m.event_id := by
  rcases hrun.call_inv with ⟨-, h, -⟩ | ⟨answer, c₁, c₂, es₁, hgroup, ho₁, rfl, hrun₁⟩
  · cases h
  have hs₂ : StoreSteps S c.store c₂.store := (pass_call_steps rfl hgroup).trans ho₁
  have hst₂ := hs₂.sound hst
  obtain ⟨r₂, hr₂, -⟩ := hs₂.lasts hst hk hr
  rcases answer with e | _ | _
  · cases hrun₁.done_inv.2.1
  · exact absurd ⟨rfl, rfl⟩ (hheld _ List.mem_cons_self)
  · simp only at hrun₁
    by_cases hsender : m.sender = self_user
    · rw [if_pos hsender] at hrun₁
      rcases hrun₁.call_inv with ⟨-, h, -⟩ | ⟨answer, c₃, c₄, es₂, hqueue, ho₂, rfl, hrun₂⟩
      · cases h
      have hs₄ : StoreSteps S c₂.store c₄.store := (pass_call_steps rfl hqueue).trans ho₂
      obtain ⟨r₄, hr₄, -⟩ := hs₄.lasts hst₂ hk hr₂
      rcases answer with e | _ | _
      · cases hrun₂.done_inv.2.1
      · exact attempt_consumes (hs₄.sound hst₂) hk hr₄ hrun₂
      · exact absurd ⟨rfl, rfl⟩ (hheld _ (List.mem_cons_of_mem _ List.mem_cons_self))
    · rw [if_neg hsender] at hrun₁
      exact attempt_consumes hst₂ hk hr₂ hrun₁

end Turn

/-! ## The turn that applies a commit -/

def Op.appliesCommit : Op → Bool
  | .process_commit _ _ => true
  | _ => false

theorem attempt_applies_none (m : PendingDecrypt) :
    (attempt_decrypt m).All (fun op => op.appliesCommit = false) := by
  refine ⟨rfl, fun r => ?_⟩
  cases r with
  | error e =>
    refine ⟨rfl, fun r => ?_⟩
    cases r <;> trivial
  | ok plaintext =>
    refine ⟨rfl, fun r => ?_⟩
    cases r <;> trivial

/-- A turn on a message applies no commit. -/
theorem message_applies_none (self_user : String) (m : PendingDecrypt) :
    (process_one self_user (.Message m)).All (fun op => op.appliesCommit = false) := by
  refine ⟨rfl, fun r => ?_⟩
  rcases r with e | _ | _
  · trivial
  · trivial
  · simp only
    by_cases hs : m.sender = self_user
    · rw [if_pos hs]
      refine ⟨rfl, fun r => ?_⟩
      rcases r with e | _ | _
      · trivial
      · exact attempt_applies_none m
      · trivial
    · rw [if_neg hs]
      exact attempt_applies_none m

section Loop

variable {X S} {c c' : Client D} {es : List (Prog.Event (Client D) Op Op.Res)} {m : PendingCommit}

/-- A program that is about to mark an event does not apply a commit. -/
theorem mark_not_applies {α : Type} {event_id : String} {op : Op}
    {k : op.Res → Code (Except CoreError Bool)} {f : Except CoreError Bool → Code α}
    (hrun : Prog.Runs (Client.Exec X) (Beside S) (mark_processed event_id) c es (.call op k) c') :
    ¬ Applies m (.call op (fun r => (k r).bind f)) := by
  rintro ⟨k', happly, -⟩
  rcases hrun.call_inv with ⟨-, h, -⟩ | ⟨answer, c₁, c₂, es₁, -, -, -, hrun₁⟩
  · cases h
    cases happly
  · cases answer with
    | error e => cases hrun₁.done_inv.2.1
    | ok u => cases hrun₁.done_inv.2.1

/-- A turn that is about to apply a commit is the turn on that commit. -/
theorem turn_applies {α : Type} {self_user : String} {item : PendingMls} {op : Op}
    {k : op.Res → Code (Except CoreError Bool)} {f : Except CoreError Bool → Code α}
    (hrun : Prog.Runs (Client.Exec X) (Beside S) (process_one self_user item) c es (.call op k) c')
    (happly : Applies m (.call op (fun r => (k r).bind f))) :
    ∃ commit, item = .Commit commit ∧ m.Same commit := by
  cases item with
  | Message msg =>
    have hnone := (hrun.all (message_applies_none self_user msg)).2.1
    obtain ⟨k', happly, -⟩ := happly
    cases happly
    cases hnone
  | Commit commit =>
    refine ⟨commit, rfl, ?_⟩
    rcases hrun.call_inv with ⟨-, h, -⟩ | ⟨answer, c₁, c₂, es₁, -, -, -, hrun₁⟩
    · cases h
      obtain ⟨k', happly, -⟩ := happly
      cases happly
    rcases answer with e | _ | _
    · cases hrun₁.done_inv.2.1
    · cases hrun₁.done_inv.2.1
    · simp only at hrun₁
      by_cases hsender : commit.sender ≠ self_user
      · rw [if_pos hsender] at hrun₁
        rcases hrun₁.call_inv with ⟨-, h, -⟩ | ⟨answer, c₃, c₄, es₂, -, -, -, hrun₂⟩
        · cases h
          obtain ⟨k', happly, hmark⟩ := happly
          obtain ⟨event_id, room_id, sender, commit_b64⟩ := m
          obtain ⟨event_id', room_id', sender', commit_b64'⟩ := commit
          cases happly
          obtain ⟨k'', hk''⟩ := hmark (.ok ())
          cases hk''
          exact ⟨rfl, rfl, rfl⟩
        · exact absurd happly (mark_not_applies hrun₂)
      · rw [if_neg hsender] at hrun₁
        exact absurd happly (mark_not_applies hrun₁)

/-- A pass that is about to apply a commit has had its turn on each event before it, and
each message of the room that it did not hold back is processed. -/
theorem walk_to_commit {self_user : String} {items : List PendingMls} {changed : Bool}
    {p' : Code (Except CoreError Bool)} (hst : Sound c.store)
    (hrows : ∀ item ∈ items, ¬ IsLocal item.event_id ∧
      ∃ r, c.store.events.find item.event_id = some r)
    (hrun : Prog.Runs (Client.Exec X) (Beside S) (process_each self_user items changed) c es p' c')
    (happly : Applies m p') (hheld : HeldNone m.room_id es) :
    ∃ past commit rest, items = past ++ .Commit commit :: rest ∧ m.Same commit ∧
      ∀ msg, .Message msg ∈ past → msg.room_id = m.room_id → Consumed c'.store msg.event_id := by
  induction items generalizing c es changed with
  | nil =>
    obtain ⟨-, rfl, -⟩ := hrun.done_inv
    obtain ⟨k', happly, -⟩ := happly
    cases happly
  | cons item rest ih =>
    rcases hrun.bind_inv with ⟨op, k, hcut, rfl⟩ | ⟨a, es₁, es₂, c₁, rfl, hturn, hnext⟩
    · obtain ⟨commit, rfl, hsame⟩ := turn_applies hcut happly
      exact ⟨[], commit, rest, rfl, hsame, fun msg hmsg => absurd hmsg List.not_mem_nil⟩
    · cases a with
      | error e =>
        obtain ⟨-, rfl, -⟩ := hnext.done_inv
        obtain ⟨k', happly, -⟩ := happly
        cases happly
      | ok b =>
        have hs := pass_runs_steps hturn (process_one_calls self_user item)
        have hst₁ := hs.sound hst
        have hrows₁ : ∀ item ∈ rest, ¬ IsLocal item.event_id ∧
            ∃ r, c₁.store.events.find item.event_id = some r := by
          intro item' hitem'
          obtain ⟨hk, r, hr⟩ := hrows item' (List.mem_cons_of_mem _ hitem')
          obtain ⟨r', hr', -⟩ := hs.lasts hst hk hr
          exact ⟨hk, r', hr'⟩
        obtain ⟨past, commit, rest', rfl, hsame, hpast⟩ := ih hst₁ hrows₁ hnext
          (fun e he => hheld e (List.mem_append_right _ he))
        refine ⟨item :: past, commit, rest', rfl, hsame, ?_⟩
        intro msg hmsg hroom
        rcases List.mem_cons.mp hmsg with rfl | hmsg
        · obtain ⟨hk, r, hr⟩ := hrows (.Message msg) List.mem_cons_self
          have hnone : HeldNone msg.room_id es₁ := by
            rw [hroom]
            exact fun e he => hheld e (List.mem_append_left _ he)
          have hdone := turn_consumes hst hk hr hnone hturn
          exact hdone.steps hst₁ hk (pass_runs_steps hnext (process_each_calls self_user _ _))
        · exact hpast msg hmsg hroom

end Loop

/-! ## The pass -/

/-- The read of the list. -/
theorem exec_pending_mls {c c' : Client D} {items : List PendingMls}
    (h : Client.Exec X .pending_mls c (.ok items) c') :
    c' = c ∧ c.store.pending_mls = .ok items := by
  obtain ⟨fault, h⟩ := h
  have h : c.onStore fault (fun st => st.pending_mls.map (·, st)) = (.ok items, c') := h
  rcases Client.onStore_cases h with ⟨e, he, -⟩ | ⟨b, st, hst, hb, rfl⟩
  · cases he
  · cases hb
    cases hp : c.store.pending_mls with
    | error e =>
      rw [hp] at hst
      cases hst
    | ok found =>
      rw [hp] at hst
      cases hst
      exact ⟨rfl, rfl⟩

/-- A row that waits is no echo. -/
theorem waiting_remote {st : Store} (h : Sound st) {r : EventRow} (hr : r ∈ st.events.rows)
    (htype : r.type ≠ "p.room.message") : ¬ IsLocal r.event_id :=
  fun hk => htype (h.locals _ r (Table.mem_rows_iff.mp hr) hk)

theorem waiting_not_message {r : EventRow} (h : Store.Waiting r) : r.type ≠ "p.room.message" := by
  rcases h.1 with ht | ht <;> rw [ht] <;> decide

/-- A row with a ciphertext is a message of the list. -/
theorem message_of_row {r : EventRow} (htype : r.type = "p.room.encrypted")
    (hct : ∃ ct, ((r.payload.index "content").index "ciphertext").as_str = some ct)
    (hread : ∃ o, Store.pendingOf r = .ok o) :
    ∃ msg, Store.pendingOf r = .ok (some (.Message msg)) ∧ msg.event_id = r.event_id ∧
      msg.room_id = r.room_id := by
  obtain ⟨ct, hct⟩ := hct
  have htext : json_extract r.payload ["content", "ciphertext"] = .text ct := by
    unfold Json.index at hct
    unfold json_extract
    cases hcontent : r.payload.get "content" with
    | none =>
      rw [hcontent] at hct
      cases hct
    | some content =>
      rw [hcontent] at hct
      cases hcipher : content.get "ciphertext" with
      | none =>
        simp only [Option.getD_some, hcipher] at hct
        cases hct
      | some v =>
        simp only [Option.getD_some, hcipher] at hct
        simp only [List.foldl_cons, List.foldl_nil, Option.bind_some, hcontent, hcipher]
        cases v with
        | str s =>
          cases hct
          rfl
        | null | bool | num | float | arr | obj => cases hct
  obtain ⟨o, ho⟩ := hread
  unfold Store.pendingOf at ho ⊢
  rw [htext] at ho ⊢
  cases hcommit : (json_extract r.payload ["content", "commit"]).getOptionString with
  | none =>
    rw [hcommit] at ho
    cases ho
  | some commit =>
    refine ⟨⟨r.event_id, r.room_id, r.sender, ct⟩, ?_, rfl, rfl⟩
    simp only [SqlValue.getOptionString, htype, if_true, Option.map_some]

/-- A pass that reaches a commit has read its list, at `c₁`. -/
theorem applies_has_read {c c' : Client D} {es : List (Prog.Event (Client D) Op Op.Res)}
    {p' : Code (Except CoreError Bool)} {m : PendingCommit}
    (hrun : Prog.Runs (Client.Exec X) (Beside S) process_inbound_mls c es p' c')
    (happly : Applies m p') :
    ∃ c₁ c₂ self_user items es', StoreSteps S c.store c₁.store ∧
      c₁.store.pending_mls = .ok items ∧ StoreSteps S c₁.store c₂.store ∧
      Prog.Runs (Client.Exec X) (Beside S) (process_each self_user items false) c₂ es' p' c' ∧
      (∀ e ∈ es', e ∈ es) ∧ ∃ e ∈ es, e.op = .pending_mls ∧ e.before = c₁ := by
  have hnot : ∀ {r : Except CoreError Bool},
      ¬ Applies m (.done r : Code (Except CoreError Bool)) := by
    rintro r ⟨k', h, -⟩
    cases h
  rcases hrun.call_inv with ⟨-, rfl, -⟩ | ⟨answer, c₁, c₂, es₁, he2ee, ho₁, rfl, hrun₁⟩
  · obtain ⟨k', h, -⟩ := happly
    cases h
  cases answer with
  | false =>
    obtain ⟨-, rfl, -⟩ := hrun₁.done_inv
    exact absurd happly hnot
  | true =>
  rcases hrun₁.call_inv with ⟨-, rfl, -⟩ | ⟨session, c₃, c₄, es₂, hsession, ho₂, rfl, hrun₂⟩
  · obtain ⟨k', h, -⟩ := happly
    cases h
  rcases hrun₂.call_inv with ⟨-, rfl, -⟩ | ⟨answer, c₅, c₆, es₃, hread, ho₃, rfl, hrun₃⟩
  · obtain ⟨k', h, -⟩ := happly
    cases h
  cases answer with
  | error e =>
    obtain ⟨-, rfl, -⟩ := hrun₃.done_inv
    exact absurd happly hnot
  | ok items =>
  obtain ⟨rfl, hitems⟩ := exec_pending_mls X hread
  have hs : StoreSteps S c.store c₅.store :=
    (((pass_call_steps rfl he2ee).trans ho₁).trans (pass_call_steps rfl hsession)).trans ho₂
  refine ⟨c₅, c₆, session.user_id, items, es₃, hs, hitems, ho₃, hrun₃, ?_, ?_⟩
  · intro e he
    exact List.mem_cons_of_mem _ (List.mem_cons_of_mem _ (List.mem_cons_of_mem _ he))
  · exact ⟨_, List.mem_cons_of_mem _ (List.mem_cons_of_mem _ List.mem_cons_self), rfl, rfl⟩

/-- The list is in DAG order. -/
theorem pending_in_order {st : Store} {items : List PendingMls}
    (hitems : st.pending_mls = .ok items) :
    items.Pairwise (fun a b => ∀ ra rb, st.events.find a.event_id = some ra →
      st.events.find b.event_id = some rb → ra.position ≤ rb.position) := by
  apply Store.pending_pairwise hitems
  intro r r' hr hr' _ _ hle a b ha hb ra rb hra hrb
  rw [Store.pendingOf_id ha, Table.mem_rows_iff.mp hr] at hra
  rw [Store.pendingOf_id hb, Table.mem_rows_iff.mp hr'] at hrb
  cases hra
  cases hrb
  exact hle

/-- A row of the list is the row of an event of the server. -/
theorem listed_row {st : Store} {items : List PendingMls} (hst : Sound st)
    (hitems : st.pending_mls = .ok items) {item : PendingMls} (hitem : item ∈ items) :
    ¬ IsLocal item.event_id ∧ ∃ r, st.events.find item.event_id = some r := by
  obtain ⟨r, hr, hw, hof⟩ := (Store.mem_pending_iff hitems).mp hitem
  rw [Store.pendingOf_id hof]
  exact ⟨waiting_remote hst hr (waiting_not_message hw), r, Table.mem_rows_iff.mp hr⟩

/-- A message that still waits, and was there when the list was read, is in the list. -/
theorem waiting_message_listed {st st' : Store} {items : List PendingMls} {m : PendingCommit}
    {r : EventRow} (hst : Sound st) (hs : StoreSteps S st st') (hitems : st.pending_mls = .ok items)
    (hbefore : Precedes st' m r) (hwaits : r.decrypt_state = 0)
    (hthere : (st.events.find r.event_id).isSome = true) :
    ∃ msg r₀, .Message msg ∈ items ∧ msg.event_id = r.event_id ∧ msg.room_id = m.room_id ∧
      st.events.find msg.event_id = some r₀ ∧ r₀.position = r.position := by
  have hnolocal := waiting_remote (hs.sound hst) hbefore.mem (by rw [hbefore.type]; decide)
  obtain ⟨r₀, hr₀⟩ := Option.isSome_iff_exists.mp hthere
  obtain ⟨r', hr', hlasts⟩ := hs.lasts hst hnolocal hr₀
  obtain rfl : r = r' := by
    rw [Table.mem_rows_iff.mp hbefore.mem] at hr'
    exact Option.some.inj hr'
  have hmem₀ := (Table.find_some_iff.mp hr₀).1
  have hwait₀ : Store.Waiting r₀ := by
    refine ⟨Or.inl (hlasts.type.symm.trans hbefore.type), ?_⟩
    by_contra hne
    exact hlasts.processed hne hwaits
  obtain ⟨msg, hof, hmid, hmroom⟩ := message_of_row (hlasts.type.symm.trans hbefore.type)
    (hlasts.payload ▸ hbefore.ciphertext) (Store.readable_of_pending hitems hmem₀ hwait₀)
  have hid : msg.event_id = r.event_id := hmid.trans hlasts.event_id.symm
  refine ⟨msg, r₀, (Store.mem_pending_iff hitems).mpr ⟨r₀, hmem₀, hwait₀, hof⟩, hid,
    hmroom.trans (hlasts.room_id.symm.trans hbefore.room_id), ?_, hlasts.position.symm⟩
  rw [hid]
  exact hr₀

theorem pendingOf_lasts {r r' : EventRow} (h : Lasts r r') :
    Store.pendingOf r' = Store.pendingOf r := by
  unfold Store.pendingOf
  rw [h.payload, h.type, h.event_id, h.room_id, h.sender]

/-- The row of a commit of the list, later on. -/
theorem listed_commit {st st' : Store} {items : List PendingMls} {commit : PendingCommit}
    (hst : Sound st) (hs : StoreSteps S st st') (hitems : st.pending_mls = .ok items)
    (hin : PendingMls.Commit commit ∈ items) :
    ¬ IsLocal commit.event_id ∧ ∃ r, st'.events.find commit.event_id = some r ∧
      Store.pendingOf r = .ok (some (.Commit commit)) := by
  obtain ⟨r, hr, hw, hof⟩ := (Store.mem_pending_iff hitems).mp hin
  obtain ⟨hremote, -⟩ := listed_row hst hitems hin
  have hid : commit.event_id = r.event_id := Store.pendingOf_id hof
  have hfind : st.events.find commit.event_id = some r := by
    rw [hid]
    exact Table.mem_rows_iff.mp hr
  obtain ⟨r', hr', hlasts⟩ := hs.lasts hst hremote hfind
  exact ⟨hremote, r', hr', (pendingOf_lasts hlasts).trans hof⟩

/-- A commit that a pass applies has no message waiting before it, and is the commit of a row. -/
theorem applied_in_turn {c c' : Client D} {es : List (Prog.Event (Client D) Op Op.Res)}
    {p' : Code (Except CoreError Bool)} {m : PendingCommit} (hst : Sound c.store)
    (hrun : Prog.Runs (Client.Exec X) (Beside S) process_inbound_mls c es p' c')
    (happly : Applies m p') (hheld : HeldNone m.room_id es) (hlate : NoneLate m es c'.store) :
    InTurn c'.store m ∧ ¬ IsLocal m.event_id ∧
      ∃ r commit, c'.store.events.find m.event_id = some r ∧
      Store.pendingOf r = .ok (some (.Commit commit)) ∧ m.Same commit := by
  obtain ⟨c₅, c₆, self_user, items, es₃, hs₄, hitems, ho₃, hrun₃, hsub, e, he, hop, hat⟩ :=
    applies_has_read X S hrun happly
  have hst₅ := hs₄.sound hst
  have hst₆ := StoreSteps.sound hst₅ ho₃
  have hs₅ : StoreSteps S c₅.store c'.store :=
    ho₃.trans (pass_runs_steps hrun₃ (process_each_calls self_user items false))
  have hrows₆ : ∀ item ∈ items, ¬ IsLocal item.event_id ∧
      ∃ r, c₆.store.events.find item.event_id = some r := by
    intro item hitem
    obtain ⟨hk, r, hr⟩ := listed_row hst₅ hitems hitem
    obtain ⟨r', hr', -⟩ := StoreSteps.lasts hst₅ ho₃ hk hr
    exact ⟨hk, r', hr'⟩
  obtain ⟨past, commit, rest, hsplit, hsame, hpast⟩ :=
    walk_to_commit hst₆ hrows₆ hrun₃ happly (fun e he => hheld e (hsub e he))
  have hid := hsame.event_id
  have hin : PendingMls.Commit commit ∈ items := by
    rw [hsplit]
    simp
  obtain ⟨hremote, rm, hrm, hof⟩ := listed_commit S hst₅ hs₅ hitems hin
  rw [hid] at hremote hrm
  refine ⟨?_, hremote, rm, commit, hrm, hof, hsame⟩
  intro r hbefore hwaits
  have hthere : (c₅.store.events.find r.event_id).isSome = true := by
    rw [← hat]
    exact hlate e he hop r hbefore
  obtain ⟨msg, r₀, hmsg, hmid, hmroom, hmrow, hposition⟩ :=
    waiting_message_listed S hst₅ hs₅ hitems hbefore hwaits hthere
  have hsorted := pending_in_order hitems
  have hcommit := listed_row hst₅ hitems hin
  rw [hsplit] at hmsg hsorted
  rcases List.mem_append.mp hmsg with hmsg | hmsg
  · -- it had its turn
    obtain ⟨r₁, hr₁, hdone⟩ := hpast msg hmsg hmroom
    rw [hmid, Table.mem_rows_iff.mp hbefore.mem] at hr₁
    exact hdone (Option.some.inj hr₁ ▸ hwaits)
  · rcases List.mem_cons.mp hmsg with hmsg | hmsg
    · cases hmsg
    · -- it stands after the commit
      obtain ⟨rc, hrc, hlt⟩ := hbefore.earlier
      obtain ⟨hkc, rc₀, hrc₀⟩ := hcommit
      have hrc₀ : c₅.store.events.find commit.event_id = some rc₀ := hrc₀
      obtain ⟨rc', hrc', hlc⟩ := hs₅.lasts hst₅ hkc hrc₀
      rw [show (PendingMls.Commit commit).event_id = m.event_id from hid, hrc] at hrc'
      obtain rfl := Option.some.inj hrc'
      have hle := (List.pairwise_cons.mp (List.pairwise_append.mp hsorted).2.1).1 _ hmsg rc₀ r₀
        hrc₀ hmrow
      rw [hposition, ← hlc.position] at hle
      exact absurd hlt (not_lt_of_ge hle)

/-- In every run of a pass, whatever the other tasks do between its calls: a commit that it
applies has no message waiting before it, where the pass held back no event of the room
and no such message came in after it had read its list. -/
theorem a_commit_is_applied_in_turn {c c' : Client D}
    {es : List (Prog.Event (Client D) Op Op.Res)} {p' : Code (Except CoreError Bool)}
    {m : PendingCommit} (hst : c.store.Reachable S)
    (hrun : Prog.Runs (Client.Exec X) (Beside S) process_inbound_mls c es p' c')
    (happly : Applies m p') (hheld : HeldNone m.room_id es) (hlate : NoneLate m es c'.store) :
    InTurn c'.store m :=
  (applied_in_turn X S hst.sound hrun happly hheld hlate).1

/-- A pass that nothing disturbs, and where no call fails, up to its call `n`. -/
theorem undisturbed_cut (n : Nat) (c : Client D) :
    Prog.Runs (Client.Exec X) (Beside S) process_inbound_mls c
      (Prog.traceTo (Client.local_ X) n process_inbound_mls c)
      (Prog.cut (Client.local_ X) n process_inbound_mls c).1
      (Prog.cut (Client.local_ X) n process_inbound_mls c).2 := by
  apply Prog.runs_cut
  · intro op c
    exact ⟨Client.calm op, rfl⟩
  · intro c
    exact Relation.ReflTransGen.refl

/-! ## A message from another device of the same user -/

/-- An MLS event of `!room`, as its server sends it. -/
def roomEvent (event_id sender type : String) (depth : Int) (content : Json) : Json :=
  .obj [("event_id", .str event_id), ("room_id", .str "!room"), ("sender", .str sender),
    ("type", .str type), ("origin_server_ts", .num 8), ("depth", .num depth), ("content", content)]

/-- Ann writes on her tablet at epoch 0, and then Bob ends that epoch. -/
def tabletMessage : Json :=
  roomEvent "$tab" "@ann:pigeon.example" "p.room.encrypted" 1
    (encryptedContent (epochText 0 "hello"))

def endOfEpoch : Json :=
  roomEvent "$cmt" "@bob:pigeon.example" "p.mls.commit" 2 (commitContent (epochText 0 "add"))

def tabletServer : Server where
  sends j := j = tabletMessage ∨ j = endOfEpoch
  acks _ := False
  sends_remote := by
    intro j ev hj hev
    rcases hj with rfl | rfl
    · exact parsed_not_local hev rfl (by decide)
    · exact parsed_not_local hev rfl (by decide)
  acks_remote := fun _ h => absurd h not_false

/-- Ann's phone has both events. -/
def tabletStore : Store :=
  storeAfter Store.init ((Store.init.apply_events [tabletMessage, endOfEpoch]).map Prod.snd)

/-- And it has a message of its own to send. -/
def busyStore : Store :=
  storeAfter tabletStore ((tabletStore.queue_send "!room" "@ann:pigeon.example" "hi"
    (next_send_ids 7 0) 7).map Prod.snd)

theorem tabletStore_reachable : tabletStore.Reachable tabletServer := by
  have hbatch : ∀ j ∈ [tabletMessage, endOfEpoch], tabletServer.sends j := by
    intro j hj
    rcases List.mem_cons.mp hj with rfl | hj
    · exact Or.inl rfl
    · exact Or.inr (List.mem_singleton.mp hj)
  exact Relation.ReflTransGen.single
    (@StoreStep.apply_events tabletServer Store.init tabletStore _ 2 hbatch rfl)

theorem busyStore_reachable : busyStore.Reachable tabletServer :=
  tabletStore_reachable.tail (@StoreStep.queue_send tabletServer tabletStore busyStore "!room"
    "@ann:pigeon.example" "hi" "m7-0" 7 7 0 rfl rfl)

def tabletCommit : PendingCommit := ⟨"$cmt", "!room", "@bob:pigeon.example", epochText 0 "add"⟩

/-- The row of the message, as it came in. -/
def tabletRow : EventRow := Store.rowOf
  { event_id := "$tab", room_id := "!room", sender := "@ann:pigeon.example"
    event_type := "p.room.encrypted", state_key := none, origin_server_ts := 8, depth := 1
    content := encryptedContent (epochText 0 "hello"), payload := tabletMessage
    send_state := .Confirmed, decrypted := none, decrypt_failed := false }

def idlePhone : Client Copies := { memberClient with store := tabletStore }
def busyPhone : Client Copies := { memberClient with store := busyStore }

/-- With nothing to send, the pass reads the message and then comes to the commit. -/
theorem a_commit_is_applied_in_turn_tablet :
    InTurn (Prog.cut (Client.local_ epochCrypto) 8 process_inbound_mls idlePhone).2.store
      tabletCommit := by
  apply a_commit_is_applied_in_turn epochCrypto tabletServer (c := idlePhone) tabletStore_reachable
    (undisturbed_cut epochCrypto tabletServer 8 idlePhone)
  · exact ⟨_, rfl, fun r => ⟨_, rfl⟩⟩
  · have hnone : HeldNone "!room" (Prog.traceTo (Client.local_ epochCrypto) 8 process_inbound_mls
        idlePhone) := by
      refine List.forall_mem_cons.mpr ⟨fun h => h, List.forall_mem_cons.mpr ⟨fun h => h,
        List.forall_mem_cons.mpr ⟨fun h => h, List.forall_mem_cons.mpr ⟨fun h => ?_,
        List.forall_mem_cons.mpr ⟨fun h => ?_, List.forall_mem_cons.mpr ⟨fun h => h,
        List.forall_mem_cons.mpr ⟨fun h => h, List.forall_mem_cons.mpr ⟨fun h => ?_, ?_⟩⟩⟩⟩⟩⟩⟩⟩
      · cases h.2
      · cases h.2
      · cases h.2
      · exact fun e he => absurd he List.not_mem_nil
    exact hnone
  · have hrows : ∀ r ∈ (Prog.cut (Client.local_ epochCrypto) 8 process_inbound_mls
        idlePhone).2.store.events.rows, (tabletStore.events.find r.event_id).isSome = true :=
      List.forall_mem_cons.mpr ⟨rfl, List.forall_mem_cons.mpr ⟨rfl,
        fun r hr => absurd hr List.not_mem_nil⟩⟩
    refine List.forall_mem_cons.mpr ⟨fun h => ?_, List.forall_mem_cons.mpr ⟨fun h => ?_,
      List.forall_mem_cons.mpr ⟨fun _ r hr => hrows r hr.mem, List.forall_mem_cons.mpr ⟨fun h => ?_,
      List.forall_mem_cons.mpr ⟨fun h => ?_, List.forall_mem_cons.mpr ⟨fun h => ?_,
      List.forall_mem_cons.mpr ⟨fun h => ?_, List.forall_mem_cons.mpr ⟨fun h => ?_, ?_⟩⟩⟩⟩⟩⟩⟩⟩
    · cases h
    · cases h
    · cases h
    · cases h
    · cases h
    · cases h
    · cases h
    · exact fun e he => absurd he List.not_mem_nil

/-- While it has, the pass leaves the message waiting and applies the commit. -/
theorem a_commit_overtakes_a_message : ¬ ∀ (D : Type) (X : PigeonCrypto D) (S : Server)
    (c c' : Client D) (es : List (Prog.Event (Client D) Op Op.Res))
    (p' : Code (Except CoreError Bool)) (m : PendingCommit), c.store.Reachable S →
    Prog.Runs (Client.Exec X) (Beside S) process_inbound_mls c es p' c' → Applies m p' →
    InTurn c'.store m := by
  intro h
  have hturn := h Copies epochCrypto tabletServer busyPhone _ _ _ tabletCommit busyStore_reachable
    (undisturbed_cut epochCrypto tabletServer 6 busyPhone) ⟨_, rfl, fun r => ⟨_, rfl⟩⟩
  have hwaits : Precedes busyStore tabletCommit tabletRow :=
    ⟨List.mem_cons_self, rfl, rfl, ⟨_, rfl⟩, ⟨_, rfl, by decide⟩⟩
  exact hturn _ hwaits rfl

end PigeonMobile
