-- The decrypt pass is safe call by call: it caches a plaintext only for an event that
-- this device did not send, however old its snapshot is. With the sends this covers every
-- program, so every run of the outbox keeps the tables and the ledger consistent.
import PigeonMobile.OutboxSends

namespace PigeonMobile

variable {D : Type} {X : PigeonCrypto D} {i : Actor}

/-! ## The decrypt pass -/

/-- An item of the pass comes from an event of the server, with its ciphertext. -/
def Snapshot (w : World D) : PendingMls → Prop
  | .Message m => ∃ j ev, WireEvent w.ledger.log j ev ∧ ev.event_id = m.event_id ∧
      ev.event_type = "p.room.encrypted" ∧
      json_extract j ["content", "ciphertext"] = .text m.ciphertext_b64
  | .Commit _ => True

theorem snapshot_lasting (i : Actor) (item : PendingMls) :
    Lasting i (fun w : World D => Snapshot w item) := by
  intro w w' hrely h
  cases item with
  | Commit c => trivial
  | Message m =>
    obtain ⟨j, ev, hw, he⟩ := h
    exact ⟨j, ev, ⟨hrely.1.log j hw.mem, hw.parses⟩, he⟩

/-- The pass knows where all its items come from. -/
def Passing (items : List PendingMls) (w : World D) : Prop := ∀ item ∈ items, Snapshot w item

theorem passing_lasting (i : Actor) (items : List PendingMls) :
    Lasting i (Passing (D := D) items) :=
  fun w w' hrely h item hmem => snapshot_lasting i item w w' hrely (h item hmem)

theorem Passing.same {items : List PendingMls} {w w' : World D} (hg : w'.ledger = w.ledger)
    (h : Passing items w) : Passing items w' := by
  intro item hmem
  unfold Snapshot
  rw [hg]
  exact h item hmem

/-- The ciphertext that SQL reads out of an encrypted event. -/
theorem extract_ciphertext {j : Json} {ev : StoredEvent} {ct : String}
    (hp : StoredEvent.from_wire j = .ok ev) (hc : ev.content = encryptedContent ct) :
    json_extract j ["content", "ciphertext"] = .text ct := by
  have hcontent := (StoredEvent.from_wire_ok.mp hp).2.2.2.2.2.2.2.1
  rw [hc] at hcontent
  cases hg : j.get "content" with
  | none =>
    rw [hg] at hcontent
    cases hcontent
  | some c =>
    rw [hg] at hcontent
    obtain rfl : c = encryptedContent ct := hcontent
    simp only [json_extract, List.foldl_cons, List.foldl_nil, Option.bind_some, hg]
    rfl

/-- An item of the queue is an event of the server as it stands in the log. -/
theorem snapshot_of_pending {w : World D} {items : List PendingMls} {item : PendingMls}
    (hinv : outboxContract.inv w) (h : w.client.store.pending_mls = .ok items)
    (hi : item ∈ items) : Snapshot w item := by
  obtain ⟨r, hr, -, hof⟩ := Store.mem_pending_mls _ h hi
  cases item with
  | Commit c => trivial
  | Message m =>
    rcases Store.pendingOf_cases hof with ⟨ct, htype, htext, hitem⟩ | ⟨commit, -, -, hitem⟩
    · cases hitem
      rcases hinv.rows r.event_id r (Table.mem_rows_iff.mp hr) with ⟨q, _, _, he⟩ |
        ⟨j, ev, hw, hid, _, hty, hpay, _⟩ | ⟨q, _, _, _, he, _⟩
      · rw [he.type] at htype
        exact absurd htype (by decide)
      · rw [hpay] at htext
        exact ⟨j, ev, hw, hid.symm, hty.symm.trans htype, htext⟩
      · rw [he.type] at htype
        exact absurd htype (by decide)
    · cases hitem

/-- An event whose ciphertext can be read is not one of this device. -/
theorem not_own {w : World D} {m : PendingDecrypt} (hinv : outboxContract.inv w)
    (hs : Snapshot w (.Message m)) (hct : m.ciphertext_b64 ∉ w.ledger.mine) :
    ∀ t, w.ledger.stored t ≠ some m.event_id := by
  intro t ht
  obtain ⟨j, ev, hw, hid, htype, htext⟩ := hs
  have hseal : ∃ ct ∈ w.ledger.mine, ev.content = encryptedContent ct := by
    rcases hinv.stored_known t _ ht with hone | ⟨q, hq, rfl⟩
    · exact hinv.images t hone _ ht j ev hw hid htype
    · rcases (hinv.carried q hq _ ht j ev hw hid).2 with ⟨hmsg, _⟩ | ⟨_, hct⟩
      · rw [htype] at hmsg
        exact absurd hmsg (by decide)
      · exact hct
  obtain ⟨ct, hmem, hc⟩ := hseal
  have hx := extract_ciphertext hw.parses hc
  rw [htext] at hx
  cases hx
  exact hct hmem

/-- An event of someone else: the server has it, and it is no transaction of ours. -/
def Foreign (event_id : String) (w : World D) : Prop :=
  (∃ j ∈ w.ledger.log, wireId j = some event_id) ∧ ∀ t, w.ledger.stored t ≠ some event_id

theorem foreign_lasting (i : Actor) (event_id : String) :
    Lasting i (Foreign (D := D) event_id) := by
  rintro w w' hrely ⟨⟨j, hj, hid⟩, hnot⟩
  refine ⟨⟨j, hrely.1.log j hj, hid⟩, ?_⟩
  intro t ht
  rcases hrely.1.stored t event_id ht with hs | hnew
  · exact hnot t hs
  · exact hnew j hj hid

/-- A write of the decrypt pass. -/
theorem keep_store {w w' : World D} {st : Store} (hst : w'.client.store = st)
    (hcons : Consistent st w.ledger) (hpend : st.pending_sends = w.client.store.pending_sends)
    (hg : w'.ledger = w.ledger) (hl : w'.lock = w.lock) :
    outboxContract.inv w' ∧ outboxContract.give i w w' := by
  refine keep_of ?_ (by rw [hg]; exact Ledger.Grows.refl _) hl ?_
  · rw [hst, hg]
    exact hcons
  · intro q _
    rw [hg, hst, hpend]
    exact ⟨rfl, fun h => h⟩

section Pass

variable {items : List PendingMls}

/-- A call of the pass that writes to the log by `f`. -/
theorem keeping_write {α : Type} {Q : α → World D → Prop} {op : Op} {f : Store → Store}
    {k : op.Res → Code α} {w : World D} (hw : Passing items w)
    (hop : ∀ choice c r c', Client.perform X op choice c = (r, c') →
      c'.store = c.store ∨ c'.store = f c.store)
    (hrule : ∀ session g choice r g', Rule i session g op choice r g' → g' = g)
    (hlock : ∀ l l', LockRule i op l l' → l' = l)
    (hf : ∀ w', outboxContract.rely i w w' → outboxContract.inv w' →
      Consistent (f w'.client.store) w'.ledger)
    (hpend : ∀ st, (f st).pending_sends = st.pending_sends)
    (hk : ∀ r w', Passing items w' → Keeping X i Q (k r) w') : Keeping X i Q (.call op k) w := by
  rintro w₁ hrely hinv r w₂ ⟨choice, hp, hr, hl⟩
  have hg := hrule _ _ _ _ _ hr
  have hl' := hlock _ _ hl
  have h₂ : Passing items w₂ := (passing_lasting i items w w₁ hrely hw).same hg
  rcases hop choice w₁.client r w₂.client hp with hst | hst
  · obtain ⟨h1, h2⟩ := (⟨hst, hg, hl'⟩ : Still w₁ w₂).keep hinv (i := i)
    exact ⟨h1, h2, hk r w₂ h₂⟩
  · obtain ⟨h1, h2⟩ := keep_store (i := i) hst (hf w₁ hrely hinv) (hpend _) hg hl'
    exact ⟨h1, h2, hk r w₂ h₂⟩

theorem keeping_set_commit_processed {α : Type} {Q : α → World D → Prop} {event_id : String}
    {k : Except CoreError Unit → Code α} {w : World D} (hw : Passing items w)
    (hk : ∀ r w', Passing items w' → Keeping X i Q (k r) w') :
    Keeping X i Q (.call (.set_commit_processed event_id) k) w := by
  refine keeping_write (f := fun st => st.set_commit_processed event_id) hw ?_
    (fun _ _ _ _ _ h => h) (fun _ _ h => h) (fun w' _ hinv => hinv.set_commit_processed event_id)
    (fun _ => rfl) hk
  intro fault c r c' hp
  have hp' : c.onStore fault (fun st => .ok ((), st.set_commit_processed event_id)) = (r, c') := hp
  rcases Client.onStore_cases hp' with ⟨e, -, rfl⟩ | ⟨u, st, hf, -, rfl⟩
  · exact Or.inl rfl
  · cases hf
    exact Or.inr rfl

theorem keeping_set_decrypt_failed {α : Type} {Q : α → World D → Prop} {event_id : String}
    {k : Except CoreError Unit → Code α} {w : World D} (hw : Passing items w)
    (hk : ∀ r w', Passing items w' → Keeping X i Q (k r) w') :
    Keeping X i Q (.call (.set_decrypt_failed event_id) k) w := by
  refine keeping_write (f := fun st => st.set_decrypt_failed event_id) hw ?_
    (fun _ _ _ _ _ h => h) (fun _ _ h => h) (fun w' _ hinv => hinv.set_decrypt_failed event_id)
    (fun _ => rfl) hk
  intro fault c r c' hp
  have hp' : c.onStore fault (fun st => .ok ((), st.set_decrypt_failed event_id)) = (r, c') := hp
  rcases Client.onStore_cases hp' with ⟨e, -, rfl⟩ | ⟨u, st, hf, -, rfl⟩
  · exact Or.inl rfl
  · cases hf
    exact Or.inr rfl

/-- A plaintext may be cached for an event of someone else. -/
theorem keeping_set_decrypted {α : Type} {Q : α → World D → Prop} {event_id plaintext : String}
    {k : Except CoreError Unit → Code α} {w : World D} (hw : Passing items w)
    (hforeign : Foreign event_id w)
    (hk : ∀ r w', Passing items w' → Keeping X i Q (k r) w') :
    Keeping X i Q (.call (.set_decrypted event_id plaintext) k) w := by
  refine keeping_write (f := fun st => st.set_decrypted event_id plaintext) hw ?_
    (fun _ _ _ _ _ h => h) (fun _ _ h => h) ?_ (fun _ => rfl) hk
  · intro fault c r c' hp
    have hp' : c.onStore fault (fun st => .ok ((), st.set_decrypted event_id plaintext)) =
        (r, c') := hp
    rcases Client.onStore_cases hp' with ⟨e, -, rfl⟩ | ⟨u, st, hf, -, rfl⟩
    · exact Or.inl rfl
    · cases hf
      exact Or.inr rfl
  · intro w' hrely hinv
    exact hinv.set_decrypted (foreign_lasting i event_id w w' hrely hforeign).2 plaintext

variable {Q : Except CoreError Bool → World D → Prop} (hQ : ∀ r w', Passing items w' → Q r w')
include hQ

theorem keeping_mark_processed {event_id : String} {w : World D} (hw : Passing items w) :
    Keeping X i Q (mark_processed event_id) w := by
  refine keeping_set_commit_processed hw ?_
  rintro (e | u) w' hw' <;> exact hQ _ _ hw'

/-- The attempt on a message: where it gives a plaintext, the event is not our own. -/
theorem keeping_attempt {m : PendingDecrypt} {w : World D} (hw : Passing items w)
    (hm : .Message m ∈ items) : Keeping X i Q (attempt_decrypt m) w := by
  refine keeping_still rfl (passing_lasting i items) (fun _ _ hs h => h.same hs.ledger) hw ?_
  rintro w₁ r w₂ hinv ⟨choice, _, ⟨hown, _⟩, _⟩ hs h₁ h₂
  rcases r with e | plaintext
  · refine keeping_set_decrypt_failed h₂ ?_
    rintro (e | u) w' hw' <;> exact hQ _ _ hw'
  · have hct : m.ciphertext_b64 ∉ w₁.ledger.mine := by
      intro hmem
      obtain ⟨e, he⟩ := hown hmem
      cases he
    have hforeign : Foreign m.event_id w₂ := by
      unfold Foreign
      rw [hs.ledger]
      refine ⟨?_, not_own hinv (h₁ _ hm) hct⟩
      obtain ⟨j, ev, hwire, hid, -⟩ := h₁ _ hm
      exact ⟨j, hwire.mem, hid ▸ wireId_of_parses hwire.parses⟩
    refine keeping_set_decrypted h₂ hforeign ?_
    rintro (e | u) w' hw' <;> exact hQ _ _ hw'

theorem keeping_process_one {self_user : String} {item : PendingMls} {w : World D}
    (hw : Passing items w) (hitem : item ∈ items) :
    Keeping X i Q (process_one self_user item) w := by
  have hlast := passing_lasting (D := D) i items
  cases item with
  | Commit c =>
    refine keeping_still rfl hlast (fun _ _ hs h => h.same hs.ledger) hw ?_
    rintro _ (e | _ | _) w₁ _ _ _ _ h₁
    · exact hQ _ _ h₁
    · exact hQ _ _ h₁
    · dsimp only
      split
      · refine keeping_still rfl hlast (fun _ _ hs h => h.same hs.ledger) h₁ ?_
        exact fun _ _ w₂ _ _ _ _ h₂ => keeping_mark_processed hQ h₂
      · exact keeping_mark_processed hQ h₁
  | Message m =>
    refine keeping_still rfl hlast (fun _ _ hs h => h.same hs.ledger) hw ?_
    rintro _ (e | _ | _) w₁ _ _ _ _ h₁
    · exact hQ _ _ h₁
    · exact hQ _ _ h₁
    · dsimp only
      split
      · refine keeping_still rfl hlast (fun _ _ hs h => h.same hs.ledger) h₁ ?_
        rintro _ (e | _ | _) w₂ _ _ _ _ h₂
        · exact hQ _ _ h₂
        · exact keeping_attempt hQ h₂ hitem
        · exact hQ _ _ h₂
      · exact keeping_attempt hQ h₁ hitem

theorem keeping_process_each {self_user : String} {todo : List PendingMls} {changed : Bool}
    {w : World D} (hw : Passing items w) (hsub : ∀ item ∈ todo, item ∈ items) :
    Keeping X i Q (process_each self_user todo changed) w := by
  induction todo generalizing changed w with
  | nil => exact hQ _ _ hw
  | cons item rest ih =>
    apply Safe.bind
    refine keeping_process_one ?_ hw (hsub item List.mem_cons_self)
    rintro (e | changed') w' hw'
    · exact hQ _ _ hw'
    · exact ih hw' (fun x hx => hsub x (List.mem_cons_of_mem _ hx))

end Pass

theorem keeping_process_inbound_mls {w : World D} :
    Keeping X i (fun _ _ => True) process_inbound_mls w := by
  refine keeping_call rfl ?_
  rintro _ (_ | _) w₁ _ _ _
  · trivial
  refine keeping_call rfl ?_
  rintro _ session w₂ _ _ _
  refine keeping_call rfl ?_
  rintro w₃ r w₄ hinv ⟨choice, hp, _, _⟩ hs
  have hp' : w₃.client.onStore choice (fun st => st.pending_mls.map (·, st)) = (r, w₄.client) := hp
  rcases Client.onStore_cases hp' with ⟨e, rfl, -⟩ | ⟨pending, st, hf, rfl, -⟩
  · trivial
  · have hread : w₃.client.store.pending_mls = .ok pending := by
      cases hm : w₃.client.store.pending_mls with
      | error e =>
        rw [hm] at hf
        cases hf
      | ok found =>
        rw [hm] at hf
        cases hf
        rfl
    have hpass : Passing pending w₄ := by
      intro item hitem
      unfold Snapshot
      rw [hs.ledger]
      exact snapshot_of_pending hinv hread hitem
    exact keeping_process_each (fun _ _ _ => trivial) hpass (fun _ h => h)

/-! ## Every run -/

theorem keeping_forget {α : Type} {p : Code α} {w : World D}
    (h : Keeping X i (fun _ _ => True) p w) : Keeping X i (fun _ _ => True) p.forget w := by
  apply Safe.bind
  exact Safe.mono (fun _ _ _ => trivial) h

/-- Deliveries, arrivals and the rest of the client leave the queue alone. -/
theorem surroundings_keep {w w' : World D} (hinv : outboxContract.inv w)
    (h : Surroundings X w w') : outboxContract.inv w' ∧ ∀ i, outboxContract.rely i w w' := by
  cases h with
  | @deliver batch fault hbatch =>
    obtain ⟨r, c', hp⟩ : ∃ r c', w.client.onStore fault (fun st => st.apply_events batch) =
        (r, c') :=
      ⟨_, _, rfl⟩
    have hc : (Client.perform X (.apply_events batch) fault w.client).2 = c' := congrArg Prod.snd hp
    rw [hc]
    rcases Client.onStore_cases hp with ⟨e, -, rfl⟩ | ⟨n, st, hf, -, rfl⟩
    · exact ⟨hinv, fun i => outboxContract.refl i _⟩
    · have hpend : st.pending_sends = w.client.store.pending_sends := by
        obtain ⟨evs, -, hparsed⟩ := Store.apply_events_ok _ hf
        have h := Store.apply_parsed_pending_sends w.client.store evs
        rw [hparsed] at h
        exact h
      refine ⟨Consistent.deliver hinv hbatch hf, fun i => ⟨Ledger.Grows.refl _, fun hl => ⟨hl, ?_⟩⟩⟩
      intro q _
      refine ⟨rfl, fun hn => ?_⟩
      simp only [hpend]
      exact hn
  | @arrive j ev hf =>
    refine ⟨Consistent.append hinv hf, fun i => ⟨?_, fun hl => ⟨hl, fun q _ => ⟨rfl, fun h => h⟩⟩⟩⟩
    exact ⟨fun _ h => List.mem_append_left _ h, fun _ h => h, fun _ h => h, fun _ h => h,
      fun _ _ h => Or.inl h⟩
  | work =>
    exact ⟨hinv, fun i => ⟨Ledger.Grows.refl _, fun hl => ⟨hl, fun q _ => ⟨rfl, fun h => h⟩⟩⟩⟩

theorem outbox_keeps : (outbox X).Keeps outboxContract where
  start i w p _ hstart := by
    cases i with
    | send n =>
      rcases hstart with rfl | ⟨room_id, body, rfl⟩
      · exact keeping_forget keeping_flush_pending
      · exact keeping_forget keeping_send_message
    | image n =>
      obtain ⟨room_id, bytes, mimetype, width, height, caption, rfl⟩ := hstart
      exact keeping_forget keeping_send_image
    | pass n =>
      obtain rfl := hstart
      exact keeping_forget keeping_process_inbound_mls
  drop i w w' hinv hdrop := by
    obtain rfl := hdrop
    refine ⟨hinv, Ledger.Grows.refl _, ?_⟩
    intro j hij hj
    refine ⟨?_, fun q _ => ⟨rfl, fun h => h⟩⟩
    simp only [hj]
    rw [if_neg]
    intro h
    exact hij (Option.some.inj h)
  env w w' hinv h := surroundings_keep hinv h
  restart w w' hinv h := by
    obtain ⟨c, hc, rfl⟩ := h
    have hinv' : Consistent c.store w.ledger := by
      rw [hc]
      exact hinv
    exact hinv'

/-- Every state that a run reaches is consistent. -/
theorem outbox_consistent {c : Client D} {p : Pool Actor (World D) Op Op.Res}
    (h : (outbox X).Reaches (Threaded.idle (World.start c)) p) :
    Consistent p.state.client.store p.state.ledger := by
  have h0 : outboxContract.inv (World.start c) := Consistent.init
  exact Threaded.invariant (outbox X) outbox_keeps h0 h

end PigeonMobile
