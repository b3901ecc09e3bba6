-- What `process_inbound_mls` computes where no call fails: a verdict on each waiting
-- event, taken one after the other in DAG order. An event that waits stays as it is. Any
-- other is marked for good, and leaves the list of waiting events.
import PigeonMobile.StoreFacts
import PigeonMobile.Rooms

namespace PigeonMobile

/-! ## Marks -/

/-- How the pass marks the row of an event. -/
inductive Mark where
  | processed
  | text (plaintext : String)
  | failed

namespace Mark

def write : Mark → String → Store → Store
  | .processed, event_id, st => st.set_commit_processed event_id
  | .text plaintext, event_id, st => st.set_decrypted event_id plaintext
  | .failed, event_id, st => st.set_decrypt_failed event_id

/-- The row, marked. -/
def row : Mark → EventRow → EventRow
  | .processed => Store.withState DECRYPT_OK
  | .text plaintext => Store.withPlaintext plaintext
  | .failed => Store.withState DECRYPT_FAILED

theorem row_id (mark : Mark) (r : EventRow) : (mark.row r).event_id = r.event_id := by
  cases mark <;> rfl

theorem row_done (mark : Mark) (r : EventRow) : (mark.row r).decrypt_state ≠ 0 := by
  cases mark <;> simp [row, Store.withState, Store.withPlaintext, DECRYPT_OK, DECRYPT_FAILED]

theorem write_eq (mark : Mark) (event_id : String) (st : Store) : mark.write event_id st =
    { st with events := st.events.update event_id mark.row mark.row_id } := by
  cases mark <;> rfl

@[simp] theorem write_pending_sends (mark : Mark) (event_id : String) (st : Store) :
    (mark.write event_id st).pending_sends = st.pending_sends := by
  rw [write_eq]

@[simp] theorem has_pending_send_write (mark : Mark) (event_id : String) (st : Store)
    (room_id : String) : (mark.write event_id st).has_pending_send room_id =
      st.has_pending_send room_id := by
  rw [write_eq]
  rfl

theorem find_write (mark : Mark) (event_id k : String) (st : Store) :
    (mark.write event_id st).events.find k =
      (st.events.find k).map (fun r => if k = event_id then mark.row r else r) := by
  rw [write_eq]
  exact Table.find_update _ _ _ _ mark.row_id

end Mark

/-! ## The waiting events -/

namespace PendingMls

def event_id : PendingMls → String
  | .Message m => m.event_id
  | .Commit c => c.event_id

def room_id : PendingMls → String
  | .Message m => m.room_id
  | .Commit c => c.room_id

def sender : PendingMls → String
  | .Message m => m.sender
  | .Commit c => c.sender

end PendingMls

namespace Store

/-- A row that the pass reads. -/
def Waiting (r : EventRow) : Prop :=
  (r.type = "p.room.encrypted" ∨ r.type = "p.mls.commit") ∧ r.decrypt_state = 0

instance (r : EventRow) : Decidable (Waiting r) := by
  unfold Waiting
  infer_instance

theorem pendingRows_eq (st : Store) :
    st.pendingRows = dagSort (st.events.rows.filter (fun r => decide (Waiting r))) := rfl

/-- A marked event no longer waits, and every other one still does. -/
theorem pendingRows_write (mark : Mark) (event_id : String) (st : Store) :
    (mark.write event_id st).pendingRows =
      st.pendingRows.filter (fun r => decide (r.event_id ≠ event_id)) := by
  have hrows : (st.events.rows.map (fun r =>
      if r.event_id = event_id then mark.row r else r)).filter
      (fun r => decide (Waiting r)) =
      (st.events.rows.filter (fun r => decide (Waiting r))).filter
        (fun r => decide (r.event_id ≠ event_id)) := by
    induction st.events.rows with
    | nil => rfl
    | cons r rest ih =>
      rw [List.map_cons]
      by_cases hid : r.event_id = event_id
      · have hdone : ¬ Waiting (mark.row r) := fun hw => mark.row_done r hw.2
        by_cases hw : Waiting r
        · simp [hid, hdone, hw, ih]
        · simp [hid, hdone, hw, ih]
      · by_cases hw : Waiting r
        · simp [hid, hw, ih]
        · simp [hid, hw, ih]
  rw [pendingRows_eq, pendingRows_eq, Mark.write_eq]
  have hupdate : (st.events.update event_id mark.row mark.row_id).rows =
      st.events.rows.map (fun r => if r.event_id = event_id then mark.row r else r) := rfl
  rw [hupdate, hrows, dagSort_filter]
  exact st.events.nodup.sublist (List.filter_sublist.map EventRow.event_id)

theorem pendingOf_id {r : EventRow} {item : PendingMls} (h : pendingOf r = .ok (some item)) :
    item.event_id = r.event_id := by
  rcases pendingOf_cases h with ⟨ct, -, -, rfl⟩ | ⟨commit, -, -, rfl⟩ <;> rfl

theorem mem_pendingRows {st : Store} {r : EventRow} :
    r ∈ st.pendingRows ↔ r ∈ st.events.rows ∧ Waiting r := by
  rw [pendingRows_eq, (dagSort_perm _).mem_iff, List.mem_filter, decide_eq_true_eq]

/-- The rows that wait, each with what is read of it. -/
def ReadRows (rows : List EventRow) (found : List (Option PendingMls)) : Prop :=
  List.Forall₂ (fun r o => pendingOf r = .ok o) rows found

theorem pending_mls_ok {st : Store} {items : List PendingMls} : st.pending_mls = .ok items ↔
    ∃ found, ReadRows st.pendingRows found ∧ found.filterMap id = items := by
  have hread : st.pending_mls =
      (st.pendingRows.mapM pendingOf).map (fun found => found.filterMap id) := by
    unfold pending_mls
    cases st.pendingRows.mapM pendingOf <;> rfl
  unfold ReadRows
  simp only [← mapM_ok_iff]
  rw [hread]
  cases st.pendingRows.mapM pendingOf with
  | error e => simp [Except.map]
  | ok found => simp [Except.map]

/-- The waiting events of some of the rows are some of the waiting events. -/
theorem pending_filter {rows : List EventRow} {found : List (Option PendingMls)}
    (h : ReadRows rows found) (p : String → Bool) :
    ∃ found', ReadRows (rows.filter (fun r => p r.event_id)) found' ∧
      found'.filterMap id = (found.filterMap id).filter (fun item => p item.event_id) := by
  induction h with
  | nil => exact ⟨[], List.Forall₂.nil, rfl⟩
  | @cons r o rest os hr _ ih =>
    obtain ⟨found', hfound, hitems⟩ := ih
    by_cases hp : p r.event_id = true
    · have hrows : (r :: rest).filter (fun r => p r.event_id) =
          r :: rest.filter (fun r => p r.event_id) := by simp [hp]
      refine ⟨o :: found', ?_, ?_⟩
      · rw [hrows]
        exact List.Forall₂.cons hr hfound
      · cases o with
        | none => exact hitems
        | some item =>
          have hkeep : p item.event_id = true := by
            rw [pendingOf_id hr]
            exact hp
          have hcons : ∀ l : List (Option PendingMls),
              (some item :: l).filterMap id = item :: l.filterMap id := fun _ => rfl
          rw [hcons, hcons, List.filter_cons, if_pos hkeep, hitems]
    · have hrows : (r :: rest).filter (fun r => p r.event_id) =
          rest.filter (fun r => p r.event_id) := by simp [hp]
      refine ⟨found', ?_, ?_⟩
      · rw [hrows]
        exact hfound
      · cases o with
        | none => exact hitems
        | some item =>
          have hdrop : ¬ p item.event_id = true := by
            rw [pendingOf_id hr]
            exact hp
          have hcons : (some item :: os).filterMap id = item :: os.filterMap id := rfl
          rw [hcons, List.filter_cons, if_neg hdrop, hitems]

theorem pending_mls_write {st : Store} {items : List PendingMls} (h : st.pending_mls = .ok items)
    (mark : Mark) (event_id : String) : (mark.write event_id st).pending_mls =
      .ok (items.filter (fun item => decide (item.event_id ≠ event_id))) := by
  obtain ⟨found, hfound, rfl⟩ := pending_mls_ok.mp h
  obtain ⟨found', hrows, hitems⟩ := pending_filter hfound (fun k => decide (k ≠ event_id))
  rw [pending_mls_ok, pendingRows_write]
  exact ⟨found', hrows, hitems⟩

/-- No two waiting events have the same id. -/
theorem pending_nodup {st : Store} {items : List PendingMls} (h : st.pending_mls = .ok items) :
    (items.map PendingMls.event_id).Nodup := by
  obtain ⟨found, hfound, rfl⟩ := pending_mls_ok.mp h
  have hrows : (st.pendingRows.map EventRow.event_id).Nodup := by
    rw [pendingRows_eq]
    have hperm := dagSort_perm (st.events.rows.filter (fun r => decide (Waiting r)))
    rw [(hperm.map EventRow.event_id).nodup_iff]
    exact st.events.nodup.sublist (List.filter_sublist.map EventRow.event_id)
  refine hrows.sublist ?_
  clear hrows h
  generalize st.pendingRows = rows at hfound
  induction hfound with
  | nil => exact List.Sublist.refl _
  | @cons r o rest os hr _ ih =>
    cases o with
    | none => exact ih.cons _
    | some item =>
      have hid := pendingOf_id hr
      simp only [List.filterMap_cons, id, List.map_cons, hid]
      exact ih.cons_cons _

end Store

/-! ## Verdicts -/

variable {D : Type} (X : PigeonCrypto D)

/-- What the pass does with an event: it waits, or its row is marked, and the engine may
have moved. -/
inductive Verdict (D : Type) where
  | wait
  | take (moved : Option D) (mark : Mark)

/-- The verdict on a message that the engine is asked to decrypt. -/
def readVerdict : Except String (D × Option String) → Verdict D
  | .ok (d, some plaintext) => .take (some d) (.text plaintext)
  | .ok (d, none) => .take (some d) .failed
  | .error _ => .take none .failed

/-- The verdict of an engine `d`, where `queued` says which rooms have a queued send. -/
def judge (self_user : String) (queued : String → Bool) (d : D) : PendingMls → Verdict D
  | .Commit c =>
    if X.load_group d c.room_id then
      if c.sender ≠ self_user then
        .take (X.process_commit d c.room_id c.commit_b64).toOption .processed
      else .take none .processed
    else .wait
  | .Message m =>
    if X.load_group d m.room_id then
      if m.sender = self_user ∧ queued m.room_id = true then .wait
      else readVerdict (X.decrypt d m.room_id m.ciphertext_b64)
    else .wait

/-- The engine that a verdict leaves is moved by one call. -/
theorem judge_moves {self_user : String} {queued : String → Bool} {d d' : D} {item : PendingMls}
    {mark : Mark} (h : judge X self_user queued d item = .take (some d') mark) : X.Moves d d' := by
  cases item with
  | Commit m =>
    simp only [judge] at h
    split at h
    · split at h
      · cases hx : X.process_commit d m.room_id m.commit_b64 with
        | error reason =>
          rw [hx] at h
          cases h
        | ok d₁ =>
          rw [hx] at h
          cases h
          exact .process_commit _ _ hx
      · cases h
    · cases h
  | Message m =>
    simp only [judge] at h
    split at h
    · split at h
      · cases h
      · rcases hx : X.decrypt d m.room_id m.ciphertext_b64 with reason | ⟨d₁, _ | text⟩
        · rw [hx] at h
          cases h
        · rw [hx] at h
          cases h
          exact .decrypt _ _ hx
        · rw [hx] at h
          cases h
          exact .decrypt _ _ hx
    · cases h

namespace Client

/-- The engine has moved, and its new state is in the key store. -/
def hold (c : Client D) (d : D) : Client D :=
  { c with
    e2ee := some d
    key_store := (ks_put c.key_store MLS_STATE_KEY (E2ee.stateBlob X d) .none).2 }

def holdMoved (c : Client D) : Option D → Client D
  | none => c
  | some d => c.hold X d

def verdict (c : Client D) (item : PendingMls) : Verdict D :=
  match c.e2ee with
  | none => .wait
  | some d => judge X c.session.user_id c.store.has_pending_send d item

theorem verdict_moves {c : Client D} {d d' : D} {item : PendingMls} {mark : Mark}
    (he : c.e2ee = some d) (h : c.verdict X item = .take (some d') mark) : X.Moves d d' := by
  unfold verdict at h
  rw [he] at h
  exact judge_moves X h

def take (c : Client D) (event_id : String) : Verdict D → Client D
  | .wait => c
  | .take moved mark => { c.holdMoved X moved with store := mark.write event_id c.store }

/-- One event of the pass. -/
def digest (c : Client D) (item : PendingMls) : Client D :=
  c.take X item.event_id (c.verdict X item)

/-- The events of the pass, in order. -/
def digestAll (c : Client D) (items : List PendingMls) : Client D := items.foldl (digest X) c

/-! ## What a verdict leaves alone -/

@[simp] theorem hold_session (c : Client D) (d : D) : (c.hold X d).session = c.session := rfl
@[simp] theorem hold_api (c : Client D) (d : D) : (c.hold X d).api = c.api := rfl
@[simp] theorem hold_store (c : Client D) (d : D) : (c.hold X d).store = c.store := rfl
@[simp] theorem hold_e2ee (c : Client D) (d : D) : (c.hold X d).e2ee = some d := rfl

theorem take_session (c : Client D) (event_id : String) (v : Verdict D) :
    (c.take X event_id v).session = c.session := by
  rcases v with _ | ⟨_ | d, mark⟩ <;> rfl

theorem take_queue (c : Client D) (event_id : String) (v : Verdict D) :
    (c.take X event_id v).store.pending_sends = c.store.pending_sends := by
  rcases v with _ | ⟨moved, mark⟩
  · rfl
  · exact mark.write_pending_sends event_id c.store

theorem take_e2ee (c : Client D) {d : D} (h : c.e2ee = some d) (event_id : String) (v : Verdict D) :
    ∃ d', (c.take X event_id v).e2ee = some d' := by
  rcases v with _ | ⟨_ | d', mark⟩
  · exact ⟨d, h⟩
  · exact ⟨d, h⟩
  · exact ⟨d', rfl⟩

theorem digest_wait {c : Client D} {item : PendingMls} (h : c.verdict X item = .wait) :
    c.digest X item = c := by
  unfold digest
  rw [h]
  rfl

theorem digestAll_wait {c : Client D} {items : List PendingMls}
    (h : ∀ item ∈ items, c.verdict X item = .wait) : c.digestAll X items = c := by
  induction items with
  | nil => rfl
  | cons item rest ih =>
    unfold digestAll
    rw [List.foldl_cons, digest_wait X (h item List.mem_cons_self)]
    exact ih (fun x hx => h x (List.mem_cons_of_mem _ hx))

theorem digestAll_append (c : Client D) (items rest : List PendingMls) :
    c.digestAll X (items ++ rest) = (c.digestAll X items).digestAll X rest := List.foldl_append

/-! ## The calls of a pass, where none fails -/

theorem local_e2ee {c : Client D} {d : D} (h : c.e2ee = some d) :
    local_ X .e2ee c = (true, c) := by
  have hc : local_ X .e2ee c = (c.e2ee.isSome, c) := rfl
  rw [hc, h]
  rfl

theorem local_has_group {c : Client D} {d : D} (h : c.e2ee = some d) (room_id : String) :
    local_ X (.has_group room_id) c = (.ok (X.load_group d room_id), c) := by
  obtain ⟨api, session, store, e2ee, ks⟩ := c
  obtain rfl : e2ee = some d := h
  rfl

theorem local_put (c : Client D) (d : D) :
    E2ee.persist X d c.key_store .none = (.ok (), (c.hold X d).key_store) := by
  obtain ⟨api, session, store, e2ee, ks⟩ := c
  cases ks <;> rfl

theorem local_process_commit {c : Client D} {d : D} (h : c.e2ee = some d) {room_id : String}
    (hg : X.load_group d room_id = true) (commit : String) :
    ∃ r, local_ X (.process_commit room_id commit) c =
      (r, c.holdMoved X (X.process_commit d room_id commit).toOption) := by
  obtain ⟨api, session, store, e2ee, ks⟩ := c
  obtain rfl : e2ee = some d := h
  simp only [local_, perform, calm, onEngine, E2ee.process_commit, E2ee.onGroup, hg, if_true]
  cases X.process_commit d room_id commit with
  | error reason => exact ⟨_, rfl⟩
  | ok d' =>
    have hput := local_put X ⟨api, session, store, some d, ks⟩ d'
    simp only at hput
    simp only [Except.map, E2ee.mutate, hput]
    exact ⟨_, rfl⟩

/-- What a decrypt answers, and the client after it. -/
theorem local_decrypt {c : Client D} {d : D} (h : c.e2ee = some d) {room_id : String}
    (hg : X.load_group d room_id = true) (ciphertext : String) :
    (∃ d' plaintext, X.decrypt d room_id ciphertext = .ok (d', some plaintext) ∧
      local_ X (.decrypt room_id ciphertext) c = (.ok plaintext, c.hold X d')) ∨
    (∃ d' e, X.decrypt d room_id ciphertext = .ok (d', none) ∧
      local_ X (.decrypt room_id ciphertext) c = (.error e, c.hold X d')) ∨
    ∃ reason e, X.decrypt d room_id ciphertext = .error reason ∧
      local_ X (.decrypt room_id ciphertext) c = (.error e, c) := by
  obtain ⟨api, session, store, e2ee, ks⟩ := c
  obtain rfl : e2ee = some d := h
  simp only [local_, perform, calm, onEngine, E2ee.decrypt, E2ee.onGroup, hg, if_true]
  rcases hx : X.decrypt d room_id ciphertext with reason | ⟨d', _ | plaintext⟩
  · exact Or.inr (Or.inr ⟨reason, _, rfl, rfl⟩)
  · have hput := local_put X ⟨api, session, store, some d, ks⟩ d'
    simp only at hput
    simp only [E2ee.mutate, hput]
    exact Or.inr (Or.inl ⟨d', _, rfl, rfl⟩)
  · have hput := local_put X ⟨api, session, store, some d, ks⟩ d'
    simp only at hput
    simp only [E2ee.mutate, hput]
    exact Or.inl ⟨d', plaintext, rfl, rfl⟩

end Client

/-! ## The whole pass -/

theorem run_mark_processed (c : Client D) (event_id : String) :
    (mark_processed event_id).run (Client.local_ X) c =
      (.ok true, { c with store := Mark.processed.write event_id c.store }) := rfl

/-- One decrypt, and its mark. -/
theorem run_attempt_decrypt {c : Client D} {d : D} (h : c.e2ee = some d) (m : PendingDecrypt)
    (hg : X.load_group d m.room_id = true) :
    (attempt_decrypt m).run (Client.local_ X) c =
      (.ok true, c.take X m.event_id (readVerdict (X.decrypt d m.room_id m.ciphertext_b64))) := by
  unfold attempt_decrypt
  rw [Prog.run_call]
  rcases Client.local_decrypt X h hg m.ciphertext_b64 with
    ⟨d', plaintext, hx, hl⟩ | ⟨d', e, hx, hl⟩ | ⟨reason, e, hx, hl⟩
  · rw [hl, hx]
    rfl
  · rw [hl, hx]
    rfl
  · rw [hl, hx]
    rfl

def Verdict.isTake : Verdict D → Bool
  | .wait => false
  | .take _ _ => true

theorem readVerdict_isTake (r : Except String (D × Option String)) :
    (readVerdict r).isTake = true := by
  rcases r with reason | ⟨d, _ | plaintext⟩ <;> rfl

/-- One event: the program gives what the verdict says. -/
theorem run_process_one {c : Client D} {d : D} (h : c.e2ee = some d) (item : PendingMls) :
    (process_one c.session.user_id item).run (Client.local_ X) c =
      (.ok (c.verdict X item).isTake, c.digest X item) := by
  unfold Client.digest Client.verdict
  rw [h]
  cases item with
  | Commit m =>
    unfold process_one
    rw [Prog.run_call, Client.local_has_group X h]
    by_cases hg : X.load_group d m.room_id = true
    · by_cases hs : m.sender ≠ c.session.user_id
      · obtain ⟨r, hl⟩ := Client.local_process_commit X h hg m.commit_b64
        have hstore : (c.holdMoved X (X.process_commit d m.room_id m.commit_b64).toOption).store =
            c.store := by
          cases X.process_commit d m.room_id m.commit_b64 <;> rfl
        simp only [judge, hg, hs, if_true, ne_eq, not_false_eq_true]
        rw [Prog.run_call, hl, run_mark_processed, hstore]
        rfl
      · simp only [judge, hg, hs, if_true, if_false]
        rw [run_mark_processed]
        rfl
    · simp only [judge, hg]
      rfl
  | Message m =>
    unfold process_one
    rw [Prog.run_call, Client.local_has_group X h]
    by_cases hg : X.load_group d m.room_id = true
    · have hread := run_attempt_decrypt X h m hg
      by_cases hs : m.sender = c.session.user_id
      · have hqueue : Client.local_ X (.has_pending_send m.room_id) c =
            (.ok (c.store.has_pending_send m.room_id), c) := rfl
        cases hq : c.store.has_pending_send m.room_id with
        | true =>
          simp only [judge, hg, hs, hq, if_true, and_self]
          rw [Prog.run_call, hqueue, hq]
          rfl
        | false =>
          simp only [judge, hg, hs, hq, if_true, Bool.false_eq_true, and_false, if_false]
          rw [Prog.run_call, hqueue, hq, readVerdict_isTake]
          exact hread
      · simp only [judge, hg, hs, if_true, false_and, if_false]
        rw [readVerdict_isTake]
        exact hread
    · simp only [judge, hg]
      rfl

theorem run_process_each {c : Client D} {d : D} (h : c.e2ee = some d) (items : List PendingMls)
    (changed : Bool) : ∃ b, (process_each c.session.user_id items changed).run (Client.local_ X) c =
      (.ok b, c.digestAll X items) := by
  induction items generalizing c d changed with
  | nil => exact ⟨changed, rfl⟩
  | cons item rest ih =>
    obtain ⟨d', hd'⟩ := Client.take_e2ee X c h item.event_id (c.verdict X item)
    have hsession := Client.take_session X c item.event_id (c.verdict X item)
    obtain ⟨b, hrest⟩ := ih (c := c.digest X item) hd' (changed || (c.verdict X item).isTake)
    refine ⟨b, ?_⟩
    unfold process_each Prog.andThen
    rw [Prog.run_bind, run_process_one X h]
    have hself : (c.digest X item).session.user_id = c.session.user_id :=
      congrArg Session.user_id hsession
    rw [hself] at hrest
    exact hrest

/-- A pass that can read the waiting events ends well. -/
theorem run_read_pass {c : Client D} {d : D} (h : c.e2ee = some d) {items : List PendingMls}
    (hp : c.store.pending_mls = .ok items) :
    ∃ b, process_inbound_mls.run (Client.local_ X) c = (.ok b, c.digestAll X items) := by
  obtain ⟨b, hrun⟩ := run_process_each X h items false
  have hsome := Client.local_e2ee X h
  have hpending : Client.local_ X .pending_mls c = (.ok items, c) := by
    simp only [Client.local_, Client.perform, Client.calm, Client.onStore, hp, Except.map]
  refine ⟨b, ?_⟩
  unfold process_inbound_mls
  rw [Prog.run_call, hsome]
  simp only
  rw [Prog.run_call]
  have hsession : Client.local_ X .session c = (c.session, c) := rfl
  rw [hsession]
  simp only
  rw [Prog.run_call, hpending]
  simp only
  rw [hrun]

/-- The state after a pass. -/
theorem run_process_inbound_mls {c : Client D} {d : D} (h : c.e2ee = some d)
    {items : List PendingMls} (hp : c.store.pending_mls = .ok items) :
    (process_inbound_mls.run (Client.local_ X) c).2 = c.digestAll X items := by
  obtain ⟨b, hrun⟩ := run_read_pass X h hp
  rw [hrun]

/-- A pass that cannot read the waiting events does nothing. -/
theorem run_unread_pass {c : Client D} {d : D} (h : c.e2ee = some d) {e : StoreError}
    (hp : c.store.pending_mls = .error e) :
    (process_inbound_mls.run (Client.local_ X) c).2 = c := by
  have hsome := Client.local_e2ee X h
  have hpending : Client.local_ X .pending_mls c = (.error e.toCore, c) := by
    simp only [Client.local_, Client.perform, Client.calm, Client.onStore, hp, Except.map]
  unfold process_inbound_mls
  rw [Prog.run_call, hsome]
  simp only
  rw [Prog.run_call]
  have hsession : Client.local_ X .session c = (c.session, c) := rfl
  rw [hsession]
  simp only
  rw [Prog.run_call, hpending]
  rfl

/-! ## What a pass comes to -/

/-- What the tables say of a message: its plaintext, and whether it is undecryptable. -/
def Store.outcome (st : Store) (event_id : String) : Option (Option String × Bool) :=
  (st.events.find event_id).map (fun r => (r.decrypted, decide (r.decrypt_state = DECRYPT_FAILED)))

def Client.epochOf (epoch : D → String → Option Nat) (c : Client D) (room_id : String) :
    Option Nat :=
  c.e2ee.bind (fun d => epoch d room_id)

/-- The same plaintexts, the same undecryptable messages and the same epochs. -/
def SameOutcome (epoch : D → String → Option Nat) (c₁ c₂ : Client D) : Prop :=
  (∀ event_id, c₁.store.outcome event_id = c₂.store.outcome event_id) ∧
    ∀ room_id, c₁.epochOf epoch room_id = c₂.epochOf epoch room_id

theorem SameOutcome.refl (epoch : D → String → Option Nat) (c : Client D) : SameOutcome epoch c c :=
  ⟨fun _ => rfl, fun _ => rfl⟩

/-- A pass leaves every other row alone. -/
theorem digestAll_find (c : Client D) {items : List PendingMls} {event_id : String}
    (h : event_id ∉ items.map PendingMls.event_id) :
    (c.digestAll X items).store.events.find event_id = c.store.events.find event_id := by
  induction items generalizing c with
  | nil => rfl
  | cons item rest ih =>
    rw [List.map_cons, List.mem_cons, not_or] at h
    have hone : (c.digest X item).store.events.find event_id = c.store.events.find event_id := by
      unfold Client.digest
      rcases c.verdict X item with _ | ⟨moved, mark⟩
      · rfl
      · have hfind := mark.find_write item.event_id event_id c.store
        simp only [h.1, if_false, Option.map_id'] at hfind
        exact hfind
    exact (ih (c.digest X item) h.2).trans hone

theorem outcome_marked {st : Store} {event_id : String} {r : EventRow}
    (h : st.events.find event_id = some r) (mark : Mark) :
    (mark.write event_id st).outcome event_id =
      some ((mark.row r).decrypted, decide ((mark.row r).decrypt_state = DECRYPT_FAILED)) := by
  unfold Store.outcome
  rw [mark.find_write, h]
  simp

/-- A waiting event has a row, which waits. -/
theorem waiting_row {st : Store} {items : List PendingMls} (h : st.pending_mls = .ok items)
    {item : PendingMls} (hi : item ∈ items) : ∃ r, st.events.find item.event_id = some r ∧
      r.decrypt_state = 0 ∧ Store.pendingOf r = .ok (some item) := by
  obtain ⟨r, hr, hwaits, hof⟩ := Store.mem_pending_mls _ h hi
  refine ⟨r, ?_, hwaits, hof⟩
  rw [Store.pendingOf_id hof]
  exact Table.mem_rows_iff.mp hr

/-! ## What goes on waiting -/

/-- No event takes a group away from the engine, or gives it one. -/
def KeepsGroups : Prop := ∀ (self_user : String) (queued : String → Bool) (d d' : D)
  (item : PendingMls) (mark : Mark), judge X self_user queued d item = .take (some d') mark →
    ∀ r, X.load_group d' r = X.load_group d r

variable {X}

/-- A group is not lost, so an event that waits goes on waiting. -/
theorem wait_holds {c : Client D} {d d' : D} (hc : c.e2ee = some d) {c' : Client D}
    (hc' : c'.e2ee = some d') (hgroup : ∀ r, X.load_group d' r = X.load_group d r)
    (hself : c'.session = c.session) (hqueue : c'.store.pending_sends = c.store.pending_sends)
    {item : PendingMls} (h : c.verdict X item = .wait) : c'.verdict X item = .wait := by
  unfold Client.verdict at h ⊢
  rw [hc] at h
  rw [hc']
  have hpending : c'.store.has_pending_send = c.store.has_pending_send := by
    funext room_id
    unfold Store.has_pending_send
    rw [hqueue]
  rw [hself, hpending]
  cases item with
  | Commit m =>
    simp only [judge] at h ⊢
    rw [hgroup]
    by_cases hg : X.load_group d m.room_id = true
    · rw [if_pos hg] at h
      split at h <;> cases h
    · rw [if_neg hg]
  | Message m =>
    simp only [judge] at h ⊢
    rw [hgroup]
    by_cases hg : X.load_group d m.room_id = true
    · rw [if_pos hg] at h ⊢
      by_cases hs : m.sender = c.session.user_id ∧ c.store.has_pending_send m.room_id = true
      · rw [if_pos hs]
      · rw [if_neg hs] at h
        have htake := readVerdict_isTake (X.decrypt d m.room_id m.ciphertext_b64)
        rw [h] at htake
        cases htake
    · rw [if_neg hg]

/-- The events that the pass still has to digest come last, and those before them wait. -/
structure Standing (X : PigeonCrypto D) (c : Client D) (pre todo : List PendingMls) : Prop where
  pending : c.store.pending_mls = .ok (pre ++ todo)
  waits : ∀ item ∈ pre, c.verdict X item = .wait

theorem Standing.run {c : Client D} {d : D} {pre todo : List PendingMls} (h : Standing X c pre todo)
    (he : c.e2ee = some d) :
    (process_inbound_mls.run (Client.local_ X) c).2 = c.digestAll X todo := by
  rw [run_process_inbound_mls X he h.pending, Client.digestAll_append,
    Client.digestAll_wait X h.waits]

theorem filter_next {pre rest : List PendingMls} {item : PendingMls}
    (h : ((pre ++ item :: rest).map PendingMls.event_id).Nodup) :
    (pre ++ item :: rest).filter (fun x => decide (x.event_id ≠ item.event_id)) = pre ++ rest := by
  rw [List.map_append, List.map_cons, List.nodup_append] at h
  obtain ⟨-, hrest, hne⟩ := h
  rw [List.nodup_cons] at hrest
  have hpre : pre.filter (fun x => decide (x.event_id ≠ item.event_id)) = pre := by
    rw [List.filter_eq_self]
    intro x hx
    have hx' := hne x.event_id (List.mem_map_of_mem hx) item.event_id List.mem_cons_self
    exact decide_eq_true hx'
  have hpost : rest.filter (fun x => decide (x.event_id ≠ item.event_id)) = rest := by
    rw [List.filter_eq_self]
    intro x hx
    have hx' : x.event_id ≠ item.event_id := fun heq =>
      hrest.1 (heq ▸ List.mem_map_of_mem hx)
    exact decide_eq_true hx'
  rw [List.filter_append, List.filter_cons, hpre, hpost]
  simp

/-- One event digested. -/
theorem Standing.digest (K : KeepsGroups X) {c : Client D} {d : D} {pre rest : List PendingMls}
    {item : PendingMls} (h : Standing X c pre (item :: rest)) (he : c.e2ee = some d) :
    ∃ pre', Standing X (c.digest X item) pre' rest := by
  cases hv : c.verdict X item with
  | wait =>
    refine ⟨pre ++ [item], ?_, ?_⟩
    · rw [Client.digest_wait X hv, List.append_assoc]
      exact h.pending
    · rw [Client.digest_wait X hv]
      intro x hx
      rcases List.mem_append.mp hx with hx | hx
      · exact h.waits x hx
      · rw [List.mem_singleton.mp hx]
        exact hv
  | take moved mark =>
    have hdigest : c.digest X item =
        { c.holdMoved X moved with store := mark.write item.event_id c.store } := by
      unfold Client.digest
      rw [hv]
      rfl
    refine ⟨pre, ?_, ?_⟩
    · rw [hdigest]
      simp only
      rw [Store.pending_mls_write h.pending, filter_next (Store.pending_nodup h.pending)]
    · intro x hx
      have hwait := h.waits x hx
      cases moved with
      | none =>
        have he' : (c.digest X item).e2ee = some d := by
          rw [hdigest]
          exact he
        have hqueue := Client.take_queue X c item.event_id (c.verdict X item)
        exact wait_holds he he' (fun _ => rfl) (Client.take_session X c _ _) hqueue hwait
      | some d' =>
        have hjudge : judge X c.session.user_id c.store.has_pending_send d item =
            .take (some d') mark := by
          unfold Client.verdict at hv
          rw [he] at hv
          exact hv
        have he' : (c.digest X item).e2ee = some d' := by
          rw [hdigest]
          rfl
        have hqueue := Client.take_queue X c item.event_id (c.verdict X item)
        exact wait_holds he he' (K _ _ _ _ _ _ hjudge) (Client.take_session X c _ _) hqueue hwait

theorem Standing.digestAll (K : KeepsGroups X) {c : Client D} {d : D} {pre rest : List PendingMls}
    (items : List PendingMls) (h : Standing X c pre (items ++ rest)) (he : c.e2ee = some d) :
    ∃ pre', Standing X (c.digestAll X items) pre' rest := by
  induction items generalizing c d pre with
  | nil => exact ⟨pre, h⟩
  | cons item items ih =>
    obtain ⟨pre', h'⟩ := h.digest K he
    obtain ⟨d', hd'⟩ : ∃ d', (c.digest X item).e2ee = some d' :=
      Client.take_e2ee X c he item.event_id (c.verdict X item)
    exact ih h' hd'

/-- What a pass leaves: every event that still waits would wait again. -/
def AtRest (X : PigeonCrypto D) (c : Client D) : Prop := ∃ pre, Standing X c pre []

theorem pass_comes_to_rest (K : KeepsGroups X) {c : Client D} {d : D} (he : c.e2ee = some d)
    {items : List PendingMls} (hp : c.store.pending_mls = .ok items) :
    AtRest X (process_inbound_mls.run (Client.local_ X) c).2 := by
  have hstart : Standing X c [] (items ++ []) := by
    refine ⟨?_, fun x hx => absurd hx List.not_mem_nil⟩
    rw [List.append_nil]
    exact hp
  rw [run_process_inbound_mls X he hp]
  exact hstart.digestAll K items he

end PigeonMobile
