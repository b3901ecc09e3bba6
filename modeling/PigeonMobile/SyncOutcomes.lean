-- The sync loop and the launch against every sequence of HTTP outcomes: which of them end the
-- loop, which are waited out, and which count as a sync.
import PigeonMobile.Http
import PigeonMobile.Sync
import PigeonMobile.Session
import PigeonMobile.StoreFacts
import PigeonMobile.Threads
import PigeonMobile.EpochGroup

namespace PigeonMobile

/-! ## Outcomes, as the loop should take them -/

/-- Nothing to end a session for: the transport failed at some stage, the server limits
the rate, or something before it answered in its place. -/
def Transient : HttpOutcome → Prop
  | .failed _ => True
  | .response status body => body = .cut ∨ status = 429 ∨
      (500 ≤ status ∧ status < 600 ∧ ∀ code, body.errcode = some code → ¬ PigeonCode code)

/-- A token to go on from, and events that all parse. -/
structure SyncResponse (resp : Json) : Prop where
  next_batch : ∃ token, (resp.index "next_batch").as_str = some token
  events : ∀ j ∈ syncEvents resp, ∃ ev, StoredEvent.from_wire j = .ok ev

/-- The body was read in full and is a sync response. -/
def Parsed : HttpOutcome → Prop
  | .failed _ => False
  | .response status body =>
    is_success status = true ∧ ∃ resp, body = .json resp ∧ SyncResponse resp

/-- The server says what is wrong, and it is no rate limit. -/
def Definite : HttpOutcome → Prop
  | .failed _ => False
  | .response status body => is_success status = false ∧
      ∃ code, body.errcode = some code ∧ PigeonCode code ∧ code ≠ "P_LIMIT_EXCEEDED"

/-- The outcomes that `Api::send` and `is_transient` take for what they are. -/
def Clear : HttpOutcome → Prop
  | .failed _ => True
  | .response status body =>
    if is_success status then ∃ resp, body = .json resp ∧ SyncResponse resp
    else body.errcode = some "P_LIMIT_EXCEEDED" ∨
      (status ≠ 429 ∧ ∃ code, body.errcode = some code ∧ PigeonCode code)

/-- A success that is clear is a sync, and nothing to wait for. -/
theorem clear_success {o : HttpOutcome} {resp : Json} (ho : Clear o) (h : Api.sync o = .ok resp) :
    Parsed o ∧ SyncResponse resp ∧ ¬ Transient o := by
  unfold Api.sync Api.send at h
  cases o with
  | failed reason => cases h
  | response status body =>
    by_cases hs : is_success status = true
    · simp only [hs, if_true] at h
      simp only [Clear, hs, if_true] at ho
      obtain ⟨value, rfl, hvalue⟩ := ho
      cases h
      refine ⟨⟨hs, value, rfl, hvalue⟩, hvalue, ?_⟩
      simp only [is_success, decide_eq_true_eq] at hs
      rintro (hcut | hlimit | ⟨hlow, -⟩)
      · cases hcut
      · omega
      · omega
    · simp only [hs] at h
      cases h

/-- An error that is clear and not retried is definite, and nothing to wait for. -/
theorem clear_fatal {o : HttpOutcome} {err : ApiError} (ho : Clear o) (h : Api.sync o = .error err)
    (herr : err.is_transient = false) : Definite o ∧ ¬ Transient o := by
  unfold Api.sync Api.send at h
  cases o with
  | failed reason =>
    cases h
    cases herr
  | response status body =>
    by_cases hs : is_success status = true
    · simp only [hs, if_true] at h
      cases h
    · simp only [hs] at h
      cases h
      have hnot : body.errcode ≠ some "P_LIMIT_EXCEEDED" := by
        intro hcode
        rw [parse_error_transient.mpr hcode] at herr
        cases herr
      simp only [Clear, hs] at ho
      rcases ho with hcode | ⟨hstatus, code, hcode, hpigeon⟩
      · exact absurd hcode hnot
      · refine ⟨⟨by simpa using hs, code, hcode, hpigeon, ?_⟩, ?_⟩
        · rintro rfl
          exact hnot hcode
        · rintro (rfl | hlimit | ⟨-, -, hnone⟩)
          · cases hcode
          · exact hstatus hlimit
          · exact hnone code hcode hpigeon

/-! ## The loop, and what is seen of it -/

inductive SyncMark where
  | requested (o : HttpOutcome)
  /-- `on_status` -/
  | status (connected : Bool)
  | slept (seconds : Nat)

/-- The client, and what was seen of its loop, the last mark first. -/
structure Loop (D : Type) where
  client : Client D
  log : List SyncMark

variable {D : Type} (X : PigeonCrypto D)

/-- One call of the loop. Any outcome may answer a request, and local calls may fail. -/
def LoopCall : (op : Op) → Loop D → op.Res → Loop D → Prop
  | .api_sync _, w, r, w' => ∃ o, r = Api.sync o ∧ w' = ⟨w.client, .requested o :: w.log⟩
  | .on_status connected, w, _, w' => w' = ⟨w.client, .status connected :: w.log⟩
  | .sleep seconds, w, _, w' => w' = ⟨w.client, .slept seconds :: w.log⟩
  | op, w, r, w' => Client.Exec X op w.client r w'.client ∧ w'.log = w.log

/-- The rest of the app does anything to the client. -/
def BesideLoop (w w' : Loop D) : Prop := w'.log = w.log

/-- Where the backoff stands. -/
def backoffAt : List SyncMark → Nat
  | [] => BACKOFF_START
  | .status true :: _ => BACKOFF_START
  | .slept seconds :: _ => min (seconds * 2) BACKOFF_MAX
  | _ :: before => backoffAt before

/-- Only a sync response counts as a sync, and each transient outcome is reported and
waited out, with the backoff as it stands, before the next request. -/
structure Rides (log : List SyncMark) : Prop where
  success : ∀ after before, log = after ++ .status true :: before →
    ∃ o rest, before = .requested o :: rest ∧ Parsed o
  waited : ∀ after o before, log = after ++ .requested o :: before → Transient o →
    after = [] ∨ after = [.status false] ∨
      ∃ rest, after = rest ++ [.slept (backoffAt before), .status false]

/-- What SQLite or the engine fails with. -/
def LocalFailure (e : CoreError) : Prop :=
  (∃ reason, e = (StoreError.Db reason).toCore) ∨ ∃ reason, e = .Crypto reason

/-- The loop ends only for a definite error of the server, or a local failure. -/
def EndsWell (p : Code (Except CoreError Nat)) (log : List SyncMark) : Prop :=
  ∀ e, p = .done (.error e) → (∀ o before, log = .requested o :: before → ¬ Transient o) ∧
    (LocalFailure e ∨ ∃ o before err, log = .requested o :: before ∧ Definite o ∧
      Api.sync o = .error err ∧ e = err.toCore)

/-! ## Errors of the local calls -/

section Local

variable {X} {α : Type}

abbrev FailsLocally (X : PigeonCrypto D) (p : Code (Except CoreError α)) : Prop :=
  p.Ends (Client.Exec X) (fun r => ∀ e, r = .error e → LocalFailure e)

theorem fails_done {X : PigeonCrypto D} {a : α} : FailsLocally X (.done (.ok a)) := by
  intro e he
  cases he

theorem fails_error {X : PigeonCrypto D} {e : CoreError} (h : LocalFailure e) :
    FailsLocally X (α := α) (.done (.error e)) := by
  intro e' he
  cases he
  exact h

theorem fails_andThen {β : Type} {p : Code (Except CoreError α)} {f : α → Code (Except CoreError β)}
    (hp : FailsLocally X p) (hf : ∀ a, FailsLocally X (f a)) : FailsLocally X (p.andThen f) := by
  apply Prog.Ends.bind
  apply hp.mono
  intro r hr
  cases r with
  | error e => exact fails_error (hr e rfl)
  | ok a => exact hf a

/-- A method of the store that has no error of its own. -/
theorem store_failure {β : Type} {fault : Fault} {c c' : Client D}
    {f : Store → Except StoreError (β × Store)} {e : CoreError}
    (hf : ∀ err, f c.store = .error err → ∃ reason, err = .Db reason)
    (h : c.onStore fault f = (.error e, c')) : LocalFailure e := by
  rcases Client.onStore_error h with hdb | ⟨err, herr, rfl⟩
  · exact Or.inl hdb
  · obtain ⟨reason, rfl⟩ := hf err herr
    exact Or.inl ⟨reason, rfl⟩

/-- A method of the store that has no error. -/
theorem store_fails {β : Type} (f : Store → β × Store) {fault : Fault} {c c' : Client D}
    {e : CoreError} (h : c.onStore fault (fun st => .ok (f st)) = (.error e, c')) :
    LocalFailure e := by
  apply store_failure _ h
  intro err he
  cases he

/-- The rows that wait cannot be read. -/
theorem pending_mls_failure {st : Store} {err : StoreError} (h : st.pending_mls = .error err) :
    ∃ reason, err = .Db reason := by
  have hrows : ∀ rows : List EventRow, rows.mapM Store.pendingOf = .error err →
      ∃ reason, err = .Db reason := by
    intro rows
    induction rows with
    | nil =>
      intro h
      cases h
    | cons r rest ih =>
      intro h
      rw [List.mapM_cons] at h
      cases hr : Store.pendingOf r with
      | error e =>
        rw [hr] at h
        cases h
        unfold Store.pendingOf at hr
        split at hr
        · split at hr
          · cases hr
          · split at hr <;> cases hr
        · cases hr
          exact ⟨_, rfl⟩
      | ok item =>
        rw [hr] at h
        cases hrest : rest.mapM Store.pendingOf with
        | error e =>
          rw [hrest] at h
          cases h
          exact ih hrest
        | ok items =>
          rw [hrest] at h
          cases h
  unfold Store.pending_mls at h
  cases hm : st.pendingRows.mapM Store.pendingOf with
  | error e =>
    rw [hm] at h
    cases h
    exact hrows _ hm
  | ok items =>
    rw [hm] at h
    cases h

theorem resolve_send_failure {st : Store} {txn_id real_event_id : String} {err : StoreError}
    (h : (st.resolve_send txn_id real_event_id).map (fun st => ((), st)) = .error err) :
    ∃ reason, err = .Db reason := by
  unfold Store.resolve_send at h
  split at h
  · cases h
  · split at h
    · cases h
      exact ⟨_, rfl⟩
    · split at h <;> cases h

theorem mark_processed_fails (event_id : String) : FailsLocally X (mark_processed event_id) := by
  rintro c r c' ⟨fault, h⟩
  cases r with
  | error e => exact fails_error (store_fails (fun st => ((), st.set_commit_processed event_id)) h)
  | ok u => exact fails_done

theorem attempt_decrypt_fails (m : PendingDecrypt) : FailsLocally X (attempt_decrypt m) := by
  rintro c r c' -
  cases r with
  | error e =>
    rintro c r c' ⟨fault, h⟩
    cases r with
    | error e =>
      exact fails_error (store_fails (fun st => ((), st.set_decrypt_failed m.event_id)) h)
    | ok u => exact fails_done
  | ok plaintext =>
    rintro c r c' ⟨fault, h⟩
    cases r with
    | error e =>
      exact fails_error (store_fails (fun st => ((), st.set_decrypted m.event_id plaintext)) h)
    | ok u => exact fails_done

/-- The engine fails to read a group. -/
theorem has_group_failure {c c' : Client D} {room : String} {e : CoreError}
    (h : Client.Exec X (.has_group room) c (.error e) c') : LocalFailure e := by
  obtain ⟨fault, h⟩ := h
  obtain ⟨api, session, store, e2ee, key_store⟩ := c
  cases e2ee with
  | none =>
    cases h
    exact Or.inr ⟨_, rfl⟩
  | some d =>
    cases fault with
    | load_group reason =>
      cases h
      exact Or.inr ⟨_, rfl⟩
    | none | db | key_store | export_storage => cases h

theorem process_one_fails (self_user : String) (item : PendingMls) :
    FailsLocally X (process_one self_user item) := by
  cases item with
  | Commit m =>
    rintro c r c' h
    rcases r with e | _ | _
    · exact fails_error (has_group_failure h)
    · exact fails_done
    · simp only
      by_cases hs : m.sender ≠ self_user
      · rw [if_pos hs]
        rintro c r c' -
        exact mark_processed_fails m.event_id
      · rw [if_neg hs]
        exact mark_processed_fails m.event_id
  | Message m =>
    rintro c r c' h
    rcases r with e | _ | _
    · exact fails_error (has_group_failure h)
    · exact fails_done
    · simp only
      by_cases hs : m.sender = self_user
      · rw [if_pos hs]
        rintro c r c' ⟨fault, h⟩
        rcases r with e | _ | _
        · exact fails_error (store_fails (fun st => (st.has_pending_send m.room_id, st)) h)
        · exact attempt_decrypt_fails m
        · exact fails_done
      · rw [if_neg hs]
        exact attempt_decrypt_fails m

theorem process_each_fails (self_user : String) (items : List PendingMls) (changed : Bool) :
    FailsLocally X (process_each self_user items changed) := by
  induction items generalizing changed with
  | nil => exact fails_done
  | cons item rest ih =>
    exact fails_andThen (process_one_fails self_user item) (fun changed' =>
      ih (changed || changed'))

theorem pass_fails : FailsLocally X process_inbound_mls := by
  rintro c r c' -
  cases r with
  | false => exact fails_done
  | true =>
    rintro c session c' -
    rintro c r c' ⟨fault, h⟩
    cases r with
    | error e =>
      have h : c.onStore fault (fun st => st.pending_mls.map (·, st)) = (.error e, c') := h
      refine fails_error (store_failure ?_ h)
      intro err herr
      cases hp : c.store.pending_mls with
      | error err' =>
        rw [hp] at herr
        cases herr
        exact pending_mls_failure hp
      | ok items =>
        rw [hp] at herr
        cases herr
    | ok items => exact process_each_fails session.user_id items false

theorem settle_failed_fails (txn_id : String) : FailsLocally X (settle_failed txn_id) := by
  rintro c r c' ⟨fault, h⟩
  cases r with
  | error e => exact fails_error (store_fails (fun st => ((), st.fail_send txn_id)) h)
  | ok u => exact fails_done

theorem transmit_fails (send : PendingSend) (event_type : String) (content : Json) :
    FailsLocally X (transmit send event_type content) := by
  rintro c r c' -
  cases r with
  | ok event_id =>
    rintro c r c' ⟨fault, h⟩
    cases r with
    | error e =>
      have h : c.onStore fault (fun st => (st.resolve_send send.txn_id event_id).map ((), ·)) =
        (.error e, c') := h
      exact fails_error (store_failure (fun err herr => resolve_send_failure herr) h)
    | ok u => exact fails_done
  | error err =>
    simp only
    cases err.is_transient with
    | true => exact fails_done
    | false => exact settle_failed_fails send.txn_id

theorem flush_one_fails (send : PendingSend) : FailsLocally X (flush_one send) := by
  apply Prog.Ends.bind
  have hany : ∀ p : Code (Except CoreError (Option String)),
      p.Ends (Client.Exec X) (fun _ => True) := by
    intro p
    induction p with
    | done a => trivial
    | call op k ih => exact fun _ r _ _ => ih r
  apply (hany _).mono
  rintro (e | _ | ciphertext) -
  · exact settle_failed_fails send.txn_id
  · rintro c r c' ⟨fault, h⟩
    rcases r with e | _ | _
    · exact fails_error (store_fails (fun st => (st.is_room_encrypted send.room_id, st)) h)
    · exact transmit_fails send _ _
    · exact fails_done
  · exact transmit_fails send _ _

theorem flush_sends_fails (sends : List PendingSend) (changed : Bool) :
    FailsLocally X (flush_sends sends changed) := by
  induction sends generalizing changed with
  | nil => exact fails_done
  | cons send rest ih =>
    apply fails_andThen (flush_one_fails send)
    intro flushed
    cases flushed with
    | held => exact ih changed
    | stop => exact fails_done
    | settled => exact ih true

theorem flush_fails : FailsLocally X flush_pending := by
  rintro c r c' -
  rintro c r c' ⟨fault, h⟩
  cases r with
  | error e =>
    rintro c' r c'' -
    exact fails_error (store_fails (fun st => (st.pending_sends_list, st)) h)
  | ok sends =>
    apply Prog.Ends.bind
    apply (flush_sends_fails sends false).mono
    rintro r hr c' - c'' -
    exact hr

theorem apply_sync_fails {resp : Json} (hresp : SyncResponse resp) :
    FailsLocally X (apply_sync resp) := by
  rintro c r c' ⟨fault, h⟩
  cases r with
  | error e =>
    have h : c.onStore fault (fun st => st.apply_events (syncEvents resp)) = (.error e, c') := h
    refine fails_error (store_failure ?_ h)
    intro err herr
    obtain ⟨evs, hevs⟩ := mapM_total hresp.events
    unfold Store.apply_events at herr
    rw [hevs] at herr
    cases herr
  | ok n => exact fails_done

theorem persist_sync_token_fails (resp : Json) : FailsLocally X (persist_sync_token resp) := by
  unfold persist_sync_token
  cases (resp.index "next_batch").as_str with
  | none => exact fails_done
  | some next =>
    rintro c r c' ⟨fault, h⟩
    cases r with
    | error e => exact fails_error (store_fails (fun st => ((), st.save_sync_token next)) h)
    | ok u => exact fails_done

end Local

/-! ## The log, mark by mark -/

section Log

variable {log : List SyncMark} {o : HttpOutcome}

/-- Every transient outcome of the log was waited out. -/
structure Rested (log : List SyncMark) : Prop where
  success : ∀ after before, log = after ++ .status true :: before →
    ∃ o rest, before = .requested o :: rest ∧ Parsed o
  waited : ∀ after o before, log = after ++ .requested o :: before → Transient o →
    ∃ rest, after = rest ++ [.slept (backoffAt before), .status false]

theorem Rested.rides (h : Rested log) : Rides log :=
  ⟨h.success, fun after o before he ho => Or.inr (Or.inr (h.waited after o before he ho))⟩

theorem rested_nil : Rested [] := by
  refine ⟨?_, ?_⟩
  · intro after before he
    simp at he
  · intro after o before he
    simp at he

/-- A mark of a log with one more mark is the new one, or is one of the others. -/
theorem cons_split {m x : SyncMark} {after before : List SyncMark}
    (h : m :: log = after ++ x :: before) : (after = [] ∧ x = m ∧ before = log) ∨
      ∃ after', after = m :: after' ∧ log = after' ++ x :: before := by
  cases after with
  | nil =>
    simp only [List.nil_append, List.cons.injEq] at h
    exact Or.inl ⟨rfl, h.1.symm, h.2.symm⟩
  | cons y after' =>
    simp only [List.cons_append, List.cons.injEq] at h
    exact Or.inr ⟨after', by rw [h.1], h.2⟩

theorem Rested.requested (h : Rested log) : Rides (.requested o :: log) := by
  refine ⟨?_, ?_⟩
  · intro after before he
    rcases cons_split he with ⟨-, hm, -⟩ | ⟨after', -, he'⟩
    · cases hm
    · exact h.success after' before he'
  · intro after o' before he ho
    rcases cons_split he with ⟨rfl, -, -⟩ | ⟨after', rfl, he'⟩
    · exact Or.inl rfl
    · obtain ⟨rest, rfl⟩ := h.waited after' o' before he' ho
      exact Or.inr (Or.inr ⟨_ :: rest, rfl⟩)

/-- A sync. -/
theorem Rested.succeeded (h : Rested log) (hparsed : Parsed o) (hto : ¬ Transient o) :
    Rested (.status true :: .requested o :: log) := by
  refine ⟨?_, ?_⟩
  · intro after before he
    rcases cons_split he with ⟨-, -, rfl⟩ | ⟨after₁, -, he₁⟩
    · exact ⟨o, log, rfl, hparsed⟩
    rcases cons_split he₁ with ⟨-, hm, -⟩ | ⟨after₂, -, he₂⟩
    · cases hm
    · exact h.success after₂ before he₂
  · intro after o' before he ho
    rcases cons_split he with ⟨-, hm, -⟩ | ⟨after₁, rfl, he₁⟩
    · cases hm
    rcases cons_split he₁ with ⟨-, hm, -⟩ | ⟨after₂, rfl, he₂⟩
    · cases hm
      exact absurd ho hto
    · obtain ⟨rest, rfl⟩ := h.waited after₂ o' before he₂ ho
      exact ⟨_ :: _ :: rest, rfl⟩

/-- A failure that is reported. -/
theorem Rested.reported (h : Rested log) : Rides (.status false :: .requested o :: log) := by
  refine ⟨?_, ?_⟩
  · intro after before he
    rcases cons_split he with ⟨-, hm, -⟩ | ⟨after₁, -, he₁⟩
    · cases hm
    rcases cons_split he₁ with ⟨-, hm, -⟩ | ⟨after₂, -, he₂⟩
    · cases hm
    · exact h.success after₂ before he₂
  · intro after o' before he ho
    rcases cons_split he with ⟨-, hm, -⟩ | ⟨after₁, rfl, he₁⟩
    · cases hm
    rcases cons_split he₁ with ⟨rfl, -, -⟩ | ⟨after₂, rfl, he₂⟩
    · exact Or.inr (Or.inl rfl)
    · obtain ⟨rest, rfl⟩ := h.waited after₂ o' before he₂ ho
      exact Or.inr (Or.inr ⟨_ :: _ :: rest, rfl⟩)

/-- A failure that is waited out. -/
theorem Rested.slept (h : Rested log) :
    Rested (.slept (backoffAt log) :: .status false :: .requested o :: log) := by
  refine ⟨?_, ?_⟩
  · intro after before he
    rcases cons_split he with ⟨-, hm, -⟩ | ⟨after₁, -, he₁⟩
    · cases hm
    exact h.reported.success after₁ before he₁
  · intro after o' before he ho
    rcases cons_split he with ⟨-, hm, -⟩ | ⟨after₁, rfl, he₁⟩
    · cases hm
    rcases cons_split he₁ with ⟨-, hm, -⟩ | ⟨after₂, rfl, he₂⟩
    · cases hm
    rcases cons_split he₂ with ⟨rfl, hm, rfl⟩ | ⟨after₃, rfl, he₃⟩
    · exact ⟨[], rfl⟩
    · obtain ⟨rest, rfl⟩ := h.waited after₃ o' before he₃ ho
      exact ⟨_ :: _ :: _ :: rest, rfl⟩

end Log

/-! ## The loop, call by call -/

section Riding

variable {X} {α : Type}

/-- Every outcome so far was clear. -/
def Calm (log : List SyncMark) : Prop := ∀ o, SyncMark.requested o ∈ log → Clear o

theorem Calm.of_cons {m : SyncMark} {log : List SyncMark} (h : Calm (m :: log)) : Calm log :=
  fun o ho => h o (List.mem_cons_of_mem _ ho)

/-- The loop relies on nobody else to write to its log. -/
def loopContract : Contract Unit (Loop D) where
  inv w := Calm w.log → Rides w.log
  rely _ w w' := w'.log = w.log
  give _ _ _ := True
  refl _ _ := rfl
  trans _ _ _ _ h h' := h'.trans h
  frame i j _ _ hij _ := absurd (Subsingleton.elim i j) hij

abbrev Riding (X : PigeonCrypto D) (Q : α → Loop D → Prop) (p : Code α) (w : Loop D) : Prop :=
  Safe loopContract (fun _ => LoopCall X) () Q p w

/-- The calls that the log does not show. -/
def Op.unseen : Op → Bool
  | .api_sync _ => false
  | .on_status _ => false
  | .sleep _ => false
  | _ => true

theorem unseen_call {op : Op} {w w' : Loop D} {r : op.Res} (hop : op.unseen = true)
    (h : LoopCall X op w r w') : Client.Exec X op w.client r w'.client ∧ w'.log = w.log := by
  cases op with
  | api_sync | on_status | sleep => cases hop
  | _ => exact h

/-- A program with no mark of its own. -/
theorem riding_quiet {p : Code α} {R : α → Prop} {Q : α → Loop D → Prop} {w : Loop D}
    (hp : p.All (fun op => op.unseen = true)) (hends : p.Ends (Client.Exec X) R)
    (hQ : ∀ a w', w'.log = w.log → R a → Q a w') : Riding X Q p w := by
  induction p generalizing w with
  | done a => exact hQ a w rfl hends
  | call op k ih =>
    intro w₁ hrely hinv r w₂ hc
    obtain ⟨hexec, hlog⟩ := unseen_call hp.1 hc
    have hsame : w₂.log = w.log := hlog.trans hrely
    refine ⟨?_, trivial, ih r (hp.2 r) (hends _ r _ hexec) ?_⟩
    · intro hcalm
      rw [hlog] at hcalm ⊢
      exact hinv hcalm
    · intro a w' hw'
      exact hQ a w' (hw'.trans hsame)

/-- Past an outcome that is not clear, nothing is asked of the loop. -/
theorem riding_broken {p : Code α} {o : HttpOutcome} {Q : α → Loop D → Prop} {w : Loop D}
    (ho : ¬ Clear o) (hmem : SyncMark.requested o ∈ w.log)
    (hQ : ∀ a w', ¬ Calm w'.log → Q a w') : Riding X Q p w := by
  induction p generalizing w with
  | done a => exact hQ a w (fun hcalm => ho (hcalm o hmem))
  | call op k ih =>
    intro w₁ hrely _ r w₂ hc
    have hmem₁ : SyncMark.requested o ∈ w₁.log := by
      rw [hrely]
      exact hmem
    have hmem₂ : SyncMark.requested o ∈ w₂.log := by
      cases op with
      | api_sync since =>
        obtain ⟨o', -, rfl⟩ := hc
        exact List.mem_cons_of_mem _ hmem₁
      | on_status connected =>
        obtain rfl : w₂ = _ := hc
        exact List.mem_cons_of_mem _ hmem₁
      | sleep seconds =>
        obtain rfl : w₂ = _ := hc
        exact List.mem_cons_of_mem _ hmem₁
      | _ =>
        rw [hc.2]
        exact hmem₁
    exact ⟨fun hcalm => absurd (hcalm o hmem₂) ho, trivial, ih r hmem₂⟩

/-- The loop between two rounds, at the backoff `backoff`. -/
structure Between (backoff : Nat) (log : List SyncMark) : Prop where
  rested : Rested log
  backoff : backoffAt log = backoff

/-- What a round leaves. -/
def Landed (r : Except CoreError Nat) (w : Loop D) : Prop := Calm w.log →
  (∀ backoff, r = .ok backoff → Between backoff w.log) ∧ EndsWell (.done r) w.log

theorem landed_error {e : CoreError} {w : Loop D} (h : Calm w.log →
    (∀ o before, w.log = .requested o :: before → ¬ Transient o) ∧
    (LocalFailure e ∨ ∃ o before err, w.log = .requested o :: before ∧ Definite o ∧
      Api.sync o = .error err ∧ e = err.toCore)) : Landed (.error e) w := by
  intro hcalm
  refine ⟨?_, ?_⟩
  · intro backoff hr
    cases hr
  · intro e' he
    cases he
    exact h hcalm

theorem landed_ok {backoff : Nat} {w : Loop D} (h : Calm w.log → Between backoff w.log) :
    Landed (.ok backoff) w := by
  intro hcalm
  refine ⟨?_, ?_⟩
  · intro backoff' hr
    cases hr
    exact h hcalm
  · intro e he
    cases he

/-- The loop has a sync response, and works on it. -/
structure Syncing (o : HttpOutcome) (before : List SyncMark) (w : Loop D) : Prop where
  log : w.log = .requested o :: before
  rested : Calm w.log → Rested before
  parsed : Parsed o
  settled : ¬ Transient o

theorem Syncing.same {o : HttpOutcome} {before : List SyncMark} {w w' : Loop D}
    (h : Syncing o before w) (hlog : w'.log = w.log) : Syncing o before w' := by
  refine ⟨hlog.trans h.log, ?_, h.parsed, h.settled⟩
  rw [hlog]
  exact h.rested

theorem Syncing.fails {o : HttpOutcome} {before : List SyncMark} {w : Loop D} {e : CoreError}
    (h : Syncing o before w) (he : LocalFailure e) : Landed (.error e) w := by
  apply landed_error
  intro _
  refine ⟨?_, Or.inl he⟩
  intro o' before' hlog
  rw [h.log] at hlog
  cases hlog
  exact h.settled

/-- One part of the work on a response. -/
theorem riding_part {o : HttpOutcome} {before : List SyncMark} {w : Loop D}
    {p : Code (Except CoreError α)} {k : α → Code (Except CoreError Nat)}
    (hw : Syncing o before w) (hp : p.All (fun op => op.unseen = true)) (hfails : FailsLocally X p)
    (hk : ∀ a w', Syncing o before w' → Riding X Landed (k a) w') :
    Riding X Landed (p.andThen k) w := by
  apply Safe.bind
  apply riding_quiet hp hfails
  intro r w' hlog hr
  cases r with
  | error e => exact (hw.same hlog).fails (hr e rfl)
  | ok a => exact hk a w' (hw.same hlog)

theorem riding_notify {o : HttpOutcome} {before : List SyncMark} {w : Loop D} {changed : Bool}
    (hw : Syncing o before w) : Riding X Landed (notify changed) w := by
  intro w₁ hrely hinv r w₂ hc
  have hw₁ := hw.same hrely
  obtain rfl : w₂ = ⟨w₁.client, .status true :: w₁.log⟩ := hc
  have hrested : Calm (.status true :: w₁.log) → Rested (.status true :: w₁.log) := by
    intro hcalm
    have hbefore := hw₁.rested hcalm.of_cons
    rw [hw₁.log]
    exact hbefore.succeeded hw.parsed hw.settled
  refine ⟨fun hcalm => (hrested hcalm).rides, trivial, ?_⟩
  have hdone : ∀ w' : Loop D, w'.log = .status true :: w₁.log → Landed (.ok BACKOFF_START) w' := by
    intro w' hlog
    apply landed_ok
    rw [hlog]
    exact fun hcalm => ⟨hrested hcalm, rfl⟩
  cases changed with
  | false => exact hdone _ rfl
  | true =>
    apply riding_quiet (R := fun r => r = .ok BACKOFF_START)
    · exact ⟨rfl, fun _ => trivial⟩
    · exact fun _ _ _ _ => rfl
    · rintro r w' hlog rfl
      exact hdone w' hlog

theorem unseen_of {op : Op} (h : op.ofWelcomes = true ∨ op.ofPass = true ∨ op.ofFlush = true) :
    op.unseen = true := by
  cases op <;> simp_all [Op.unseen, Op.ofWelcomes, Op.ofPass, Op.ofFlush]

theorem riding_success {o : HttpOutcome} {before : List SyncMark} {resp : Json} {w : Loop D}
    (hw : Syncing o before w) (hresp : SyncResponse resp) :
    Riding X Landed (sync_success resp) w := by
  apply riding_part hw _ (apply_sync_fails hresp)
  · intro applied w₁ hw₁
    apply Safe.bind
    have hwelcomes := (apply_to_device_calls resp).mono (fun op h => unseen_of (Or.inl h))
    have hany : ∀ p : Code Bool, p.Ends (Client.Exec X) (fun _ => True) := by
      intro p
      induction p with
      | done a => trivial
      | call op k ih => exact fun _ r _ _ => ih r
    apply riding_quiet hwelcomes (hany _)
    intro joined w₂ hlog _
    apply riding_part (hw₁.same hlog) _ (persist_sync_token_fails resp)
    · intro _ w₃ hw₃
      apply riding_part hw₃ (pass_calls.mono (fun op h => unseen_of (Or.inr (Or.inl h)))) pass_fails
      intro mls_changed w₄ hw₄
      apply riding_part hw₄ (flush_calls.mono (fun op h => unseen_of (Or.inr (Or.inr h))))
        flush_fails
      intro flushed w₅ hw₅
      exact riding_notify hw₅
    · unfold persist_sync_token
      cases (resp.index "next_batch").as_str with
      | none => trivial
      | some next =>
        refine ⟨rfl, fun r => ?_⟩
        cases r <;> trivial
  · apply (apply_sync_calls resp).mono
    rintro op rfl
    rfl

/-- One round: it takes a clear outcome for what it is. -/
theorem riding_round {backoff : Nat} {w : Loop D} (hw : Calm w.log → Between backoff w.log) :
    Riding X Landed (sync_round backoff) w := by
  intro w₁ hrely hinv since w₂ hc
  obtain ⟨hexec, hlog⟩ := unseen_call rfl hc
  have hw₂ : Calm w₂.log → Between backoff w₂.log := by
    rw [hlog.trans hrely]
    exact hw
  refine ⟨?_, trivial, ?_⟩
  · intro hcalm
    exact (hw₂ hcalm).rested.rides
  cases since with
  | error e =>
    obtain ⟨fault, h⟩ := hexec
    apply landed_error
    intro hcalm
    refine ⟨?_, Or.inl (store_fails (fun st => (st.load_sync_token, st)) h)⟩
    intro o before he ho
    obtain ⟨rest, hrest⟩ := (hw₂ hcalm).rested.waited [] o before he ho
    simp at hrest
  | ok since =>
    rintro w₃ hrely₃ - r w₄ ⟨o, rfl, rfl⟩
    have hw₃ : Calm w₃.log → Between backoff w₃.log := by
      rw [hrely₃]
      exact hw₂
    by_cases ho : Clear o
    · refine ⟨fun hcalm => (hw₃ hcalm.of_cons).rested.requested, trivial, ?_⟩
      cases hr : Api.sync o with
      | ok resp =>
        obtain ⟨hparsed, hresp, hto⟩ := clear_success ho hr
        exact riding_success
          ⟨rfl, fun hcalm => (hw₃ hcalm.of_cons).rested, hparsed, hto⟩ hresp
      | error err =>
        cases htr : err.is_transient with
        | true =>
          simp only [htr, if_true]
          -- reported, waited out, and on to the next round
          intro w₅ hrely₅ _ _ w₆ hc₆
          obtain rfl : w₆ = ⟨w₅.client, .status false :: w₅.log⟩ := hc₆
          have hlog₅ : w₅.log = .requested o :: w₃.log := hrely₅
          refine ⟨?_, trivial, ?_⟩
          · intro hcalm
            rw [hlog₅] at hcalm ⊢
            exact (hw₃ hcalm.of_cons.of_cons).rested.reported
          intro w₇ hrely₇ _ _ w₈ hc₈
          obtain rfl : w₈ = ⟨w₇.client, .slept backoff :: w₇.log⟩ := hc₈
          have hlog₇ : w₇.log = .status false :: .requested o :: w₃.log := by
            rw [← hlog₅]
            exact hrely₇
          have hbetween : Calm (.slept backoff :: w₇.log) →
              Between (min (backoff * 2) BACKOFF_MAX) (.slept backoff :: w₇.log) := by
            intro hcalm
            rw [hlog₇] at hcalm ⊢
            obtain ⟨hrested, hback⟩ := hw₃ hcalm.of_cons.of_cons.of_cons
            refine ⟨?_, rfl⟩
            rw [← hback]
            exact hrested.slept
          exact ⟨fun hcalm => (hbetween hcalm).rested.rides, trivial, landed_ok hbetween⟩
        | false =>
          simp only [htr]
          apply landed_error
          intro _
          obtain ⟨hdefinite, hto⟩ := clear_fatal ho hr htr
          refine ⟨?_, Or.inr ⟨o, w₃.log, err, rfl, hdefinite, hr, rfl⟩⟩
          intro o' before he
          cases he
          exact hto
    · refine ⟨fun hcalm => absurd (hcalm o List.mem_cons_self) ho, trivial, ?_⟩
      apply riding_broken ho List.mem_cons_self
      intro a w' hnot hcalm
      exact absurd hcalm hnot

/-- The loop, for any number of rounds. -/
theorem riding_run_sync {rounds backoff : Nat} {w : Loop D}
    (hw : Calm w.log → Between backoff w.log) : Riding X Landed (run_sync rounds backoff) w := by
  induction rounds generalizing backoff w with
  | zero => exact landed_ok hw
  | succ rounds ih =>
    apply Safe.bind
    apply (riding_round hw).mono
    intro r w' hlanded
    cases r with
    | error e => exact hlanded
    | ok backoff' => exact ih (fun hcalm => (hlanded hcalm).1 backoff' rfl)

/-- In every run whose outcomes are clear, the loop takes each for what it is. -/
theorem run_sync_rides {rounds : Nat} {c : Client D} {p : Code (Except CoreError Nat)} {w : Loop D}
    {es : List (Prog.Event (Loop D) Op Op.Res)}
    (hr : Prog.Runs (LoopCall X) BesideLoop (run_sync rounds BACKOFF_START) ⟨c, []⟩ es p w)
    (hcalm : Calm w.log) : Rides w.log ∧ EndsWell p w.log := by
  have hstart : Riding X Landed (run_sync rounds BACKOFF_START) ⟨c, []⟩ :=
    riding_run_sync (fun _ => ⟨rested_nil, rfl⟩)
  have hothers : ∀ s s' : Loop D, loopContract.inv s → BesideLoop s s' →
      loopContract.inv s' ∧ loopContract.rely () s s' := by
    intro s s' hinv hs
    refine ⟨?_, hs⟩
    intro h
    rw [hs] at h ⊢
    exact hinv h
  obtain ⟨hinv, w₁, hrely, hsafe⟩ :=
    Safe.runs (h := fun _ => LoopCall X) (i := ()) hr hothers (fun _ => rested_nil.rides) rfl hstart
  refine ⟨hinv hcalm, ?_⟩
  intro e he
  subst he
  have hlog : w.log = w₁.log := hrely
  have hlanded : Landed (.error e) w₁ := hsafe
  rw [hlog] at hcalm ⊢
  exact (hlanded hcalm).2 e rfl

end Riding

/-! ## What an outcome that is not clear does -/

/-- A client with no engine, and nothing stored. -/
def bareClient : Client Copies := { freshClient with e2ee := none }

/-- Every request has the outcome `o`, no local call fails, and nothing is kept of what the
loop stores. -/
def answering (o : HttpOutcome) : (op : Op) → Loop Copies → op.Res × Loop Copies
  | .api_sync _, w => (Api.sync o, ⟨w.client, .requested o :: w.log⟩)
  | .on_status connected, w => ((), ⟨w.client, .status connected :: w.log⟩)
  | .sleep seconds, w => ((), ⟨w.client, .slept seconds :: w.log⟩)
  | op, w => ((Client.local_ epochCrypto op w.client).1, w)

theorem answering_unseen {o : HttpOutcome} {op : Op} {w w' : Loop Copies} (hop : op.unseen = true)
    (hw : w' = ⟨(Client.local_ epochCrypto op w.client).2, w.log⟩) :
    LoopCall epochCrypto op w (answering o op w).1 w' ∧ (answering o op w).2 = w := by
  subst hw
  cases op with
  | api_sync | on_status | sleep => cases hop
  | _ => exact ⟨⟨⟨Client.calm _, rfl⟩, rfl⟩, rfl⟩

theorem runs_answering (o : HttpOutcome) {α : Type} (p : Code α) (w : Loop Copies) :
    Prog.Runs (LoopCall epochCrypto) BesideLoop p w (p.trace (answering o) w)
      (.done (p.run (answering o) w).1) (p.run (answering o) w).2 := by
  apply Prog.runs_among
  intro op w
  by_cases hop : op.unseen = true
  · obtain ⟨hcall, hsame⟩ := answering_unseen (o := o) hop rfl
    refine ⟨_, hcall, ?_⟩
    rw [hsame]
    rfl
  · cases op with
    | api_sync since => exact ⟨_, ⟨o, rfl, rfl⟩, rfl⟩
    | on_status connected => exact ⟨⟨w.client, .status connected :: w.log⟩, rfl, rfl⟩
    | sleep seconds => exact ⟨⟨w.client, .slept seconds :: w.log⟩, rfl, rfl⟩
    | _ => exact absurd rfl hop

/-- A parse that fails says that an event is malformed. -/
def OnlyMalformed {α : Type} (r : Except StoreError α) : Prop :=
  ∀ err, r = .error err → ∃ reason, err = .Malformed reason

theorem OnlyMalformed.bind {α β : Type} {r : Except StoreError α} {f : α → Except StoreError β}
    (hr : OnlyMalformed r) (hf : ∀ a, OnlyMalformed (f a)) : OnlyMalformed (r >>= f) := by
  intro err h
  cases r with
  | error e =>
    cases h
    exact hr err rfl
  | ok a => exact hf a err h

theorem field_malformed (event : Json) (key : String) :
    OnlyMalformed (StoredEvent.stringField event key) ∧
      OnlyMalformed (StoredEvent.intField event key) := by
  refine ⟨?_, ?_⟩
  · unfold StoredEvent.stringField
    intro err h
    split at h <;> cases h
    exact ⟨_, rfl⟩
  · unfold StoredEvent.intField
    intro err h
    split at h <;> cases h
    exact ⟨_, rfl⟩

theorem from_wire_malformed (j : Json) : OnlyMalformed (StoredEvent.from_wire j) := by
  unfold StoredEvent.from_wire
  refine (field_malformed j "event_id").1.bind (fun event_id => ?_)
  refine (field_malformed j "room_id").1.bind (fun room_id => ?_)
  refine (field_malformed j "sender").1.bind (fun sender => ?_)
  refine (field_malformed j "type").1.bind (fun event_type => ?_)
  refine (field_malformed j "origin_server_ts").2.bind (fun origin_server_ts => ?_)
  refine (field_malformed j "depth").2.bind (fun depth => ?_)
  intro err h
  cases h

theorem parse_malformed (events : List Json) :
    OnlyMalformed (events.mapM StoredEvent.from_wire) := by
  induction events with
  | nil =>
    intro err h
    cases h
  | cons j rest ih =>
    rw [List.mapM_cons]
    refine (from_wire_malformed j).bind (fun ev => ih.bind (fun evs => ?_))
    intro err h
    cases h

section Answering

variable {o : HttpOutcome} {resp : Json} {log : List SyncMark}

/-- A response whose events all parse goes through, whatever else it is. -/
theorem answering_success
    (hevents : ∀ j ∈ syncEvents resp, ∃ ev, StoredEvent.from_wire j = .ok ev) :
    ((sync_success resp).run (answering o) ⟨bareClient, log⟩).2.log = .status true :: log := by
  obtain ⟨evs, hevs⟩ := mapM_total hevents
  have hfold : bareClient.store.apply_events (syncEvents resp) =
      .ok (bareClient.store.apply_parsed evs) := by
    unfold Store.apply_events
    rw [hevs]
    rfl
  have happly : ∃ applied, (apply_sync resp).run (answering o) ⟨bareClient, log⟩ =
      (.ok applied, ⟨bareClient, log⟩) := by
    have hanswer : (answering o (.apply_events (syncEvents resp)) ⟨bareClient, log⟩) =
        (.ok (bareClient.store.apply_parsed evs).1, ⟨bareClient, log⟩) := by
      change ((bareClient.onStore .none (fun st => st.apply_events (syncEvents resp))).1, _) = _
      unfold Client.onStore
      simp only [hfold]
    unfold apply_sync
    rw [Prog.run_call, hanswer]
    exact ⟨_, rfl⟩
  obtain ⟨applied, happly⟩ := happly
  have hwelcomes : (apply_to_device resp).run (answering o) ⟨bareClient, log⟩ =
      (false, ⟨bareClient, log⟩) := by
    unfold apply_to_device
    cases ((resp.index "to_device").index "events").as_array <;> rfl
  have htoken : (persist_sync_token resp).run (answering o) ⟨bareClient, log⟩ =
      (.ok (), ⟨bareClient, log⟩) := by
    unfold persist_sync_token
    cases (resp.index "next_batch").as_str <;> rfl
  have hpass : process_inbound_mls.run (answering o) ⟨bareClient, log⟩ =
      (.ok false, ⟨bareClient, log⟩) := rfl
  have hflush : flush_pending.run (answering o) ⟨bareClient, log⟩ =
      (.ok false, ⟨bareClient, log⟩) := rfl
  unfold sync_success
  rw [Prog.run_andThen_ok happly, Prog.run_bind, hwelcomes, Prog.run_andThen_ok htoken,
    Prog.run_andThen_ok hpass, Prog.run_andThen_ok hflush]
  cases applied <;> rfl

/-- A response with an event that does not parse ends the loop. -/
theorem answering_malformed
    (hevents : ¬ ∀ j ∈ syncEvents resp, ∃ ev, StoredEvent.from_wire j = .ok ev) :
    ∃ reason, (sync_success resp).run (answering o) ⟨bareClient, log⟩ =
      (.error (StoreError.Malformed reason).toCore, ⟨bareClient, log⟩) := by
  cases hparse : (syncEvents resp).mapM StoredEvent.from_wire with
  | ok evs =>
    exfalso
    apply hevents
    intro j hj
    obtain ⟨ev, -, hev⟩ := mem_of_forall₂ (mapM_ok_iff.mp hparse).flip hj
    exact ⟨ev, hev⟩
  | error err =>
    obtain ⟨reason, rfl⟩ := parse_malformed _ err hparse
    refine ⟨reason, ?_⟩
    have hanswer : (answering o (.apply_events (syncEvents resp)) ⟨bareClient, log⟩) =
        (.error (StoreError.Malformed reason).toCore, ⟨bareClient, log⟩) := by
      change ((bareClient.onStore .none (fun st => st.apply_events (syncEvents resp))).1, _) = _
      have hfold : bareClient.store.apply_events (syncEvents resp) =
          .error (.Malformed reason) := by
        unfold Store.apply_events
        rw [hparse]
        rfl
      unfold Client.onStore
      simp only [hfold]
    apply Prog.run_andThen_error
    unfold apply_sync
    rw [Prog.run_call, hanswer]
    rfl

theorem answering_ok {backoff : Nat} (h : Api.sync o = .ok resp) :
    (sync_round backoff).run (answering o) ⟨bareClient, []⟩ =
      (sync_success resp).run (answering o) ⟨bareClient, [.requested o]⟩ := by
  have hanswer : (answering o (.api_sync none) ⟨bareClient, []⟩) =
      (.ok resp, ⟨bareClient, [.requested o]⟩) := by
    rw [← h]
    rfl
  have htoken : (answering o .load_sync_token ⟨bareClient, []⟩) = (.ok none, ⟨bareClient, []⟩) :=
    rfl
  unfold sync_round
  rw [Prog.run_call, htoken]
  simp only
  rw [Prog.run_call, hanswer]

theorem answering_fatal {backoff : Nat} {err : ApiError} (h : Api.sync o = .error err)
    (herr : err.is_transient = false) : (sync_round backoff).run (answering o) ⟨bareClient, []⟩ =
      (.error err.toCore, ⟨bareClient, [.requested o]⟩) := by
  have hanswer : (answering o (.api_sync none) ⟨bareClient, []⟩) =
      (.error err, ⟨bareClient, [.requested o]⟩) := by
    rw [← h]
    rfl
  have htoken : (answering o .load_sync_token ⟨bareClient, []⟩) = (.ok none, ⟨bareClient, []⟩) :=
    rfl
  unfold sync_round
  rw [Prog.run_call, htoken]
  simp only
  rw [Prog.run_call, hanswer]
  simp only [herr]
  rfl

end Answering

theorem malformed_not_local (reason : String) :
    ¬ LocalFailure (StoreError.Malformed reason).toCore := by
  rintro (⟨reason', h⟩ | ⟨reason', h⟩)
  · simp only [StoreError.toCore, CoreError.Storage.injEq] at h
    have hlist := congrArg String.toList h
    simp at hlist
  · cases h

theorem api_not_local (err : ApiError) : ¬ LocalFailure err.toCore := by
  rintro (⟨reason, h⟩ | ⟨reason, h⟩) <;> cases err <;> cases h

/-- The loop of one round that the outcome answers. -/
def oneRound (o : HttpOutcome) : Except CoreError Nat × Loop Copies :=
  (run_sync 1 BACKOFF_START).run (answering o) ⟨bareClient, []⟩

/-- It sees no other outcome, and takes this one for what it is not. -/
def Astray (o : HttpOutcome) : Prop :=
  (∀ o', SyncMark.requested o' ∈ (oneRound o).2.log → o' = o) ∧
    ¬ (Rides (oneRound o).2.log ∧ EndsWell (.done (oneRound o).1) (oneRound o).2.log)

/-- An outcome with no sync response in it counts as a sync. -/
theorem counted_astray {o : HttpOutcome} {resp : Json} (ho : ¬ Clear o) (hr : Api.sync o = .ok resp)
    (hevents : ∀ j ∈ syncEvents resp, ∃ ev, StoredEvent.from_wire j = .ok ev) : Astray o := by
  have hround := @answering_ok o resp BACKOFF_START hr
  have hlog : (oneRound o).2.log = [.status true, .requested o] := by
    rw [← answering_success hevents, ← hround]
    unfold oneRound run_sync Prog.andThen
    rw [Prog.run_bind]
    generalize (sync_round BACKOFF_START).run (answering o) ⟨bareClient, []⟩ = out
    obtain ⟨_ | backoff, w⟩ := out <;> rfl
  unfold Astray
  rw [hlog]
  refine ⟨by simp, ?_⟩
  rintro ⟨hrides, -⟩
  obtain ⟨o', rest, hbefore, hparsed⟩ := hrides.success [] _ rfl
  cases hbefore
  cases o with
  | failed reason => exact hparsed
  | response status body =>
    apply ho
    obtain ⟨hs, hbody⟩ := hparsed
    simp only [Clear, hs, if_true]
    exact hbody

/-- Events that do not parse end the loop. -/
theorem malformed_astray {o : HttpOutcome} {resp : Json} (hr : Api.sync o = .ok resp)
    (hevents : ¬ ∀ j ∈ syncEvents resp, ∃ ev, StoredEvent.from_wire j = .ok ev) : Astray o := by
  obtain ⟨reason, hend⟩ := @answering_malformed o resp [.requested o] hevents
  have hend : oneRound o =
      (.error (StoreError.Malformed reason).toCore, ⟨bareClient, [.requested o]⟩) := by
    unfold oneRound
    apply Prog.run_andThen_error
    rw [@answering_ok o resp BACKOFF_START hr, hend]
  unfold Astray
  rw [hend]
  refine ⟨by simp, ?_⟩
  rintro ⟨-, hends⟩
  rcases (hends _ rfl).2 with hlocal | ⟨o', before, err, hlog, -, herr, -⟩
  · exact malformed_not_local reason hlocal
  · cases hlog
    rw [hr] at herr
    cases herr

/-- An error that is not clear is one of a response, and it is fatal. -/
theorem unclear_is_fatal {o : HttpOutcome} {err : ApiError} (ho : ¬ Clear o)
    (hr : Api.sync o = .error err) : err.is_transient = false ∧ ∃ status body,
      o = .response status body ∧ is_success status = false := by
  unfold Api.sync Api.send at hr
  cases o with
  | failed reason => exact absurd trivial ho
  | response status body =>
    by_cases hs : is_success status = true
    · simp only [hs, if_true] at hr
      cases hr
    · simp only [hs] at hr
      cases hr
      refine ⟨?_, status, body, rfl, by simpa using hs⟩
      by_contra htr
      have hlimit := parse_error_transient.mp (by simpa using htr)
      apply ho
      simp only [Clear, hs]
      exact Or.inl hlimit

/-- So it ends the loop. -/
theorem fatal_astray {o : HttpOutcome} {err : ApiError} (ho : ¬ Clear o)
    (hr : Api.sync o = .error err) : Astray o := by
  obtain ⟨htr, status, body, rfl, hs⟩ := unclear_is_fatal ho hr
  have hend : oneRound (.response status body) =
      (.error err.toCore, ⟨bareClient, [.requested (.response status body)]⟩) := by
    unfold oneRound
    apply Prog.run_andThen_error
    exact answering_fatal hr htr
  unfold Astray
  rw [hend]
  refine ⟨by simp, ?_⟩
  rintro ⟨-, hends⟩
  obtain ⟨hto, hwhy⟩ := hends _ rfl
  have hto := hto _ _ rfl
  rcases hwhy with hlocal | ⟨o', before, err', hlog, hdefinite, -, -⟩
  · exact api_not_local err hlocal
  · cases hlog
    apply ho
    obtain ⟨-, code, hcode, hpigeon, -⟩ := hdefinite
    simp only [Clear, hs]
    refine Or.inr ⟨?_, code, hcode, hpigeon⟩
    intro hlimit
    exact hto (Or.inr (Or.inl hlimit))

/-- The run of one round that an outcome which is not clear leads astray. -/
theorem unclear_breaks {o : HttpOutcome} (ho : ¬ Clear o) :
    ∃ p w es, Prog.Runs (LoopCall epochCrypto) BesideLoop (run_sync 1 BACKOFF_START)
      ⟨bareClient, []⟩ es p w ∧ (∀ o', SyncMark.requested o' ∈ w.log → o' = o) ∧
      ¬ (Rides w.log ∧ EndsWell p w.log) := by
  have hastray : Astray o := by
    cases hr : Api.sync o with
    | ok resp =>
      by_cases hevents : ∀ j ∈ syncEvents resp, ∃ ev, StoredEvent.from_wire j = .ok ev
      · exact counted_astray ho hr hevents
      · exact malformed_astray hr hevents
    | error err => exact fatal_astray ho hr
  exact ⟨_, _, _, runs_answering o (run_sync 1 BACKOFF_START) ⟨bareClient, []⟩, hastray⟩

/-! ## The launch -/

section Launch

variable {X}

theorem server_error_is_not_restored {status : Nat} {code : ErrorCode} {message : String}
    {f : SessionFaults} {h : Host} {c : Client D} :
    (restore_session X (.error (.Server status code message)) f h).1 ≠ .ok (some c) := by
  intro hc
  unfold restore_session at hc
  cases hsession : ks_get h.key_store SESSION_KEY f.session with
  | error e => simp [hsession] at hc
  | ok found =>
    cases found with
    | none => simp [hsession] at hc
    | some bytes =>
      cases hdecode : decode_session bytes with
      | error e => simp [hsession, hdecode] at hc
      | ok stored =>
        simp only [hsession, hdecode] at hc
        cases code with
        | UnknownToken | MissingToken => exact drop_session_gives_none hc
        | _ => cases hc

/-- A launch with a stored session whose token is not refused. -/
theorem launch_resumes {whoami : Except ApiError Unit} {f : SessionFaults} {h : Host} {bytes : Json}
    {session : Session} {token : String}
    (hwhoami : whoami = .ok () ∨ ∃ reason, whoami = .error (.Network reason))
    (hsession : ks_get h.key_store SESSION_KEY f.session = .ok (some bytes))
    (hdecode : decode_session bytes = .ok (session, token))
    (hstore : ∀ reason, f.store ≠ .db reason) :
    ∃ c, (restore_session X whoami f h).1 = .ok (some c) ∧ c.session = session := by
  have hresume : restore_session X whoami f h = resume X session token f h := by
    unfold restore_session
    rcases hwhoami with rfl | ⟨reason, rfl⟩ <;> simp only [hsession, hdecode]
  rw [hresume]
  unfold resume open_store
  cases hf : f.store with
  | db reason => exact absurd hf (hstore reason)
  | none | load_group | key_store | export_storage => exact ⟨_, rfl, rfl⟩

end Launch

/-- A host with a stored session. -/
def loggedInHost : Host :=
  ⟨some (KeyMap.put Table.empty SESSION_KEY
    (encode_session ⟨"@ann:pigeon.example", "ANN1", "https://pigeon.example"⟩ "token")), Store.init⟩

def calmFaults : SessionFaults := ⟨.none, .none, .none, .none, .none⟩

/-- An outcome of `/sync` is taken for what it is, in every run whose other outcomes are
clear, just where it is clear. A transient outcome of `whoami` keeps the session just where
it is no error status. -/
theorem outcomes_are_taken_for_what_they_are_iff (o : HttpOutcome) :
    ((∀ (D : Type) (X : PigeonCrypto D) (c : Client D) (rounds : Nat)
        (es : List (Prog.Event (Loop D) Op Op.Res)) (p : Code (Except CoreError Nat)) (w : Loop D),
        Prog.Runs (LoopCall X) BesideLoop (run_sync rounds BACKOFF_START) ⟨c, []⟩ es p w →
        (∀ o', SyncMark.requested o' ∈ w.log → o' = o ∨ Clear o') →
        Rides w.log ∧ EndsWell p w.log) ↔ Clear o) ∧
    ((∀ (D : Type) (X : PigeonCrypto D) (f : SessionFaults) (h : Host) (bytes : Json)
        (session : Session) (token : String),
        ks_get h.key_store SESSION_KEY f.session = .ok (some bytes) →
        decode_session bytes = .ok (session, token) → (∀ reason, f.store ≠ .db reason) →
        Transient o → ∃ c, (restore_session X ((Api.whoami o).map (fun _ => ())) f h).1 =
          .ok (some c) ∧ c.session = session) ↔
      (Transient o → ∀ status body, o = .response status body → is_success status = true)) := by
  refine ⟨⟨?_, ?_⟩, ⟨?_, ?_⟩⟩
  · intro hall
    by_contra ho
    obtain ⟨p, w, es, hrun, honly, hnot⟩ := unclear_breaks ho
    exact hnot (hall Copies epochCrypto bareClient 1 es p w hrun (fun o' ho' =>
      Or.inl (honly o' ho')))
  · intro ho D X c rounds es p w hrun hcalm
    apply run_sync_rides hrun
    intro o' ho'
    rcases hcalm o' ho' with rfl | hclear
    · exact ho
    · exact hclear
  · rintro hall hto status body rfl
    by_contra hs
    obtain ⟨c, hc, -⟩ := hall Copies epochCrypto calmFaults loggedInHost _ _ _ rfl rfl
      (fun _ hf => by cases hf) hto
    have hwhoami : (Api.whoami (.response status body)).map (fun _ => ()) =
        .error (parse_error status body) := by
      unfold Api.whoami Api.send
      simp [hs, Except.map]
    rw [hwhoami] at hc
    exact server_error_is_not_restored hc
  · intro hgood D X f h bytes session token hsession hdecode hstore hto
    apply launch_resumes _ hsession hdecode hstore
    cases o with
    | failed reason => exact Or.inr ⟨reason, rfl⟩
    | response status body =>
      left
      unfold Api.whoami Api.send
      simp [hgood hto status body rfl, Except.map]

/-- A rate limit with an empty body ends the loop, and no session is restored. -/
theorem a_bare_rate_limit_ends_the_session :
    (¬ ∀ (c : Client Copies) (rounds : Nat) (es : List (Prog.Event (Loop Copies) Op Op.Res))
      (p : Code (Except CoreError Nat)) (w : Loop Copies),
      Prog.Runs (LoopCall epochCrypto) BesideLoop (run_sync rounds BACKOFF_START) ⟨c, []⟩ es p w →
      Rides w.log ∧ EndsWell p w.log) ∧
    Transient (.response 429 .garbled) ∧
    ∀ c, (restore_session epochCrypto ((Api.whoami (.response 429 .garbled)).map (fun _ => ()))
      calmFaults loggedInHost).1 ≠ .ok (some c) := by
  refine ⟨?_, Or.inr (Or.inl rfl), ?_⟩
  · intro hall
    have hunclear : ¬ Clear (.response 429 .garbled) := by
      rintro (hcode | ⟨hlimit, -⟩)
      · cases hcode
      · exact hlimit rfl
    obtain ⟨p, w, es, hrun, -, hnot⟩ := unclear_breaks hunclear
    exact hnot (hall bareClient 1 es p w hrun)
  · intro c
    exact server_error_is_not_restored

end PigeonMobile
