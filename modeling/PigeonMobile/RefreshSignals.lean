-- The refresh signal of the sync loop (`run_sync`). The flag that something changed is a local
-- of one cycle, and the tables are written before the later awaits: a cycle that is dropped or
-- fails in between takes the flag with it, and no later cycle knows of the change.
import PigeonMobile.Sync
import PigeonMobile.Threads
import PigeonMobile.Timeline
import PigeonMobile.EpochGroup

namespace PigeonMobile

/-! ## What is seen of the tables -/

/-- The room list and each page of each timeline are the same. -/
def SameShown (from_str : String → Option Json) (st st' : Store) : Prop :=
  st.list_rooms = st'.list_rooms ∧ ∀ room_id limit before,
    timeline from_str st room_id limit before = timeline from_str st' room_id limit before

theorem SameShown.refl (from_str : String → Option Json) (st : Store) : SameShown from_str st st :=
  ⟨rfl, fun _ _ _ => rfl⟩

/-- `on_change`, where the UI reads the tables again. -/
def Op.signals : Op → Bool
  | .on_change => true
  | _ => false

/-- The calls that the loop awaits: only there can its future be dropped. -/
def Op.suspends : Op → Bool
  | .api_sync _ => true
  | .api_send_event _ _ _ _ => true
  | .lock_send => true
  | .sleep _ => true
  | _ => false

/-- The calls that may change what is seen. -/
def Op.shows : Op → Bool
  | .save_sync_token _ => false
  | op => Client.writesStore op

/-- The client, and whether the loop has changed what is seen since its last signal. -/
structure Watched (D : Type) where
  client : Client D
  stale : Prop

variable {D : Type} (X : PigeonCrypto D) (from_str : String → Option Json)

/-- One call of the loop. -/
def WatchCall (op : Op) (w : Watched D) (r : op.Res) (w' : Watched D) : Prop :=
  Client.Exec X op w.client r w'.client ∧ (w'.stale ↔ op.signals = false ∧
    (w.stale ∨ ¬ SameShown from_str w.client.store w'.client.store))

/-- The rest of the app does anything to the client between two calls. -/
def BesideWatch (w w' : Watched D) : Prop := w'.stale ↔ w.stale

/-! ## Cycles -/

/-- One round of the loop: its calls, what is left of it where it ends, and the state then. -/
structure SyncRound (D : Type) where
  backoff : Nat
  calls : List (Prog.Event (Watched D) Op Op.Res)
  rest : Code (Except CoreError Nat)
  after : Watched D

/-- The round went through. -/
def SyncRound.Completes (c : SyncRound D) : Prop := ∃ backoff, c.rest = .done (.ok backoff)

/-- A round ends with a value or an error, or it is dropped at an await. -/
def SyncRound.Ended (c : SyncRound D) : Prop :=
  (∃ r, c.rest = .done r) ∨ ∃ op k, c.rest = .call op k ∧ op.suspends = true

/-- A round that starts in `w`. -/
def SyncRound.From (w : Watched D) (c : SyncRound D) : Prop :=
  (∃ w₁, BesideWatch w w₁ ∧ Prog.Runs (WatchCall X from_str) BesideWatch (sync_round c.backoff) w₁
    c.calls c.rest c.after) ∧ c.Ended

/-- Rounds one after another, of one `run_sync` or of several. -/
def SyncRuns : Watched D → List (SyncRound D) → Prop
  | _, [] => True
  | w, c :: cs => c.From X from_str w ∧ SyncRuns c.after cs

/-- A batch that inserts no row leaves what is seen as it was. -/
def QuietBatch : Op → Store → Prop
  | .apply_events events, st => ∀ st', st.apply_events events = .ok (0, st') →
      SameShown from_str st st'
  | _, _ => True

/-- The batches of a round are quiet where they insert nothing. If the round is dropped or
fails, it has changed nothing of what is seen since the last signal. -/
structure SyncRound.Clean (c : SyncRound D) : Prop where
  batches : ∀ e ∈ c.calls, QuietBatch from_str e.op e.before.client.store
  ends : ¬ c.Completes → ¬ c.after.stale

/-! ## What the flag follows -/

section

variable {X} {from_str} {α : Type}

/-- A call with a quiet batch. -/
def QuietCall (X : PigeonCrypto D) (from_str : String → Option Json) (op : Op) (w : Watched D)
    (r : op.Res) (w' : Watched D) : Prop :=
  WatchCall X from_str op w r w' ∧ QuietBatch from_str op w.client.store

def watchContract : Contract Unit (Watched D) where
  inv _ := True
  rely _ w w' := w'.stale ↔ w.stale
  give _ _ _ := True
  refl _ _ := Iff.rfl
  trans _ _ _ _ h h' := h'.trans h
  frame i j _ _ hne _ := absurd (Subsingleton.elim i j) hne

abbrev Watching (X : PigeonCrypto D) (from_str : String → Option Json) (Q : α → Watched D → Prop)
    (p : Code α) (w : Watched D) : Prop :=
  Safe watchContract (fun _ => QuietCall X from_str) () Q p w

/-- A call that changes nothing of what is seen. -/
theorem unseen_exec {op : Op} {w w' : Watched D} {r : op.Res} (hop : op.shows = false)
    (h : QuietCall X from_str op w r w') : w'.stale → w.stale := by
  obtain ⟨⟨⟨choice, hexec⟩, hstale⟩, -⟩ := h
  have hshown : SameShown from_str w.client.store w'.client.store := by
    by_cases hwrites : Client.writesStore op = false
    · have hstore := Client.perform_store (X := X) hwrites choice w.client
      rw [hexec] at hstore
      have hstore : w'.client.store = w.client.store := hstore
      rw [hstore]
      exact SameShown.refl _ _
    · cases op with
      | save_sync_token token =>
        have hexec : w.client.onStore choice (fun st => .ok ((), st.save_sync_token token)) =
            (r, w'.client) := hexec
        rcases Client.onStore_cases hexec with ⟨e, -, hc⟩ | ⟨b, st, hst, -, hc⟩
        · rw [hc]
          exact SameShown.refl _ _
        · cases hst
          rw [hc]
          exact ⟨rfl, fun _ _ _ => rfl⟩
      | _ => exact absurd hop hwrites
  intro h
  rcases (hstale.mp h).2 with hold | hnew
  · exact hold
  · exact absurd hshown hnew

/-- A program of such calls. -/
theorem watch_unseen {p : Code α} {P : Prop} {Q : α → Watched D → Prop} {w : Watched D}
    (hp : p.All (fun op => op.shows = false)) (hw : w.stale → P)
    (hQ : ∀ a w', (w'.stale → P) → Q a w') : Watching X from_str Q p w := by
  induction p generalizing w with
  | done a => exact hQ a w hw
  | call op k ih =>
    intro w₁ hrely _ r w₂ hc
    refine ⟨trivial, trivial, ih r (hp.2 r) ?_⟩
    intro hstale
    exact hw (hrely.mp (unseen_exec hp.1 hc hstale))

/-- What a part of the round leaves: if something is stale that was not so before (`P`), the
part says so, or it fails. -/
def Tells (P : Prop) (r : Except CoreError Bool) (w : Watched D) : Prop :=
  w.stale → ∀ changed, r = .ok changed → P ∨ changed = true

/-- A call with an error or no value, and then the same. -/
theorem watch_settle {op : Op} {β : Type} {k : op.Res → Code (Except CoreError β)} {w : Watched D}
    {Q : Except CoreError β → Watched D → Prop}
    (hk : ∀ r w', Watching X from_str Q (k r) w') : Watching X from_str Q (.call op k) w :=
  fun _ _ _ r w₂ _ => ⟨trivial, trivial, hk r w₂⟩

theorem tells_ok {P : Prop} {w : Watched D} : Tells P (.ok true) w := by
  intro _ changed hc
  cases hc
  exact Or.inr rfl

theorem tells_error {P : Prop} {e : CoreError} {w : Watched D} : Tells P (.error e) w := by
  intro _ changed hc
  cases hc

theorem tells_before {P : Prop} {r : Except CoreError Bool} {w : Watched D} (h : w.stale → P) :
    Tells P r w := fun hstale _ _ => Or.inl (h hstale)

theorem tells_mark {event_id : String} {P : Prop} {w : Watched D} :
    Watching X from_str (Tells P) (mark_processed event_id) w := by
  apply watch_settle
  intro r w'
  cases r with
  | error e => exact tells_error
  | ok u => exact tells_ok

theorem tells_attempt {m : PendingDecrypt} {P : Prop} {w : Watched D} :
    Watching X from_str (Tells P) (attempt_decrypt m) w := by
  apply watch_settle
  intro r w'
  cases r with
  | error e =>
    apply watch_settle
    intro r w''
    cases r with
    | error e => exact tells_error
    | ok u => exact tells_ok
  | ok plaintext =>
    apply watch_settle
    intro r w''
    cases r with
    | error e => exact tells_error
    | ok u => exact tells_ok

/-- A read, which leaves what was stale. -/
theorem watch_read {op : Op} {β : Type} {k : op.Res → Code (Except CoreError β)} {w : Watched D}
    {P : Prop} {Q : Except CoreError β → Watched D → Prop} (hop : op.shows = false)
    (hw : w.stale → P) (hk : ∀ r w', (w'.stale → P) → Watching X from_str Q (k r) w') :
    Watching X from_str Q (.call op k) w := by
  intro w₁ hrely _ r w₂ hc
  refine ⟨trivial, trivial, hk r w₂ ?_⟩
  intro hstale
  exact hw (hrely.mp (unseen_exec hop hc hstale))

/-- One event of the pass. -/
theorem tells_process_one (self_user : String) (item : PendingMls) {P : Prop} {w : Watched D}
    (hw : w.stale → P) : Watching X from_str (Tells P) (process_one self_user item) w := by
  cases item with
  | Commit c =>
    apply watch_read rfl hw
    intro r w' hw'
    rcases r with e | _ | _
    · exact tells_error
    · exact tells_before hw'
    · simp only
      by_cases hs : c.sender ≠ self_user
      · rw [if_pos hs]
        exact watch_settle (fun _ _ => tells_mark)
      · rw [if_neg hs]
        exact tells_mark
  | Message m =>
    apply watch_read rfl hw
    intro r w' hw'
    rcases r with e | _ | _
    · exact tells_error
    · exact tells_before hw'
    · simp only
      by_cases hs : m.sender = self_user
      · rw [if_pos hs]
        apply watch_read rfl hw'
        intro r w'' hw''
        rcases r with e | _ | _
        · exact tells_error
        · exact tells_attempt
        · exact tells_before hw''
      · rw [if_neg hs]
        exact tells_attempt

/-- One part of the round after another. -/
theorem watch_andThen {β : Type} {p : Code (Except CoreError Bool)} {P : Prop}
    {f : Bool → Code (Except CoreError β)} {Q : Except CoreError β → Watched D → Prop}
    {w : Watched D} (hp : Watching X from_str (Tells P) p w) (herror : ∀ e w', Q (.error e) w')
    (hf : ∀ changed w', (w'.stale → P ∨ changed = true) → Watching X from_str Q (f changed) w') :
    Watching X from_str Q (p.andThen f) w := by
  apply Safe.bind
  apply Safe.mono _ hp
  intro r w' hr
  cases r with
  | error e => exact herror e w'
  | ok changed => exact hf changed w' (fun hstale => hr hstale changed rfl)

theorem tells_process_each (self_user : String) (items : List PendingMls) {P : Prop}
    {changed : Bool} {w : Watched D} (hw : w.stale → P ∨ changed = true) :
    Watching X from_str (Tells P) (process_each self_user items changed) w := by
  induction items generalizing changed w with
  | nil =>
    intro hstale changed' hc
    cases hc
    exact hw hstale
  | cons item rest ih =>
    apply watch_andThen (tells_process_one self_user item hw) (fun e w' => tells_error)
    intro changed' w' hw'
    apply ih
    intro hstale
    rw [Bool.or_eq_true]
    rcases hw' hstale with (hP | hbefore) | hnew
    · exact Or.inl hP
    · exact Or.inr (Or.inl hbefore)
    · exact Or.inr (Or.inr hnew)

/-- The pass over the inbound events. -/
theorem tells_pass {P : Prop} {w : Watched D} (hw : w.stale → P) :
    Watching X from_str (Tells P) process_inbound_mls w := by
  apply watch_read rfl hw
  intro r w₁ hw₁
  cases r with
  | false => exact tells_before hw₁
  | true =>
    apply watch_read rfl hw₁
    intro session w₂ hw₂
    apply watch_read rfl hw₂
    intro r w₃ hw₃
    cases r with
    | error e => exact tells_error
    | ok pending => exact tells_process_each _ _ (fun hstale => Or.inl (hw₃ hstale))

/-- What the flush of one send leaves: it settles the send, it fails, or nothing is stale that
was not so before. -/
def TellsFlushed (P : Prop) (r : Except CoreError Flushed) (w : Watched D) : Prop :=
  w.stale → r = .ok .held ∨ r = .ok .stop → P

theorem tells_settled {P : Prop} {w : Watched D} : TellsFlushed P (.ok .settled) w := by
  intro _ h
  rcases h with h | h <;> cases h

theorem tells_flush_error {P : Prop} {e : CoreError} {w : Watched D} :
    TellsFlushed P (.error e) w := by
  intro _ h
  rcases h with h | h <;> cases h

theorem tells_settle_failed {txn_id : String} {P : Prop} {w : Watched D} :
    Watching X from_str (TellsFlushed P) (settle_failed txn_id) w := by
  apply watch_settle
  intro r w'
  cases r with
  | error e => exact tells_flush_error
  | ok u => exact tells_settled

theorem tells_transmit {send : PendingSend} {event_type : String} {content : Json} {P : Prop}
    {w : Watched D} (hw : w.stale → P) :
    Watching X from_str (TellsFlushed P) (transmit send event_type content) w := by
  apply watch_read rfl hw
  intro r w' hw'
  cases r with
  | ok event_id =>
    apply watch_settle
    intro r w''
    cases r with
    | error e => exact tells_flush_error
    | ok u => exact tells_settled
  | error err =>
    simp only
    cases err.is_transient with
    | true => exact fun hstale _ => hw' hstale
    | false => exact tells_settle_failed

theorem unseen_encrypt_for_send (room_id body : String) :
    (encrypt_for_send room_id body).All (fun op => op.shows = false) := by
  refine ⟨rfl, fun r => ?_⟩
  cases r with
  | false => trivial
  | true =>
    refine ⟨rfl, fun r => ?_⟩
    rcases r with e | _ | _
    · trivial
    · trivial
    · refine ⟨rfl, fun r => ?_⟩
      cases r <;> trivial

/-- One queued send. -/
theorem tells_flush_one (send : PendingSend) {P : Prop} {w : Watched D} (hw : w.stale → P) :
    Watching X from_str (TellsFlushed P) (flush_one send) w := by
  apply Safe.bind
  apply watch_unseen (unseen_encrypt_for_send send.room_id send.body) hw
  intro r w' hw'
  rcases r with e | _ | ciphertext
  · exact tells_settle_failed
  · apply watch_read rfl hw'
    intro r w'' hw''
    rcases r with e | _ | _
    · exact tells_flush_error
    · exact tells_transmit hw''
    · exact fun hstale _ => hw'' hstale
  · exact tells_transmit hw'

theorem tells_flush_sends (sends : List PendingSend) {P : Prop} {changed : Bool} {w : Watched D}
    (hw : w.stale → P ∨ changed = true) :
    Watching X from_str (Tells P) (flush_sends sends changed) w := by
  induction sends generalizing changed w with
  | nil =>
    intro hstale changed' hc
    cases hc
    exact hw hstale
  | cons send rest ih =>
    apply Safe.bind
    apply Safe.mono _ (tells_flush_one send hw)
    intro r w' hr
    rcases r with e | flushed
    · exact tells_error
    · cases flushed with
      | held => exact ih (fun hstale => hr hstale (Or.inl rfl))
      | stop =>
        intro hstale changed' hc
        cases hc
        exact hr hstale (Or.inr rfl)
      | settled => exact ih (fun _ => Or.inr rfl)

/-- The flush of the queue. -/
theorem tells_flush {P : Prop} {w : Watched D} (hw : w.stale → P) :
    Watching X from_str (Tells P) flush_pending w := by
  apply watch_read rfl hw
  intro _ w₁ hw₁
  apply watch_read rfl hw₁
  intro r w₂ hw₂
  cases r with
  | error e =>
    apply watch_settle
    intro _ w₃
    exact tells_error
  | ok sends =>
    apply Safe.bind
    apply Safe.mono _ (tells_flush_sends sends (fun hstale => Or.inl (hw₂ hstale)))
    -- the unlock leaves what the sends left
    intro r w₃ hr w₄ hrely _ u w₅ hc
    refine ⟨trivial, trivial, ?_⟩
    intro hstale changed hchanged
    exact hr (hrely.mp (unseen_exec rfl hc hstale)) changed hchanged

/-! ## A round -/

/-- The batch of a response: it inserts a row, or it changes nothing of what is seen. -/
theorem tells_apply_sync (resp : Json) {P : Prop} {w : Watched D} (hw : w.stale → P) :
    Watching X from_str (Tells P) (apply_sync resp) w := by
  intro w₁ hrely _ r w₂ hc
  refine ⟨trivial, trivial, ?_⟩
  cases r with
  | error e => exact tells_error
  | ok inserted =>
    intro hstale changed hchanged
    cases hchanged
    obtain ⟨⟨⟨choice, hexec⟩, hiff⟩, hquiet⟩ := hc
    have hexec : w₁.client.onStore choice (fun st => st.apply_events (syncEvents resp)) =
        (.ok inserted, w₂.client) := hexec
    rcases (hiff.mp hstale).2 with hold | hnew
    · exact Or.inl (hw (hrely.mp hold))
    · right
      rcases Client.onStore_cases hexec with ⟨e, hr, -⟩ | ⟨n, st, hst, hr, hclient⟩
      · cases hr
      · cases hr
        rw [decide_eq_true_eq]
        by_contra hzero
        obtain rfl : inserted = 0 := by omega
        apply hnew
        rw [hclient]
        exact hquiet st hst

theorem unseen_welcomes {op : Op} (h : op.ofWelcomes = true) : op.shows = false := by
  cases op <;> first | rfl | cases h

/-- A round that went through leaves nothing stale. -/
def Signalled (r : Except CoreError Nat) (w : Watched D) : Prop :=
  ∀ backoff, r = .ok backoff → ¬ w.stale

theorem signalled_error {e : CoreError} {w : Watched D} : Signalled (.error e) w := by
  intro backoff h
  cases h

theorem signalled_notify {changed : Bool} {w : Watched D} (hw : w.stale → changed = true) :
    Watching X from_str Signalled (notify changed) w := by
  apply watch_read rfl hw
  intro _ w₁ hw₁
  cases changed with
  | false =>
    intro backoff _ hstale
    cases hw₁ hstale
  | true =>
    intro w₂ _ _ u w₃ hc
    refine ⟨trivial, trivial, ?_⟩
    intro backoff _ hstale
    cases (hc.1.2.mp hstale).1

theorem unseen_persist (resp : Json) :
    (persist_sync_token resp).All (fun op => op.shows = false) := by
  unfold persist_sync_token
  cases (resp.index "next_batch").as_str with
  | none => trivial
  | some next =>
    refine ⟨rfl, fun r => ?_⟩
    cases r <;> trivial

/-- The success branch, from a state where nothing is stale. -/
theorem signalled_success (resp : Json) {w : Watched D} (hw : ¬ w.stale) :
    Watching X from_str Signalled (sync_success resp) w := by
  have hstart : w.stale → False := hw
  apply watch_andThen (tells_apply_sync resp hstart) (fun _ _ => signalled_error)
  intro applied w₁ hw₁
  have hw₁ : w₁.stale → applied = true := fun hstale => (hw₁ hstale).resolve_left id
  apply Safe.bind
  apply watch_unseen ((apply_to_device_calls resp).mono (fun op => unseen_welcomes)) hw₁
  intro joined w₂ hw₂
  apply Safe.bind
  apply watch_unseen (unseen_persist resp) hw₂
  intro r w₃ hw₃
  cases r with
  | error e => exact signalled_error
  | ok u =>
    apply watch_andThen (tells_pass hw₃) (fun _ _ => signalled_error)
    intro mls_changed w₄ hw₄
    apply watch_andThen (tells_flush hw₄) (fun _ _ => signalled_error)
    intro flushed w₅ hw₅
    apply signalled_notify
    intro hstale
    rcases hw₅ hstale with (happlied | hmls) | hflushed
    · simp [happlied]
    · simp [hmls]
    · simp [hflushed]

/-- One round, from a state where nothing is stale. -/
theorem signalled_round (backoff : Nat) {w : Watched D} (hw : ¬ w.stale) :
    Watching X from_str Signalled (sync_round backoff) w := by
  have hstart : w.stale → False := hw
  apply watch_read rfl hstart
  intro r w₁ hw₁
  cases r with
  | error e => exact signalled_error
  | ok since =>
    apply watch_read rfl hw₁
    intro r w₂ hw₂
    cases r with
    | ok resp => exact signalled_success resp hw₂
    | error err =>
      simp only
      cases err.is_transient with
      | false => exact signalled_error
      | true =>
        apply watch_read rfl hw₂
        intro _ w₃ hw₃
        apply watch_read rfl hw₃
        intro _ w₄ hw₄ backoff' _
        exact hw₄

/-- The calls of a run whose batches are quiet. -/
theorem quiet_runs {p p' : Code α} {w w' : Watched D} {es : List (Prog.Event (Watched D) Op Op.Res)}
    (hr : Prog.Runs (WatchCall X from_str) BesideWatch p w es p' w')
    (hq : ∀ e ∈ es, QuietBatch from_str e.op e.before.client.store) :
    Prog.Runs (QuietCall X from_str) BesideWatch p w es p' w' := by
  induction hr with
  | refl p w => exact Prog.Runs.refl p w
  | call hc ho _ ih =>
    refine Prog.Runs.call ⟨hc, hq _ List.mem_cons_self⟩ ho (ih ?_)
    intro e he
    exact hq e (List.mem_cons_of_mem _ he)

/-- A clean round from a state where nothing is stale ends in one. -/
theorem SyncRound.Clean.settled {c : SyncRound D} {w : Watched D} (hclean : c.Clean from_str)
    (hfrom : c.From X from_str w) (hw : ¬ w.stale) : ¬ c.after.stale := by
  by_cases hcompletes : c.Completes
  · obtain ⟨backoff, hrest⟩ := hcompletes
    obtain ⟨⟨w₁, hbeside, hruns⟩, -⟩ := hfrom
    have hw₁ : ¬ w₁.stale := fun hstale => hw (hbeside.mp hstale)
    have hruns := quiet_runs hruns hclean.batches
    rw [hrest] at hruns
    obtain ⟨-, w₂, hrely, hend⟩ := Safe.runs (c := watchContract) (i := ()) hruns
      (fun _ _ _ ho => ⟨trivial, ho⟩) trivial Iff.rfl (signalled_round c.backoff hw₁)
    intro hstale
    exact hend backoff rfl (hrely.mp hstale)
  · exact hclean.ends hcompletes

end

/-- In every run of the loop, over any restarts and whatever the rest of the app does, if
each batch that inserts no row changes nothing of what is seen, and no round is dropped or
fails between such a change and its signal, then each round that goes through has signalled
whatever the rounds up to it have changed. -/
theorem every_change_is_signalled {D : Type} (X : PigeonCrypto D) (from_str : String → Option Json)
    (w : Watched D) (hw : ¬ w.stale) (cycles : List (SyncRound D))
    (hruns : SyncRuns X from_str w cycles)
    (hclean : ∀ c ∈ cycles, c.Clean from_str) : ∀ c ∈ cycles, c.Completes → ¬ c.after.stale := by
  induction cycles generalizing w with
  | nil =>
    intro c hc
    cases hc
  | cons c cs ih =>
    obtain ⟨hfrom, hrest⟩ := hruns
    have hafter := (hclean c List.mem_cons_self).settled hfrom hw
    intro c' hc' hcompletes
    rcases List.mem_cons.mp hc' with rfl | hc'
    · exact hafter
    · exact ih c.after hafter hrest (fun c'' hc'' => hclean c'' (List.mem_cons_of_mem _ hc''))
        c' hc' hcompletes

/-! ## A change that nobody hears of -/

/-- A call where the surroundings choose as `choose` says. -/
def watchUnder {D : Type} (X : PigeonCrypto D) (from_str : String → Option Json)
    (choose : (op : Op) → op.Choice) (op : Op) (w : Watched D) : op.Res × Watched D :=
  ((Client.under X choose op w.client).1, ⟨(Client.under X choose op w.client).2,
    op.signals = false ∧ (w.stale ∨
      ¬ SameShown from_str w.client.store (Client.under X choose op w.client).2.store)⟩)

theorem watchUnder_call {D : Type} (X : PigeonCrypto D) (from_str : String → Option Json)
    (choose : (op : Op) → op.Choice) (op : Op) (w : Watched D) :
    WatchCall X from_str op w (watchUnder X from_str choose op w).1
      (watchUnder X from_str choose op w).2 := ⟨⟨choose op, rfl⟩, Iff.rfl⟩

/-- What is stale stays so until a signal. -/
theorem stale_lasts {D α : Type} {X : PigeonCrypto D} {from_str : String → Option Json}
    {p p' : Code α} {w w' : Watched D} {es : List (Prog.Event (Watched D) Op Op.Res)}
    (hr : Prog.Runs (WatchCall X from_str) BesideWatch p w es p' w')
    (hes : es.all (fun e => !e.op.signals) = true) (hw : w.stale) : w'.stale := by
  induction hr with
  | refl p w => exact hw
  | call hc ho _ ih =>
    rw [List.all_cons, Bool.and_eq_true, Bool.not_eq_true'] at hes
    exact ih hes.2 (ho.mpr (hc.2.mpr ⟨hes.1, Or.inl hw⟩))

/-- A response with a first message in `!room`. -/
def helloResponse : Json :=
  .obj [("next_batch", .str "s1"), ("rooms", .obj [("join", .obj [("!room", .obj [("timeline",
    .obj [("events", .arr [.obj [("event_id", .str "$hello"), ("room_id", .str "!room"),
      ("sender", .str "@bob:pigeon.example"), ("type", .str "p.room.message"),
      ("origin_server_ts", .num 7), ("depth", .num 1),
      ("content", .obj [("body", .str "hello"), ("msgtype", .str "p.text")])]])])])])])]

/-- The server has news in the first round, and none in the second. -/
def newsIs (resp : Json) : (op : Op) → op.Choice
  | .api_sync _ => .ok resp
  | op => Client.calm op

def quietResponse : Json := .obj [("next_batch", .str "s2")]

def plainText (_ : String) : Option Json := none

def beforeHello : Watched Copies := ⟨memberClient, False⟩

/-- The first round, dropped where it waits for the send lock. -/
def droppedRound : SyncRound Copies where
  backoff := BACKOFF_START
  calls := Prog.traceTo (watchUnder epochCrypto plainText (newsIs helloResponse)) 7
    (sync_round BACKOFF_START) beforeHello
  rest := (Prog.cut (watchUnder epochCrypto plainText (newsIs helloResponse)) 7
    (sync_round BACKOFF_START) beforeHello).1
  after := (Prog.cut (watchUnder epochCrypto plainText (newsIs helloResponse)) 7
    (sync_round BACKOFF_START) beforeHello).2

/-- The second one, which goes through. -/
def silentRound : SyncRound Copies where
  backoff := BACKOFF_START
  calls := Prog.traceTo (watchUnder epochCrypto plainText (newsIs quietResponse)) 20
    (sync_round BACKOFF_START) droppedRound.after
  rest := (Prog.cut (watchUnder epochCrypto plainText (newsIs quietResponse)) 20
    (sync_round BACKOFF_START) droppedRound.after).1
  after := (Prog.cut (watchUnder epochCrypto plainText (newsIs quietResponse)) 20
    (sync_round BACKOFF_START) droppedRound.after).2

theorem rounds_run : SyncRuns epochCrypto plainText beforeHello [droppedRound, silentRound] := by
  refine ⟨⟨⟨beforeHello, Iff.rfl, ?_⟩, Or.inr ⟨.lock_send, _, rfl, rfl⟩⟩,
    ⟨⟨droppedRound.after, Iff.rfl, ?_⟩, Or.inl ⟨.ok BACKOFF_START, rfl⟩⟩, trivial⟩
  · exact Prog.runs_cut (watchUnder_call epochCrypto plainText _) (fun _ => Iff.rfl) 7 _ _
  · exact Prog.runs_cut (watchUnder_call epochCrypto plainText _) (fun _ => Iff.rfl) 20 _ _

/-- The message is in the tables when the round is dropped. -/
theorem dropped_is_stale : droppedRound.after.stale := by
  let f := watchUnder epochCrypto plainText (newsIs helloResponse)
  have happlied : (Prog.cut f 3 (sync_round BACKOFF_START) beforeHello).2.stale := by
    refine ⟨rfl, Or.inr ?_⟩
    intro hsame
    cases hsame.2 "!room" 10 none
  have hbeside : ∀ w : Watched Copies, BesideWatch w w := fun _ => Iff.rfl
  have hlater := Prog.runs_cut (watchUnder_call epochCrypto plainText (newsIs helloResponse))
    hbeside 4 (Prog.cut f 3 (sync_round BACKOFF_START) beforeHello).1
    (Prog.cut f 3 (sync_round BACKOFF_START) beforeHello).2
  exact stale_lasts hlater rfl happlied

/-- The round after it goes through with no signal. -/
theorem a_dropped_change_is_never_signalled :
    ¬ ∀ (w : Watched Copies) (cycles : List (SyncRound Copies)),
    ¬ w.stale → SyncRuns epochCrypto plainText w cycles →
      ∀ c ∈ cycles, c.Completes → ¬ c.after.stale := by
  intro h
  have hsignalled := h beforeHello [droppedRound, silentRound] id rounds_run silentRound
    (by simp) ⟨BACKOFF_START, rfl⟩
  have hbeside : ∀ w : Watched Copies, BesideWatch w w := fun _ => Iff.rfl
  have hlater := Prog.runs_cut (watchUnder_call epochCrypto plainText (newsIs quietResponse))
    hbeside 20 (sync_round BACKOFF_START) droppedRound.after
  exact hsignalled (stale_lasts hlater rfl dropped_is_stale)

/-- The first round, where it goes through. -/
def heardRound : SyncRound Copies where
  backoff := BACKOFF_START
  calls := Prog.traceTo (watchUnder epochCrypto plainText (newsIs helloResponse)) 20
    (sync_round BACKOFF_START) beforeHello
  rest := (Prog.cut (watchUnder epochCrypto plainText (newsIs helloResponse)) 20
    (sync_round BACKOFF_START) beforeHello).1
  after := (Prog.cut (watchUnder epochCrypto plainText (newsIs helloResponse)) 20
    (sync_round BACKOFF_START) beforeHello).2

/-- A batch, if the call is one, inserts a row. -/
def insertsRow : Op → Store → Bool
  | .apply_events events, st => decide (((st.apply_events events).map Prod.fst).toOption ≠ some 0)
  | _, _ => true

theorem quiet_of_inserts {from_str : String → Option Json} {op : Op} {st : Store}
    (h : insertsRow op st = true) : QuietBatch from_str op st := by
  cases op with
  | apply_events events =>
    intro st' hst'
    simp [insertsRow, hst', Except.map, Except.toOption] at h
  | _ => trivial

/-- A round that goes through signals the message. -/
theorem every_change_is_signalled_hello : ¬ heardRound.after.stale := by
  refine every_change_is_signalled epochCrypto plainText beforeHello id [heardRound] ?_ ?_
    heardRound List.mem_cons_self ⟨BACKOFF_START, rfl⟩
  · refine ⟨⟨⟨beforeHello, Iff.rfl, ?_⟩, Or.inl ⟨.ok BACKOFF_START, rfl⟩⟩, trivial⟩
    exact Prog.runs_cut (watchUnder_call epochCrypto plainText _) (fun _ => Iff.rfl) 20 _ _
  · intro c hc
    obtain rfl : c = heardRound := List.mem_singleton.mp hc
    refine ⟨?_, ?_⟩
    · have hinserts : heardRound.calls.all
          (fun e => insertsRow e.op e.before.client.store) = true := rfl
      intro e he
      exact quiet_of_inserts (List.all_eq_true.mp hinserts e he)
    · intro hnot
      exact absurd ⟨BACKOFF_START, rfl⟩ hnot

end PigeonMobile
