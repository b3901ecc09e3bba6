-- A stored sync token acknowledges the Welcomes of its response, and the server forgets
-- them. The loop joins before it stores the token, but it goes on when a join cannot be
-- written to the key store. Below is what every run of the loop keeps, crashes and
-- relaunches included, as long as no such write is owed when a token is stored.
import PigeonMobile.Sync
import PigeonMobile.EngineSteps

namespace PigeonMobile

variable {D : Type} {X : PigeonCrypto D}

/-! ## What the engine promises -/

/-- The law of a join: it installs the group that the Welcome names inside, or overwrites
it, and touches no other. `copy d room` is what `d` holds of a group. -/
structure Welcomes (X : PigeonCrypto D) where
  Copy : Type
  copy : D → String → Option Copy
  group : String → String
  load_group : ∀ d room, X.load_group d room = (copy d room).isSome
  join : ∀ d welcome d', X.join_from_welcome d welcome = .ok d' →
    (copy d' (group welcome)).isSome ∧ ∀ r, r ≠ group welcome → copy d' r = copy d r

/-- A stored device comes back as it was for its user, and only a join changes which groups are
held. -/
structure KeptGroups (X : PigeonCrypto D) extends Welcomes X where
  restore_export : X.Restores
  commit_keeps : ∀ d room commit d', X.process_commit d room commit = .ok d' →
    ∀ r, X.load_group d' r = X.load_group d r
  encrypt_keeps : ∀ d room plaintext d' ciphertext,
    X.encrypt d room plaintext = .ok (d', ciphertext) → ∀ r, X.load_group d' r = X.load_group d r
  decrypt_keeps : ∀ d room ciphertext d' plaintext,
    X.decrypt d room ciphertext = .ok (d', plaintext) → ∀ r, X.load_group d' r = X.load_group d r

/-- The engine takes the Welcome. -/
def Accepts (X : PigeonCrypto D) (d : D) (welcome : String) : Prop :=
  ∃ d', X.join_from_welcome d welcome = .ok d'

theorem Welcomes.joined (W : Welcomes X) {d d' : D} {welcome : String}
    (h : X.join_from_welcome d welcome = .ok d') : X.load_group d' (W.group welcome) = true := by
  rw [W.load_group]
  exact (W.join d welcome d' h).1

theorem Welcomes.grows (W : Welcomes X) {d d' : D} {welcome : String}
    (h : X.join_from_welcome d welcome = .ok d') (r : String) (hr : X.load_group d r = true) :
    X.load_group d' r = true := by
  by_cases hg : r = W.group welcome
  · rw [hg]
    exact W.joined h
  · rw [W.load_group, (W.join d welcome d' h).2 r hg, ← W.load_group]
    exact hr

/-! ## The engine in memory and the one in the key store -/

/-- The MLS state in the key store has the group: what a relaunch restores holds it. -/
def Persisted (X : PigeonCrypto D) (c : Client D) (room : String) : Prop :=
  ∃ d, E2ee.restore X c.session.user_id c.key_store .none = .ok (some d) ∧
    X.load_group d room = true

/-- A call of the client, as it was answered. -/
abbrev Called (D : Type) := Prog.Event (Client D) Op Op.Res

/-- The engine of the client takes the Welcome. -/
def Client.accepts (X : PigeonCrypto D) (c : Client D) (welcome : String) : Bool :=
  match c.e2ee with
  | some d => (X.join_from_welcome d welcome).toBool
  | none => false

/-- A Welcome that the engine took and whose join failed, so that the new state is not written,
is owed, until a later write of the engine succeeds. -/
def Called.owes (X : PigeonCrypto D) : Called D → Bool → Bool
  | ⟨c, .join_from_welcome welcome, .error _⟩, owed => c.accepts X welcome || owed
  | ⟨_, .join_from_welcome _, .ok _⟩, _ => false
  | ⟨_, .process_commit _ _, .ok _⟩, _ => false
  | ⟨_, .encrypt _ _, .ok _⟩, _ => false
  | ⟨_, .decrypt _ _, .ok _⟩, _ => false
  | _, owed => owed

/-- `d` is the engine in memory, `kept` the one in the key store. The groups of `kept` are
groups of `d`, and all of them where no join is owed. Both are of the user. -/
structure Backed (X : PigeonCrypto D) (c : Client D) (owed : Bool) (d kept : D) : Prop where
  engine : c.e2ee = some d
  one : OneUser X c
  own : X.OfUser c.session.user_id kept
  stored : ks_get c.key_store MLS_STATE_KEY .none = .ok (some (E2ee.stateBlob X kept))
  below : ∀ r, X.load_group kept r = true → X.load_group d r = true
  level : owed = false → ∀ r, X.load_group d r = true → X.load_group kept r = true

theorem Backed.restored (K : KeptGroups X) {c : Client D} {owed : Bool} {d kept : D}
    (h : Backed X c owed d kept) :
    E2ee.restore X c.session.user_id c.key_store .none = .ok (some kept) :=
  restore_stateBlob (K.restore_export _ kept h.own) h.stored

theorem Backed.persisted (K : KeptGroups X) {c : Client D} {owed : Bool} {d kept : D}
    (h : Backed X c owed d kept) {room : String} (hr : X.load_group kept room = true) :
    Persisted X c room := ⟨kept, h.restored K, hr⟩

/-- An engine call is refused, or it moves the engine, and then the write of the new
state succeeds or fails. -/
theorem mutate_cases {β : Type} {d d' : D} {m : KeyMap} {ks' : Option KeyMap} {fault : Fault}
    {r : Except String (D × β)} {a : Except CoreError β}
    (h : E2ee.mutate X d (some m) fault r = (a, d', ks')) :
    (∃ reason, r = .error reason ∧ a = .error (.Crypto reason) ∧ d' = d ∧ ks' = some m) ∨
      ∃ b, r = .ok (d', b) ∧
        ((a = .ok b ∧ ks' = some (m.put MLS_STATE_KEY (E2ee.stateBlob X d'))) ∨
          ∃ e, a = .error e ∧ ks' = some m) := by
  unfold E2ee.mutate at h
  cases r with
  | error reason =>
    cases h
    exact Or.inl ⟨reason, rfl, rfl, rfl, rfl⟩
  | ok moved =>
    obtain ⟨d₁, b⟩ := moved
    cases fault with
    | key_store | export_storage =>
      cases h
      exact Or.inr ⟨b, rfl, Or.inr ⟨_, rfl, rfl⟩⟩
    | none | db | load_group =>
      cases h
      exact Or.inr ⟨b, rfl, Or.inl ⟨rfl, rfl⟩⟩

/-- The same of a call on one group. -/
theorem onGroup_cases {β : Type} {d d' : D} {m : KeyMap} {ks' : Option KeyMap} {fault : Fault}
    {room : String} {r : Except String (D × β)} {a : Except CoreError β}
    (h : E2ee.onGroup X d (some m) fault room r = (a, d', ks')) :
    (∃ reason, a = .error (.Crypto reason) ∧ d' = d ∧ ks' = some m) ∨
      ∃ b, r = .ok (d', b) ∧
        ((a = .ok b ∧ ks' = some (m.put MLS_STATE_KEY (E2ee.stateBlob X d'))) ∨
          ∃ e, a = .error e ∧ ks' = some m) := by
  unfold E2ee.onGroup at h
  by_cases hg : X.load_group d room = true
  · cases fault with
    | load_group reason =>
      cases h
      exact Or.inl ⟨reason, rfl, rfl, rfl⟩
    | none | db | key_store | export_storage =>
      simp only [hg, if_true] at h
      rcases mutate_cases h with ⟨reason, -, hrefused⟩ | hmoved
      · exact Or.inl ⟨reason, hrefused⟩
      · exact Or.inr hmoved
  · cases fault with
    | load_group reason =>
      cases h
      exact Or.inl ⟨reason, rfl, rfl, rfl⟩
    | none | db | key_store | export_storage =>
      simp only [hg] at h
      cases h
      exact Or.inl ⟨_, rfl, rfl, rfl⟩

/-! ## One call of the loop -/

/-- No group is lost, neither in memory nor in the key store. -/
structure Grown (X : PigeonCrypto D) (d kept d' kept' : D) : Prop where
  memory : ∀ r, X.load_group d r = true → X.load_group d' r = true
  store : ∀ r, X.load_group kept r = true → X.load_group kept' r = true

theorem Grown.refl (d kept : D) : Grown X d kept d kept := ⟨fun _ h => h, fun _ h => h⟩

theorem Grown.trans {d₁ k₁ d₂ k₂ d₃ k₃ : D} (h : Grown X d₁ k₁ d₂ k₂) (h' : Grown X d₂ k₂ d₃ k₃) :
    Grown X d₁ k₁ d₃ k₃ :=
  ⟨fun r hr => h'.memory r (h.memory r hr), fun r hr => h'.store r (h.store r hr)⟩

/-- The new state is in the key store too. -/
theorem Backed.written {c c' : Client D} {owed : Bool} {d kept d' : D} {m : KeyMap}
    (h : Backed X c owed d kept) (hone : OneUser X c') (he : c'.e2ee = some d')
    (hks : c'.key_store = some (m.put MLS_STATE_KEY (E2ee.stateBlob X d')))
    (hgrow : ∀ r, X.load_group d r = true → X.load_group d' r = true) (owed' : Bool) :
    Backed X c' owed' d' d' ∧ Grown X d kept d' d' := by
  refine ⟨⟨he, hone, hone.engine d' he, ?_, fun _ hr => hr, fun _ _ hr => hr⟩, hgrow,
    fun r hr => hgrow r (h.below r hr)⟩
  rw [hks]
  simp only [ks_get, KeyMap.find_put, if_true, Option.map_some]

/-- The new state is in memory only. -/
theorem Backed.unwritten {c c' : Client D} {owed owed' : Bool} {d kept d' : D}
    (h : Backed X c owed d kept) (hone : OneUser X c') (hsession : c'.session = c.session)
    (he : c'.e2ee = some d') (hks : c'.key_store = c.key_store)
    (hgrow : ∀ r, X.load_group d r = true → X.load_group d' r = true)
    (howed : owed' = false → owed = false ∧ ∀ r, X.load_group d' r = X.load_group d r) :
    Backed X c' owed' d' kept ∧ Grown X d kept d' kept := by
  refine ⟨⟨he, hone, hsession ▸ h.own, hks ▸ h.stored, fun r hr => hgrow r (h.below r hr), ?_⟩,
    hgrow, fun _ hr => hr⟩
  intro ho r hr
  obtain ⟨hfalse, hsame⟩ := howed ho
  exact h.level hfalse r (hsame r ▸ hr)

/-- The calls that the loop makes on the engine and the key store. -/
def Op.inLoop : Op → Bool
  | .create_group _ => false
  | .add_member _ _ => false
  | .key_packages _ => false
  | .last_resort_key_package => false
  | .ks_delete _ => false
  | _ => true

/-- A call that is answered without the engine. -/
theorem Backed.still {c c' : Client D} {owed : Bool} {d kept : D} (h : Backed X c owed d kept)
    (hone : OneUser X c') (hsession : c'.session = c.session) (he : c'.e2ee = c.e2ee)
    (hks : c'.key_store = c.key_store) : Backed X c' owed d kept ∧ Grown X d kept d kept :=
  ⟨⟨he ▸ h.engine, hone, hsession ▸ h.own, hks ▸ h.stored, h.below, h.level⟩, Grown.refl d kept⟩

theorem onStore_engine {β : Type} (fault : Fault) (c : Client D)
    (f : Store → Except StoreError (β × Store)) :
    (c.onStore fault f).2.e2ee = c.e2ee ∧ (c.onStore fault f).2.key_store = c.key_store := by
  rcases Client.onStore_cases (Prod.mk.eta (p := c.onStore fault f)).symm with
    ⟨_, _, h⟩ | ⟨_, _, _, _, h⟩
  · rw [h]
    exact ⟨rfl, rfl⟩
  · rw [h]
    exact ⟨rfl, rfl⟩

/-- The calls that move the engine. -/
def Op.moves : Op → Bool
  | .join_from_welcome _ => true
  | .process_commit _ _ => true
  | .encrypt _ _ => true
  | .decrypt _ _ => true
  | op => !op.inLoop

theorem perform_engine {op : Op} (h : op.moves = false) (choice : op.Choice) (c : Client D) :
    (Client.perform X op choice c).2.e2ee = c.e2ee ∧
      (Client.perform X op choice c).2.key_store = c.key_store := by
  cases op with
  | create_group | add_member | key_packages | last_resort_key_package | ks_delete
  | join_from_welcome | process_commit | encrypt | decrypt => cases h
  | load_sync_token | save_sync_token | apply_events | queue_send | pending_sends
  | has_pending_send | resolve_send | fail_send | is_room_encrypted | pending_mls | set_decrypted
  | set_decrypt_failed | set_commit_processed => exact onStore_engine _ c _
  | session | e2ee | lock_send | unlock_send | next_txn_id | signature_public_key_b64 | api_logout
  | api_sync | api_messages | api_invite | api_query_keys | api_claim_keys | api_upload_keys
  | api_send_to_device | api_send_event | api_upload_media | on_status | on_change | sleep =>
    exact ⟨rfl, rfl⟩
  | has_group | encrypt_media =>
    obtain ⟨api, session, store, e2ee, ks⟩ := c
    cases e2ee with
    | none => exact ⟨rfl, rfl⟩
    | some d => exact ⟨rfl, rfl⟩

/-- What an engine call leaves: nothing has changed, or the engine has grown, and its state
is written or not. -/
theorem Backed.moved {β : Type} {c c' : Client D} {owed owed' : Bool} {d kept : D}
    (h : Backed X c owed d kept) (hone : OneUser X c')
    {f : D → Option KeyMap → Except CoreError β × D × Option KeyMap}
    {a : Except CoreError β} (hc : c.onEngine f = (a, c'))
    (hends : ∀ m d' ks', f d (some m) = (a, d', ks') →
      (owed' = owed ∧ d' = d ∧ ks' = some m) ∨
        (∀ r, X.load_group d r = true → X.load_group d' r = true) ∧
          (ks' = some (m.put MLS_STATE_KEY (E2ee.stateBlob X d')) ∨
            ks' = some m ∧ (owed' = false → owed = false ∧
              ∀ r, X.load_group d' r = X.load_group d r))) :
    ∃ d' kept', Backed X c' owed' d' kept' ∧ Grown X d kept d' kept' := by
  obtain ⟨api, session, store, e2ee, ks⟩ := c
  obtain rfl : e2ee = some d := h.engine
  cases ks with
  | none => cases h.stored
  | some m =>
    unfold Client.onEngine at hc
    simp only at hc
    generalize hf : f d (some m) = out at hc
    obtain ⟨a', d', ks'⟩ := out
    cases hc
    rcases hends m d' ks' hf with ⟨rfl, rfl, rfl⟩ | ⟨hgrow, rfl | ⟨rfl, howed⟩⟩
    · exact ⟨_, _, h, Grown.refl _ _⟩
    · exact ⟨_, _, h.written hone rfl rfl hgrow owed'⟩
    · exact ⟨_, _, h.unwritten hone rfl rfl rfl hgrow howed⟩

theorem map_ok {α β : Type} {e : Except String α} {f : α → β} {b : β} (h : e.map f = .ok b) :
    ∃ a, e = .ok a ∧ f a = b := by
  cases e with
  | error reason => cases h
  | ok a => exact ⟨a, rfl, by cases h; rfl⟩

theorem accepts_eq {c : Client D} {d : D} (he : c.e2ee = some d) (welcome : String) :
    c.accepts X welcome = (X.join_from_welcome d welcome).toBool := by
  unfold Client.accepts
  rw [he]

/-- One call of the loop loses no group, and owes what its answer says. -/
theorem Backed.step (K : KeptGroups X) {c c' : Client D} {owed : Bool} {d kept : D} {op : Op}
    {r : op.Res} (h : Backed X c owed d kept) (hop : op.inLoop = true)
    (hx : Client.Exec X op c r c') :
    ∃ d' kept', Backed X c' (Called.owes X ⟨c, op, r⟩ owed) d' kept' ∧
      Grown X d kept d' kept' := by
  have hone := h.one.exec hx
  obtain ⟨choice, hx⟩ := hx
  by_cases hmoves : op.moves = false
  · have hc := perform_engine (X := X) hmoves choice c
    have hsession := (perform_session (X := X) op choice c).2
    rw [hx] at hc hsession
    have howes : Called.owes X ⟨c, op, r⟩ owed = owed := by
      cases op <;> first | rfl | cases hmoves
    rw [howes]
    exact ⟨d, kept, h.still hone hsession hc.1 hc.2⟩
  · cases op with
    | join_from_welcome welcome =>
      have hcall : c.onEngine (fun d ks => E2ee.join_from_welcome X d ks choice welcome) =
          (r, c') := hx
      apply h.moved hone hcall
      intro m d' ks' hf
      rcases mutate_cases hf with ⟨reason, hrefused, rfl, rfl, rfl⟩ | ⟨b, hok, hend⟩
      · have hno : (X.join_from_welcome d' welcome).toBool = false := by
          cases hjoin : X.join_from_welcome d' welcome with
          | error reason => rfl
          | ok d₁ =>
            rw [hjoin] at hrefused
            cases hrefused
        refine Or.inl ⟨?_, rfl, rfl⟩
        simp only [Called.owes, accepts_eq h.engine, hno, Bool.false_or]
      · obtain ⟨d₁, hjoin, hd⟩ := map_ok hok
        cases hd
        refine Or.inr ⟨K.grows hjoin, ?_⟩
        rcases hend with ⟨rfl, rfl⟩ | ⟨e, rfl, rfl⟩
        · exact Or.inl rfl
        · refine Or.inr ⟨rfl, ?_⟩
          intro ho
          -- the engine took the Welcome, so the join is owed
          simp only [Called.owes, accepts_eq h.engine, hjoin] at ho
          cases ho
    | process_commit room commit =>
      have hcall : c.onEngine (fun d ks => E2ee.process_commit X d ks choice room commit) =
          (r, c') := hx
      apply h.moved hone hcall
      intro m d' ks' hf
      rcases onGroup_cases hf with ⟨reason, rfl, rfl, rfl⟩ | ⟨b, hok, hend⟩
      · exact Or.inl ⟨rfl, rfl, rfl⟩
      · obtain ⟨d₁, hcommit, hd⟩ := map_ok hok
        cases hd
        have hsame := K.commit_keeps _ _ _ _ hcommit
        refine Or.inr ⟨fun g hg => (hsame g).trans hg, ?_⟩
        rcases hend with ⟨rfl, rfl⟩ | ⟨e, rfl, rfl⟩
        · exact Or.inl rfl
        · exact Or.inr ⟨rfl, fun ho => ⟨ho, hsame⟩⟩
    | encrypt room plaintext =>
      have hcall : c.onEngine (fun d ks => E2ee.encrypt X d ks choice room plaintext) = (r, c') :=
        hx
      apply h.moved hone hcall
      intro m d' ks' hf
      rcases onGroup_cases hf with ⟨reason, rfl, rfl, rfl⟩ | ⟨b, hok, hend⟩
      · exact Or.inl ⟨rfl, rfl, rfl⟩
      · have hsame := K.encrypt_keeps _ _ _ _ _ hok
        refine Or.inr ⟨fun g hg => (hsame g).trans hg, ?_⟩
        rcases hend with ⟨rfl, rfl⟩ | ⟨e, rfl, rfl⟩
        · exact Or.inl rfl
        · exact Or.inr ⟨rfl, fun ho => ⟨ho, hsame⟩⟩
    | decrypt room ciphertext =>
      have hcall : c.onEngine (fun d ks => E2ee.decrypt X d ks choice room ciphertext) = (r, c') :=
        hx
      apply h.moved hone hcall
      intro m d' ks' hf
      unfold E2ee.decrypt at hf
      generalize hout : E2ee.onGroup X d (some m) choice room (X.decrypt d room ciphertext) = out
        at hf
      obtain ⟨a, d₁, ks₁⟩ := out
      rcases onGroup_cases hout with ⟨reason, rfl, rfl, rfl⟩ | ⟨b, hok, hend⟩
      · cases hf
        exact Or.inl ⟨rfl, rfl, rfl⟩
      · have hsame := K.decrypt_keeps _ _ _ _ _ hok
        have hgrow : ∀ g, X.load_group d g = true → X.load_group d₁ g = true :=
          fun g hg => (hsame g).trans hg
        rcases hend with ⟨rfl, rfl⟩ | ⟨e, rfl, rfl⟩
        · cases b with
          | none =>
            cases hf
            exact Or.inr ⟨hgrow, Or.inl rfl⟩
          | some plaintext =>
            cases hf
            exact Or.inr ⟨hgrow, Or.inl rfl⟩
        · cases hf
          exact Or.inr ⟨hgrow, Or.inr ⟨rfl, fun ho => ⟨ho, hsame⟩⟩⟩
    | create_group | add_member | key_packages | last_resort_key_package | ks_delete => cases hop
    | _ => exact absurd rfl hmoves

/-! ## One cycle of the loop -/

/-- What is owed after the calls. -/
def owedAfter (X : PigeonCrypto D) (owed : Bool) (calls : List (Called D)) : Bool :=
  calls.foldl (fun o e => e.owes X o) owed

/-- A run of the client with nobody else at work: each call gets its own choice. -/
def Alone (X : PigeonCrypto D) {α : Type} (p : Code α) (c : Client D) (calls : List (Called D))
    (p' : Code α) (c' : Client D) : Prop := Prog.Runs (Client.Exec X) Eq p c calls p' c'

/-- What the program computes under one choice for each call is such a run. -/
theorem alone_under (X : PigeonCrypto D) (choose : (op : Op) → op.Choice) {α : Type} (p : Code α)
    (c : Client D) : Alone X p c (p.trace (Client.under X choose) c)
      (.done (p.run (Client.under X choose) c).1) (p.run (Client.under X choose) c).2 :=
  Prog.runs_trace (fun op _ => ⟨choose op, rfl⟩) p c

theorem alone_local (X : PigeonCrypto D) {α : Type} (p : Code α) (c : Client D) :
    Alone X p c (p.trace (Client.local_ X) c) (.done (p.run (Client.local_ X) c).1)
      (p.run (Client.local_ X) c).2 :=
  Prog.runs_trace (fun op _ => ⟨Client.calm op, rfl⟩) p c

theorem Backed.run (K : KeptGroups X) {α : Type} {p p' : Code α} {c c' : Client D}
    {calls : List (Called D)} (hr : Alone X p c calls p' c')
    (hp : p.All (fun op => op.inLoop = true)) {owed : Bool} {d kept : D}
    (h : Backed X c owed d kept) :
    ∃ d' kept', Backed X c' (owedAfter X owed calls) d' kept' ∧ Grown X d kept d' kept' := by
  unfold Alone at hr
  induction hr generalizing owed d kept with
  | refl p c => exact ⟨d, kept, h, Grown.refl d kept⟩
  | call hx heq _ ih =>
    subst heq
    obtain ⟨d₁, kept₁, h₁, hgrown₁⟩ := h.step K hp.1 hx
    obtain ⟨d₂, kept₂, h₂, hgrown₂⟩ := ih (hp.2 _) h₁
    exact ⟨d₂, kept₂, h₂, hgrown₁.trans hgrown₂⟩

/-- The round after the Welcomes. -/
def after_welcomes (resp : Json) (applied joined : Bool) : Code (Except CoreError Nat) :=
  (persist_sync_token resp).andThen fun _ =>
  process_inbound_mls.andThen fun mls_changed =>
  flush_pending.andThen fun flushed =>
  notify (applied || joined || mls_changed || flushed)

/-- The round at the Welcomes that are still to be looked at. -/
def at_welcomes (resp : Json) (applied joined : Bool) (todo : List WelcomeEvent) :
    Code (Except CoreError Nat) :=
  (apply_welcomes todo joined).bind (after_welcomes resp applied)

theorem sync_success_welcomes (resp : Json) : sync_success resp =
    (apply_sync resp).andThen fun applied => (apply_to_device resp).bind
    (after_welcomes resp applied) :=
  rfl

theorem sync_round_inLoop (backoff : Nat) :
    (sync_round backoff).All (fun op => op.inLoop = true) := by
  refine ⟨rfl, fun r => ?_⟩
  cases r with
  | error e => trivial
  | ok since =>
    refine ⟨rfl, fun r => ?_⟩
    cases r with
    | ok resp =>
      apply (sync_success_calls resp).mono
      intro op hop
      cases op <;> first | rfl | cases hop
    | error err =>
      simp only
      cases err.is_transient with
      | true => exact ⟨rfl, fun _ => ⟨rfl, fun _ => trivial⟩⟩
      | false => trivial

/-- One cycle: what the loop did from `start` to where it stands or was left. -/
structure Cycle (D : Type) where
  backoff : Nat
  start : Client D
  calls : List (Called D)
  left : Code (Except CoreError Nat)
  stop : Client D

namespace Cycle

/-- It is a run of the loop. -/
def Ran (X : PigeonCrypto D) (y : Cycle D) : Prop :=
  Alone X (sync_round y.backoff) y.start y.calls y.left y.stop

/-- The cycle got the response, and stored its token. -/
def Acks (y : Cycle D) (resp : Json) : Prop :=
  (∃ c since, (⟨c, .api_sync since, .ok resp⟩ : Called D) ∈ y.calls) ∧
    ∃ c next, (resp.index "next_batch").as_str = some next ∧
      (⟨c, .save_sync_token next, .ok ()⟩ : Called D) ∈ y.calls

/-- The cycle came to the Welcome `w` of the response, with `after` still to come, when the
client was at `c`. The calls `later` followed. -/
def Turn (X : PigeonCrypto D) (y : Cycle D) (resp : Json) (w : WelcomeEvent)
    (after : List WelcomeEvent) (c : Client D) (later : List (Called D)) : Prop :=
  ∃ earlier applied joined, y.calls = earlier ++ later ∧
    Alone X (sync_round y.backoff) y.start earlier (at_welcomes resp applied joined (w :: after)) c

end Cycle

/-- The call that stores the token. -/
def Op.isSave : Op → Bool
  | .save_sync_token _ => true
  | _ => false

/-- The call that asks for a response. -/
def Op.isSync : Op → Bool
  | .api_sync _ => true
  | _ => false

/-- A cycle that got a response has begun with it. -/
theorem Cycle.Ran.begun {y : Cycle D} (hr : y.Ran X) {c₀ : Client D} {since : Option String}
    {resp : Json} (hsync : (⟨c₀, .api_sync since, .ok resp⟩ : Called D) ∈ y.calls) :
    ∃ e₁ e₂ rest c, y.calls = e₁ :: e₂ :: rest ∧ e₁.op.isSave = false ∧ e₂.op.isSave = false ∧
      Alone X (sync_round y.backoff) y.start [e₁, e₂] (sync_success resp) c ∧
      Alone X (sync_success resp) c rest y.left y.stop := by
  obtain ⟨backoff, start, calls, left, stop⟩ := y
  simp only at hsync
  have hround : Prog.Runs (Client.Exec X) Eq (sync_round backoff) start calls left stop := hr
  unfold sync_round at hround
  rcases hround.call_inv with ⟨rfl, -, -⟩ | ⟨r₁, c₁, c₁', calls₁, hload, rfl, rfl, hround₁⟩
  · exact absurd hsync List.not_mem_nil
  have hsync₁ : (⟨c₀, .api_sync since, .ok resp⟩ : Called D) ∈ calls₁ := by
    rcases List.mem_cons.mp hsync with heq | hsync
    · cases heq
    · exact hsync
  cases r₁ with
  | error e =>
    rw [hround₁.done_inv.1] at hsync₁
    exact absurd hsync₁ List.not_mem_nil
  | ok since₁ =>
    rcases hround₁.call_inv with ⟨rfl, -, -⟩ | ⟨r₂, c₂, c₂', calls₂, hanswer, rfl, rfl, hround₂⟩
    · exact absurd hsync₁ List.not_mem_nil
    rcases List.mem_cons.mp hsync₁ with heq | hsync₂
    · cases heq
      exact ⟨_, _, calls₂, _, rfl, rfl, rfl,
        Prog.Runs.call hload rfl (Prog.Runs.call hanswer rfl (Prog.Runs.refl _ _)), hround₂⟩
    · -- no other call of the round asks for a response
      have hnone : ∀ p : Code (Except CoreError Nat),
          Prog.Runs (Client.Exec X) Eq p c₂ calls₂ left stop →
          p.All (fun op => op.isSync = false) → False := by
        intro p hp hall
        have hop := (hp.all hall).1 _ hsync₂
        cases hop
      cases r₂ with
      | ok resp₂ =>
        refine (hnone _ hround₂ ((sync_success_calls resp₂).mono ?_)).elim
        intro op hop
        cases op <;> first | rfl | cases hop
      | error err =>
        refine (hnone _ hround₂ ?_).elim
        simp only
        cases err.is_transient with
        | true => exact ⟨rfl, fun _ => ⟨rfl, fun _ => trivial⟩⟩
        | false => trivial

/-- With an engine, the to-device block is its Welcomes. -/
theorem to_device_welcomes {resp : Json} {c c' : Client D} {calls : List (Called D)} {joined : Bool}
    (hr : Alone X (apply_to_device resp) c calls (.done joined) c')
    (hengine : ∀ e ∈ calls, e.before.e2ee.isSome = true) :
    ∃ first welcomes c₁, calls = first ++ welcomes ∧
      Alone X (apply_to_device resp) c first (apply_welcomes (syncWelcomes resp) false) c₁ ∧
      Alone X (apply_welcomes (syncWelcomes resp) false) c₁ welcomes (.done joined) c' := by
  unfold apply_to_device at hr ⊢
  unfold syncWelcomes
  cases hevents : ((resp.index "to_device").index "events").as_array with
  | none =>
    simp only [hevents] at hr ⊢
    exact ⟨[], calls, c, rfl, Prog.Runs.refl _ _, hr⟩
  | some events =>
    simp only [hevents] at hr ⊢
    rcases Prog.Runs.call_inv hr with ⟨_, h, _⟩ | ⟨r, c₁, c₁', calls₁, hx, rfl, rfl, hr₁⟩
    · cases h
    · have hr₂ := (Client.exec_e2ee hx).1
      rw [hengine _ List.mem_cons_self] at hr₂
      subst hr₂
      exact ⟨[_], calls₁, c₁, rfl, Prog.Runs.call hx rfl (Prog.Runs.refl _ _), hr₁⟩

/-- A cycle that stores the token of a response has been through its Welcomes. -/
theorem Cycle.Acks.through {y : Cycle D} {resp : Json} (ha : y.Acks resp) (hr : y.Ran X)
    (hengine : ∀ e ∈ y.calls, e.before.e2ee.isSome = true) :
    ∃ applied joined first welcomes last c₁ c₂ next, y.calls = first ++ (welcomes ++
        (⟨c₂, .save_sync_token next, .ok ()⟩ : Called D) :: last) ∧
      Alone X (sync_round y.backoff) y.start first
        (at_welcomes resp applied false (syncWelcomes resp)) c₁ ∧
      Alone X (apply_welcomes (syncWelcomes resp) false) c₁ welcomes (.done joined) c₂ ∧
      Alone X (after_welcomes resp applied joined) c₂
        ((⟨c₂, .save_sync_token next, .ok ()⟩ : Called D) :: last) y.left y.stop := by
  obtain ⟨⟨c₀, since, hsync⟩, c', next, hnext, hsave⟩ := ha
  obtain ⟨e₁, e₂, rest, c, hcalls, hne₁, hne₂, hbegun, hrest⟩ := hr.begun hsync
  have hsave₁ : (⟨c', .save_sync_token next, .ok ()⟩ : Called D) ∈ rest := by
    rw [hcalls] at hsave
    rcases List.mem_cons.mp hsave with rfl | hsave
    · cases hne₁
    · rcases List.mem_cons.mp hsave with rfl | hsave
      · cases hne₂
      · exact hsave
  have hengine₁ : ∀ e ∈ rest, e.before.e2ee.isSome = true := by
    intro e he
    apply hengine
    rw [hcalls]
    exact List.mem_cons_of_mem _ (List.mem_cons_of_mem _ he)
  rw [sync_success_welcomes] at hrest hbegun
  have happly : (apply_sync resp).All (fun op => ¬ op.isSave = true) := by
    apply (apply_sync_calls resp).mono
    rintro op rfl h
    cases h
  obtain ⟨applied, es₁, es₂, c₁, rfl, happlied, hwelcomes, hsave₂⟩ :=
    hrest.through_andThen happly hsave₁ rfl
  have hto : (apply_to_device resp).All (fun op => ¬ op.isSave = true) := by
    apply (apply_to_device_calls resp).mono
    intro op hop h
    cases op <;> simp [Op.isSave, Op.ofWelcomes] at h hop
  obtain ⟨joined, es₃, es₄, c₂, rfl, hjoined, hafter, hsave₃⟩ := hwelcomes.through hto hsave₂ rfl
  obtain ⟨first, welcomes, c₃, rfl, hfirst, hjoins⟩ := to_device_welcomes hjoined (fun e he =>
    hengine₁ e (List.mem_append_right _ (List.mem_append_left _ he)))
  -- what follows the Welcomes begins with the call that stores the token
  have hsaved : ∃ last, es₄ = (⟨c₂, .save_sync_token next, .ok ()⟩ : Called D) :: last := by
    have hcall := hafter
    unfold after_welcomes persist_sync_token at hcall
    simp only [hnext] at hcall
    rcases hcall.call_inv with ⟨rfl, -, -⟩ | ⟨r, c₄, c₄', last, -, -, rfl, hlast⟩
    · exact absurd hsave₃ List.not_mem_nil
    · cases r with
      | ok u => exact ⟨last, rfl⟩
      | error e =>
        rw [hlast.done_inv.1, List.mem_singleton] at hsave₃
        cases hsave₃
  obtain ⟨last, rfl⟩ := hsaved
  refine ⟨applied, joined, [e₁, e₂] ++ (es₁ ++ first), welcomes, last, c₃, c₂, next, ?_, ?_,
    hjoins, hafter⟩
  · rw [hcalls]
    simp
  · exact hbegun.trans ((happlied.bind _).trans (hfirst.bind _))

/-! ## A Welcome from its turn to the token -/

/-- Every call of a run is made with an engine in memory. -/
theorem Backed.has_engine (K : KeptGroups X) {α : Type} {p p' : Code α} {c c' : Client D}
    {calls : List (Called D)} (hr : Alone X p c calls p' c')
    (hp : p.All (fun op => op.inLoop = true)) {owed : Bool} {d kept : D}
    (h : Backed X c owed d kept) : ∀ e ∈ calls, e.before.e2ee.isSome = true := by
  unfold Alone at hr
  induction hr generalizing owed d kept with
  | refl p c => exact fun e he => absurd he List.not_mem_nil
  | call hx heq _ ih =>
    subst heq
    obtain ⟨d₁, kept₁, h₁, -⟩ := h.step K hp.1 hx
    intro e he
    rcases List.mem_cons.mp he with rfl | he
    · simp [h.engine]
    · exact ih (hp.2 _) h₁ e he

/-- A join that the engine accepts is in memory, whatever becomes of its write. -/
theorem join_in_memory (W : Welcomes X) {c c' : Client D} {d : D} {welcome : String}
    {r : Except CoreError Unit} (he : c.e2ee = some d) (ha : Accepts X d welcome)
    (hx : Client.Exec X (.join_from_welcome welcome) c r c') :
    ∃ d', c'.e2ee = some d' ∧ X.load_group d' (W.group welcome) = true := by
  obtain ⟨choice, hx⟩ := hx
  obtain ⟨d', hjoin⟩ := ha
  obtain ⟨api, session, store, e2ee, ks⟩ := c
  simp only at he
  subst he
  refine ⟨d', ?_, W.joined hjoin⟩
  have hmap : (X.join_from_welcome d welcome).map (·, ()) = .ok (d', ()) := by
    rw [hjoin]
    rfl
  simp only [Client.perform, Client.onEngine, E2ee.join_from_welcome, hmap, E2ee.mutate] at hx
  generalize E2ee.persist X d' ks choice = out at hx
  obtain ⟨_ | _, ks'⟩ := out
  · cases hx
    rfl
  · cases hx
    rfl

theorem join_group_in_memory (W : Welcomes X) {c c' : Client D} {d : D} {welcome : String}
    {calls : List (Called D)} {joined : Bool} (he : c.e2ee = some d) (ha : Accepts X d welcome)
    (hr : Alone X (join_group welcome) c calls (.done joined) c') :
    ∃ d', c'.e2ee = some d' ∧ X.load_group d' (W.group welcome) = true := by
  rcases Prog.Runs.call_inv hr with ⟨_, h, _⟩ | ⟨r, c₁, c₁', calls₁, hx, rfl, rfl, hr₁⟩
  · cases h
  · cases r with
    | ok u =>
      rw [hr₁.done_inv.2.2]
      exact join_in_memory W he ha hx
    | error e =>
      rw [hr₁.done_inv.2.2]
      exact join_in_memory W he ha hx

/-- The Welcome declares no room, or one that is not held and whose check is answered. -/
def Tried (X : PigeonCrypto D) (w : WelcomeEvent) (c : Client D) (d : D)
    (later : List (Called D)) : Prop :=
  ∀ room, w.room_id = some room → X.load_group d room = false ∧
    ∃ held rest, later = (⟨c, .has_group room, .ok held⟩ : Called D) :: rest

theorem tried_in_memory (W : Welcomes X) {w : WelcomeEvent} {c c' : Client D} {d : D}
    {calls later : List (Called D)} {joined : Bool} (he : c.e2ee = some d)
    (ha : Accepts X d w.welcome_b64) (htried : Tried X w c d (calls ++ later))
    (hr : Alone X (apply_welcome w) c calls (.done joined) c') :
    ∃ d', c'.e2ee = some d' ∧ X.load_group d' (W.group w.welcome_b64) = true := by
  obtain ⟨welcome_b64, room_id⟩ := w
  cases room_id with
  | none => exact join_group_in_memory W he ha hr
  | some room =>
    obtain ⟨hfree, held, rest, hlater⟩ := htried room rfl
    rcases Prog.Runs.call_inv hr with ⟨_, h, _⟩ | ⟨r, c₁, c₁', calls₁, hx, rfl, rfl, hr₁⟩
    · cases h
    · obtain ⟨rfl, hanswer⟩ := Client.exec_has_group hx
      simp only [List.cons_append, List.cons.injEq] at hlater
      have hok : r = .ok false := by
        rcases hanswer with ⟨e, rfl⟩ | ⟨d₁, hd₁, rfl⟩
        · have habs := hlater.1
          cases habs
        · rw [he] at hd₁
          cases hd₁
          rw [hfree]
      subst hok
      exact join_group_in_memory W he ha hr₁

/-- A cycle that stores a token only where it may: each Welcome of its response that would
bring a new group is tried, and no write of a join is owed by then. -/
structure Cycle.Careful (W : Welcomes X) (owed : Bool) (y : Cycle D) : Prop where
  tried : ∀ resp w after c later d, y.Acks resp → w ∈ syncWelcomes resp →
    y.Turn X resp w after c later → c.e2ee = some d → Accepts X d w.welcome_b64 →
    X.load_group d (W.group w.welcome_b64) = false → Tried X w c d later
  paid : ∀ earlier c next later, y.calls =
    earlier ++ (⟨c, .save_sync_token next, .ok ()⟩ : Called D) :: later →
      owedAfter X owed earlier = false

theorem owedAfter_append (owed : Bool) (es es' : List (Called D)) :
    owedAfter X owed (es ++ es') = owedAfter X (owedAfter X owed es) es' := by
  unfold owedAfter
  rw [List.foldl_append]

theorem apply_welcomes_inLoop (ws : List WelcomeEvent) (joined : Bool) :
    (apply_welcomes ws joined).All (fun op => op.inLoop = true) := by
  apply (apply_welcomes_calls ws joined).mono
  intro op hop
  cases op <;> first | rfl | cases hop

theorem after_welcomes_inLoop (resp : Json) (applied joined : Bool) :
    (after_welcomes resp applied joined).All (fun op => op.inLoop = true) := by
  unfold after_welcomes
  apply Prog.All.andThen
  · apply (persist_sync_token_calls resp).mono
    intro op hop
    cases op <;> first | rfl | cases hop
  intro _
  apply Prog.All.andThen
  · apply pass_calls.mono
    intro op hop
    cases op <;> first | rfl | cases hop
  intro mls_changed
  apply Prog.All.andThen
  · apply flush_calls.mono
    intro op hop
    cases op <;> first | rfl | cases hop
  intro flushed
  apply (notify_calls _).mono
  intro op hop
  cases op <;> first | rfl | cases hop

/-- In a careful cycle a Welcome that is acknowledged is in the key store at the end, where
the engine accepted it at its turn. -/
theorem Cycle.Careful.keeps (K : KeptGroups X) {y : Cycle D} {owed : Bool} {d kept : D}
    (hcare : y.Careful K.toWelcomes owed) (hr : y.Ran X) (hb : Backed X y.start owed d kept)
    {resp : Json} (ha : y.Acks resp) {before after : List WelcomeEvent} {w : WelcomeEvent}
    (hw : syncWelcomes resp = before ++ w :: after) :
    ∃ s later dw, y.Turn X resp w after s later ∧ s.e2ee = some dw ∧
      (Accepts X dw w.welcome_b64 → ∃ o d' kept', Backed X y.stop o d' kept' ∧
        X.load_group kept' (K.group w.welcome_b64) = true) := by
  obtain ⟨applied, joined, first, welcomes, last, c₁, c₂, next, hcalls, hfirst, hjoins, hafter⟩ :=
    ha.through hr (hb.has_engine K hr (sync_round_inLoop _))
  -- the run of the Welcomes, split at `w`
  rw [hw, apply_welcomes_append] at hjoins
  rcases Prog.Runs.bind_inv hjoins with ⟨_, _, _, h⟩ | ⟨j, es₁, es₂, s, rfl, hbefore, hrest⟩
  · cases h
  rcases Prog.Runs.bind_inv hrest with ⟨_, _, _, h⟩ | ⟨j', es₃, es₄, s', rfl, hturn, hlast⟩
  · cases h
  have hat : Alone X (sync_round y.backoff) y.start (first ++ es₁)
      (at_welcomes resp applied j (w :: after)) s := by
    rw [hw] at hfirst
    have hsplit : at_welcomes resp applied false (before ++ w :: after) =
        (apply_welcomes before false).bind (fun j => at_welcomes resp applied j (w :: after)) := by
      unfold at_welcomes
      rw [apply_welcomes_append, Prog.bind_assoc]
    rw [hsplit] at hfirst
    exact hfirst.trans (hbefore.bind _)
  obtain ⟨dw, kw, hbw, -⟩ := hb.run K hat (sync_round_inLoop _)
  have hcome : y.Turn X resp w after s
      (es₃ ++ (es₄ ++ (⟨c₂, .save_sync_token next, .ok ()⟩ : Called D) :: last)) := by
    refine ⟨first ++ es₁, applied, j, ?_, hat⟩
    rw [hcalls]
    simp
  refine ⟨s, _, dw, hcome, hbw.engine, ?_⟩
  intro haccepts
  -- after its turn the group is in memory
  have hone : (apply_welcome w).All (fun op => op.inLoop = true) := by
    apply (apply_welcome_calls w).mono
    intro op hop
    cases op <;> first | rfl | cases hop
  obtain ⟨d₂, k₂, hb₂, hgrown₂⟩ := hbw.run K hturn hone
  have hmemory : X.load_group d₂ (K.group w.welcome_b64) = true := by
    by_cases hheld : X.load_group dw (K.group w.welcome_b64) = true
    · exact hgrown₂.memory _ hheld
    · obtain ⟨d', hd', hg⟩ := tried_in_memory K.toWelcomes hbw.engine haccepts
        (hcare.tried resp w after s _ dw ha (by rw [hw]; simp) hcome hbw.engine haccepts
          (by simpa using hheld)) hturn
      rw [hb₂.engine] at hd'
      cases hd'
      exact hg
  -- at the token nothing is owed, so it is in the key store
  obtain ⟨d₃, k₃, hb₃, hgrown₃⟩ := hb₂.run K hlast (apply_welcomes_inLoop _ _)
  have hpaid := hcare.paid (first ++ (es₁ ++ (es₃ ++ es₄))) c₂ next last (by rw [hcalls]; simp)
  simp only [owedAfter_append] at hpaid hb₃
  have hstored : X.load_group k₃ (K.group w.welcome_b64) = true :=
    hb₃.level hpaid _ (hgrown₃.memory _ hmemory)
  obtain ⟨d₄, k₄, hb₄, hgrown₄⟩ := hb₃.run K hafter (after_welcomes_inLoop _ _ _)
  exact ⟨_, d₄, k₄, hb₄, hgrown₄.store _ hstored⟩

/-! ## The life of a phone -/

/-- What happens to a phone: a cycle of the loop, left at any call, or a launch of the app
after its process has ended at any point. -/
inductive Episode (D : Type) where
  | cycle (y : Cycle D)
  | launch (whoami : Except ApiError Unit) (faults : SessionFaults)

/-- From `c₀` the episodes lead to `c`. -/
inductive Lives (X : PigeonCrypto D) (c₀ : Client D) : List (Episode D) → Client D → Prop
  | start : Lives X c₀ [] c₀
  | cycle {past : List (Episode D)} {y : Cycle D} : Lives X c₀ past y.start → y.Ran X →
      Lives X c₀ (past ++ [.cycle y]) y.stop
  | launch {past : List (Episode D)} {c c' : Client D} {whoami : Except ApiError Unit}
      {faults : SessionFaults} : Lives X c₀ past c →
      (restore_session X whoami faults c.host).1 = .ok (some c') →
      Lives X c₀ (past ++ [.launch whoami faults]) c'

/-- A join that is owed is forgotten with the process. -/
def Episode.owes (X : PigeonCrypto D) (owed : Bool) : Episode D → Bool
  | .cycle y => owedAfter X owed y.calls
  | .launch _ _ => false

def owedOf (X : PigeonCrypto D) (past : List (Episode D)) : Bool :=
  past.foldl (Episode.owes X) false

/-- A cycle that is careful, or a launch that can read the stored MLS state. -/
def Episode.Careful (W : Welcomes X) (owed : Bool) : Episode D → Prop
  | .cycle y => y.Careful W owed
  | .launch _ faults => ∀ reason, faults.mls_get ≠ .key_store reason

/-- A launch that reads the stored state has the engine that was stored. -/
theorem Backed.launch (K : KeptGroups X) {c c' : Client D} {owed : Bool} {d kept : D}
    (h : Backed X c owed d kept) {whoami : Except ApiError Unit} {faults : SessionFaults}
    (hreads : ∀ reason, faults.mls_get ≠ .key_store reason)
    (hc : (restore_session X whoami faults c.host).1 = .ok (some c')) :
    Backed X c' false kept kept := by
  have hget : ks_get c.key_store MLS_STATE_KEY faults.mls_get =
      .ok (some (E2ee.stateBlob X kept)) := by
    have hstored := h.stored
    cases hks : c.key_store with
    | none => rw [hks] at hstored; cases hstored
    | some m =>
      rw [hks] at hstored
      cases hf : faults.mls_get with
      | key_store reason => exact absurd hf (hreads reason)
      | none | db | load_group | export_storage => exact hstored
  have hone := relaunch_oneUser hc
  obtain ⟨bytes, session, token, hsession, hdecode, hresume⟩ := restore_session_resumes hc
  -- the stored session is of the user whose device is stored
  have hown : X.OfUser session.user_id kept := by
    rw [h.one.stored bytes session token (ks_get_reads hsession) hdecode]
    exact h.own
  have hrestore := restore_stateBlob (K.restore_export _ kept hown) hget
  rw [resume_restored hrestore hresume] at hone ⊢
  exact ⟨rfl, hone, hown, h.stored, fun _ hr => hr, fun _ _ hr => hr⟩

/-- Every acknowledged response of the life had each of its Welcomes looked at, and those that
the engine accepted then are groups of the MLS state that `c` has in its key store. -/
def AcksKept (W : Welcomes X) (es : List (Episode D)) (c : Client D) : Prop :=
  ∀ y, Episode.cycle y ∈ es → ∀ resp, y.Acks resp → ∀ before w after,
    syncWelcomes resp = before ++ w :: after → ∃ s later d, y.Turn X resp w after s later ∧
      s.e2ee = some d ∧ (Accepts X d w.welcome_b64 → Persisted X c (W.group w.welcome_b64))

/-- Whatever fails and wherever the process ends: as long as each cycle is careful and each
launch reads the stored state, no acknowledged Welcome is lost. -/
theorem acknowledged_welcomes_are_kept (K : KeptGroups X) (c₀ c : Client D) (d : D)
    (es : List (Episode D)) (hone : OneUser X c₀) (hengine : c₀.e2ee = some d)
    (hstored : ks_get c₀.key_store MLS_STATE_KEY .none = .ok (some (E2ee.stateBlob X d)))
    (hlife : Lives X c₀ es c)
    (hcare : ∀ past e later, es = past ++ e :: later → e.Careful K.toWelcomes (owedOf X past)) :
    AcksKept K.toWelcomes es c := by
  have hkept : (∃ d' kept, Backed X c (owedOf X es) d' kept) ∧ AcksKept K.toWelcomes es c := by
    induction hlife with
    | start =>
      refine ⟨⟨d, d, hengine, hone, hone.engine d hengine, hstored, fun _ hr => hr,
        fun _ _ hr => hr⟩, ?_⟩
      intro y hy
      exact absurd hy List.not_mem_nil
    | @cycle past y _ hran ih =>
      obtain ⟨⟨d₁, k₁, hb₁⟩, hpast⟩ := ih (fun past' e later h =>
        hcare past' e (later ++ [.cycle y]) (by rw [h]; simp))
      have hcareful : y.Careful K.toWelcomes (owedOf X past) := hcare past (.cycle y) [] rfl
      obtain ⟨d₂, k₂, hb₂, hgrown⟩ := hb₁.run K hran (sync_round_inLoop _)
      have howed : owedOf X (past ++ [.cycle y]) = owedAfter X (owedOf X past) y.calls := by
        unfold owedOf
        rw [List.foldl_append]
        rfl
      rw [howed]
      refine ⟨⟨d₂, k₂, hb₂⟩, ?_⟩
      intro y' hy' resp hacks before w after hw
      rcases List.mem_append.mp hy' with hy' | hy'
      · obtain ⟨s, later, dw, hturn, hdw, hold⟩ := hpast y' hy' resp hacks before w after hw
        refine ⟨s, later, dw, hturn, hdw, ?_⟩
        intro haccepts
        obtain ⟨dk, hdk, hgroup⟩ := hold haccepts
        rw [hb₁.restored K] at hdk
        cases hdk
        exact hb₂.persisted K (hgrown.store _ hgroup)
      · have heq : y' = y := by simpa using hy'
        subst heq
        obtain ⟨s, later, dw, hturn, hdw, hnew⟩ := hcareful.keeps K hran hb₁ hacks hw
        refine ⟨s, later, dw, hturn, hdw, ?_⟩
        intro haccepts
        obtain ⟨o, d', k', hb', hgroup⟩ := hnew haccepts
        exact hb'.persisted K hgroup
    | @launch past c₁ c₂ whoami faults _ hlaunch ih =>
      obtain ⟨⟨d₁, k₁, hb₁⟩, hpast⟩ := ih (fun past' e later h =>
        hcare past' e (later ++ [.launch whoami faults]) (by rw [h]; simp))
      have hreads := hcare past (.launch whoami faults) [] rfl
      have hb₂ := hb₁.launch K hreads hlaunch
      have howed : owedOf X (past ++ [.launch whoami faults]) = false := by
        unfold owedOf
        rw [List.foldl_append]
        rfl
      rw [howed]
      refine ⟨⟨k₁, k₁, hb₂⟩, ?_⟩
      intro y hy resp hacks before w after hw
      have hy' : Episode.cycle y ∈ past := by simpa using hy
      obtain ⟨s, later, dw, hturn, hdw, hold⟩ := hpast y hy' resp hacks before w after hw
      refine ⟨s, later, dw, hturn, hdw, ?_⟩
      intro haccepts
      obtain ⟨dk, hdk, hgroup⟩ := hold haccepts
      rw [hb₁.restored K] at hdk
      cases hdk
      exact hb₂.persisted K hgroup
  exact hkept.2

/-! ## A Welcome that is lost -/

/-- A list of names as one text. -/
def namesText (names : List String) : String :=
  String.ofList (names.flatMap (fun s => s.toList.flatMap (fun c => ['+', c]) ++ ['.']))

def readNames : List Char → List Char → List String
  | '+' :: c :: rest, name => readNames rest (name ++ [c])
  | '.' :: rest, name => String.ofList name :: readNames rest []
  | _, _ => []

theorem readNames_name (s name rest : List Char) :
    readNames (s.flatMap (fun c => ['+', c]) ++ '.' :: rest) name =
      String.ofList (name ++ s) :: readNames rest [] := by
  induction s generalizing name with
  | nil => simp [readNames]
  | cons c s ih => simp [readNames, ih]

theorem readNames_namesText (names : List String) :
    readNames (namesText names).toList [] = names := by
  unfold namesText
  rw [String.toList_ofList]
  induction names with
  | nil => rfl
  | cons s names ih =>
    simp only [List.flatMap_cons, List.append_assoc, List.singleton_append]
    rw [readNames_name, ih]
    simp

/-- An engine that is the list of the groups it holds. A Welcome is the name of its group. -/
def namedCrypto : PigeonCrypto (List String) where
  new _ := .ok []
  load_group d room := decide (room ∈ d)
  create_group d room := .ok (room :: d)
  add_member d room _ := .ok (d, room, "commit")
  process_commit d _ _ := .ok d
  join_from_welcome d welcome := .ok (welcome :: d)
  encrypt d _ plaintext := .ok (d, plaintext)
  decrypt d _ ciphertext := .ok (d, some ciphertext)
  new_key_packages d n := .ok (d, List.replicate n "key-package")
  new_last_resort_key_package d := .ok (d, "key-package")
  signature_public_key _ := "key"
  export_storage := namesText
  restore _ _ blob := .ok (readNames blob.toList [])

def namedGroups : KeptGroups namedCrypto where
  Copy := Unit
  copy d room := if room ∈ d then some () else none
  group welcome := welcome
  load_group d room := by
    by_cases h : room ∈ d <;> simp [namedCrypto, h]
  join d welcome d' h := by
    cases h
    refine ⟨by simp, ?_⟩
    intro r hr
    simp [hr]
  restore_export user d _ := by simp [namedCrypto, readNames_namesText]
  commit_keeps d room commit d' h r := by
    cases h
    rfl
  encrypt_keeps d room plaintext d' ciphertext h r := by
    cases h
    rfl
  decrypt_keeps d room ciphertext d' plaintext h r := by
    cases h
    rfl

def namedSession : Session := ⟨"@ann:pigeon.example", "ANN1", "https://pigeon.example"⟩

/-- A phone after its login: no group, and the engine in the key store. -/
def namedPhone : Client (List String) :=
  { api := Api.new namedSession.server (some "token")
    session := namedSession
    store := Store.init
    e2ee := some []
    key_store := (E2ee.persist namedCrypto [] (ks_put (some Table.empty) SESSION_KEY
      (encode_session namedSession "token") .none).2 .none).2 }

theorem namedPhone_oneUser : OneUser namedCrypto namedPhone where
  engine d hd := by
    cases hd
    exact .new rfl
  stored bytes session token hget hdecode := by
    have hentry : ks_get namedPhone.key_store SESSION_KEY .none =
        .ok (some (encode_session namedSession "token")) := rfl
    rw [hentry] at hget
    cases hget
    rw [decode_encode_session] at hdecode
    cases hdecode
    rfl

/-- The content of the Welcome of `!room`, which may say what room it is for. -/
def welcomeContent (declared : Bool) : List (String × Json) :=
  if declared then [("welcome", .str "!room"), ("room_id", .str "!room")]
  else [("welcome", .str "!room")]

/-- A response with that Welcome. -/
def welcomeResponse (declared : Bool) : Json :=
  .obj [("next_batch", .str "s1"), ("to_device", .obj [("events", .arr [
    .obj [("type", .str "p.mls.welcome"), ("content", .obj (welcomeContent declared))]])])]

/-- The surroundings of a cycle that gets the response; `fault` is what befalls the join. -/
def welcomed (declared : Bool) (fault : Fault) : (op : Op) → op.Choice
  | .api_sync _ => .ok (welcomeResponse declared)
  | .join_from_welcome _ => fault
  | op => Client.calm op

def welcomeCycle (declared : Bool) (fault : Fault) : Cycle (List String) :=
  { backoff := 1
    start := namedPhone
    calls := (sync_round 1).trace (Client.under namedCrypto (welcomed declared fault)) namedPhone
    left := .done
      ((sync_round 1).run (Client.under namedCrypto (welcomed declared fault)) namedPhone).1
    stop := ((sync_round 1).run (Client.under namedCrypto (welcomed declared fault)) namedPhone).2 }

theorem welcomeCycle_lives (declared : Bool) (fault : Fault) :
    Lives namedCrypto namedPhone [.cycle (welcomeCycle declared fault)]
      (welcomeCycle declared fault).stop := by
  have hran : (welcomeCycle declared fault).Ran namedCrypto :=
    alone_under namedCrypto (welcomed declared fault) (sync_round 1) namedPhone
  have hstart : Lives namedCrypto namedPhone [] (welcomeCycle declared fault).start := Lives.start
  exact Lives.cycle hstart hran

theorem welcomeCycle_acks (declared : Bool) (fault : Fault) :
    (welcomeCycle declared fault).Acks (welcomeResponse declared) := by
  have hsaved : ∃ (i : Nat) (c : Client (List String)), (welcomeCycle declared fault).calls[i]? =
      some (⟨c, .save_sync_token "s1", .ok ()⟩ : Called (List String)) := by
    cases declared with
    | false =>
      refine ⟨5, ?_⟩
      cases fault with
      | none | db | load_group | key_store | export_storage => exact ⟨_, rfl⟩
    | true =>
      refine ⟨6, ?_⟩
      cases fault with
      | none | db | load_group | key_store | export_storage => exact ⟨_, rfl⟩
  obtain ⟨i, c, hc⟩ := hsaved
  exact ⟨⟨_, _, List.mem_of_getElem? (i := 1) rfl⟩, c, "s1", rfl, List.mem_of_getElem? hc⟩

/-- Where no call leaves a debt, nothing is owed. -/
theorem owedAfter_none {calls : List (Called D)}
    (h : ∀ e ∈ calls, e.owes X false = false) : owedAfter X false calls = false := by
  induction calls with
  | nil => rfl
  | cons e rest ih =>
    have hrest := ih (fun e' he' => h e' (List.mem_cons_of_mem e he'))
    unfold owedAfter at hrest ⊢
    rw [List.foldl_cons, h e List.mem_cons_self]
    exact hrest

/-- The response that a call got. -/
def responseOf : Called D → Option Json
  | ⟨_, .api_sync _, .ok resp⟩ => some resp
  | _ => none

theorem welcomeCycle_careful : (welcomeCycle false .none).Careful namedGroups.toWelcomes false where
  tried resp w after c later d hacks hw _ _ _ _ := by
    obtain ⟨⟨c₀, since, hsync⟩, -⟩ := hacks
    have hresponses : (welcomeCycle false .none).calls.filterMap responseOf =
        [welcomeResponse false] := rfl
    have hresp : resp ∈ (welcomeCycle false .none).calls.filterMap responseOf :=
      List.mem_filterMap.mpr ⟨_, hsync, rfl⟩
    rw [hresponses, List.mem_singleton] at hresp
    subst hresp
    have hwelcomes : syncWelcomes (welcomeResponse false) = [⟨"!room", none⟩] := rfl
    rw [hwelcomes, List.mem_singleton] at hw
    subst hw
    intro room hroom
    cases hroom
  paid earlier c next later hcalls := by
    apply owedAfter_none
    intro e he
    have hall : (welcomeCycle false .none).calls.all (fun e => !(e.owes namedCrypto false)) =
        true := rfl
    rw [List.all_eq_true] at hall
    have hfree := hall e (by rw [hcalls]; exact List.mem_append_left _ he)
    simpa using hfree

theorem acknowledged_welcomes_are_kept_room :
    AcksKept namedGroups.toWelcomes [.cycle (welcomeCycle false .none)]
      (welcomeCycle false .none).stop := by
  apply acknowledged_welcomes_are_kept namedGroups namedPhone _ [] _ namedPhone_oneUser rfl rfl
    (welcomeCycle_lives false .none)
  intro past e later hsplit
  have hpast : past = [] := by
    cases past with
    | nil => rfl
    | cons first rest => simp at hsplit
  subst hpast
  simp only [List.nil_append, List.cons.injEq] at hsplit
  rw [← hsplit.1]
  exact welcomeCycle_careful

/-- A join whose write fails is not in the key store when the token is stored. -/
theorem a_failed_write_loses_a_welcome : ¬ ∀ (es : List (Episode (List String)))
    (c : Client (List String)), Lives namedCrypto namedPhone es c →
    AcksKept namedGroups.toWelcomes es c := by
  intro h
  have hkept := h _ _ (welcomeCycle_lives true (.key_store "full")) _ List.mem_cons_self
    (welcomeResponse true) (welcomeCycle_acks true _) [] ⟨"!room", some "!room"⟩ [] rfl
  obtain ⟨s, later, d, -, -, hpersisted⟩ := hkept
  obtain ⟨d', hrestore, hgroup⟩ := hpersisted ⟨_, rfl⟩
  have hstored : E2ee.restore namedCrypto
      (welcomeCycle true (.key_store "full")).stop.session.user_id
      (welcomeCycle true (.key_store "full")).stop.key_store .none = .ok (some []) := rfl
  rw [hstored] at hrestore
  cases hrestore
  cases hgroup

end PigeonMobile
