-- A pass that is killed. The engine and the tables are written apart: a decrypt first puts
-- the ratchet that it moved into the key store, and then caches the plaintext. A kill
-- between the two loses the message, and a kill anywhere else loses nothing.
import PigeonMobile.MlsPass
import PigeonMobile.EngineSteps

namespace PigeonMobile

variable {D : Type} {X : PigeonCrypto D}

/-! ## What an engine keeps across a restart -/

/-- What the engine promises: a stored device comes back as it was for its user, a commit and a
message work once, and neither takes a group away. -/
structure Ratchet (X : PigeonCrypto D) where
  epoch : D → String → Option Nat
  load_group : ∀ d room, X.load_group d room = (epoch d room).isSome
  restore_export : X.Restores
  commit_once : ∀ d room commit d', X.process_commit d room commit = .ok d' →
    (∃ reason, X.process_commit d' room commit = .error reason) ∧
      ∀ r, (epoch d' r).isSome = (epoch d r).isSome
  decrypt_once : ∀ d room ct d' text, X.decrypt d room ct = .ok (d', text) →
    (∃ reason, X.decrypt d' room ct = .error reason) ∧
      ∀ r, (epoch d' r).isSome = (epoch d r).isSome

/-- A client whose session and engine are in the key store as they are in memory. The engine is
one of the user. -/
structure Durable (X : PigeonCrypto D) (c : Client D) (d : D) : Prop where
  engine : c.e2ee = some d
  own : X.OfUser c.session.user_id d
  session : ∃ token, c.api = Api.new c.session.server (some token) ∧
    ks_get c.key_store SESSION_KEY .none = .ok (some (encode_session c.session token))
  state : ks_get c.key_store MLS_STATE_KEY .none = .ok (some (E2ee.stateBlob X d))

theorem Durable.hold {c : Client D} {d d' : D} (h : Durable X c d) (hmoves : X.Moves d d') :
    Durable X (c.hold X d') d' := by
  obtain ⟨api, session, store, e2ee, ks⟩ := c
  obtain ⟨-, hown, ⟨token, hapi, hsession⟩, hstate⟩ := h
  cases ks with
  | none => cases hstate
  | some m =>
    refine ⟨rfl, .moves hown hmoves, ⟨token, hapi, ?_⟩, ?_⟩
    · have hne : MLS_STATE_KEY ≠ SESSION_KEY := by decide
      simp only [Client.hold, ks_put, ks_get, KeyMap.find_put, hne, if_false]
      exact hsession
    · simp only [Client.hold, ks_put, ks_get, KeyMap.find_put, if_true]
      rfl

theorem Durable.mark {c : Client D} {d : D} (h : Durable X c d) (st : Store) :
    Durable X { c with store := st } d := ⟨h.engine, h.own, h.session, h.state⟩

theorem Durable.digest {c : Client D} {d : D} (h : Durable X c d) (item : PendingMls) :
    ∃ d', Durable X (c.digest X item) d' := by
  unfold Client.digest
  rcases hv : c.verdict X item with _ | ⟨_ | d', mark⟩
  · exact ⟨d, h⟩
  · exact ⟨d, h.mark _⟩
  · exact ⟨d', (h.hold (Client.verdict_moves X h.engine hv)).mark _⟩

theorem Durable.digestAll {c : Client D} {d : D} (h : Durable X c d) (items : List PendingMls) :
    ∃ d', Durable X (c.digestAll X items) d' := by
  induction items generalizing c d with
  | nil => exact ⟨d, h⟩
  | cons item rest ih =>
    obtain ⟨d', h'⟩ := h.digest item
    exact ih h'

/-- The faults of a restart where nothing fails. -/
def calmly : SessionFaults := ⟨.none, .none, .none, .none, .none⟩

/-- A restart gives the client as it was, where the server does not turn its token down. -/
theorem Durable.relaunch (R : Ratchet X) {c c' : Client D} {d : D} (h : Durable X c d)
    {whoami : Except ApiError Unit}
    (hc : (restore_session X whoami calmly c.host).1 = .ok (some c')) : c' = c := by
  obtain ⟨api, session, store, e2ee, ks⟩ := c
  obtain ⟨hengine, hown, ⟨token, hapi, hsession⟩, hstate⟩ := h
  simp only at hengine hown hapi hsession hstate
  subst hengine hapi
  obtain ⟨bytes, session', token', hget, hdecode, hresume⟩ := restore_session_resumes hc
  have hbytes : bytes = encode_session session token := by
    have hsame := hget.symm.trans hsession
    simpa using hsame
  subst hbytes
  rw [decode_encode_session] at hdecode
  cases hdecode
  exact resume_restored (restore_stateBlob (R.restore_export _ d hown) hstate) hresume

/-! ## Where a pass is killed -/

/-- The call that caches a plaintext. -/
def Op.caches : Op → Bool
  | .set_decrypted _ _ => true
  | _ => false

/-- The next call caches a plaintext: the message has been decrypted, and its key is gone. -/
def BetweenWrites {α : Type} : Code α → Prop
  | .done _ => False
  | .call op _ => op.caches = true

def Mark.isText : Mark → Bool
  | .text _ => true
  | _ => false

/-- A program that has come to its end stands before no call. -/
theorem cut_done_ne_call {α : Type} {c c' : Client D} {n : Nat} {a : α} {op : Op}
    {k : op.Res → Code α} : Prog.cut (Client.local_ X) n (.done a) c ≠ (.call op k, c') := by
  rw [Prog.cut_done]
  intro h
  cases h

theorem cut_mark_processed {c c' : Client D} (event_id : String) (n : Nat) {op : Op}
    {k : op.Res → Code (Except CoreError Bool)}
    (hcut : Prog.cut (Client.local_ X) n (mark_processed event_id) c = (.call op k, c')) :
    c' = c ∧ op.caches = false := by
  cases n with
  | zero =>
    cases hcut
    exact ⟨rfl, rfl⟩
  | succ n =>
    exact absurd hcut cut_done_ne_call

theorem cut_attempt_decrypt {c c' : Client D} {d : D} (h : c.e2ee = some d) (m : PendingDecrypt)
    (hg : X.load_group d m.room_id = true) (n : Nat) {op : Op}
    {k : op.Res → Code (Except CoreError Bool)}
    (hcut : Prog.cut (Client.local_ X) n (attempt_decrypt m) c = (.call op k, c')) :
    (c' = c ∧ op.caches = false) ∨
      ∃ d' mark, readVerdict (X.decrypt d m.room_id m.ciphertext_b64) = .take (some d') mark ∧
        c' = c.hold X d' ∧ op.caches = mark.isText := by
  unfold attempt_decrypt at hcut
  cases n with
  | zero =>
    cases hcut
    exact Or.inl ⟨rfl, rfl⟩
  | succ n =>
    rw [Prog.cut_call] at hcut
    rcases Client.local_decrypt X h hg m.ciphertext_b64 with
      ⟨d', plaintext, hx, hl⟩ | ⟨d', e, hx, hl⟩ | ⟨reason, e, hx, hl⟩
    · rw [hl] at hcut
      cases n with
      | zero =>
        cases hcut
        rw [hx]
        exact Or.inr ⟨d', .text plaintext, rfl, rfl, rfl⟩
      | succ n =>
        simp only [Prog.cut_call] at hcut
        exact absurd hcut cut_done_ne_call
    · rw [hl] at hcut
      cases n with
      | zero =>
        cases hcut
        rw [hx]
        exact Or.inr ⟨d', .failed, rfl, rfl, rfl⟩
      | succ n =>
        simp only [Prog.cut_call] at hcut
        exact absurd hcut cut_done_ne_call
    · rw [hl] at hcut
      cases n with
      | zero =>
        cases hcut
        exact Or.inl ⟨rfl, rfl⟩
      | succ n =>
        simp only [Prog.cut_call] at hcut
        exact absurd hcut cut_done_ne_call

/-- A kill inside one event: nothing has moved yet, or the engine has. -/
theorem cut_process_one {c c' : Client D} {d : D} (h : c.e2ee = some d) (item : PendingMls)
    (n : Nat) {op : Op} {k : op.Res → Code (Except CoreError Bool)}
    (hcut : Prog.cut (Client.local_ X) n (process_one c.session.user_id item) c =
      (.call op k, c')) :
    (c' = c ∧ op.caches = false) ∨
      ∃ d' mark, c.verdict X item = .take (some d') mark ∧ c' = c.hold X d' ∧
        op.caches = mark.isText := by
  unfold Client.verdict
  rw [h]
  cases n with
  | zero =>
    cases item with
    | Commit m =>
      cases hcut
      exact Or.inl ⟨rfl, rfl⟩
    | Message m =>
      cases hcut
      exact Or.inl ⟨rfl, rfl⟩
  | succ n =>
    cases item with
    | Commit m =>
      unfold process_one at hcut
      rw [Prog.cut_call, Client.local_has_group X h] at hcut
      by_cases hg : X.load_group d m.room_id = true
      · by_cases hs : m.sender ≠ c.session.user_id
        · simp only [hg, hs, if_true, ne_eq, not_false_eq_true] at hcut
          simp only [judge, hg, hs, if_true, ne_eq, not_false_eq_true]
          cases n with
          | zero =>
            cases hcut
            exact Or.inl ⟨rfl, rfl⟩
          | succ n =>
            obtain ⟨r, hl⟩ := Client.local_process_commit X h hg m.commit_b64
            rw [Prog.cut_call, hl] at hcut
            obtain ⟨rfl, hop⟩ := cut_mark_processed m.event_id n hcut
            cases hx : X.process_commit d m.room_id m.commit_b64 with
            | error reason => exact Or.inl ⟨rfl, hop⟩
            | ok d' =>
              exact Or.inr ⟨d', .processed, rfl, rfl, hop⟩
        · simp only [hg, hs, if_false] at hcut
          exact Or.inl (cut_mark_processed m.event_id n hcut)
      · have hno : X.load_group d m.room_id = false := by simpa using hg
        simp only [hno, Prog.cut_done] at hcut
        cases hcut
    | Message m =>
      unfold process_one at hcut
      rw [Prog.cut_call, Client.local_has_group X h] at hcut
      by_cases hg : X.load_group d m.room_id = true
      · by_cases hs : m.sender = c.session.user_id
        · simp only [hg, hs, if_true] at hcut
          cases n with
          | zero =>
            cases hcut
            exact Or.inl ⟨rfl, rfl⟩
          | succ n =>
            have hqueue : Client.local_ X (.has_pending_send m.room_id) c =
                (.ok (c.store.has_pending_send m.room_id), c) := rfl
            rw [Prog.cut_call, hqueue] at hcut
            cases hq : c.store.has_pending_send m.room_id with
            | true =>
              simp only [hq, Prog.cut_done] at hcut
              cases hcut
            | false =>
              simp only [hq] at hcut
              simp only [judge, hg, hs, hq, if_true, Bool.false_eq_true, and_false, if_false]
              exact cut_attempt_decrypt h m hg n hcut
        · simp only [hg, hs, if_false] at hcut
          simp only [judge, hg, hs, if_true, false_and, if_false]
          exact cut_attempt_decrypt h m hg n hcut
      · have hno : X.load_group d m.room_id = false := by simpa using hg
        simp only [hno, Prog.cut_done] at hcut
        cases hcut

/-- What a killed pass leaves: some of the events are digested. The engine may have moved on
the next one, whose row is not marked yet. -/
structure KilledAt (X : PigeonCrypto D) (c : Client D) (items : List PendingMls) (between : Prop)
    (c' : Client D) : Prop where
  split : ∃ pre rest, items = pre ++ rest ∧ ((c' = c.digestAll X pre ∧ ¬ between) ∨
    ∃ item rest' d mark, rest = item :: rest' ∧
      (c.digestAll X pre).verdict X item = .take (some d) mark ∧
      c' = (c.digestAll X pre).hold X d ∧ (between ↔ mark.isText = true))

theorem KilledAt.start (c : Client D) (items : List PendingMls) {between : Prop} (h : ¬ between) :
    KilledAt X c items between c := ⟨⟨[], items, rfl, Or.inl ⟨rfl, h⟩⟩⟩

theorem KilledAt.later {c c' : Client D} {item : PendingMls} {items : List PendingMls}
    {between : Prop} (h : KilledAt X (c.digest X item) items between c') :
    KilledAt X c (item :: items) between c' := by
  obtain ⟨pre, rest, rfl, hsplit⟩ := h.split
  exact ⟨⟨item :: pre, rest, rfl, hsplit⟩⟩

theorem cut_process_each {c : Client D} {d : D} (h : c.e2ee = some d) (items : List PendingMls)
    (changed : Bool) (n : Nat) :
    KilledAt X c items
      (BetweenWrites
        (Prog.cut (Client.local_ X) n (process_each c.session.user_id items changed) c).1)
      (Prog.cut (Client.local_ X) n (process_each c.session.user_id items changed) c).2 := by
  induction items generalizing c d changed n with
  | nil =>
    unfold process_each
    rw [Prog.cut_done]
    exact KilledAt.start c [] (fun hb => hb)
  | cons item rest ih =>
    obtain ⟨d', hd'⟩ : ∃ d', (c.digest X item).e2ee = some d' :=
      Client.take_e2ee X c h item.event_id (c.verdict X item)
    have hself : (c.digest X item).session.user_id = c.session.user_id :=
      congrArg Session.user_id (Client.take_session X c item.event_id (c.verdict X item))
    have hrun := run_process_one X h item
    unfold process_each
    rcases Prog.cut_andThen (Client.local_ X) n (process_one c.session.user_id item)
      (fun changed' => process_each c.session.user_id rest (changed || changed')) c with
      ⟨op, k, hcut, heq⟩ | ⟨e, he, -⟩ | ⟨changed', m, -, heq⟩
    · have hkilled : KilledAt X c (item :: rest) (op.caches = true)
          (Prog.cut (Client.local_ X) n (process_one c.session.user_id item) c).2 := by
        rcases cut_process_one h item n (Prod.ext hcut rfl) with
          ⟨hstate, hop⟩ | ⟨d₁, mark, hv, hstate, hop⟩
        · have hstart : KilledAt X c (item :: rest) (op.caches = true) c :=
            KilledAt.start c _ (by simp [hop])
          exact Eq.subst (motive := KilledAt X c (item :: rest) (op.caches = true)) hstate.symm
            hstart
        · exact ⟨⟨[], item :: rest, rfl,
          Or.inr ⟨item, rest, d₁, mark, rfl, hv, hstate, by rw [hop]⟩⟩⟩
      rw [heq]
      exact hkilled
    · rw [hrun] at he
      cases he
    · rw [heq, hrun]
      have hrest := ih hd' (changed || changed') m
      rw [hself] at hrest
      exact hrest.later

theorem cut_process_inbound_mls {c : Client D} {d : D} (h : c.e2ee = some d)
    {items : List PendingMls} (hp : c.store.pending_mls = .ok items) (n : Nat) :
    KilledAt X c items (BetweenWrites (Prog.cut (Client.local_ X) n process_inbound_mls c).1)
      (Prog.cut (Client.local_ X) n process_inbound_mls c).2 := by
  have hsome := Client.local_e2ee X h
  have hpending : Client.local_ X .pending_mls c = (.ok items, c) := by
    simp only [Client.local_, Client.perform, Client.calm, Client.onStore, hp, Except.map]
  unfold process_inbound_mls
  rcases n with _ | _ | _ | n
  · exact KilledAt.start c items (by simp [BetweenWrites, Prog.cut, Op.caches])
  · rw [Prog.cut_call, hsome]
    exact KilledAt.start c items (by simp [BetweenWrites, Prog.cut, Op.caches])
  · rw [Prog.cut_call, hsome]
    exact KilledAt.start c items (by simp [BetweenWrites, Prog.cut, Op.caches])
  · rw [Prog.cut_call, hsome]
    simp only
    rw [Prog.cut_call]
    have hsession : Client.local_ X .session c = (c.session, c) := rfl
    rw [hsession]
    simp only
    rw [Prog.cut_call, hpending]
    exact cut_process_each h items false n

/-- A pass that cannot read the waiting events does nothing, wherever it is killed. -/
theorem cut_unread_pass {c : Client D} {d : D} (h : c.e2ee = some d) {e : StoreError}
    (hp : c.store.pending_mls = .error e) (n : Nat) :
    (Prog.cut (Client.local_ X) n process_inbound_mls c).2 = c ∧
      ¬ BetweenWrites (Prog.cut (Client.local_ X) n process_inbound_mls c).1 := by
  have hsome := Client.local_e2ee X h
  have hpending : Client.local_ X .pending_mls c = (.error e.toCore, c) := by
    simp only [Client.local_, Client.perform, Client.calm, Client.onStore, hp, Except.map]
  have hsession : Client.local_ X .session c = (c.session, c) := rfl
  unfold process_inbound_mls
  rcases n with _ | _ | _ | n
  · exact ⟨rfl, by simp [BetweenWrites, Prog.cut, Op.caches]⟩
  · rw [Prog.cut_call, hsome]
    exact ⟨rfl, by simp [BetweenWrites, Prog.cut, Op.caches]⟩
  · rw [Prog.cut_call, hsome]
    exact ⟨rfl, by simp [BetweenWrites, Prog.cut, Op.caches]⟩
  · rw [Prog.cut_call, hsome]
    simp only
    rw [Prog.cut_call, hsession]
    simp only
    rw [Prog.cut_call, hpending]
    simp only [Prog.cut_done]
    exact ⟨trivial, fun hb => hb⟩

/-! ## The pass that comes after -/

/-- The engine that a verdict moved holds the same groups, and gives the event no second time. -/
theorem moved_once (R : Ratchet X) {self_user : String} {queued : String → Bool} {d d' : D}
    {item : PendingMls} {mark : Mark} (h : judge X self_user queued d item = .take (some d') mark) :
    (∀ r, X.load_group d' r = X.load_group d r) ∧
      judge X self_user queued d' item = .take none (if mark.isText then .failed else mark) := by
  have hload : (∀ r, (R.epoch d' r).isSome = (R.epoch d r).isSome) →
      ∀ r, X.load_group d' r = X.load_group d r := by
    intro hsame r
    rw [R.load_group, R.load_group, hsame]
  cases item with
  | Commit m =>
    simp only [judge] at h ⊢
    by_cases hg : X.load_group d m.room_id = true
    · rw [if_pos hg] at h
      by_cases hs : m.sender ≠ self_user
      · rw [if_pos hs] at h
        cases hx : X.process_commit d m.room_id m.commit_b64 with
        | error reason =>
          rw [hx] at h
          cases h
        | ok d₁ =>
          rw [hx] at h
          cases h
          obtain ⟨⟨reason, hagain⟩, hsame⟩ := R.commit_once _ _ _ _ hx
          refine ⟨hload hsame, ?_⟩
          rw [hload hsame, if_pos hg, if_pos hs, hagain]
          rfl
      · rw [if_neg hs] at h
        cases h
    · rw [if_neg hg] at h
      cases h
  | Message m =>
    simp only [judge] at h ⊢
    by_cases hg : X.load_group d m.room_id = true
    · rw [if_pos hg] at h
      by_cases hs : m.sender = self_user ∧ queued m.room_id = true
      · rw [if_pos hs] at h
        cases h
      · rw [if_neg hs] at h
        rcases hx : X.decrypt d m.room_id m.ciphertext_b64 with reason | ⟨d₁, _ | text⟩
        · rw [hx] at h
          cases h
        · rw [hx] at h
          cases h
          obtain ⟨⟨reason, hagain⟩, hsame⟩ := R.decrypt_once _ _ _ _ _ hx
          refine ⟨hload hsame, ?_⟩
          rw [hload hsame, if_pos hg, if_neg hs, hagain]
          rfl
        · rw [hx] at h
          cases h
          obtain ⟨⟨reason, hagain⟩, hsame⟩ := R.decrypt_once _ _ _ _ _ hx
          refine ⟨hload hsame, ?_⟩
          rw [hload hsame, if_pos hg, if_neg hs, hagain]
          rfl
    · rw [if_neg hg] at h
      cases h

theorem Ratchet.keepsGroups (R : Ratchet X) : KeepsGroups X :=
  fun _ _ _ _ _ _ h => (moved_once R h).1

/-! ## What a kill costs -/

/-- A kill after the engine moved, and before the row is marked: the pass after it has the
engine refuse the event. That changes nothing, unless the event was a message it had read. -/
theorem rerun_moved (R : Ratchet X) {b : Client D} {d d' : D} {pre rest : List PendingMls}
    {item : PendingMls} {mark : Mark} (h : Standing X b pre (item :: rest)) (he : b.e2ee = some d)
    (hv : b.verdict X item = .take (some d') mark) :
    SameOutcome R.epoch (process_inbound_mls.run (Client.local_ X) (b.hold X d')).2
      (b.digestAll X (item :: rest)) ↔ ¬ mark.isText = true := by
  have hjudge : judge X b.session.user_id b.store.has_pending_send d item =
      .take (some d') mark := by
    unfold Client.verdict at hv
    rw [he] at hv
    exact hv
  obtain ⟨hgroup, hagain⟩ := moved_once R hjudge
  have hstanding : Standing X (b.hold X d') pre (item :: rest) := by
    refine ⟨h.pending, ?_⟩
    intro x hx
    exact wait_holds he (b.hold_e2ee X d') hgroup rfl rfl (h.waits x hx)
  rw [hstanding.run (b.hold_e2ee X d')]
  have hfirst : b.digest X item =
      { b.hold X d' with store := mark.write item.event_id b.store } := by
    unfold Client.digest
    rw [hv]
    rfl
  have hsecond : (b.hold X d').digest X item = { b.hold X d' with
      store := (if mark.isText then Mark.failed else mark).write item.event_id b.store } := by
    have hv' : (b.hold X d').verdict X item =
        .take none (if mark.isText then .failed else mark) := hagain
    unfold Client.digest
    rw [hv']
    rfl
  have hrun : ∀ c : Client D, c.digestAll X (item :: rest) = (c.digest X item).digestAll X rest :=
    fun _ => rfl
  rw [hrun, hrun, hfirst, hsecond]
  constructor
  · intro hsame htext
    have hnot : item.event_id ∉ rest.map PendingMls.event_id := by
      have hnodup := Store.pending_nodup h.pending
      rw [List.map_append, List.map_cons] at hnodup
      exact (List.nodup_cons.mp (List.nodup_append.mp hnodup).2.1).1
    obtain ⟨r, hr, -⟩ := waiting_row h.pending
      (List.mem_append_right pre (List.mem_cons_self (a := item) (l := rest)))
    have hid := hsame.1 item.event_id
    have hleft := digestAll_find X { b.hold X d' with
      store := (if mark.isText then Mark.failed else mark).write item.event_id b.store } hnot
    have hright := digestAll_find X
      { b.hold X d' with store := mark.write item.event_id b.store } hnot
    unfold Store.outcome at hid
    rw [hleft, hright] at hid
    have hfailed := outcome_marked hr Mark.failed
    have hkept := outcome_marked hr mark
    unfold Store.outcome at hfailed hkept
    rw [if_pos htext] at hid
    simp only at hid
    rw [hfailed, hkept] at hid
    cases mark with
    | processed => cases htext
    | failed => cases htext
    | text plaintext =>
      have hflag : decide (DECRYPT_FAILED = DECRYPT_FAILED) =
          decide (DECRYPT_OK = DECRYPT_FAILED) :=
        congrArg (fun o => (o.map Prod.snd).getD false) hid
      simp [DECRYPT_OK, DECRYPT_FAILED] at hflag
  · intro htext
    rw [if_neg htext]
    exact SameOutcome.refl R.epoch _

/-- A pass is killed at any point, the app is launched again, and the pass runs again: it ends
with the plaintexts, the undecryptable messages and the epochs of a pass that is not killed, if
and only if the kill does not fall between a decrypt that gave a plaintext and the write of it. -/
theorem a_kill_loses_nothing_iff (R : Ratchet X) (c : Client D) (d : D) (h : Durable X c d)
    (n : Nat) (whoami : Except ApiError Unit) (c' : Client D)
    (hc' : (restore_session X whoami calmly
      (Prog.cut (Client.local_ X) n process_inbound_mls c).2.host).1 = .ok (some c')) :
    SameOutcome R.epoch (process_inbound_mls.run (Client.local_ X) c').2
        (process_inbound_mls.run (Client.local_ X) c).2 ↔
      ¬ BetweenWrites (Prog.cut (Client.local_ X) n process_inbound_mls c).1 := by
  cases hp : c.store.pending_mls with
  | error e =>
    obtain ⟨hstate, hnot⟩ := cut_unread_pass h.engine hp n
    rw [hstate] at hc'
    rw [h.relaunch R hc']
    exact ⟨fun _ => hnot, fun _ => SameOutcome.refl R.epoch _⟩
  | ok items =>
    obtain ⟨pre, rest, rfl, hsplit⟩ := (cut_process_inbound_mls h.engine hp n).split
    have hstart : Standing X c [] (pre ++ rest) := ⟨hp, fun x hx => absurd hx List.not_mem_nil⟩
    obtain ⟨pre', hstanding⟩ := hstart.digestAll R.keepsGroups pre h.engine
    obtain ⟨d₁, hdurable⟩ := h.digestAll pre
    have hwhole : (process_inbound_mls.run (Client.local_ X) c).2 =
        (c.digestAll X pre).digestAll X rest := by
      rw [run_process_inbound_mls X h.engine hp, Client.digestAll_append]
    rcases hsplit with ⟨hstate, hnot⟩ | ⟨item, rest', d₂, mark, rfl, hv, hstate, hbetween⟩
    · rw [hstate] at hc'
      rw [hdurable.relaunch R hc', hstanding.run hdurable.engine, hwhole]
      exact ⟨fun _ => hnot, fun _ => SameOutcome.refl R.epoch _⟩
    · rw [hstate] at hc'
      rw [(hdurable.hold (Client.verdict_moves X hdurable.engine hv)).relaunch R hc', hwhole,
        hbetween]
      exact rerun_moved R hstanding hdurable.engine hv

/-! ## One message, killed between its two writes -/

/-- An engine whose state is a text. It reads what is longer than all that it has read. -/
def lengthCrypto : PigeonCrypto String where
  new _ := .ok ""
  load_group _ _ := true
  create_group d _ := .ok d
  add_member d _ _ := .ok (d, d, d)
  process_commit d _ commit :=
    if d.length < commit.length then .ok commit else .error "not the next commit"
  join_from_welcome d _ := .ok d
  encrypt d _ plaintext := .ok (d, plaintext)
  decrypt d _ ciphertext :=
    if d.length < ciphertext.length then .ok (ciphertext, some ciphertext)
    else .error "the key is gone"
  new_key_packages d n := .ok (d, List.replicate n "key-package")
  new_last_resort_key_package d := .ok (d, "key-package")
  signature_public_key _ := "key"
  export_storage d := d
  restore _ _ blob := .ok blob

def lengthRatchet : Ratchet lengthCrypto where
  epoch d _ := some d.length
  load_group _ _ := rfl
  restore_export _ _ _ := rfl
  commit_once d room commit d' h := by
    by_cases hlt : d.length < commit.length
    · have hd : commit = d' := by
        simpa [lengthCrypto, hlt] using h
      subst hd
      exact ⟨⟨"not the next commit", by simp [lengthCrypto]⟩, fun _ => rfl⟩
    · simp [lengthCrypto, hlt] at h
  decrypt_once d room ct d' text h := by
    by_cases hlt : d.length < ct.length
    · have hd : ct = d' ∧ some ct = text := by
        simpa [lengthCrypto, hlt] using h
      obtain ⟨rfl, -⟩ := hd
      exact ⟨⟨"the key is gone", by simp [lengthCrypto]⟩, fun _ => rfl⟩
    · simp [lengthCrypto, hlt] at h

/-- The event of a message to `!room`. -/
def letterEvent : Json :=
  .obj [("event_id", .str "$letter"), ("room_id", .str "!room"),
    ("sender", .str "@bob:pigeon.example"),
    ("type", .str "p.room.encrypted"), ("origin_server_ts", .num 8), ("depth", .num 3),
    ("content", .obj [("algorithm", .str "p.mls.1"), ("ciphertext", .str "hi")])]

def letterSession : Session := ⟨"@ann:pigeon.example", "ANN1", "https://pigeon.example"⟩

/-- A client with that message waiting. -/
def letterClient : Client String :=
  (Client.local_ lengthCrypto (.apply_events [letterEvent])
    { api := Api.new letterSession.server (some "token")
      session := letterSession
      store := Store.init
      e2ee := some ""
      key_store := (E2ee.persist lengthCrypto ""
        (ks_put (some Table.empty) SESSION_KEY (encode_session letterSession "token") .none).2
        .none).2 }).2

theorem letter_durable : Durable lengthCrypto letterClient "" :=
  ⟨rfl, .new rfl, ⟨"token", rfl, rfl⟩, rfl⟩

/-- The client, killed after the decrypt. -/
def killedClient : Client String :=
  (Prog.cut (Client.local_ lengthCrypto) 5 process_inbound_mls letterClient).2

theorem killed_relaunch :
    (restore_session lengthCrypto (.ok ()) calmly killedClient.host).1 = .ok (some killedClient) :=
    rfl

theorem a_kill_loses_nothing_iff_letter :
    SameOutcome lengthRatchet.epoch
      (process_inbound_mls.run (Client.local_ lengthCrypto) killedClient).2
        (process_inbound_mls.run (Client.local_ lengthCrypto) letterClient).2 ↔
      ¬ BetweenWrites (Prog.cut (Client.local_ lengthCrypto) 5 process_inbound_mls
        letterClient).1 :=
  a_kill_loses_nothing_iff lengthRatchet letterClient "" letter_durable 5 (.ok ()) killedClient
    killed_relaunch

/-- A kill does make a message undecryptable. -/
theorem a_kill_loses_the_letter :
    ¬ ∀ (n : Nat) (whoami : Except ApiError Unit) (c' : Client String),
    (restore_session lengthCrypto whoami calmly
      (Prog.cut (Client.local_ lengthCrypto) n process_inbound_mls letterClient).2.host).1 =
        .ok (some c') →
    SameOutcome lengthRatchet.epoch (process_inbound_mls.run (Client.local_ lengthCrypto) c').2
      (process_inbound_mls.run (Client.local_ lengthCrypto) letterClient).2 := by
  intro h
  have hsame := (h 5 (.ok ()) killedClient killed_relaunch).1 "$letter"
  have hkilled : (process_inbound_mls.run (Client.local_ lengthCrypto) killedClient).2.store.outcome
      "$letter" = some (none, true) := rfl
  have hwhole : (process_inbound_mls.run (Client.local_ lengthCrypto) letterClient).2.store.outcome
      "$letter" = some (some "hi", false) := rfl
  rw [hkilled, hwhole] at hsame
  cases hsame

end PigeonMobile
