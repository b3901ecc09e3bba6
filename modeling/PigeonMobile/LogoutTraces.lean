-- What a history leaves on the phone. No step takes the key store away, and a logout with
-- no error wipes what it holds of the session, so two histories leave hosts that differ
-- in their rows at most. Each row and the sync token give themselves away in the room
-- list, in a sync, in a flush or in a backfill of the next user.
import PigeonMobile.EngineSteps
import PigeonMobile.StoreFacts
import PigeonMobile.Sync
import PigeonMobile.EpochGroup
import Mathlib.Data.List.Dedup

namespace PigeonMobile

variable {D : Type} (X : PigeonCrypto D) (from_str : String → Option Json)

/-! ## What a history leaves -/

theorem put_installed (ks : Option KeyMap) (key : String) (value : Json) (fault : Fault) :
    (ks_put ks key value fault).2.isSome = ks.isSome := by
  cases ks with
  | none => rfl
  | some m => cases fault <;> rfl

theorem delete_installed (ks : Option KeyMap) (key : String) (fault : Fault) :
    (ks_delete ks key fault).2.isSome = ks.isSome := by
  cases ks with
  | none => rfl
  | some m => cases fault <;> rfl

theorem perform_installed (op : Op) (choice : op.Choice) (c : Client D) :
    (Client.perform X op choice c).2.key_store.isSome = c.key_store.isSome := by
  by_cases hop : op.deletesKey = false
  · exact (perform_step (X := X) hop choice c).entry.1
  · cases op with
    | ks_delete key => exact delete_installed c.key_store key choice
    | _ => exact absurd rfl hop

/-- The key store of the phone, whether the app runs or not. -/
def Phone.key_store : Phone D → Option KeyMap
  | .closed h => h.key_store
  | .opened c => c.key_store

theorem login_installed (server : String) (answer : Except ApiError Json) (f : SessionFaults)
    (h : Host) : (login X server answer f h).2.key_store.isSome = h.key_store.isSome ∧
      ∀ c, (login X server answer f h).1 = .ok c → c.key_store.isSome = h.key_store.isSome := by
  simp only [login]
  cases answer.bind parse_auth with
  | error err => exact ⟨rfl, fun c hc => by cases hc⟩
  | ok auth =>
    have hput := put_installed h.key_store SESSION_KEY
      (encode_session ⟨auth.user_id, auth.device_id, server⟩ auth.access_token) f.session
    simp only [finish_login]
    generalize ks_put h.key_store SESSION_KEY _ f.session = o at hput ⊢
    obtain ⟨r, ks'⟩ := o
    cases r with
    | error e => exact ⟨hput, fun c hc => by cases hc⟩
    | ok b =>
      cases open_store h.file f.store with
      | error e => exact ⟨hput, fun c hc => by cases hc⟩
      | ok store =>
        have hmint := (mint_entry (X := X) auth.user_id ks' f.mls_put).1.trans hput
        exact ⟨hmint, fun c hc => by cases hc; exact hmint⟩

theorem restore_installed (whoami : Except ApiError Unit) (f : SessionFaults) (h : Host) :
    (restore_session X whoami f h).2.key_store.isSome = h.key_store.isSome ∧
      ∀ c, (restore_session X whoami f h).1 = .ok (some c) →
        c.key_store.isSome = h.key_store.isSome := by
  have hresume : ∀ session token,
      (resume X session token f h).2.key_store.isSome = h.key_store.isSome ∧
      ∀ c, (resume X session token f h).1 = .ok (some c) →
        c.key_store.isSome = h.key_store.isSome := by
    intro session token
    have hmint : (restore_or_mint_e2ee X session.user_id h.key_store f).2.isSome =
        h.key_store.isSome := by
      unfold restore_or_mint_e2ee
      rcases E2ee.restore X session.user_id h.key_store f.mls_get with e | (_ | d)
      · exact (mint_entry session.user_id h.key_store f.mls_put).1
      · exact (mint_entry session.user_id h.key_store f.mls_put).1
      · rfl
    simp only [resume]
    cases open_store h.file f.store with
    | error e => exact ⟨hmint, fun c hc => by cases hc⟩
    | ok store => exact ⟨hmint, fun c hc => by cases hc; exact hmint⟩
  have hdrop : (drop_session (D := D) f.session_delete h).2.key_store.isSome = h.key_store.isSome ∧
      ∀ c, (drop_session (D := D) f.session_delete h).1 = .ok (some c) →
        c.key_store.isSome = h.key_store.isSome := by
    have hdel := delete_installed h.key_store SESSION_KEY f.session_delete
    simp only [drop_session]
    generalize ks_delete h.key_store SESSION_KEY f.session_delete = o at hdel ⊢
    obtain ⟨r, ks'⟩ := o
    cases r with
    | error e => exact ⟨hdel, fun c hc => by cases hc⟩
    | ok u => exact ⟨hdel, fun c hc => by cases hc⟩
  simp only [restore_session]
  rcases ks_get h.key_store SESSION_KEY f.session with e | (_ | bytes)
  · exact ⟨rfl, fun c hc => by cases hc⟩
  · exact ⟨rfl, fun c hc => by cases hc⟩
  · rcases hdec : decode_session bytes with e | ⟨session, token⟩
    · simp only [hdec]
      exact ⟨trivial, fun c hc => by cases hc⟩
    · simp only [hdec]
      rcases whoami with (⟨status, code, message⟩ | reason | reason) | u
      · cases code with
        | UnknownToken | MissingToken => exact hdrop
        | Forbidden | BadJson | NotJson | NotFound | LimitExceeded | BadSignature | Unrecognized
        | UserInUse | InvalidUsername | Unknown | Other => exact ⟨rfl, fun c hc => by cases hc⟩
      · exact hresume session token
      · exact ⟨rfl, fun c hc => by cases hc⟩
      · exact hresume session token

/-- A key store is installed at startup, and no step takes it away. -/
theorem Use.installed {user : String} {p p' : Phone D} (h : Use X user p p') :
    p'.key_store.isSome = p.key_store.isSome := by
  cases h with
  | @login h h' c server answer f hl _ =>
    exact (login_installed X server answer f h).2 c (congrArg Prod.fst hl)
  | @login_fails h h' e server answer f hl =>
    have h1 := (login_installed X server answer f h).1
    rw [hl] at h1
    exact h1
  | @launch h h' c whoami f hl =>
    exact (restore_installed X whoami f h).2 c (congrArg Prod.fst hl)
  | @launch_fails h h' r whoami f _ hl =>
    have h1 := (restore_installed X whoami f h).1
    rw [hl] at h1
    exact h1
  | @call c c' op r hc =>
    obtain ⟨choice, hc⟩ := hc
    have h1 := perform_installed X op choice c
    rw [hc] at h1
    exact h1
  | kill => rfl

theorem Use.installed_run {user : String} {p p' : Phone D}
    (h : Relation.ReflTransGen (Use X user) p p') : p'.key_store.isSome = p.key_store.isSome := by
  induction h with
  | refl => rfl
  | tail _ hs ih => exact (hs.installed X).trans ih

theorem exec_ks_delete {c c' : Client D} {key : String} {r : Except CoreError Unit}
    (h : Client.Exec X (.ks_delete key) c r c') : ∃ fault, r = (ks_delete c.key_store key fault).1 ∧
      c' = { c with key_store := (ks_delete c.key_store key fault).2 } := by
  obtain ⟨fault, h⟩ := h
  cases h
  exact ⟨fault, rfl, rfl⟩

/-- A delete with no error leaves no entry of the key, and no other one changed. -/
theorem delete_ok {ks : Option KeyMap} {key : String} {fault : Fault}
    (h : (ks_delete ks key fault).1 = .ok ()) (k : String) :
    ks_get (ks_delete ks key fault).2 k .none =
      if k = key then .ok none else ks_get ks k .none := by
  rcases ks_delete_cases ks key fault with ⟨-, -, e, hdelete⟩ | ⟨-, ks', hdelete, hget⟩
  · rw [hdelete] at h
    cases h
  · rw [hdelete]
    exact hget k

/-- A logout with no error wipes both entries. The rows stay. -/
theorem logout_wipes {c c' : Client D} {es : List (Prog.Event (Client D) Op Op.Res)}
    (h : Prog.Runs (Client.Exec X) Eq logout c es (.done (.ok ())) c') :
    c'.store = c.store ∧ c'.key_store.isSome = c.key_store.isSome ∧
      ∀ key, key = SESSION_KEY ∨ key = MLS_STATE_KEY →
        ks_get c'.key_store key .none = .ok none := by
  rcases h.call_inv with ⟨-, hp, -⟩ | ⟨r₁, c₁, _, es₁, ⟨choice, hc⟩, rfl, -, h⟩
  · cases hp
  cases hc
  rcases h.call_inv with ⟨-, hp, -⟩ | ⟨r₂, c₂, _, es₂, hc, rfl, -, h⟩
  · cases hp
  obtain ⟨fault₂, rfl, rfl⟩ := exec_ks_delete X hc
  cases hr₂ : (ks_delete c.key_store SESSION_KEY fault₂).1 with
  | error e =>
    rw [hr₂] at h
    cases h
  | ok u =>
    rw [hr₂] at h
    rcases h.call_inv with ⟨-, hp, -⟩ | ⟨r₃, c₃, _, es₃, hc, rfl, -, h⟩
    · cases hp
    obtain ⟨fault₃, rfl, rfl⟩ := exec_ks_delete X hc
    simp only at hr₂ h
    cases hr₃ : (ks_delete (ks_delete c.key_store SESSION_KEY fault₂).2 MLS_STATE_KEY fault₃).1 with
    | error e =>
      rw [hr₃] at h
      cases h
    | ok u =>
      rw [hr₃] at h
      obtain ⟨-, -, rfl⟩ := h.done_inv
      refine ⟨rfl, ?_, ?_⟩
      · simp only [delete_installed]
      · intro key hkey
        simp only
        rw [delete_ok hr₃, delete_ok hr₂]
        rcases hkey with rfl | rfl
        · simp
        · simp

/-- What two histories on one phone leave is the same but for the rows. -/
theorem LogsOut.alike {user : String} {h h₁ h₂ : Host} (h1 : LogsOut X user h h₁)
    (h2 : LogsOut X user h h₂) (hfile : h₁.file = h₂.file) : h₁.Alike h₂ := by
  obtain ⟨c₁, d₁, es₁, huse₁, hout₁, rfl⟩ := h1
  obtain ⟨c₂, d₂, es₂, huse₂, hout₂, rfl⟩ := h2
  obtain ⟨-, hsome₁, hget₁⟩ := logout_wipes X hout₁
  obtain ⟨-, hsome₂, hget₂⟩ := logout_wipes X hout₂
  have hin₁ := Use.installed_run X huse₁
  have hin₂ := Use.installed_run X huse₂
  refine ⟨hfile, (hsome₁.trans hin₁).trans (hsome₂.trans hin₂).symm, ?_⟩
  intro key hkey
  exact (hget₁ key hkey).trans (hget₂ key hkey).symm

/-! ## What gives a row away -/

/-- The code of the client is part of what a user can do. -/
def ofCode {α : Type} : Code α → Life α
  | .done a => .done a
  | .call op k => .call (.call op) (fun r => ofCode (k r))

/-- Surroundings that answer each call in one way. -/
def plainly (choose : (op : Op) → op.Choice) : Env Unit
  | .call op, t => (choose op, t)
  | .restart, t => ((.ok (), ⟨.none, .none, .none, .none, .none⟩), t)

theorem run_ofCode {α : Type} (choose : (op : Op) → op.Choice) (p : Code α) (c : Client D) :
    ((ofCode p).run ((plainly choose).answer X) (c, ())).1 =
      (p.run (Client.under X choose) c).1 := by
  induction p generalizing c with
  | done a => rfl
  | call op k ih =>
    rw [Prog.run_call, ← ih]
    rfl

theorem SameSession.value {c₁ c₂ : Client D} (h : SameSession X from_str c₁ c₂) {α : Type}
    (choose : (op : Op) → op.Choice) (p : Code α) :
    (p.run (Client.under X choose) c₁).1 =
      (p.run (Client.under X choose) c₂).1 := by
  have h1 := (h Unit α (plainly choose) () (ofCode p)).1
  rw [run_ofCode, run_ofCode] at h1
  exact h1

/-- A server that turns down a sync from the start, and is gone for any other. -/
def askToken : (op : Op) → op.Choice
  | .api_sync none => .error (.Malformed "")
  | .api_sync (some _) => .error (.Network "")
  | op => Client.calm op

theorem sync_tells_token (c : Client D) :
    ((sync_round 0).run (Client.under X askToken) c).1 =
      if c.store.sync_token = none then .error (.Protocol "") else .ok 0 := by
  obtain ⟨api, session, ⟨token, events, room_state, pending⟩, e2ee, ks⟩ := c
  cases token with
  | none => rfl
  | some token => rfl

/-- A server that takes every message. -/
def takeAll : (op : Op) → op.Choice
  | .api_send_event _ _ _ _ => .ok "$x"
  | op => Client.calm op

/-- Calls that write nothing to the tables leave them. -/
theorem run_quiet {α : Type} (choose : (op : Op) → op.Choice) {p : Code α}
    (hp : p.All (fun op => Client.writesStore op = false)) (c : Client D) :
    (p.run (Client.under X choose) c).2.store = c.store := by
  induction p generalizing c with
  | done a => rfl
  | call op k ih =>
    rw [Prog.run_call, ih _ (hp.2 _)]
    exact Client.perform_store hp.1 _ c

theorem quiet_encrypt_for_send (room_id body : String) :
    (encrypt_for_send room_id body).All (fun op => Client.writesStore op = false) := by
  refine ⟨rfl, ?_⟩
  rintro (_ | _)
  · trivial
  · refine ⟨rfl, ?_⟩
    rintro (e | _ | _)
    · trivial
    · trivial
    · refine ⟨rfl, ?_⟩
      rintro (e | ct) <;> trivial

/-- With no room state, nothing refers to an event, so no acknowledgement fails. -/
theorem resolve_send_stateless {st : Store} (h : st.room_state.rows = []) (txn_id id : String) :
    ∃ st', st.resolve_send txn_id id = .ok st' ∧ st'.room_state.rows = [] := by
  unfold Store.resolve_send
  cases st.pending_sends.find txn_id with
  | none => exact ⟨_, rfl, h⟩
  | some p =>
    have href : st.referenced p.event_id = false := by simp [Store.referenced, h]
    simp only [href]
    by_cases hid : (st.events.find id).isSome = true
    · simp only [hid, if_true]
      exact ⟨_, rfl, h⟩
    · simp only [hid]
      exact ⟨_, rfl, h⟩

theorem fail_send_stateless {st : Store} (h : st.room_state.rows = []) (txn_id : String) :
    (st.fail_send txn_id).room_state.rows = [] := by
  unfold Store.fail_send
  cases st.pending_sends.find txn_id with
  | none => exact h
  | some p => exact h

/-- The server takes the message, or the engine fails on it: it does not stay queued. -/
theorem flush_one_settles (send : PendingSend) (c : Client D) (h : c.store.room_state.rows = []) :
    ((flush_one send).run (Client.under X takeAll) c).1 = .ok .settled ∧
      ((flush_one send).run (Client.under X takeAll) c).2.store.room_state.rows
        = [] := by
  have htransmit : ∀ event_type content (c : Client D), c.store.room_state.rows = [] →
      ((transmit send event_type content).run (Client.under X takeAll) c).1 =
        .ok .settled ∧
      ((transmit send event_type content).run (Client.under X takeAll)
        c).2.store.room_state.rows = [] := by
    intro event_type content c hc
    obtain ⟨st', hst, hrows⟩ := resolve_send_stateless hc send.txn_id "$x"
    simp only [transmit, Prog.run_call, Client.under, Client.perform, takeAll, Client.calm,
      Client.onStore, hst, Except.map, Prog.run_done]
    exact ⟨trivial, hrows⟩
  unfold flush_one
  rw [Prog.run_bind]
  have hquiet := run_quiet X takeAll (quiet_encrypt_for_send send.room_id send.body) c
  generalize (encrypt_for_send send.room_id send.body).run
    (Client.under X takeAll) c = o at hquiet ⊢
  obtain ⟨r, c'⟩ := o
  have hc' : c'.store.room_state.rows = [] := by
    have hst : c'.store = c.store := hquiet
    rw [hst]
    exact h
  rcases r with e | (_ | ct)
  · simp only [settle_failed, Prog.run_call, Client.under, Client.perform, takeAll, Client.calm,
      Client.onStore, Prog.run_done]
    exact ⟨trivial, fail_send_stateless hc' send.txn_id⟩
  · have hplain : c'.store.is_room_encrypted send.room_id = false := by
      simp [Store.is_room_encrypted, hc']
    simp only [Prog.run_call, Client.under, Client.perform, takeAll, Client.calm, Client.onStore,
      hplain]
    exact htransmit _ _ c' hc'
  · exact htransmit _ _ c' hc'

theorem flush_sends_tell (sends : List PendingSend) (changed : Bool) (c : Client D)
    (h : c.store.room_state.rows = []) :
    ((flush_sends sends changed).run (Client.under X takeAll) c).1 =
      .ok (changed || !sends.isEmpty) := by
  induction sends generalizing changed c with
  | nil => simp [flush_sends]
  | cons send rest ih =>
    obtain ⟨h1, h2⟩ := flush_one_settles X send c h
    unfold flush_sends Prog.andThen
    rw [Prog.run_bind]
    simp only [h1]
    rw [ih true _ h2]
    simp

theorem flush_tells_queue (c : Client D) (h : c.store.room_state.rows = []) :
    (flush_pending.run (Client.under X takeAll) c).1 =
      .ok (!c.store.pending_sends.rows.isEmpty) := by
  have hempty : c.store.pending_sends_list.isEmpty = c.store.pending_sends.rows.isEmpty := by
    unfold Store.pending_sends_list
    rw [List.isEmpty_map]
    have hlen := List.length_insertionSort (fun a b : PendingRow => a.position ≤ b.position)
      c.store.pending_sends.rows
    cases hrows : c.store.pending_sends.rows with
    | nil => rfl
    | cons p rest =>
      rw [hrows] at hlen
      cases hsorted :
        (p :: rest).insertionSort (fun a b : PendingRow => a.position ≤ b.position) with
      | nil =>
        rw [hsorted] at hlen
        simp at hlen
      | cons p' rest' => rfl
  have hsends := flush_sends_tell X c.store.pending_sends_list false c h
  simp only [flush_pending, Prog.run_call, Client.under, Client.perform, takeAll, Client.calm,
    Client.onStore, Prog.run_bind, Prog.run_done]
  rw [hempty] at hsends
  exact hsends

/-- A message with the id of an event. -/
def noteOf (event_id : String) : Json := Store.echoPayload event_id "!r" "@s" "" 0 1

/-- A server whose backfill is the event of one id. -/
def sendBack (event_id : String) : (op : Op) → op.Choice
  | .api_messages _ _ => .ok (.obj [("chunk", .arr [noteOf event_id])])
  | op => Client.calm op

theorem apply_note (st : Store) (event_id : String) :
    ∃ st', st.apply_events [noteOf event_id] =
      .ok (if (st.events.find event_id).isNone then 1 else 0, st') := ⟨_, rfl⟩

/-- A backfill that succeeds gives the number of new rows. -/
theorem fetch_counts (c : Client D) (event_id : String) (n : Nat)
    (h : ((fetch_messages "!r" 1).run (Client.under X (sendBack event_id))
      c).1 = .ok n) : n = if (c.store.events.find event_id).isNone then 1 else 0 := by
  obtain ⟨st', hst⟩ := apply_note c.store event_id
  have happly : Client.under X (sendBack event_id) (.apply_events [noteOf event_id]) c =
      (.ok (if (c.store.events.find event_id).isNone then 1 else 0), { c with store := st' }) := by
    simp only [Client.under, Client.perform, sendBack, Client.calm, Client.onStore, hst]
  have hresp : sendBack event_id (.api_messages "!r" 1) =
      .ok (.obj [("chunk", .arr [noteOf event_id])]) := rfl
  rw [fetch_run X (sendBack event_id) hresp happly, Prog.andThen, Prog.run_bind] at h
  generalize process_inbound_mls.run (Client.under X (sendBack event_id))
    { c with store := st' } = o at h
  obtain ⟨r, c'⟩ := o
  cases r with
  | error e => cases h
  | ok b =>
    simp only [Prog.run_done, Except.ok.injEq] at h
    exact h.symm

theorem fetch_on_empty {c : Client D} (h : c.store = Store.init) (event_id : String) :
    ((fetch_messages "!r" 1).run (Client.under X (sendBack event_id)) c).1 =
      .ok 1 := by
  obtain ⟨api, session, store, e2ee, ks⟩ := c
  obtain rfl : store = Store.init := h
  cases e2ee with
  | none => rfl
  | some d => rfl

theorem list_rooms_tells {st : Store} (h : st.list_rooms = .ok []) : st.room_state.rows = [] := by
  unfold Store.list_rooms at h
  rw [mapM_ok_iff, List.forall₂_nil_right_iff] at h
  have hlen := congrArg List.length h
  rw [List.length_insertionSort, List.length_nil, List.length_eq_zero_iff] at hlen
  rw [List.dedup_eq_nil, List.map_eq_nil_iff] at hlen
  exact hlen

theorem table_empty {α κ : Type} {key : α → κ} {t : Table key} (h : t.rows = []) :
    t = Table.empty := by
  obtain ⟨rows, nodup⟩ := t
  obtain rfl : rows = [] := h
  rfl

/-- A session that is the same as one over an empty store is over an empty store. -/
theorem SameSession.no_trace {c₁ c₂ : Client D} (h : SameSession X from_str c₁ c₂)
    (hinit : c₂.store = Store.init) : c₁.store = Store.init := by
  have htoken : c₁.store.sync_token = none := by
    have hval := h.value X from_str askToken (sync_round 0)
    rw [sync_tells_token, sync_tells_token, hinit] at hval
    by_contra hne
    rw [if_neg hne] at hval
    cases hval
  have hrooms : c₁.store.room_state.rows = [] := by
    have hlist := (h Unit Unit (plainly Client.calm) () (.done ())).2.2.1
    simp only [Prog.run_done, hinit] at hlist
    exact list_rooms_tells hlist
  have hqueue : c₁.store.pending_sends.rows = [] := by
    have hval := h.value X from_str takeAll flush_pending
    rw [flush_tells_queue X c₁ hrooms, flush_tells_queue X c₂ (by rw [hinit]; rfl), hinit] at hval
    have hnone : Store.init.pending_sends.rows.isEmpty = true := rfl
    rw [hnone] at hval
    have hempty : c₁.store.pending_sends.rows.isEmpty = true := by simpa using hval
    exact List.isEmpty_iff.mp hempty
  have hevents : c₁.store.events.rows = [] := by
    cases hrows : c₁.store.events.rows with
    | nil => rfl
    | cons r rest =>
      have hfind : c₁.store.events.find r.event_id = some r := by
        rw [← Table.mem_rows_iff, hrows]
        exact List.mem_cons_self
      have hval := h.value X from_str (sendBack r.event_id) (fetch_messages "!r" 1)
      rw [fetch_on_empty X hinit] at hval
      have hone := fetch_counts X c₁ r.event_id 1 hval
      rw [hfind] at hone
      cases hone
  calc c₁.store = ⟨c₁.store.sync_token, c₁.store.events, c₁.store.room_state,
        c₁.store.pending_sends⟩ := rfl
    _ = Store.init := by
      rw [htoken, table_empty hevents, table_empty hrooms, table_empty hqueue]
      rfl

/-- The answer to the login of a user. -/
def authOf (user : String) : Json :=
  .obj [("user_id", .str user), ("device_id", .str "DEV1"), ("access_token", .str "token")]

/-- A login with no fault succeeds, over the rows that are there. -/
theorem login_succeeds (user : String) (h : Host) : ∃ c h',
    login X "" (.ok (authOf user)) ⟨.none, .none, .none, .none, .none⟩ h = (.ok c, h') ∧
      c.store = h.file := by
  obtain ⟨ks, file⟩ := h
  cases ks with
  | none => exact ⟨_, _, rfl, rfl⟩
  | some m => exact ⟨_, _, rfl, rfl⟩

/-- Nor can a host be told from one with no rows, unless it has none. -/
theorem SameForOthers.no_trace {user : String} {h₁ h₂ : Host}
    (h : SameForOthers X from_str user h₁ h₂) (hinit : h₂.file = Store.init) :
    h₁.file = Store.init := by
  have hother : user ++ "2" ≠ user := by
    intro heq
    have hlen := congrArg String.length heq
    rw [String.length_append] at hlen
    simp at hlen
  obtain ⟨c₁, h₁', hlogin₁, hstore₁⟩ := login_succeeds X (user ++ "2") h₁
  obtain ⟨c₂, h₂', hlogin₂, hstore₂⟩ := login_succeeds X (user ++ "2") h₂
  have hauth : ∀ auth, (Except.ok (authOf (user ++ "2")) : Except ApiError Json).bind parse_auth =
      .ok auth → auth.user_id ≠ user := by
    intro auth hparse
    have hok : (Except.ok (authOf (user ++ "2")) : Except ApiError Json).bind parse_auth =
        .ok ⟨user ++ "2", "DEV1", "token"⟩ := rfl
    rw [hok] at hparse
    cases hparse
    exact hother
  rcases h "" _ ⟨.none, .none, .none, .none, .none⟩ hauth with
    ⟨e, he, -⟩ | ⟨d₁, d₂, hd₁, hd₂, hsame⟩
  · rw [hlogin₁] at he
    cases he
  · rw [hlogin₁] at hd₁
    rw [hlogin₂] at hd₂
    cases hd₁
    cases hd₂
    rw [← hstore₁]
    exact hsame.no_trace X from_str (hstore₂.trans hinit)

/-! ## Accounts on one phone -/

/-- Two histories of a user that leave the same rows and sync token cannot be told apart by
any other user. A history can be told from one that leaves none unless it leaves none. -/
theorem next_user_sees_the_rows_left (user : String) (h h₁ h₂ : Host) (h1 : LogsOut X user h h₁)
    (h2 : LogsOut X user h h₂) :
    (h₁.file = h₂.file → SameForOthers X from_str user h₁ h₂) ∧
      (h₂.file = Store.init → (SameForOthers X from_str user h₁ h₂ ↔ h₁.file = Store.init)) := by
  refine ⟨fun hfile => (h1.alike X h2 hfile).same X from_str user, ?_⟩
  intro hinit
  constructor
  · intro hsame
    exact hsame.no_trace X from_str hinit
  · intro hfile
    exact (h1.alike X h2 (hfile.trans hinit.symm)).same X from_str user

/-! ## A message that is left in the queue -/

def newPhone : Host := ⟨some Table.empty, Store.init⟩

def annSession : Session := ⟨"@ann:pigeon.example", "DEV1", "https://pigeon.example"⟩

/-- Ann, after her login. -/
def annClient : Client Copies :=
  { api := ⟨"https://pigeon.example", some "token"⟩
    session := annSession
    store := Store.init
    e2ee := some Table.empty
    key_store := (mint_e2ee epochCrypto annSession.user_id
      (ks_put newPhone.key_store SESSION_KEY (encode_session annSession "token") .none).2 .none).2 }

/-- Ann, after she wrote to `!dm` offline. -/
def annQueued : Client Copies :=
  (Client.perform epochCrypto (.queue_send "!dm" "@ann:pigeon.example" "secret")
    (.none, next_send_ids 7 0, 7) annClient).2

/-- The host after a logout from a client. -/
def loggedOut (c : Client Copies) : Host :=
  (Client.local_ epochCrypto (.ks_delete MLS_STATE_KEY)
    (Client.local_ epochCrypto (.ks_delete SESSION_KEY) c).2).2.host

theorem ann_logs_in : Relation.ReflTransGen (Use epochCrypto "@ann:pigeon.example")
    (.closed newPhone) (.opened annClient) := by
  have hlogin : login epochCrypto "https://pigeon.example" (.ok (authOf "@ann:pigeon.example"))
      ⟨.none, .none, .none, .none, .none⟩ newPhone = (.ok annClient, annClient.host) := rfl
  exact Relation.ReflTransGen.single (Use.login hlogin rfl)

theorem ann_logs_out {c : Client Copies}
    (h : Relation.ReflTransGen (Use epochCrypto "@ann:pigeon.example") (.closed newPhone)
      (.opened c))
    (hks : c.key_store.isSome = true) :
    LogsOut epochCrypto "@ann:pigeon.example" newPhone (loggedOut c) := by
  obtain ⟨api, session, store, e2ee, ks⟩ := c
  obtain ⟨m, rfl⟩ := Option.isSome_iff_exists.mp hks
  have h1 : Client.Exec epochCrypto .api_logout ⟨api, session, store, e2ee, some m⟩
      (.error (.Network "offline")) ⟨api, session, store, e2ee, some m⟩ :=
    ⟨.error (.Network "offline"), rfl⟩
  have h2 : Client.Exec epochCrypto (.ks_delete SESSION_KEY) ⟨api, session, store, e2ee, some m⟩
      (.ok ()) ⟨api, session, store, e2ee, some (m.erase SESSION_KEY)⟩ := ⟨.none, rfl⟩
  have h3 : Client.Exec epochCrypto (.ks_delete MLS_STATE_KEY)
      ⟨api, session, store, e2ee, some (m.erase SESSION_KEY)⟩ (.ok ())
      ⟨api, session, store, e2ee, some ((m.erase SESSION_KEY).erase MLS_STATE_KEY)⟩ := ⟨.none, rfl⟩
  exact ⟨_, _, _, h, Prog.Runs.call h1 rfl (Prog.Runs.call h2 rfl (Prog.Runs.call h3 rfl
    (Prog.Runs.refl _ _))), rfl⟩

theorem ann_writes : Relation.ReflTransGen (Use epochCrypto "@ann:pigeon.example")
    (.closed newPhone) (.opened annQueued) := by
  have hsend : ∀ {c c' : Client Copies} {op : Op} {r : op.Res}, Client.Exec epochCrypto op c r c' →
      Relation.ReflTransGen (Use epochCrypto "@ann:pigeon.example") (.closed newPhone) (.opened c) →
      Relation.ReflTransGen (Use epochCrypto "@ann:pigeon.example") (.closed newPhone)
        (.opened c') :=
    fun hc h => h.tail (Use.call hc)
  have h1 : Client.Exec epochCrypto .session annClient annSession annClient := ⟨.none, rfl⟩
  have h2 : Client.Exec epochCrypto (.queue_send "!dm" "@ann:pigeon.example" "secret") annClient
      (.ok "m7-0") annQueued := ⟨(.none, next_send_ids 7 0, 7), rfl⟩
  have h3 : Client.Exec epochCrypto .lock_send annQueued () annQueued := ⟨.none, rfl⟩
  have h4 : Client.Exec epochCrypto .pending_sends annQueued (.ok [⟨"m7-0", "!dm", "secret"⟩])
      annQueued := ⟨.none, rfl⟩
  have h5 : Client.Exec epochCrypto .e2ee annQueued true annQueued := ⟨.none, rfl⟩
  have h6 : Client.Exec epochCrypto (.has_group "!dm") annQueued (.ok false) annQueued :=
    ⟨.none, rfl⟩
  have h7 : Client.Exec epochCrypto (.is_room_encrypted "!dm") annQueued (.ok false) annQueued :=
    ⟨.none, rfl⟩
  have h8 : Client.Exec epochCrypto
      (.api_send_event "!dm" "p.room.message" "m7-0" (textContent "secret")) annQueued
      (.error (.Network "offline")) annQueued := ⟨.error (.Network "offline"), rfl⟩
  have h9 : Client.Exec epochCrypto .unlock_send annQueued () annQueued := ⟨.none, rfl⟩
  exact hsend h9 (hsend h8 (hsend h7 (hsend h6 (hsend h5 (hsend h4 (hsend h3 (hsend h2 (hsend h1
    ann_logs_in))))))))

theorem next_user_sees_the_rows_left_ann :
    ((loggedOut annQueued).file = (loggedOut annClient).file →
      SameForOthers epochCrypto (fun _ => none) "@ann:pigeon.example" (loggedOut annQueued)
        (loggedOut annClient)) ∧
    ((loggedOut annClient).file = Store.init →
      (SameForOthers epochCrypto (fun _ => none) "@ann:pigeon.example" (loggedOut annQueued)
        (loggedOut annClient) ↔ (loggedOut annQueued).file = Store.init)) :=
  next_user_sees_the_rows_left epochCrypto (fun _ => none) "@ann:pigeon.example" newPhone _ _
    (ann_logs_out ann_writes rfl) (ann_logs_out ann_logs_in rfl)

/-- The next user does learn of the message, and sends it. -/
theorem a_logout_leaves_the_queue : ¬ ∀ h h₁ h₂ : Host,
    LogsOut epochCrypto "@ann:pigeon.example" h h₁ →
      LogsOut epochCrypto "@ann:pigeon.example" h h₂ →
    SameForOthers epochCrypto (fun _ => none) "@ann:pigeon.example" h₁ h₂ := by
  intro h
  have hsame := h newPhone _ _ (ann_logs_out ann_writes rfl) (ann_logs_out ann_logs_in rfl)
  have hinit : (loggedOut annQueued).file = Store.init := hsame.no_trace epochCrypto _ rfl
  have hrow : (loggedOut annQueued).file.has_pending_send "!dm" = true := rfl
  rw [hinit] at hrow
  cases hrow

end PigeonMobile
