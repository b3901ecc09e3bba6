-- What the sync token stands for, over every run of the device: any number of sync loops, sends,
-- backfills and decrypt passes, their calls interleaved in any order, and the process killed at
-- any of them. The token is saved after the events, so every event that it covers is in the log.
import PigeonMobile.Batches
import PigeonMobile.ClientConduct
import PigeonMobile.FoldedState
import PigeonMobile.LogoutTraces

namespace PigeonMobile

/-! ## The feed -/

/-- What `/sync` answers. A token covers the events that were given before it, and a response
goes on from the token of its request. -/
structure SyncFeed (S : Server) where
  covers : String → Json → Prop
  answers : Option String → Json → Prop
  sends : ∀ since resp, answers since resp → ∀ j ∈ syncEvents resp, S.sends j
  goes_on : ∀ since resp next, answers since resp →
    (resp.index "next_batch").as_str = some next → ∀ j, covers next j →
      (∃ token, since = some token ∧ covers token j) ∨ j ∈ syncEvents resp

variable {D : Type} {X : PigeonCrypto D} {S : Server}

/-- What the server may answer. -/
def Answers (F : SyncFeed S) : (op : Op) → op.Res → Prop
  | .api_sync since, .ok resp => F.answers since resp
  | .api_messages _ _, .ok resp => ∀ j ∈ chunkOf resp, S.sends j
  | .api_send_event _ _ _ _, .ok id => S.acks id
  | _, _ => True

/-- What the clock and the counter may give. -/
def Clocked : (op : Op) → op.Choice → Prop
  | .queue_send _ _ _, choice =>
    (∃ ts n, choice.2.1 = next_send_ids ts n) ∧ Json.inI64 choice.2.2 = true
  | _, _ => True

/-- One call of the device. -/
def DeviceCall (X : PigeonCrypto D) (F : SyncFeed S) (op : Op) (c : Client D) (r : op.Res)
    (c' : Client D) : Prop :=
  ∃ choice, Client.perform X op choice c = (r, c') ∧ Clocked op choice ∧ Answers F op r

/-- What a program gives the store: events and ids that came from the server. -/
def Given (S : Server) : Op → Prop
  | .apply_events events => ∀ j ∈ events, S.sends j
  | .resolve_send _ id => S.acks id
  | _ => True

/-- The device: sync loops, backfills, sends, decrypt passes, and any code that leaves the store
alone, each as often as one likes. A restart has the store of the process before it. -/
def device (X : PigeonCrypto D) (F : SyncFeed S) : Threaded Nat (Client D) Op Op.Res where
  call _ := DeviceCall X F
  start _ _ p := (∃ rounds backoff, p = (run_sync rounds backoff).forget) ∨
    (∃ room_id limit, p = (fetch_messages room_id limit).forget) ∨
    (∃ room_id body, p = (send_message room_id body).forget) ∨ p = flush_pending.forget ∨
    p = process_inbound_mls.forget ∨ p.All (fun op => Client.writesStore op = false)
  drop _ c c' := c' = c
  env c c' := c'.store = c.store
  restart c c' := c'.store = c.store

/-! ## What a call does to the store -/

/-- A call runs one method of the store, or none, and only the save moves the token. -/
structure Moved (S : Server) (op : Op) (st st' : Store) : Prop where
  steps : StoreSteps S st st'
  token : (∀ token, op ≠ .save_sync_token token) → st'.sync_token = st.sync_token

theorem Moved.same {op : Op} {st st' : Store} (h : st' = st) : Moved S op st st' := by
  subst h
  exact ⟨Relation.ReflTransGen.refl, fun _ => rfl⟩

/-- A method that cannot fail. -/
theorem moved_write {op : Op} (f : Store → Store) {c c' : Client D} {fault : Fault}
    {r : Except CoreError Unit} (hf : Moved S op c.store (f c.store))
    (h : c.onStore fault (fun st => .ok ((), f st)) = (r, c')) : Moved S op c.store c'.store := by
  rcases Client.onStore_cases h with ⟨e, -, rfl⟩ | ⟨b, st, hst, -, rfl⟩
  · exact Moved.same rfl
  · cases hst
    exact hf

theorem Moved.single {op : Op} {st st' : Store} (h : StoreStep S st st')
    (htoken : st'.sync_token = st.sync_token) : Moved S op st st' :=
  ⟨Relation.ReflTransGen.single h, fun _ => htoken⟩

theorem resolve_send_token {st st' : Store} {txn_id id : String}
    (h : st.resolve_send txn_id id = .ok st') : st'.sync_token = st.sync_token := by
  unfold Store.resolve_send at h
  split at h
  · cases h
    rfl
  · split at h
    · cases h
    · split at h <;> cases h <;> rfl

theorem fail_send_token (st : Store) (txn_id : String) :
    (st.fail_send txn_id).sync_token = st.sync_token := by
  unfold Store.fail_send
  split <;> rfl

theorem device_call_moves {F : SyncFeed S} {op : Op} {c c' : Client D} {r : op.Res}
    (hop : Given S op) (hc : DeviceCall X F op c r c') : Moved S op c.store c'.store := by
  obtain ⟨choice, hc, hclock, -⟩ := hc
  by_cases hwrites : Client.writesStore op = false
  · have hstore := Client.perform_store hwrites choice c (X := X)
    rw [hc] at hstore
    exact Moved.same hstore
  cases op with
  | save_sync_token token =>
    have hmove : Moved S (.save_sync_token token) c.store (c.store.save_sync_token token) :=
      ⟨Relation.ReflTransGen.single (StoreStep.save_sync_token token), fun h =>
        absurd rfl (h token)⟩
    exact moved_write (fun st => st.save_sync_token token) hmove hc
  | set_decrypted id text =>
    exact moved_write (fun st => st.set_decrypted id text)
      (Moved.single (StoreStep.set_decrypted id text) rfl) hc
  | set_decrypt_failed id =>
    exact moved_write (fun st => st.set_decrypt_failed id)
      (Moved.single (StoreStep.set_decrypt_failed id) rfl) hc
  | set_commit_processed id =>
    exact moved_write (fun st => st.set_commit_processed id)
      (Moved.single (StoreStep.set_commit_processed id) rfl) hc
  | fail_send txn_id =>
    exact moved_write (fun st => st.fail_send txn_id)
      (Moved.single (StoreStep.fail_send txn_id) (fail_send_token c.store txn_id)) hc
  | apply_events events =>
    rcases Client.onStore_cases (show c.onStore choice (fun st => st.apply_events events) = (r, c')
      from hc) with ⟨e, -, rfl⟩ | ⟨n, st, hok, -, rfl⟩
    · exact Moved.same rfl
    · obtain ⟨evs, -, happ⟩ := c.store.apply_events_ok hok
      refine Moved.single (StoreStep.apply_events hop hok) ?_
      show st.sync_token = c.store.sync_token
      rw [← show (c.store.apply_parsed evs).2 = st by rw [happ]]
      exact c.store.apply_parsed_sync_token evs
  | queue_send room_id sender body =>
    obtain ⟨fault, ids, now⟩ := choice
    obtain ⟨⟨ts, n, rfl⟩, hnow⟩ := hclock
    rcases Client.onStore_cases (show c.onStore fault (fun st => st.queue_send room_id sender body
      (next_send_ids ts n) now) = (r, c') from hc) with ⟨e, -, rfl⟩ | ⟨txn, st, hok, -, rfl⟩
    · exact Moved.same rfl
    · refine Moved.single (StoreStep.queue_send hnow hok) ?_
      obtain ⟨-, depth, -, -, -, hst⟩ := c.store.queue_send_ok hok
      rw [hst]
  | resolve_send txn_id id =>
    rcases Client.onStore_cases (show c.onStore choice (fun st => (st.resolve_send txn_id id).map
      ((), ·)) = (r, c') from hc) with ⟨e, -, rfl⟩ | ⟨u, st, hok, -, rfl⟩
    · exact Moved.same rfl
    · cases hres : c.store.resolve_send txn_id id with
      | error e =>
        rw [hres] at hok
        cases hok
      | ok st₁ =>
        rw [hres] at hok
        cases hok
        exact Moved.single (StoreStep.resolve_send hop hres) (resolve_send_token hres)
  | _ => exact absurd rfl hwrites

/-! ## The log and what it holds -/

/-- The event is in the log. -/
def InLog (st : Store) (j : Json) : Prop :=
  ∃ ev r, StoredEvent.from_wire j = .ok ev ∧ ¬ IsLocal ev.event_id ∧
    st.events.find ev.event_id = some r

/-- A sound store with these events. -/
structure Holding (js : Json → Prop) (st : Store) : Prop where
  sound : Sound st
  logged : ∀ j, js j → InLog st j

theorem Holding.steps {js : Json → Prop} {st st' : Store} (h : Holding js st)
    (hs : StoreSteps S st st') : Holding js st' := by
  refine ⟨StoreSteps.sound h.sound hs, ?_⟩
  intro j hj
  obtain ⟨ev, r, hev, hid, hr⟩ := h.logged j hj
  obtain ⟨r', hr', -⟩ := StoreSteps.lasts h.sound hs hid hr
  exact ⟨ev, r', hev, hid, hr'⟩

/-- A batch that was applied is in the log. -/
theorem Holding.applied {js : Json → Prop} {st st' : Store} {batch : List Json} {n : Nat}
    (h : Holding js st) (hb : ∀ j ∈ batch, S.sends j) (hok : st.apply_events batch = .ok (n, st')) :
    Holding (fun j => js j ∨ j ∈ batch) st' := by
  have hsteps : StoreSteps S st st' := Relation.ReflTransGen.single (StoreStep.apply_events hb hok)
  refine ⟨StoreSteps.sound h.sound hsteps, ?_⟩
  rintro j (hj | hj)
  · exact (h.steps hsteps).logged j hj
  · obtain ⟨evs, hall, happ⟩ := st.apply_events_ok hok
    obtain ⟨ev, hmem, hev⟩ := mem_of_forall₂ (List.Forall₂.flip hall) hj
    have hrow : (st.apply_parsed evs).2.events.find ev.event_id ≠ none := by
      rw [st.find_apply_parsed, ne_eq, Option.or_eq_none_iff, Option.map_eq_none_iff]
      rintro ⟨-, hnone⟩
      exact List.find?_eq_none.mp hnone ev hmem (decide_eq_true rfl)
    obtain ⟨r, hr⟩ := Option.ne_none_iff_exists'.mp hrow
    rw [happ] at hr
    exact ⟨ev, r, hev, S.sends_remote j ev (hb j hj) hev, hr⟩

/-- What the token of a request covers. -/
def CoveredBy (F : SyncFeed S) (since : Option String) (j : Json) : Prop :=
  ∃ token, since = some token ∧ F.covers token j

/-! ## The contract of the device -/

/-- Whatever runs moves the store by its methods, and leaves each event in the log that the
stored token covers. -/
def delivery (F : SyncFeed S) : Contract Nat (Client D) where
  inv c := c.store.Reachable S ∧ Holding (CoveredBy F c.store.sync_token) c.store
  rely _ c c' := StoreSteps S c.store c'.store
  give _ c c' := StoreSteps S c.store c'.store
  refl _ _ := Relation.ReflTransGen.refl
  trans _ _ _ _ h h' := h.trans h'
  frame _ _ _ _ _ h := h

/-- A program that gives the store what the server sent, and leaves the token alone. -/
def Tame (S : Server) (op : Op) : Prop := Given S op ∧ ∀ token, op ≠ .save_sync_token token

section Delivery

variable {F : SyncFeed S} {i : Nat}

/-- The contract is about the store alone. -/
theorem delivery_of_store {c c' : Client D} (h : c'.store = c.store) (hinv : (delivery F).inv c) :
    (delivery F).inv c' := by
  show c'.store.Reachable S ∧ Holding (CoveredBy F c'.store.sync_token) c'.store
  rw [h]
  exact hinv

/-- A tame call keeps the contract. -/
theorem delivery_call {op : Op} {c c' : Client D} {r : op.Res} (hop : Tame S op)
    (hinv : (delivery F).inv c) (hc : DeviceCall X F op c r c') :
    (delivery F).inv c' ∧ (delivery F).give i c c' := by
  have hmoved := device_call_moves hop.1 hc
  refine ⟨⟨hinv.1.trans hmoved.steps, ?_⟩, hmoved.steps⟩
  rw [hmoved.token hop.2]
  exact hinv.2.steps hmoved.steps

/-- A tame program is safe, and what is in the log stays there. -/
theorem tame_safe {α : Type} {p : Code α}
    (hp : p.Follows (Answers F) (Tame S)) {js : Json → Prop} {c : Client D}
    (hc : Holding js c.store) :
    Safe (delivery F) (fun _ => DeviceCall X F) i (fun _ c' => Holding js c'.store) p c := by
  apply Safe.of_follows (A := Answers F) (P := Tame S) (Q := fun c' : Client D =>
    Holding js c'.store)
  · intro op s r s' hop hinv hcall
    obtain ⟨h1, h2⟩ := delivery_call (i := i) hop hinv hcall
    obtain ⟨-, -, -, hans⟩ := hcall
    exact ⟨hans, h1, h2⟩
  · exact fun s s' hs h => h.steps hs
  · exact fun s s' hs h => h.steps hs
  · exact hp
  · exact hc

/-! ## The programs -/

theorem tame_of_pass {op : Op} (h : op.ofPass = true) : Tame S op := by
  cases op <;> first | exact absurd h Bool.false_ne_true | exact ⟨trivial, fun _ h => nomatch h⟩

theorem tame_of_welcomes {op : Op} (h : op.ofWelcomes = true) : Tame S op := by
  cases op <;> first | exact absurd h Bool.false_ne_true | exact ⟨trivial, fun _ h => nomatch h⟩

theorem tame_of_quiet {op : Op} (h : Client.writesStore op = false) : Tame S op := by
  cases op <;> first
    | exact absurd h.symm Bool.false_ne_true
    | exact ⟨trivial, fun _ h => nomatch h⟩

/-- A flush acknowledges a send under an id that the server gave. -/
theorem tame_flush : FlushRule (Answers F) (Tame S) (fun _ => True) where
  asks op hop := by
    cases op <;> first | exact absurd hop Bool.false_ne_true | exact ⟨trivial, fun _ h => nomatch h⟩
  queued _ _ _ _ := trivial
  plain _ _ := ⟨trivial, fun _ h => nomatch h⟩
  sealed _ _ _ _ := ⟨trivial, fun _ h => nomatch h⟩
  resolves _ _ _ _ _ hid := ⟨hid, fun _ h => nomatch h⟩

theorem pass_tame : process_inbound_mls.Follows (Answers F) (Tame S) :=
  Prog.All.follows (pass_calls.mono (fun _ h => tame_of_pass h))

/-! ## The loop -/

/-- A save of a token whose events are all in the log keeps the contract. -/
theorem save_call {next : String} {c c' : Client D} {r : Except CoreError Unit}
    (hinv : (delivery F).inv c) (hnext : Holding (F.covers next) c.store)
    (hc : DeviceCall X F (.save_sync_token next) c r c') :
    (delivery F).inv c' ∧ (delivery F).give i c c' := by
  have hmoved : Moved S (.save_sync_token next) c.store c'.store := device_call_moves trivial hc
  refine ⟨⟨hinv.1.trans hmoved.steps, ?_⟩, hmoved.steps⟩
  obtain ⟨choice, hc, -, -⟩ := hc
  rcases Client.onStore_cases (show c.onStore choice (fun st => .ok ((), st.save_sync_token next)) =
    (r, c') from hc) with ⟨e, -, rfl⟩ | ⟨b, st, hst, -, rfl⟩
  · exact hinv.2
  · cases hst
    have hlater := hnext.steps hmoved.steps
    refine ⟨hlater.sound, ?_⟩
    rintro j ⟨token, htoken, hj⟩
    cases htoken
    exact hlater.logged j hj

/-- The success branch, from a store that has what the token of the request covers. -/
theorem sync_success_safe {since : Option String} {resp : Json} (hresp : F.answers since resp)
    {c : Client D} (hc : Holding (CoveredBy F since) c.store) :
    Safe (delivery F) (fun _ => DeviceCall X F) i (fun _ _ => True) (sync_success resp) c := by
  -- after the batch, the log has the events of the response as well
  have hbatch : Safe (delivery F) (fun _ => DeviceCall X F) i
      (fun r c' => ∀ applied, r = .ok applied →
        Holding (fun j => CoveredBy F since j ∨ j ∈ syncEvents resp) c'.store)
      (apply_sync resp) c := by
    show Safe (delivery F) (fun _ => DeviceCall X F) i _
      (.call (.apply_events (syncEvents resp)) _) c
    intro c₁ hrely hinv r c₂ hcall
    have hgiven : Tame S (.apply_events (syncEvents resp)) :=
      ⟨F.sends since resp hresp, fun _ h => nomatch h⟩
    obtain ⟨hinv₂, hgive⟩ := delivery_call (i := i) hgiven hinv hcall
    refine ⟨hinv₂, hgive, ?_⟩
    obtain ⟨choice, hcall, -, -⟩ := hcall
    rcases Client.onStore_cases (show c₁.onStore choice
      (fun st => st.apply_events (syncEvents resp)) = (r, c₂) from hcall) with
      ⟨e, rfl, rfl⟩ | ⟨n, st, hok, rfl, rfl⟩
    · intro applied h
      cases h
    · intro applied _
      exact (hc.steps hrely).applied (F.sends since resp hresp) hok
  refine hbatch.andThen (fun _ _ => trivial) ?_
  intro applied c₁ hc₁
  have hquiet : (apply_to_device resp).Follows (Answers F) (Tame S) :=
    Prog.All.follows ((apply_to_device_calls resp).mono (fun _ h => tame_of_welcomes h))
  apply Safe.bind
  refine (tame_safe hquiet hc₁).mono ?_
  intro joined c₂ hc₂
  refine Safe.andThen (R := fun _ c' => Sound c'.store) ?_ (fun _ _ => trivial) ?_
  · unfold persist_sync_token
    cases hnext : (resp.index "next_batch").as_str with
    | none => exact fun _ _ => hc₂.sound
    | some next =>
      intro c₃ hrely hinv r c₄ hcall
      have hcovered : Holding (F.covers next) c₃.store :=
        ⟨hinv.2.sound, fun j hj => (hc₂.steps hrely).logged j
          (F.goes_on since resp next hresp hnext j hj)⟩
      obtain ⟨hinv₄, hgive⟩ := save_call (i := i) hinv hcovered hcall
      refine ⟨hinv₄, hgive, ?_⟩
      cases r <;> exact fun _ _ => hinv₄.2.sound
  · intro _ c₃ hsound
    have hnothing : Holding (fun _ => False) c₃.store := ⟨hsound, fun _ h => h.elim⟩
    have htail := (tame_flush (S := S) (F := F)).round_tail (fun _ => tame_of_pass)
      ⟨trivial, fun _ h => nomatch h⟩ ⟨trivial, fun _ h => nomatch h⟩ applied joined
    exact (tame_safe htail hnothing).mono (fun _ _ _ => trivial)

theorem sync_round_safe (backoff : Nat) (c : Client D) :
    Safe (delivery F) (fun _ => DeviceCall X F) i (fun _ _ => True) (sync_round backoff) c := by
  intro c₁ _ hinv r c₂ hcall
  obtain ⟨hinv₂, hgive⟩ := delivery_call (i := i)
    (show Tame S .load_sync_token from ⟨trivial, fun _ h => nomatch h⟩) hinv hcall
  refine ⟨hinv₂, hgive, ?_⟩
  obtain ⟨choice, hcall, -, -⟩ := hcall
  obtain ⟨rfl, ⟨e, rfl⟩ | rfl⟩ := Client.exec_read hcall
  · trivial
  intro c₃ hrely hinv₃ r c₄ hcall
  have hc₃ : Holding (CoveredBy F c₂.store.sync_token) c₃.store := hinv.2.steps hrely
  obtain ⟨hinv₄, hgive⟩ := delivery_call (i := i)
    (show Tame S (.api_sync (c₂.store.load_sync_token)) from ⟨trivial, fun _ h => nomatch h⟩)
    hinv₃ hcall
  refine ⟨hinv₄, hgive, ?_⟩
  obtain ⟨choice, hcall, -, hans⟩ := hcall
  cases hcall
  cases r with
  | ok resp => exact sync_success_safe hans hc₃
  | error err =>
    simp only
    split
    · apply Safe.mono (fun _ _ _ => trivial)
      apply tame_safe _ hc₃
      exact ⟨⟨trivial, fun _ h => nomatch h⟩, fun _ _ =>
        ⟨⟨trivial, fun _ h => nomatch h⟩, fun _ _ => trivial⟩⟩
    · trivial

/-- Any number of rounds. -/
theorem run_sync_safe (rounds backoff : Nat) (c : Client D) :
    Safe (delivery F) (fun _ => DeviceCall X F) i (fun _ _ => True)
      (run_sync rounds backoff) c := by
  induction rounds generalizing backoff c with
  | zero => trivial
  | succ rounds ih =>
    refine Safe.andThen (R := fun _ _ => True) ?_ (fun _ _ => trivial)
      (fun backoff' c' _ => ih backoff' c')
    exact (sync_round_safe backoff c).mono (fun _ _ _ _ _ => trivial)

/-! ## The whole device -/

theorem device_keeps (X : PigeonCrypto D) (F : SyncFeed S) : (device X F).Keeps (delivery F) where
  start i c p hinv hstart := by
    have htame : ∀ {α : Type} {q : Code α}, q.Follows (Answers F) (Tame S) →
        Safe (delivery F) (fun _ => DeviceCall X F) i (fun _ _ => True) q.forget c :=
      fun hq => (tame_safe hq.forget hinv.2).mono (fun _ _ _ => trivial)
    rcases hstart with ⟨rounds, backoff, rfl⟩ | ⟨room_id, limit, rfl⟩ | ⟨room_id, body, rfl⟩ | rfl |
      rfl | hquiet
    · exact Safe.bind ((run_sync_safe rounds backoff c).mono (fun _ _ _ => trivial))
    · exact htame (fetch_messages_follows ⟨trivial, fun _ h => nomatch h⟩ (fun _ => tame_of_pass)
        (fun resp hresp => ⟨hresp, fun _ h => nomatch h⟩))
    · exact htame (tame_flush.send_message ⟨trivial, fun _ h => nomatch h⟩
        (fun sender => ⟨trivial, fun _ h => nomatch h⟩))
    · exact htame tame_flush.flush_pending
    · exact htame pass_tame
    · have hfollows := Prog.All.follows (A := Answers F)
        (hquiet.mono (fun _ h => tame_of_quiet (S := S) h))
      exact (tame_safe hfollows hinv.2).mono (fun _ _ _ => trivial)
  drop i c c' hinv hdrop := by
    cases hdrop
    exact ⟨hinv, Relation.ReflTransGen.refl⟩
  env c c' hinv henv := by
    refine ⟨delivery_of_store henv hinv, fun i => ?_⟩
    show StoreSteps S c.store c'.store
    rw [henv]
  restart c c' hinv hrestart := delivery_of_store hrestart hinv

end Delivery

/-- A state event that is in the log is folded, or one that is at least as deep. -/
theorem Store.Reachable.folded_over {st : Store} (h : st.Reachable S) (hash : S.Hashed) {j : Json}
    {ev : StoredEvent} {key : String} (hsent : S.sends j) (hev : StoredEvent.from_wire j = .ok ev)
    (hkey : ev.state_key = some key) (hlogged : InLog st j) :
    ∃ s, st.room_state.find (ev.room_id, ev.event_type, key) = some s ∧ ev.depth ≤ s.depth := by
  have hfolded := h.folded hash
  obtain ⟨ev', r, hev', -, hrow⟩ := hlogged
  obtain rfl : ev' = ev := Except.ok.inj (hev'.symm.trans hev)
  have hcolumns : Columns r ev' := hash.row h.sound (hfolded.logged _ r hrow) hsent hev rfl
    (by rw [hkey]; exact Option.some_ne_none key) hrow
  have hstate : r.stateKey = some (ev'.room_id, ev'.event_type, key) :=
    EventRow.stateKey_some.mpr ⟨hcolumns.room_id.symm, hcolumns.type.symm,
      hcolumns.state_key.symm.trans hkey⟩
  obtain ⟨s, hs, hle⟩ := hfolded.deepest _ r _ hrow hstate
  rw [← hcolumns.depth] at hle
  exact ⟨s, hs, hle⟩

/-! ## What the token stands for -/

section Token

variable (X : PigeonCrypto D) (F : SyncFeed S) {c : Client D} {p : Pool Nat (Client D) Op Op.Res}

theorem delivered (hc : c.store = Store.init) (hr : (device X F).Reaches (Threaded.idle c) p) :
    (delivery F).inv p.state := by
  apply (device X F).invariant (device_keeps X F) _ hr
  show c.store.Reachable S ∧ Holding (CoveredBy F c.store.sync_token) c.store
  rw [hc]
  refine ⟨Relation.ReflTransGen.refl, Sound.init, ?_⟩
  rintro j ⟨token, htoken, -⟩
  cases htoken

/-- In every state that a fresh device can come to, each event that its stored token covers is
in the log: no loop, send, backfill or pass, and no kill at any call, loses one. -/
theorem synced_events_are_kept (hc : c.store = Store.init)
    (hr : (device X F).Reaches (Threaded.idle c) p) (token : String)
    (htoken : p.state.store.sync_token = some token) (j : Json) (hj : F.covers token j) :
    ∃ ev r, StoredEvent.from_wire j = .ok ev ∧ p.state.store.events.find ev.event_id = some r := by
  obtain ⟨-, hholding⟩ := delivered X F hc hr
  obtain ⟨ev, r, hev, -, hrow⟩ := hholding.logged j ⟨token, htoken, hj⟩
  exact ⟨ev, r, hev, hrow⟩

/-- Nor is the folded state behind the token: a covered state event is folded, or one that is at
least as deep, and a room whose marker is covered is encrypted. -/
theorem synced_state_is_folded (hash : S.Hashed) (hc : c.store = Store.init)
    (hr : (device X F).Reaches (Threaded.idle c) p) (token : String)
    (htoken : p.state.store.sync_token = some token) (j : Json) (hj : F.covers token j)
    (hsent : S.sends j) (ev : StoredEvent) (hev : StoredEvent.from_wire j = .ok ev) (key : String)
    (hkey : ev.state_key = some key) :
    (∃ s, p.state.store.room_state.find (ev.room_id, ev.event_type, key) = some s ∧
      ev.depth ≤ s.depth) ∧
    (ev.event_type = "p.room.encryption" → p.state.store.is_room_encrypted ev.room_id = true) := by
  obtain ⟨hreach, hholding⟩ := delivered X F hc hr
  obtain ⟨s, hs, hle⟩ := hreach.folded_over hash hsent hev hkey
    (hholding.logged j ⟨token, htoken, hj⟩)
  refine ⟨⟨s, hs, hle⟩, ?_⟩
  intro htype
  rw [is_room_encrypted_iff]
  rw [htype] at hs
  exact ⟨key, s, hs⟩

end Token

/-- The response that names the room and marks it. -/
def markedSync : Json :=
  .obj [("next_batch", .str "t1"), ("rooms", .obj [("join", .obj [("!room", .obj [("timeline",
    .obj [("events", .arr [nameEvent "$duck" "Duck", markerEvent])])])])])]

/-- A server with that one response, to everyone who asks. -/
def markedFeed : SyncFeed markingServer where
  covers token j := token = "t1" ∧ markingServer.sends j
  answers _ resp := resp = markedSync
  sends := by
    rintro since resp rfl j hj
    have hmem : j ∈ [nameEvent "$duck" "Duck", markerEvent] := hj
    simpa [markingServer] using hmem
  goes_on := by
    rintro since resp next rfl hnext j ⟨-, hj⟩
    refine Or.inr ?_
    rcases hj with rfl | rfl
    · exact List.mem_cons_self
    · exact List.mem_cons_of_mem _ List.mem_cons_self

/-- A first sync, up to the call that saves its token. -/
theorem first_sync : ∃ p : Pool Nat (Client Copies) Op Op.Res,
    (device epochCrypto markedFeed).Reaches (Threaded.idle freshClient) p ∧
      p.state.store.sync_token = some "t1" := by
  have h0 : (device epochCrypto markedFeed).Reaches (Threaded.idle freshClient)
    (Threaded.idle freshClient) := Relation.ReflTransGen.refl
  have h1 := h0.start 0 (run_sync 1 BACKOFF_START).forget
    (Or.inl ⟨1, BACKOFF_START, rfl⟩)
  have h2 := h1.call freshClient (r := .ok none) ⟨.none, rfl, trivial, trivial⟩
  have hanswer : Answers markedFeed (.api_sync none) (.ok markedSync) := rfl
  have h3 := h2.call freshClient ⟨.ok markedSync, rfl, trivial, hanswer⟩
  have h4 := h3.call _ (r := .ok 2) ⟨.none, rfl, trivial, trivial⟩
  have h5 := h4.call _ (r := .ok ()) ⟨.none, rfl, trivial, trivial⟩
  exact ⟨_, h5, rfl⟩

theorem synced_events_are_kept_marker : ∃ st : Store, ∃ ev r, st.sync_token = some "t1" ∧
    StoredEvent.from_wire markerEvent = .ok ev ∧ st.events.find ev.event_id = some r := by
  obtain ⟨p, hp, htoken⟩ := first_sync
  obtain ⟨ev, r, hev, hr⟩ := synced_events_are_kept epochCrypto markedFeed rfl hp "t1" htoken
    markerEvent ⟨rfl, Or.inr rfl⟩
  exact ⟨p.state.store, ev, r, htoken, hev, hr⟩

theorem synced_state_is_folded_marker : ∃ st : Store, st.sync_token = some "t1" ∧
    st.is_room_encrypted "!room" = true := by
  obtain ⟨p, hp, htoken⟩ := first_sync
  have hmarked := synced_state_is_folded epochCrypto markedFeed markingServer_hashed rfl hp "t1"
    htoken
    markerEvent ⟨rfl, Or.inr rfl⟩ (Or.inr rfl) _ rfl "mls" rfl
  exact ⟨p.state.store, htoken, hmarked.2 rfl⟩

end PigeonMobile
