-- The state folded from the log, in every store that the methods can lead to: the current
-- event of a key is a deepest one of the log, and a room is encrypted just where its log says
-- so, from then on.
import PigeonMobile.StoreRuns
import PigeonMobile.EventLog
import PigeonMobile.ExactlyOnce

namespace PigeonMobile

/-! ## The servers -/

/-- Equal event ids mean equal events, and what a send is acknowledged as is no state event. -/
structure Server.Hashed (S : Server) : Prop where
  same : ∀ j j' x y, S.sends j → S.sends j' → StoredEvent.from_wire j = .ok x →
    StoredEvent.from_wire j' = .ok y → x.event_id = y.event_id → j = j'
  plain : ∀ j ev, S.sends j → StoredEvent.from_wire j = .ok ev → S.acks ev.event_id →
    ev.state_key = none

/-- The key of the state that an event of the log sets, where it is a state event. -/
def EventRow.stateKey (r : EventRow) : Option (String × String × String) :=
  r.state_key.map (fun key => (r.room_id, r.type, key))

theorem EventRow.stateKey_some {r : EventRow} {k : String × String × String} :
    r.stateKey = some k ↔ r.room_id = k.1 ∧ r.type = k.2.1 ∧ r.state_key = some k.2.2 := by
  obtain ⟨room_id, type, key⟩ := k
  unfold EventRow.stateKey
  cases r.state_key with
  | none => simp
  | some key' => simp

/-! ## What a method adds to the log -/

section Steps

variable {S : Server} {st st' : Store}

/-- A row of the log is one that was there, as far as its payload goes, or a send. -/
def Added (S : Server) (st : Store) (k : String) (r' : EventRow) : Prop :=
  (∃ r, st.events.find k = some r ∧ r.payload = r'.payload) ∨
    (r'.state_key = none ∧ (IsLocal k ∨ S.acks k))

theorem added_update {id k : String} {f : EventRow → EventRow}
    (hf : ∀ r, (f r).event_id = r.event_id) (hpayload : ∀ r, (f r).payload = r.payload)
    {r' : EventRow} (hr : (st.events.update id f hf).find k = some r') : Added S st k r' := by
  rw [Table.find_update, Option.map_eq_some_iff] at hr
  obtain ⟨r, hr, rfl⟩ := hr
  refine Or.inl ⟨r, hr, ?_⟩
  split
  · exact (hpayload r).symm
  · rfl

/-- A method folds events of the server, or it leaves the folded state alone. -/
theorem StoreStep.kind (h : Sound st) (hs : StoreStep S st st') :
    (st'.room_state = st.room_state ∧ ∀ k r', st'.events.find k = some r' → Added S st k r') ∨
    ∃ batch evs, (∀ j ∈ batch, S.sends j) ∧
      List.Forall₂ (fun j ev => StoredEvent.from_wire j = .ok ev) batch evs ∧
      st' = (st.apply_parsed evs).2 := by
  cases hs with
  | save_sync_token token => exact Or.inl ⟨rfl, fun k r' hr => Or.inl ⟨r', hr, rfl⟩⟩
  | apply_events hb hok =>
    obtain ⟨evs, hall, happ⟩ := st.apply_events_ok hok
    exact Or.inr ⟨_, evs, hb, hall, by rw [happ]⟩
  | @queue_send _ room_id sender body txn_id ts now n hnow hok =>
    obtain ⟨depth, -, -, -, hstate, hevents, -⟩ := st.find_queue_send hok
    refine Or.inl ⟨hstate, ?_⟩
    intro k r' hr
    rw [hevents] at hr
    split at hr
    · next hk =>
      cases hr
      refine Or.inr ⟨rfl, Or.inl ⟨toString ts ++ "-" ++ toString n, ?_⟩⟩
      rw [← hk]
      simp only [next_send_ids, String.append_assoc]
    · exact Or.inl ⟨r', hr, rfl⟩
  | @resolve_send _ txn_id id hack hok =>
    left
    cases h.acked hok with
    | unknown _ hst =>
      rw [hst]
      exact ⟨rfl, fun k r' hr => Or.inl ⟨r', hr, rfl⟩⟩
    | raced p _ _ _ hstate _ hfind =>
      refine ⟨hstate, ?_⟩
      intro k r' hr
      rw [hfind] at hr
      split at hr
      · cases hr
      · obtain ⟨r, hr₀, rfl⟩ := Option.map_eq_some_iff.mp hr
        refine Or.inl ⟨r, hr₀, ?_⟩
        split
        · exact (lasts_carryPlaintext p.body r).payload.symm
        · rfl
    | promoted p hp _ hstate _ hfind =>
      refine ⟨hstate, ?_⟩
      intro k r' hr
      rw [hfind] at hr
      split at hr
      · next hk =>
        -- the promoted echo
        obtain ⟨r, hr₀, rfl⟩ := Option.map_eq_some_iff.mp hr
        obtain ⟨-, r₁, hr₁, hecho⟩ := h.echoes txn_id p hp
        obtain rfl : r = r₁ := Option.some.inj (hr₀.symm.trans hr₁)
        refine Or.inr ⟨hecho.state_key, Or.inr ?_⟩
        rw [hk]
        exact hack
      · split at hr
        · cases hr
        · exact Or.inl ⟨r', hr, rfl⟩
  | fail_send txn_id =>
    left
    cases hp : st.pending_sends.find txn_id with
    | none =>
      rw [st.fail_send_unknown hp]
      exact ⟨rfl, fun k r' hr => Or.inl ⟨r', hr, rfl⟩⟩
    | some p =>
      obtain ⟨hrefs, -, hfind⟩ := st.fail_send_queued hp
      refine ⟨hrefs, ?_⟩
      intro k r' hr
      rw [hfind] at hr
      obtain ⟨r, hr₀, rfl⟩ := Option.map_eq_some_iff.mp hr
      refine Or.inl ⟨r, hr₀, ?_⟩
      split <;> rfl
  | set_decrypted event_id plaintext =>
    refine Or.inl ⟨rfl, fun k r' hr => ?_⟩
    exact added_update (f := Store.withPlaintext plaintext) (fun _ => rfl) (fun _ => rfl) hr
  | set_decrypt_failed event_id =>
    refine Or.inl ⟨rfl, fun k r' hr => ?_⟩
    exact added_update (f := Store.withState DECRYPT_FAILED) (fun _ => rfl) (fun _ => rfl) hr
  | set_commit_processed event_id =>
    refine Or.inl ⟨rfl, fun k r' hr => ?_⟩
    exact added_update (f := Store.withState DECRYPT_OK) (fun _ => rfl) (fun _ => rfl) hr

/-! ## The log and the folded state -/

/-- Every state event of the log came from the server. The current event of a key is one
of them, and none of the key is deeper. -/
structure Folded (S : Server) (st : Store) : Prop where
  logged : ∀ k r, st.events.find k = some r →
    S.sends r.payload ∨ (r.state_key = none ∧ (IsLocal k ∨ S.acks k))
  current : ∀ key s, st.room_state.find key = some s →
    ∃ r, st.events.find s.event_id = some r ∧ r.stateKey = some key ∧ r.depth = s.depth
  deepest : ∀ k r key, st.events.find k = some r → r.stateKey = some key →
    ∃ s, st.room_state.find key = some s ∧ r.depth ≤ s.depth

/-- Two rows with one payload are rows of one event. -/
theorem Columns.of_payload {r r' : EventRow} {ev ev' : StoredEvent} (h : Columns r ev)
    (h' : Columns r' ev') (hp : r.payload = r'.payload) : ev = ev' := by
  have hparse := h.parses
  rw [hp, h'.parses] at hparse
  exact (Except.ok.inj hparse).symm

/-- So they set the same state, at the same depth. -/
theorem Columns.same_state {r r' : EventRow} {ev : StoredEvent} (h : Columns r ev)
    (h' : Columns r' ev) : r.stateKey = r'.stateKey ∧ r.depth = r'.depth := by
  refine ⟨?_, h.depth.symm.trans h'.depth⟩
  unfold EventRow.stateKey
  rw [← h.room_id, ← h.type, ← h.state_key, ← h'.room_id, ← h'.type, ← h'.state_key]

theorem Added.logged (h : Folded S st) (hs : Sound st) (hs' : Sound st') {k : String}
    {r' : EventRow} (hr' : st'.events.find k = some r') (ha : Added S st k r') :
    S.sends r'.payload ∨ (r'.state_key = none ∧ (IsLocal k ∨ S.acks k)) := by
  rcases ha with ⟨r, hr, hpayload⟩ | hsend
  · rcases h.logged k r hr with hsends | ⟨hnone, horigin⟩
    · rw [hpayload] at hsends
      exact Or.inl hsends
    · obtain ⟨ev, hev⟩ := hs.columns k r hr
      obtain ⟨ev', hev'⟩ := hs'.columns k r' hr'
      obtain rfl := hev.of_payload hev' hpayload
      exact Or.inr ⟨hev'.state_key.symm.trans (hev.state_key.trans hnone), horigin⟩
  · exact Or.inr hsend

/-- The row under the id of a state event of the server is the row of that event. -/
theorem Server.Hashed.row {k : String} {r : EventRow} (hash : S.Hashed) (hs : Sound st)
    (hlogged : S.sends r.payload ∨ (r.state_key = none ∧ (IsLocal k ∨ S.acks k))) {j : Json}
    {ev : StoredEvent} (hj : S.sends j) (hev : StoredEvent.from_wire j = .ok ev)
    (hid : ev.event_id = k) (hkey : ev.state_key ≠ none) (hr : st.events.find k = some r) :
    Columns r ev := by
  obtain ⟨ev₀, hev₀⟩ := hs.columns k r hr
  rcases hlogged with hsends | ⟨-, hlocal | hack⟩
  · have hids : ev₀.event_id = ev.event_id :=
      hev₀.event_id.trans ((Table.find_key hr).trans hid.symm)
    have hpayload := hash.same _ _ _ _ hsends hj hev₀.parses hev hids
    have hparse := hev₀.parses
    rw [hpayload, hev] at hparse
    cases hparse
    exact hev₀
  · rw [← hid] at hlocal
    exact absurd hlocal (S.sends_remote j ev hj hev)
  · rw [← hid] at hack
    exact absurd (hash.plain j ev hj hev hack) hkey

theorem Folded.init : Folded S Store.init := by
  refine ⟨?_, ?_, ?_⟩
  · intro k r hr
    cases hr
  · intro key s hs
    cases hs
  · intro k r key hr
    cases hr

/-- A row that lasts sets the same state. -/
theorem Sound.lasting_state (h : Sound st) (h' : Sound st') {k : String} {r r' : EventRow}
    (hr : st.events.find k = some r) (hr' : st'.events.find k = some r')
    (hpayload : r.payload = r'.payload) : r.stateKey = r'.stateKey ∧ r.depth = r'.depth := by
  obtain ⟨ev, hev⟩ := h.columns k r hr
  obtain ⟨ev', hev'⟩ := h'.columns k r' hr'
  obtain rfl := hev.of_payload hev' hpayload
  exact hev.same_state hev'

/-- The current event of a key stays a state event of that key, at its depth. -/
theorem Folded.current_lasts (h : Folded S st) (hs : Sound st) (hs' : Sound st')
    (hstep : StoreStep S st st') {key : String × String × String} {s : StateRow}
    (hcur : st.room_state.find key = some s) :
    ∃ r, st'.events.find s.event_id = some r ∧ r.stateKey = some key ∧ r.depth = s.depth := by
  obtain ⟨r, hr, hkey, hdepth⟩ := h.current key s hcur
  have hremote := hs.refs s (Table.find_some_iff.mp hcur).1
  obtain ⟨r', hr', hlasts⟩ := hstep.lasts hs hremote hr
  obtain ⟨hkeys, hdepths⟩ := hs.lasting_state hs' hr hr' hlasts.payload.symm
  exact ⟨r', hr', hkeys.symm.trans hkey, hdepths.symm.trans hdepth⟩

/-- The row that a state event writes under its key. -/
theorem stateRowAt_of_row {r : EventRow} {ev : StoredEvent} {key : String × String × String}
    (hc : Columns r ev) (hkey : r.stateKey = some key) :
    ∃ s, stateRowAt key ev = some s ∧ s.depth = r.depth := by
  obtain ⟨hroom, htype, hstate⟩ := EventRow.stateKey_some.mp hkey
  refine ⟨stateRow ev key.2.2, ?_, hc.depth⟩
  rw [stateRowAt_some]
  refine ⟨key.2.2, hc.state_key.trans hstate, rfl, ?_⟩
  unfold StateRow.key stateRow
  simp only [hc.room_id, hc.type, hroom, htype]

/-- And the row that wrote it. -/
theorem row_of_stateRowAt {r : EventRow} {ev : StoredEvent} {key : String × String × String}
    {s : StateRow} (hc : Columns r ev) (hs : stateRowAt key ev = some s) :
    r.stateKey = some key ∧ r.depth = s.depth := by
  obtain ⟨state_key, hstate, rfl, hkey⟩ := stateRowAt_some.mp hs
  refine ⟨?_, hc.depth.symm⟩
  unfold EventRow.stateKey
  rw [← hc.state_key, hstate, Option.map_some, ← hc.room_id, ← hc.type, ← hkey]
  rfl

/-- Events of the server keep it. -/
theorem Folded.fold (hash : S.Hashed) (h : Folded S st) (hs : Sound st) {batch : List Json}
    {evs : List StoredEvent} (hb : ∀ j ∈ batch, S.sends j)
    (hall : List.Forall₂ (fun j ev => StoredEvent.from_wire j = .ok ev) batch evs)
    (hs' : Sound (st.apply_parsed evs).2) (hstep : StoreStep S st (st.apply_parsed evs).2) :
    Folded S (st.apply_parsed evs).2 := by
  have hsent : ∀ ev ∈ evs, ∃ j, S.sends j ∧ StoredEvent.from_wire j = .ok ev := by
    intro ev hev
    obtain ⟨j, hj, hp⟩ := mem_of_forall₂ hall hev
    exact ⟨j, hb j hj, hp⟩
  have hrows : ∀ k r', (st.apply_parsed evs).2.events.find k = some r' →
      st.events.find k = some r' ∨ ∃ ev ∈ evs, r' = Store.rowOf ev := by
    intro k r' hr
    rcases st.row_of_apply_parsed hr with hold | ⟨ev, hev, -, hrow⟩
    · exact Or.inl hold
    · exact Or.inr ⟨ev, hev, hrow⟩
  have hlogged : ∀ k r', (st.apply_parsed evs).2.events.find k = some r' →
      S.sends r'.payload ∨ (r'.state_key = none ∧ (IsLocal k ∨ S.acks k)) := by
    intro k r' hr
    rcases hrows k r' hr with hold | ⟨ev, hev, rfl⟩
    · exact h.logged k r' hold
    · obtain ⟨j, hj, hp⟩ := hsent ev hev
      have hpayload : ev.payload = j := (StoredEvent.from_wire_ok.mp hp).2.2.2.2.2.2.2.2.1
      refine Or.inl ?_
      unfold Store.rowOf
      rw [hpayload]
      exact hj
  refine ⟨hlogged, ?_, ?_⟩
  · intro key s hcur
    have hwrites := hcur
    rw [st.find_apply_parsed_state] at hwrites
    rcases LastWriter.writes_cases StateRow.depth (st.room_state.find key)
      (evs.filterMap (stateRowAt key)) with ⟨a, ha, htops⟩ | ⟨hsame, -⟩
    · -- an event of the batch
      obtain rfl : a = s := Option.some.inj (ha.symm.trans hwrites)
      obtain ⟨ev, hev, hat⟩ := List.mem_filterMap.mp htops.mem
      obtain ⟨j, hj, hp⟩ := hsent ev hev
      obtain ⟨state_key, hstate, hrow, -⟩ := stateRowAt_some.mp hat
      have hid : ev.event_id = a.event_id := by rw [← hrow]; rfl
      obtain ⟨r, hr⟩ : ∃ r, (st.apply_parsed evs).2.events.find a.event_id = some r := by
        rw [st.find_apply_parsed]
        cases st.events.find a.event_id with
        | some r => exact ⟨r, rfl⟩
        | none =>
          rw [Option.none_or]
          cases hfind : evs.find? (fun ev => decide (ev.event_id = a.event_id)) with
          | some ev' => exact ⟨_, rfl⟩
          | none => exact absurd hid (by simpa using List.find?_eq_none.mp hfind ev hev)
      have hcolumns := hash.row hs' (hlogged _ r hr) hj hp hid (by rw [hstate]; simp) hr
      obtain ⟨hkey, hdepth⟩ := row_of_stateRowAt hcolumns hat
      exact ⟨r, hr, hkey, hdepth⟩
    · -- the event that was current
      rw [hsame] at hwrites
      exact h.current_lasts hs hs' hstep hwrites
  · intro k r' key hr hkey
    rw [st.find_apply_parsed_state]
    have hover : (∃ s, st.room_state.find key = some s ∧ r'.depth ≤ s.depth) ∨
        ∃ s ∈ evs.filterMap (stateRowAt key), s.depth = r'.depth := by
      rcases hrows k r' hr with hold | ⟨ev, hev, rfl⟩
      · exact Or.inl (h.deepest k r' key hold hkey)
      · obtain ⟨j, -, hp⟩ := hsent ev hev
        obtain ⟨s, hat, hdepth⟩ := stateRowAt_of_row (columns_rowOf hp) hkey
        exact Or.inr ⟨s, List.mem_filterMap.mpr ⟨ev, hev, hat⟩, hdepth⟩
    rcases LastWriter.writes_cases StateRow.depth (st.room_state.find key)
      (evs.filterMap (stateRowAt key)) with ⟨a, ha, htops⟩ | ⟨hsame, hunder⟩
    · refine ⟨a, ha, ?_⟩
      rcases hover with ⟨s, hs, hle⟩ | ⟨s, hs, hdepth⟩
      · exact le_trans hle (htops.over_start s hs)
      · rw [← hdepth]
        exact htops.over_writes s hs
    · rw [hsame]
      rcases hover with hold | ⟨s, hs, hdepth⟩
      · exact hold
      · obtain ⟨b, hb, hlt⟩ := hunder s hs
        refine ⟨b, hb, ?_⟩
        rw [← hdepth]
        exact le_of_lt hlt

/-- Each method keeps it. -/
theorem Folded.step (hash : S.Hashed) (h : Folded S st) (hs : Sound st)
    (hstep : StoreStep S st st') : Folded S st' := by
  have hs' := hs.step hstep
  rcases hstep.kind hs with ⟨hstate, hadded⟩ | ⟨batch, evs, hb, hall, rfl⟩
  · have hlogged : ∀ k r', st'.events.find k = some r' →
        S.sends r'.payload ∨ (r'.state_key = none ∧ (IsLocal k ∨ S.acks k)) :=
      fun k r' hr => (hadded k r' hr).logged h hs hs' hr
    refine ⟨hlogged, ?_, ?_⟩
    · intro key s hcur
      rw [hstate] at hcur
      exact h.current_lasts hs hs' hstep hcur
    · intro k r' key hr hkey
      rw [hstate]
      rcases hadded k r' hr with ⟨r, hr₀, hpayload⟩ | ⟨hnone, -⟩
      · obtain ⟨hkeys, hdepth⟩ := hs.lasting_state hs' hr₀ hr hpayload
        rw [← hkeys] at hkey
        rw [← hdepth]
        exact h.deepest k r key hr₀ hkey
      · unfold EventRow.stateKey at hkey
        rw [hnone] at hkey
        cases hkey
  · exact h.fold hash hs hb hall hs' hstep

/-- So does any run of them. -/
theorem StoreSteps.folded (hash : S.Hashed) (h : Folded S st) (hs : Sound st)
    (hsteps : StoreSteps S st st') : Folded S st' := by
  induction hsteps with
  | refl => exact h
  | tail hsteps hstep ih => exact ih.step hash (StoreSteps.sound hs hsteps) hstep

theorem Store.Reachable.folded (hash : S.Hashed) (h : st.Reachable S) : Folded S st :=
  StoreSteps.folded hash Folded.init Sound.init h

/-- The current event of a key never goes, though a deeper one may replace it. -/
theorem StoreStep.current_lasts (h : Sound st) (hstep : StoreStep S st st')
    {key : String × String × String} {s : StateRow} (hcur : st.room_state.find key = some s) :
    ∃ s', st'.room_state.find key = some s' := by
  rcases hstep.kind h with ⟨hstate, -⟩ | ⟨batch, evs, -, -, rfl⟩
  · rw [hstate]
    exact ⟨s, hcur⟩
  · rw [st.find_apply_parsed_state]
    rcases LastWriter.writes_cases StateRow.depth (st.room_state.find key)
      (evs.filterMap (stateRowAt key)) with ⟨a, ha, -⟩ | ⟨hsame, -⟩
    · exact ⟨a, ha⟩
    · rw [hsame]
      exact ⟨s, hcur⟩

end Steps

/-! ## The current state -/

section Reachable

variable {S : Server} {st : Store}

/-- A logged event that sets the state of a key, and none of the key is deeper. -/
structure Deepest (st : Store) (key : String × String × String) (r : EventRow) : Prop where
  mem : r ∈ st.events.rows
  sets : r.stateKey = some key
  deepest : ∀ r' ∈ st.events.rows, r'.stateKey = some key → r'.depth ≤ r.depth

/-- The event that a row of the folded state refers to is a deepest one of its key. -/
theorem Folded.deepest_row (h : Folded S st) {key : String × String × String} {s : StateRow}
    (hcur : st.room_state.find key = some s) :
    ∃ r, st.events.find s.event_id = some r ∧ r.depth = s.depth ∧ Deepest st key r := by
  obtain ⟨r, hr, hkey, hdepth⟩ := h.current key s hcur
  refine ⟨r, hr, hdepth, (Table.find_some_iff.mp hr).1, hkey, ?_⟩
  intro r' hr' hkey'
  obtain ⟨s', hcur', hle⟩ := h.deepest _ r' key (Table.mem_rows_iff.mp hr') hkey'
  obtain rfl : s = s' := Option.some.inj (hcur.symm.trans hcur')
  rw [hdepth]
  exact hle

/-- In every store that the methods lead to, the folded state has a row for a key just where
the log has a state event of the key. The row names a deepest one, with its depth, and that
is the event that `current_state` gives, and `membership` reads. -/
theorem current_state_is_the_deepest (S : Server) (hash : S.Hashed) (st : Store)
    (hr : st.Reachable S) (room_id type state_key : String) :
    ((∃ s, st.room_state.find (room_id, type, state_key) = some s) ↔
      ∃ r ∈ st.events.rows, r.stateKey = some (room_id, type, state_key)) ∧
    (∀ s, st.room_state.find (room_id, type, state_key) = some s →
      ∃ r, r.event_id = s.event_id ∧ r.depth = s.depth ∧
        Deepest st (room_id, type, state_key) r) ∧
    (∃ found, st.current_state room_id type state_key = .ok found ∧
      (found = none ↔ ¬ ∃ r ∈ st.events.rows, r.stateKey = some (room_id, type, state_key)) ∧
      ∀ ev, found = some ev → ∃ r, Columns r ev ∧ Deepest st (room_id, type, state_key) r) ∧
    ∃ found, st.current_state room_id "p.room.member" state_key = .ok found ∧
      st.membership room_id state_key =
        .ok ((found.bind (fun ev => (ev.content.get "membership").bind Json.as_str)).map
          Membership.from_wire) := by
  have hs := hr.sound
  have h := hr.folded hash
  have hexists : (∃ s, st.room_state.find (room_id, type, state_key) = some s) ↔
      ∃ r ∈ st.events.rows, r.stateKey = some (room_id, type, state_key) := by
    constructor
    · rintro ⟨s, hcur⟩
      obtain ⟨r, -, -, hdeep⟩ := h.deepest_row hcur
      exact ⟨r, hdeep.mem, hdeep.sets⟩
    · rintro ⟨r, hmem, hkey⟩
      obtain ⟨s, hcur, -⟩ := h.deepest _ r _ (Table.mem_rows_iff.mp hmem) hkey
      exact ⟨s, hcur⟩
  -- what a read gives, for any type
  have hread : ∀ type, ∃ found, st.current_state room_id type state_key = .ok found ∧
      (found = none ↔ st.room_state.find (room_id, type, state_key) = none) ∧
      ∀ ev, found = some ev → ∃ r, Columns r ev ∧ Deepest st (room_id, type, state_key) r := by
    intro type
    unfold Store.current_state
    cases hcur : st.room_state.find (room_id, type, state_key) with
    | none =>
      refine ⟨none, rfl, by simp, ?_⟩
      intro ev he
      cases he
    | some s =>
      obtain ⟨r, hfind, -, hdeep⟩ := h.deepest_row hcur
      obtain ⟨ev, hev⟩ := hs.columns _ r hfind
      refine ⟨some ev, ?_, by simp, ?_⟩
      · simp only [Option.bind_some, hfind, hev.parses]
        rfl
      · intro ev' he
        cases he
        exact ⟨r, hev, hdeep⟩
  refine ⟨hexists, ?_, ?_, ?_⟩
  · intro s hcur
    obtain ⟨r, hfind, hdepth, hdeep⟩ := h.deepest_row hcur
    exact ⟨r, Table.find_key hfind, hdepth, hdeep⟩
  · obtain ⟨found, hfound, hnone, hsome⟩ := hread type
    refine ⟨found, hfound, ?_, hsome⟩
    rw [hnone, ← hexists]
    cases st.room_state.find (room_id, type, state_key) <;> simp
  · obtain ⟨found, hfound, -, -⟩ := hread "p.room.member"
    refine ⟨found, hfound, ?_⟩
    unfold Store.membership
    rw [hfound]
    rfl

/-- The marker of an encrypted room, under a state key of its own. -/
def markerEvent : Json :=
  .obj [("event_id", .str "$lock"), ("room_id", .str "!room"),
    ("sender", .str "@bob:pigeon.example"),
    ("type", .str "p.room.encryption"), ("state_key", .str "mls"), ("origin_server_ts", .num 8),
    ("depth", .num 6), ("content", .obj [("algorithm", .str "p.mls.1")])]

theorem none_acked (id : String) (h : False) : ¬ IsLocal id := h.elim

/-- A server that names the room and marks it. -/
def markingServer : Server where
  sends j := j = nameEvent "$duck" "Duck" ∨ j = markerEvent
  acks _ := False
  sends_remote := by
    intro j ev hj hev
    rcases hj with rfl | rfl
    · exact parsed_not_local hev rfl (by decide)
    · exact parsed_not_local hev rfl (by decide)
  acks_remote := none_acked

theorem markingServer_hashed : markingServer.Hashed := by
  refine ⟨?_, fun j ev _ _ h => h.elim⟩
  intro j j' x y hj hj' hx hy hid
  have hxid := (StoredEvent.from_wire_ok.mp hx).1
  have hyid := (StoredEvent.from_wire_ok.mp hy).1
  rcases hj with rfl | rfl <;> rcases hj' with rfl | rfl
  · rfl
  · rw [← Option.some.inj hxid, ← Option.some.inj hyid] at hid
    simp at hid
  · rw [← Option.some.inj hxid, ← Option.some.inj hyid] at hid
    simp at hid
  · rfl

theorem marking_store : ∃ st : Store, st.Reachable markingServer ∧
    (∃ s, st.room_state.find ("!room", "p.room.name", "") = some s) ∧
    st.is_room_encrypted "!room" = true := by
  have hb : ∀ j ∈ [nameEvent "$duck" "Duck", markerEvent], markingServer.sends j := by
    intro j hj
    simpa [markingServer] using hj
  exact ⟨_, Relation.ReflTransGen.single (.apply_events hb rfl), ⟨_, rfl⟩, rfl⟩

/-- The name of the room is read of a deepest event. -/
theorem current_state_is_the_deepest_name : ∃ st : Store, ∃ s r,
    st.room_state.find ("!room", "p.room.name", "") = some s ∧ r.event_id = s.event_id ∧
      Deepest st ("!room", "p.room.name", "") r := by
  obtain ⟨st, hr, ⟨s, hs⟩, -⟩ := marking_store
  obtain ⟨r, hid, -, hdeep⟩ := (current_state_is_the_deepest markingServer markingServer_hashed st
    hr "!room" "p.room.name" "").2.1 s hs
  exact ⟨st, s, r, hs, hid, hdeep⟩

/-! ## The encryption flag -/

theorem is_room_encrypted_iff {room_id : String} : st.is_room_encrypted room_id = true ↔
    ∃ key s, st.room_state.find (room_id, "p.room.encryption", key) = some s := by
  unfold Store.is_room_encrypted
  simp only [List.any_eq_true, decide_eq_true_eq]
  constructor
  · rintro ⟨s, hs, rfl, htype⟩
    refine ⟨s.state_key, s, ?_⟩
    rw [← htype]
    exact Table.mem_rows_iff.mp hs
  · rintro ⟨key, s, hs⟩
    obtain ⟨hmem, hkey⟩ := Table.find_some_iff.mp hs
    refine ⟨s, hmem, congrArg Prod.fst hkey, ?_⟩
    exact congrArg (fun k => k.2.1) hkey

/-- What an entry of the room list says, apart from its texts. -/
theorem summary_ok {room_id : String} {s : RoomSummary} (h : st.summary room_id = .ok s) :
    s.room_id = room_id ∧ s.encrypted = st.is_room_encrypted room_id ∧
      s.last_activity_ts = st.last_activity_ts room_id ∧
      (st.stateText room_id "p.room.name" "name").getOptionString = some s.name ∧
      (st.stateText room_id "p.room.topic" "topic").getOptionString = some s.topic := by
  unfold Store.summary at h
  split at h
  · next name topic hname htopic =>
    cases h
    exact ⟨rfl, rfl, rfl, hname, htopic⟩
  · cases h

theorem mem_list_rooms {rooms : List RoomSummary} (h : st.list_rooms = .ok rooms)
    (room_id : String) :
    (∀ s ∈ rooms, s.room_id = room_id → s.encrypted = st.is_room_encrypted room_id) ∧
    ((∃ s ∈ st.room_state.rows, s.room_id = room_id) → ∃ s ∈ rooms, s.room_id = room_id) := by
  unfold Store.list_rooms at h
  have hall := mapM_ok_iff.mp h
  constructor
  · intro s hs hroom
    obtain ⟨room, -, hsum⟩ := mem_of_forall₂ hall hs
    obtain ⟨hid, henc, -⟩ := summary_ok hsum
    rw [henc, ← hid, hroom]
  · rintro ⟨row, hrow, hroom⟩
    have hmem : room_id ∈ ((st.room_state.rows.map (·.room_id)).dedup).insertionSort
        (fun a b => toLex (-st.last_activity_ts a, a) ≤ toLex (-st.last_activity_ts b, b)) := by
      rw [List.mem_insertionSort, List.mem_dedup, List.mem_map]
      exact ⟨row, hrow, hroom⟩
    obtain ⟨s, hs, hsum⟩ := mem_of_forall₂ (List.Forall₂.flip hall) hmem
    exact ⟨s, hs, (summary_ok hsum).1⟩

/-- In every store that the methods lead to, a room is encrypted just where its log has a
marker, under any state key and at any depth. The room list says the same, and a room that is
encrypted stays so, whatever the methods do after. -/
theorem encryption_flag_is_exact (S : Server) (hash : S.Hashed) (st : Store)
    (hr : st.Reachable S) (room_id : String) :
    (st.is_room_encrypted room_id = true ↔ ∃ r ∈ st.events.rows, r.room_id = room_id ∧
      r.type = "p.room.encryption" ∧ r.state_key ≠ none) ∧
    (∀ rooms, st.list_rooms = .ok rooms →
      (∀ s ∈ rooms, s.room_id = room_id → s.encrypted = st.is_room_encrypted room_id) ∧
      (st.is_room_encrypted room_id = true → ∃ s ∈ rooms, s.room_id = room_id)) ∧
    ∀ st', StoreSteps S st st' → st.is_room_encrypted room_id = true →
      st'.is_room_encrypted room_id = true := by
  have hs := hr.sound
  have h := hr.folded hash
  refine ⟨?_, ?_, ?_⟩
  · rw [is_room_encrypted_iff]
    constructor
    · rintro ⟨key, s, hcur⟩
      obtain ⟨r, -, -, hdeep⟩ := h.deepest_row hcur
      obtain ⟨hroom, htype, hkey⟩ := EventRow.stateKey_some.mp hdeep.sets
      exact ⟨r, hdeep.mem, hroom, htype, by rw [hkey]; simp⟩
    · rintro ⟨r, hmem, hroom, htype, hkey⟩
      obtain ⟨key, hkey⟩ := Option.ne_none_iff_exists'.mp hkey
      obtain ⟨s, hcur, -⟩ := h.deepest _ r (room_id, "p.room.encryption", key)
        (Table.mem_rows_iff.mp hmem) (EventRow.stateKey_some.mpr ⟨hroom, htype, hkey⟩)
      exact ⟨key, s, hcur⟩
  · intro rooms hrooms
    obtain ⟨hflag, hentry⟩ := mem_list_rooms hrooms room_id
    refine ⟨hflag, ?_⟩
    intro henc
    obtain ⟨key, s, hcur⟩ := is_room_encrypted_iff.mp henc
    obtain ⟨hmem, hkey⟩ := Table.find_some_iff.mp hcur
    exact hentry ⟨s, hmem, congrArg Prod.fst hkey⟩
  · intro st' hsteps henc
    obtain ⟨key, s, hcur⟩ := is_room_encrypted_iff.mp henc
    rw [is_room_encrypted_iff]
    refine ⟨key, ?_⟩
    induction hsteps with
    | refl => exact ⟨s, hcur⟩
    | tail hsteps hstep ih =>
      obtain ⟨s₁, hcur₁⟩ := ih
      exact hstep.current_lasts (StoreSteps.sound hs hsteps) hcur₁

/-- A room with a marker stays encrypted. -/
theorem encryption_flag_is_exact_room : ∃ st : Store, st.is_room_encrypted "!room" = true ∧
    ∀ st', StoreSteps markingServer st st' → st'.is_room_encrypted "!room" = true := by
  obtain ⟨st, hr, -, henc⟩ := marking_store
  refine ⟨st, henc, ?_⟩
  intro st' hsteps
  exact (encryption_flag_is_exact markingServer markingServer_hashed st hr "!room").2.2 st' hsteps
    henc

end Reachable

end PigeonMobile
