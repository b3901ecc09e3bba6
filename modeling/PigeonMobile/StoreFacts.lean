-- What each method of the store does, said through `find`: one lemma for a method,
-- so no later proof opens one. Then what a timeline page shows.
import PigeonMobile.Timeline
import Mathlib.Data.List.Perm.Basic

namespace PigeonMobile

/-! ## Reads that may fail, over a list -/

theorem mapM_ok_iff {α β ε : Type} {f : α → Except ε β} {l : List α} {bs : List β} :
    l.mapM f = .ok bs ↔ List.Forall₂ (fun a b => f a = .ok b) l bs := by
  induction l generalizing bs with
  | nil =>
    rw [List.mapM_nil, List.forall₂_nil_left_iff]
    constructor
    · intro h
      cases h
      rfl
    · rintro rfl
      rfl
  | cons a rest ih =>
    rw [List.mapM_cons, List.forall₂_cons_left_iff]
    cases hf : f a with
    | error e =>
      constructor
      · intro h
        cases h
      · rintro ⟨b, bs', h, _⟩
        cases h
    | ok b =>
      cases hr : rest.mapM f with
      | error e =>
        constructor
        · intro h
          cases h
        · rintro ⟨b', bs', _, h, rfl⟩
          rw [← ih, hr] at h
          cases h
      | ok bs' =>
        constructor
        · intro h
          cases h
          exact ⟨b, bs', rfl, ih.mp hr, rfl⟩
        · rintro ⟨b', bs'', h, h', rfl⟩
          cases h
          rw [← ih, hr] at h'
          cases h'
          rfl

theorem mapM_total {α β ε : Type} {f : α → Except ε β} {l : List α}
    (h : ∀ a ∈ l, ∃ b, f a = .ok b) : ∃ bs, l.mapM f = .ok bs := by
  induction l with
  | nil => exact ⟨[], rfl⟩
  | cons a rest ih =>
    obtain ⟨b, hb⟩ := h a List.mem_cons_self
    obtain ⟨bs, hbs⟩ := ih (fun x hx => h x (List.mem_cons_of_mem _ hx))
    refine ⟨b :: bs, ?_⟩
    rw [mapM_ok_iff] at hbs ⊢
    exact List.Forall₂.cons hb hbs

/-- Each entry of the right list comes from one of the left. -/
theorem mem_of_forall₂ {α β : Type} {R : α → β → Prop} {l : List α} {bs : List β}
    (h : List.Forall₂ R l bs) {b : β} (hb : b ∈ bs) : ∃ a ∈ l, R a b := by
  induction h with
  | nil => cases hb
  | @cons a b' _ _ hab _ ih =>
    rcases List.mem_cons.mp hb with rfl | hb
    · exact ⟨a, List.mem_cons_self, hab⟩
    · obtain ⟨a', ha', h⟩ := ih hb
      exact ⟨a', List.mem_cons_of_mem _ ha', h⟩

/-! ## Events of the wire -/

namespace StoredEvent

theorem stringField_ok {j : Json} {key s : String} :
    stringField j key = .ok s ↔ (j.index key).as_str = some s := by
  unfold stringField
  cases (j.index key).as_str <;> simp

theorem intField_ok {j : Json} {key : String} {n : Int} :
    intField j key = .ok n ↔ (j.index key).as_i64 = some n := by
  unfold intField
  cases (j.index key).as_i64 <;> simp

/-- An event parses just where its six fields are there, and then it is made of them. -/
theorem from_wire_ok {j : Json} {ev : StoredEvent} :
    from_wire j = .ok ev ↔
      (j.index "event_id").as_str = some ev.event_id ∧
        (j.index "room_id").as_str = some ev.room_id ∧
      (j.index "sender").as_str = some ev.sender ∧ (j.index "type").as_str = some ev.event_type ∧
      (j.index "origin_server_ts").as_i64 = some ev.origin_server_ts ∧
      (j.index "depth").as_i64 = some ev.depth ∧ (j.index "state_key").as_str = ev.state_key ∧
      (j.get "content").getD .null = ev.content ∧ ev.payload = j ∧ ev.send_state = .Confirmed ∧
      ev.decrypted = none ∧ ev.decrypt_failed = false := by
  unfold from_wire
  simp only [bind, Except.bind, pure, Except.pure]
  constructor
  · intro h
    cases h1 : stringField j "event_id" with
    | error e => rw [h1] at h; cases h
    | ok event_id =>
      cases h2 : stringField j "room_id" with
      | error e => rw [h1, h2] at h; cases h
      | ok room_id =>
        cases h3 : stringField j "sender" with
        | error e => rw [h1, h2, h3] at h; cases h
        | ok sender =>
          cases h4 : stringField j "type" with
          | error e => rw [h1, h2, h3, h4] at h; cases h
          | ok event_type =>
            cases h5 : intField j "origin_server_ts" with
            | error e => rw [h1, h2, h3, h4, h5] at h; cases h
            | ok ts =>
              cases h6 : intField j "depth" with
              | error e => rw [h1, h2, h3, h4, h5, h6] at h; cases h
              | ok depth =>
                rw [h1, h2, h3, h4, h5, h6] at h
                cases h
                exact ⟨stringField_ok.mp h1, stringField_ok.mp h2, stringField_ok.mp h3,
                  stringField_ok.mp h4, intField_ok.mp h5, intField_ok.mp h6, rfl, rfl, rfl, rfl,
                    rfl, rfl⟩
  · rintro ⟨h1, h2, h3, h4, h5, h6, h7, h8, h9, h10, h11, h12⟩
    rw [stringField_ok.mpr h1, stringField_ok.mpr h2, stringField_ok.mpr h3, stringField_ok.mpr h4,
      intField_ok.mpr h5, intField_ok.mpr h6]
    obtain ⟨⟩ := ev
    simp_all

end StoredEvent

/-! ## The DAG order -/

theorem position_inj {rows : List EventRow} (h : (rows.map EventRow.event_id).Nodup)
    {r r' : EventRow}
    (hr : r ∈ rows) (hr' : r' ∈ rows) (hp : r.position = r'.position) : r = r' := by
  have hid : r.event_id = r'.event_id := by
    have hpair := congrArg ofLex hp
    exact congrArg Prod.snd hpair
  exact List.inj_on_of_nodup_map h hr hr' hid

theorem dagSort_sorted (rows : List EventRow) :
    (dagSort rows).Pairwise (fun a b => a.position ≤ b.position) := by
  have htotal : Std.Total (fun a b : EventRow => a.position ≤ b.position) :=
    ⟨fun a b => le_total a.position b.position⟩
  have htrans : IsTrans EventRow (fun a b => a.position ≤ b.position) := ⟨fun a b c => le_trans⟩
  exact List.pairwise_insertionSort _ rows

theorem dagSort_perm (rows : List EventRow) : (dagSort rows).Perm rows :=
  List.perm_insertionSort _ rows

/-- One list only has the same rows in DAG order. -/
theorem dagSort_unique {rows l : List EventRow} (h : (rows.map EventRow.event_id).Nodup)
    (hsorted : l.Pairwise (fun a b => a.position ≤ b.position)) (hperm : l.Perm rows) :
    dagSort rows = l := by
  have hsame := dagSort_perm rows
  refine List.Perm.eq_of_pairwise ?_ (dagSort_sorted rows) hsorted (hsame.trans hperm.symm)
  intro a b ha hb hab hba
  exact position_inj h (hsame.mem_iff.mp ha) (hperm.mem_iff.mp hb) (le_antisymm hab hba)

theorem dagSort_filter {rows : List EventRow} (h : (rows.map EventRow.event_id).Nodup)
    (p : EventRow → Bool) : dagSort (rows.filter p) = (dagSort rows).filter p := by
  apply dagSort_unique
  · exact h.sublist (List.filter_sublist.map EventRow.event_id)
  · exact (dagSort_sorted rows).sublist List.filter_sublist
  · exact (dagSort_perm rows).filter p

/-! ## What the methods change -/

namespace Store

variable (st : Store)

theorem find_insert_event (ev : StoredEvent) (k : String) :
    (st.insert_event ev).2.events.find k =
      if ev.event_id = k then some ((st.events.find k).getD (rowOf ev)) else st.events.find k :=
  Table.find_insertNew st.events (rowOf ev) k

theorem apply_event_events (ev : StoredEvent) :
    (st.apply_event ev).2.events = (st.insert_event ev).2.events := by
  unfold apply_event
  cases ev.state_key <;> rfl

theorem apply_event_pending_sends (ev : StoredEvent) :
    (st.apply_event ev).2.pending_sends = st.pending_sends := by
  unfold apply_event
  cases ev.state_key <;> rfl

theorem mem_room_state_apply_event {ev : StoredEvent} {s : StateRow}
    (h : s ∈ (st.apply_event ev).2.room_state.rows) :
    s ∈ st.room_state.rows ∨ s.event_id = ev.event_id := by
  unfold apply_event at h
  cases hk : ev.state_key with
  | none =>
    rw [hk] at h
    exact Or.inl h
  | some key =>
    rw [hk] at h
    simp only [fold_state, insert_event] at h
    rw [Table.mem_rows_iff, Table.find_upsert] at h
    split at h
    · cases hold : st.room_state.find s.key with
      | none =>
        rw [hold] at h
        cases h
        exact Or.inr rfl
      | some old =>
        rw [hold] at h
        simp only [Option.some.injEq] at h
        split at h
        · rw [← h]
          exact Or.inr rfl
        · rw [← h]
          exact Or.inl (Table.find_some_iff.mp hold).1
    · exact Or.inl (Table.mem_rows_iff.mpr h)

/-- A batch keeps every row it finds, and adds the row of each event that is new. -/
theorem find_apply_parsed (evs : List StoredEvent) (k : String) :
    (st.apply_parsed evs).2.events.find k =
      (st.events.find k).or ((evs.find? (fun ev => decide (ev.event_id = k))).map rowOf) := by
  induction evs generalizing st with
  | nil => simp [apply_parsed]
  | cons ev rest ih =>
    simp only [apply_parsed]
    rw [ih, apply_event_events, find_insert_event]
    by_cases h : ev.event_id = k
    · cases st.events.find k <;> simp [h]
    · simp [h]

/-- A row that is there stays. -/
theorem find_apply_parsed_old {evs : List StoredEvent} {k : String} {r : EventRow}
    (hr : st.events.find k = some r) : (st.apply_parsed evs).2.events.find k = some r := by
  rw [st.find_apply_parsed, hr, Option.some_or]

/-- A row after a batch was there before, or it is that of an event of the batch. -/
theorem row_of_apply_parsed {evs : List StoredEvent} {k : String} {r : EventRow}
    (hr : (st.apply_parsed evs).2.events.find k = some r) :
    st.events.find k = some r ∨ ∃ ev ∈ evs, ev.event_id = k ∧ r = rowOf ev := by
  rw [st.find_apply_parsed, Option.or_eq_some_iff, Option.map_eq_some_iff] at hr
  rcases hr with hold | ⟨-, ev, hev, rfl⟩
  · exact Or.inl hold
  · exact Or.inr ⟨ev, List.mem_of_find?_eq_some hev, by simpa using List.find?_some hev, rfl⟩

theorem apply_parsed_pending_sends (evs : List StoredEvent) :
    (st.apply_parsed evs).2.pending_sends = st.pending_sends := by
  induction evs generalizing st with
  | nil => rfl
  | cons ev rest ih =>
    simp only [apply_parsed]
    rw [ih, apply_event_pending_sends]

theorem mem_room_state_apply_parsed {evs : List StoredEvent} {s : StateRow}
    (h : s ∈ (st.apply_parsed evs).2.room_state.rows) :
    s ∈ st.room_state.rows ∨ ∃ ev ∈ evs, s.event_id = ev.event_id := by
  induction evs generalizing st with
  | nil => exact Or.inl h
  | cons ev rest ih =>
    simp only [apply_parsed] at h
    rcases ih _ h with h | ⟨ev', hmem, h⟩
    · rcases st.mem_room_state_apply_event h with h | h
      · exact Or.inl h
      · exact Or.inr ⟨ev, List.mem_cons_self, h⟩
    · exact Or.inr ⟨ev', List.mem_cons_of_mem _ hmem, h⟩

/-- A batch is applied as a whole, or it is refused. -/
theorem apply_events_ok {events : List Json} {n : Nat} {st' : Store}
    (h : st.apply_events events = .ok (n, st')) :
    ∃ evs, List.Forall₂ (fun j ev => StoredEvent.from_wire j = .ok ev) events evs ∧
      st.apply_parsed evs = (n, st') := by
  unfold apply_events at h
  cases hm : events.mapM StoredEvent.from_wire with
  | error e =>
    rw [hm] at h
    cases h
  | ok evs =>
    rw [hm] at h
    refine ⟨evs, mapM_ok_iff.mp hm, ?_⟩
    simpa [bind, Except.bind, pure, Except.pure] using h

/-- A batch of parsed events is applied. -/
theorem apply_events_parsed {events : List Json} {evs : List StoredEvent}
    (h : List.Forall₂ (fun j ev => StoredEvent.from_wire j = .ok ev) events evs) :
    st.apply_events events = .ok (st.apply_parsed evs) := by
  unfold apply_events
  rw [mapM_ok_iff.mpr h]
  rfl

/-- The echo of a queued send. -/
def echoRow (room_id sender body : String) (event_id : String) (ts depth : Int) : EventRow :=
  { event_id, room_id, sender, type := "p.room.message", state_key := none
    origin_server_ts := ts, depth, payload := echoPayload event_id room_id sender body ts depth
    local_ := 1, decrypted := none, decrypt_state := 0 }

/-- A queued send is an echo and a row of the queue, under ids that were free. -/
theorem queue_send_ok {room_id sender body txn : String} {ids : SendIds} {ts : Int} {st' : Store}
    (h : st.queue_send room_id sender body ids ts = .ok (txn, st')) :
    txn = ids.txn_id ∧ ∃ depth, Json.inI64 depth = true ∧
      st.events.find ids.event_id = none ∧ st.pending_sends.find ids.txn_id = none ∧
      st' = { st with
        events := st.events.insertNew (echoRow room_id sender body ids.event_id ts depth)
        pending_sends := st.pending_sends.insertNew
          ⟨ids.txn_id, room_id, body, ids.event_id, ts⟩ } := by
  unfold queue_send at h
  cases hd : st.nextDepth room_id with
  | error e =>
    rw [hd] at h
    cases h
  | ok depth =>
    rw [hd] at h
    simp only [bind, Except.bind] at h
    split at h
    · cases h
    · next hfree =>
      simp only [not_or, Bool.not_eq_true, Option.isSome_eq_false_iff, Option.isNone_iff_eq_none]
        at hfree
      cases h
      refine ⟨rfl, depth, ?_, hfree.1, hfree.2, rfl⟩
      unfold nextDepth at hd
      simp only at hd
      split at hd
      · next hin =>
        cases hd
        exact hin
      · cases hd

/-- The rows after a message was queued. -/
theorem find_queue_send {room_id sender body txn : String} {ids : SendIds} {ts : Int} {st' : Store}
    (h : st.queue_send room_id sender body ids ts = .ok (txn, st')) :
    ∃ depth, Json.inI64 depth = true ∧ st.events.find ids.event_id = none ∧
      st.pending_sends.find ids.txn_id = none ∧ st'.room_state = st.room_state ∧
      (∀ k, st'.events.find k = if ids.event_id = k then
        some (echoRow room_id sender body ids.event_id ts depth) else st.events.find k) ∧
      ∀ t, st'.pending_sends.find t = if ids.txn_id = t then
        some ⟨ids.txn_id, room_id, body, ids.event_id, ts⟩ else st.pending_sends.find t := by
  obtain ⟨-, depth, hdepth, hfree, hnew, rfl⟩ := st.queue_send_ok h
  exact ⟨depth, hdepth, hfree, hnew, rfl, fun k => Table.find_insertNew_free hfree k,
    fun t => Table.find_insertNew_free hnew t⟩

/-- An ack that sync raced ahead of: the row of the event is kept, and the echo goes. -/
theorem resolve_send_raced {txn_id id : String} {p : PendingRow}
    (hp : st.pending_sends.find txn_id = some p) (href : st.referenced p.event_id = false)
    (hrow : (st.events.find id).isSome = true) :
    ∃ st', st.resolve_send txn_id id = .ok st' ∧ st'.room_state = st.room_state ∧
      st'.pending_sends = st.pending_sends.erase txn_id ∧ ∀ k, st'.events.find k =
        if k = p.event_id then none
        else (st.events.find k).map (fun r => if k = id then carryPlaintext p.body r else r) := by
  unfold resolve_send
  rw [hp]
  simp only [href, Bool.false_eq_true, if_false]
  rw [if_pos hrow]
  refine ⟨_, rfl, rfl, rfl, ?_⟩
  intro k
  refine (Table.find_erase _ _ _).trans ?_
  by_cases hk : k = p.event_id
  · rw [if_pos hk, if_pos hk]
  · rw [if_neg hk, if_neg hk]
    exact Table.find_update _ _ _ _ _

/-- An ack before the event: the echo moves to the id of the event. -/
theorem resolve_send_promotes {txn_id id : String} {p : PendingRow}
    (hp : st.pending_sends.find txn_id = some p) (href : st.referenced p.event_id = false)
    (hfree : st.events.find id = none) (hne : p.event_id ≠ id) :
    ∃ st', st.resolve_send txn_id id = .ok st' ∧ st'.room_state = st.room_state ∧
      st'.pending_sends = st.pending_sends.erase txn_id ∧ ∀ k, st'.events.find k =
        if k = id then (st.events.find p.event_id).map (promote id)
        else if k = p.event_id then none else st.events.find k := by
  unfold resolve_send
  rw [hp]
  simp only [href, Bool.false_eq_true, if_false]
  rw [if_neg (by simp [hfree])]
  refine ⟨_, rfl, rfl, rfl, ?_⟩
  intro k
  by_cases hk : k = id
  · rw [if_pos hk, hk]
    exact Table.find_rekey_self st.events p.event_id id (promote id) (fun _ => rfl) hfree
  · rw [if_neg hk]
    by_cases hk' : k = p.event_id
    · rw [if_pos hk', hk']
      exact Table.find_rekey_old st.events p.event_id id (promote id) (fun _ => rfl) hfree hne
    · rw [if_neg hk']
      exact Table.find_rekey_ne st.events p.event_id id k (promote id) (fun _ => rfl) hfree hk' hk

/-- What an ack does to a store: the send is unknown, or sync was there first, or the echo
moves to the id of the event. -/
inductive Acked (st : Store) (txn_id id : String) (st' : Store) : Prop where
  | unknown (hunknown : st.pending_sends.find txn_id = none)
      (hst : st' = { st with pending_sends := st.pending_sends.erase txn_id })
  | raced (p : PendingRow) (r : EventRow) (hp : st.pending_sends.find txn_id = some p)
      (hrow : st.events.find id = some r)
      (hstate : st'.room_state = st.room_state)
      (hpending : st'.pending_sends = st.pending_sends.erase txn_id)
      (hfind : ∀ k, st'.events.find k = if k = p.event_id then none
        else (st.events.find k).map (fun r => if k = id then carryPlaintext p.body r else r))
  | promoted (p : PendingRow) (hp : st.pending_sends.find txn_id = some p)
      (hfree : st.events.find id = none) (hstate : st'.room_state = st.room_state)
      (hpending : st'.pending_sends = st.pending_sends.erase txn_id)
      (hfind : ∀ k, st'.events.find k =
        if k = id then (st.events.find p.event_id).map (promote id)
        else if k = p.event_id then none else st.events.find k)

/-- An ack that goes through did one of these, where each queued send has its echo. -/
theorem acked {txn_id id : String} {st' : Store} (hok : st.resolve_send txn_id id = .ok st')
    (hechoes : ∀ p, st.pending_sends.find txn_id = some p → ∃ r,
      st.events.find p.event_id = some r) :
    Acked st txn_id id st' := by
  cases hp : st.pending_sends.find txn_id with
  | none =>
    unfold resolve_send at hok
    rw [hp] at hok
    cases hok
    exact .unknown hp rfl
  | some p =>
    -- the foreign key let the echo go
    have href : st.referenced p.event_id = false := by
      unfold resolve_send at hok
      rw [hp] at hok
      simp only at hok
      split at hok
      · cases hok
      · next href => simpa using href
    cases hrow : st.events.find id with
    | some r =>
      obtain ⟨st₁, hst₁, hstate, hpending, hfind⟩ :=
        st.resolve_send_raced hp href (by rw [hrow]; rfl)
      obtain rfl : st₁ = st' := Except.ok.inj (hst₁.symm.trans hok)
      exact .raced p r hp hrow hstate hpending hfind
    | none =>
      have hne : p.event_id ≠ id := by
        intro he
        obtain ⟨r, hr⟩ := hechoes p hp
        rw [he, hrow] at hr
        cases hr
      obtain ⟨st₁, hst₁, hstate, hpending, hfind⟩ := st.resolve_send_promotes hp href hrow hne
      obtain rfl : st₁ = st' := Except.ok.inj (hst₁.symm.trans hok)
      exact .promoted p hp hrow hstate hpending hfind

/-- There is no echo of an unknown send to mark. -/
theorem fail_send_unknown {txn_id : String} (hunknown : st.pending_sends.find txn_id = none) :
    st.fail_send txn_id = { st with pending_sends := st.pending_sends.erase txn_id } := by
  unfold fail_send
  rw [hunknown]

/-- A queued send that failed: its echo says so. -/
theorem fail_send_queued {txn_id : String} {p : PendingRow}
    (hp : st.pending_sends.find txn_id = some p) :
    (st.fail_send txn_id).room_state = st.room_state ∧
      (st.fail_send txn_id).pending_sends = st.pending_sends.erase txn_id ∧
      ∀ k, (st.fail_send txn_id).events.find k =
        (st.events.find k).map (fun r => if k = p.event_id then markFailed r else r) := by
  unfold fail_send
  rw [hp]
  refine ⟨rfl, rfl, ?_⟩
  intro k
  exact Table.find_update st.events p.event_id k markFailed (fun _ => rfl)

/-- The queue as the sender reads it has the rows of the table. -/
theorem mem_pending_sends_list {s : PendingSend} :
    s ∈ st.pending_sends_list ↔ ∃ p ∈ st.pending_sends.rows, s = ⟨p.txn_id, p.room_id, p.body⟩ := by
  unfold pending_sends_list
  simp only [List.mem_map, List.mem_insertionSort]
  constructor
  · rintro ⟨p, hp, rfl⟩
    exact ⟨p, hp, rfl⟩
  · rintro ⟨p, hp, rfl⟩
    exact ⟨p, hp, rfl⟩

/-- The text of a field that a row has as one. -/
theorem getOptionString_text {v : SqlValue} {s : String} (h : v.getOptionString = some (some s)) :
    v = .text s := by
  cases v <;> simp_all [SqlValue.getOptionString]

/-- What a row is read as: a message with its ciphertext, or a commit. -/
theorem pendingOf_cases {r : EventRow} {item : PendingMls} (h : pendingOf r = .ok (some item)) :
    (∃ ct, r.type = "p.room.encrypted" ∧
      json_extract r.payload ["content", "ciphertext"] = .text ct ∧
      item = .Message ⟨r.event_id, r.room_id, r.sender, ct⟩) ∨
    ∃ commit, r.type = "p.mls.commit" ∧
      json_extract r.payload ["content", "commit"] = .text commit ∧
      item = .Commit ⟨r.event_id, r.room_id, r.sender, commit⟩ := by
  unfold pendingOf at h
  split at h
  · next ciphertext commit hct hcm =>
    split at h
    · next htype =>
      rw [Except.ok.injEq, Option.map_eq_some_iff] at h
      obtain ⟨ct, rfl, rfl⟩ := h
      exact Or.inl ⟨ct, htype, getOptionString_text hct, rfl⟩
    · split at h
      · next htype =>
        rw [Except.ok.injEq, Option.map_eq_some_iff] at h
        obtain ⟨text, rfl, rfl⟩ := h
        exact Or.inr ⟨text, htype, getOptionString_text hcm, rfl⟩
      · cases h
  · cases h

/-- Every event that waits is one row of the log, in the state 0. -/
theorem mem_pending_mls {items : List PendingMls} {item : PendingMls}
    (h : st.pending_mls = .ok items) (hi : item ∈ items) :
    ∃ r ∈ st.events.rows, r.decrypt_state = 0 ∧ pendingOf r = .ok (some item) := by
  unfold pending_mls at h
  cases hm : st.pendingRows.mapM pendingOf with
  | error e =>
    rw [hm] at h
    cases h
  | ok found =>
    rw [hm] at h
    have hitems : found.filterMap id = items := by
      simpa [bind, Except.bind, pure, Except.pure] using h
    rw [← hitems, List.mem_filterMap] at hi
    obtain ⟨o, ho, hsome⟩ := hi
    obtain rfl : o = some item := hsome
    obtain ⟨r, hr, hof⟩ := mem_of_forall₂ (mapM_ok_iff.mp hm) ho
    unfold pendingRows dagSort at hr
    simp only [List.mem_insertionSort, List.mem_filter, decide_eq_true_eq] at hr
    exact ⟨r, hr.1, hr.2.2, hof⟩

/-! ## What a timeline shows -/

/-- A row whose payload says what its columns say. -/
def Readable (r : EventRow) : Prop :=
  ∃ ev, StoredEvent.from_wire r.payload = .ok ev ∧ ev.event_id = r.event_id ∧
    ev.event_type = r.type

theorem parse_readable {r : EventRow} (h : Readable r) :
    ∃ ev, parse_stored_payload r = .ok ev ∧ ev.event_id = r.event_id ∧ ev.event_type = r.type ∧
      ev.content = (r.payload.get "content").getD .null ∧ ev.send_state = .from_local r.local_ ∧
      ev.decrypted = r.decrypted ∧
        ev.decrypt_failed = decide (r.decrypt_state = DECRYPT_FAILED) := by
  obtain ⟨ev, hev, hid, htype⟩ := h
  let shown : StoredEvent := { ev with
    send_state := .from_local r.local_
    decrypted := r.decrypted
    decrypt_failed := decide (r.decrypt_state = DECRYPT_FAILED) }
  refine ⟨shown, ?_, hid, htype, ?_, rfl, rfl, rfl⟩
  · unfold parse_stored_payload
    rw [hev]
    rfl
  · have h := StoredEvent.from_wire_ok.mp hev
    exact h.2.2.2.2.2.2.2.1.symm

/-- Every entry of a page is a row of the log. -/
theorem mem_timeline {room_id : String} {limit : Nat} {before : Option Int}
    {entries : List StoredEvent} {ev : StoredEvent}
    (h : st.timeline room_id limit before = .ok entries) (hev : ev ∈ entries) :
    ∃ r ∈ st.events.rows, parse_stored_payload r = .ok ev := by
  unfold timeline at h
  cases hm : ((st.timelineRows room_id before).take limit).mapM parse_stored_payload with
  | error e =>
    rw [hm] at h
    cases h
  | ok evs =>
    rw [hm] at h
    have hentries : evs.reverse = entries := by
      simpa [bind, Except.bind, pure, Except.pure] using h
    rw [← hentries, List.mem_reverse] at hev
    obtain ⟨r, hr, hp⟩ := mem_of_forall₂ (mapM_ok_iff.mp hm) hev
    have hrows := List.mem_of_mem_take hr
    unfold timelineRows dagSort at hrows
    simp only [List.mem_reverse, List.mem_insertionSort, List.mem_filter] at hrows
    exact ⟨r, hrows.1, hp⟩

/-- The rows of a room that the timeline shows. -/
def shownRows (room_id : String) : List EventRow :=
  st.events.rows.filter (fun r => decide (r.room_id = room_id ∧ r.type ≠ "p.mls.commit"))

/-- A page long enough shows every row of the room, in DAG order. -/
theorem timeline_ok (room_id : String) {limit : Nat} (hlimit : st.events.rows.length ≤ limit)
    (hrows : ∀ r ∈ st.events.rows, Readable r) :
    ∃ entries, st.timeline room_id limit none = .ok entries ∧
      List.Forall₂ (fun r ev => parse_stored_payload r = .ok ev) (dagSort (st.shownRows room_id))
        entries := by
  have hfilter : st.timelineRows room_id none = (dagSort (st.shownRows room_id)).reverse := by
    unfold timelineRows shownRows
    congr 3
    funext r
    simp
  have hlen : (st.timelineRows room_id none).length ≤ limit := by
    rw [hfilter, List.length_reverse, dagSort, List.length_insertionSort]
    have h := List.length_filter_le
      (fun r : EventRow => decide (r.room_id = room_id ∧ r.type ≠ "p.mls.commit")) st.events.rows
    unfold shownRows
    omega
  obtain ⟨evs, hevs⟩ : ∃ evs, (st.timelineRows room_id none).mapM parse_stored_payload =
      .ok evs := by
    apply mapM_total
    intro r hr
    rw [hfilter, List.mem_reverse, dagSort, List.mem_insertionSort] at hr
    obtain ⟨ev, hev, -⟩ := parse_readable (hrows r (List.mem_filter.mp hr).1)
    exact ⟨ev, hev⟩
  refine ⟨evs.reverse, ?_, ?_⟩
  · unfold timeline
    rw [List.take_of_length_le hlen, hevs]
    rfl
  · have h := mapM_ok_iff.mp hevs
    rw [hfilter] at h
    rw [← List.reverse_reverse (dagSort (st.shownRows room_id)), List.forall₂_reverse_iff]
    exact h

/-- Entries picked by their event id are the rows picked so. -/
theorem filter_entries {p : String → Bool} {rows : List EventRow} {entries : List StoredEvent}
    (h : List.Forall₂ (fun r ev => parse_stored_payload r = .ok ev) rows entries)
    (hrows : ∀ r ∈ rows, Readable r) :
    List.Forall₂ (fun r ev => parse_stored_payload r = .ok ev) (rows.filter (fun r => p r.event_id))
      (entries.filter (fun ev => p ev.event_id)) := by
  induction h with
  | nil => exact List.Forall₂.nil
  | @cons r ev rows entries hr _ ih =>
    have ih := ih (fun r' hr' => hrows r' (List.mem_cons_of_mem _ hr'))
    obtain ⟨ev', hev', hid, -⟩ := parse_readable (hrows r List.mem_cons_self)
    obtain rfl : ev = ev' := by
      rw [hr] at hev'
      exact Except.ok.inj hev'
    rw [List.filter_cons, List.filter_cons, hid]
    split
    · exact List.Forall₂.cons hr ih
    · exact ih

/-- Where one row of the room has an id that `p` picks, so does one entry of the page. -/
theorem timeline_one {room_id : String} {limit : Nat} (hlimit : st.events.rows.length ≤ limit)
    (hrows : ∀ r ∈ st.events.rows, Readable r) {p : String → Bool} {r : EventRow}
    (hr : r ∈ st.events.rows) (hroom : r.room_id = room_id) (htype : r.type ≠ "p.mls.commit")
    (hp : p r.event_id = true) (hone : ∀ r' ∈ st.events.rows, p r'.event_id = true → r' = r) :
    ∃ entries ev, st.timeline room_id limit none = .ok entries ∧
      entries.filter (fun e => p e.event_id) = [ev] ∧ parse_stored_payload r = .ok ev := by
  obtain ⟨entries, hentries, hall⟩ := st.timeline_ok room_id hlimit hrows
  have hsub : ∀ r' ∈ dagSort (st.shownRows room_id), r' ∈ st.events.rows := by
    intro r' hr'
    rw [dagSort, List.mem_insertionSort] at hr'
    exact (List.mem_filter.mp hr').1
  have hpick : (dagSort (st.shownRows room_id)).filter (fun r => p r.event_id) = [r] := by
    have hnodup : (dagSort (st.shownRows room_id)).Nodup := by
      unfold dagSort
      rw [(List.perm_insertionSort _ _).nodup_iff]
      exact (List.Nodup.of_map EventRow.event_id st.events.nodup).filter _
    rw [← List.perm_singleton, List.perm_ext_iff_of_nodup (hnodup.filter _)
      (List.nodup_singleton r)]
    intro r'
    rw [List.mem_filter, List.mem_singleton]
    constructor
    · rintro ⟨hmem, hpick⟩
      exact hone r' (hsub r' hmem) hpick
    · rintro rfl
      refine ⟨?_, hp⟩
      rw [dagSort, List.mem_insertionSort, shownRows, List.mem_filter]
      exact ⟨hr, by simp [hroom, htype]⟩
  have hone' := filter_entries (p := p) hall (fun r' hr' => hrows r' (hsub r' hr'))
  rw [hpick] at hone'
  obtain ⟨ev, rest, hev, hrest, hlist⟩ := List.forall₂_cons_left_iff.mp hone'
  rw [List.forall₂_nil_left_iff] at hrest
  subst hrest
  exact ⟨entries, ev, hentries, hlist, hev⟩

end Store

end PigeonMobile
