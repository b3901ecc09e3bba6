-- A batch of `/sync` events in its transaction (`apply_events` in `store.rs`), statement by
-- statement: the rows it appends, what it counts, and that neither the foreign key of the fold
-- nor a bad event leaves a part of the batch behind.
import PigeonMobile.EventLog
import Mathlib.Data.Finset.Dedup
import Mathlib.Data.Finset.Card

namespace PigeonMobile

namespace Store

/-! ## The statements of the transaction -/

/-- A transaction: its writes are committed, or an error rolls all of them back. -/
def transaction {α : Type} (st : Store) (body : Store → Except StoreError (α × Store)) :
    Except StoreError α × Store :=
  match body st with
  | .ok (a, st') => (.ok a, st')
  | .error e => (.error e, st)

/-- The upsert of `fold_state` with its foreign key: a row that is written names an event of
the log. -/
def execute_fold_state (st : Store) (ev : StoredEvent) (state_key : String) :
    Except StoreError Store :=
  let written := (st.room_state.find (ev.room_id, ev.event_type, state_key)).all
    (fun old => decide (old.depth ≤ ev.depth))
  if written = true ∧ st.events.find ev.event_id = none then
    .error (.Db "FOREIGN KEY constraint failed")
  else .ok (st.fold_state ev state_key)

/-- One turn of the loop: the event into the log, and then its fold. -/
def execute_event (st : Store) (ev : StoredEvent) : Except StoreError (Nat × Store) :=
  let (n, st) := st.insert_event ev
  match ev.state_key with
  | some key => do
    let st ← st.execute_fold_state ev key
    return (n, st)
  | none => .ok (n, st)

/-- The loop over the parsed events. -/
def execute_events (st : Store) : List StoredEvent → Except StoreError (Nat × Store)
  | [] => return (0, st)
  | ev :: rest => do
    let (n, st) ← st.execute_event ev
    let (m, st) ← st.execute_events rest
    return (n + m, st)

/-- `apply_events` on the file: the result, and what is on disk after it. -/
def commit_events (st : Store) (events : List Json) : Except StoreError Nat × Store :=
  match events.mapM StoredEvent.from_wire with
  | .error e => (.error e, st)
  | .ok parsed => st.transaction (fun st => st.execute_events parsed)

/-! ## The fold never fails -/

variable (st : Store)

/-- The event is in the log once it was inserted, so the foreign key holds. -/
theorem execute_fold_state_inserted (ev : StoredEvent) (state_key : String) :
    (st.insert_event ev).2.execute_fold_state ev state_key =
      .ok ((st.insert_event ev).2.fold_state ev state_key) := by
  have hrow : (st.insert_event ev).2.events.find ev.event_id ≠ none := by
    rw [find_insert_event, if_pos rfl]
    exact Option.some_ne_none _
  unfold execute_fold_state
  rw [if_neg]
  rintro ⟨-, hnone⟩
  exact hrow hnone

theorem execute_event_ok (ev : StoredEvent) : st.execute_event ev = .ok (st.apply_event ev) := by
  unfold execute_event apply_event
  cases ev.state_key with
  | none => rfl
  | some key =>
    simp only [execute_fold_state_inserted]
    rfl

theorem execute_events_ok (evs : List StoredEvent) :
    st.execute_events evs = .ok (st.apply_parsed evs) := by
  induction evs generalizing st with
  | nil => rfl
  | cons ev rest ih =>
    simp only [execute_events, apply_parsed, execute_event_ok, bind, Except.bind, ih]
    rfl

/-- The transaction does what `apply_events` does in one step. -/
theorem commit_events_eq (events : List Json) :
    st.commit_events events =
      match st.apply_events events with
      | .ok (n, st') => (.ok n, st')
      | .error e => (.error e, st) := by
  unfold commit_events apply_events transaction
  cases events.mapM StoredEvent.from_wire with
  | error e => rfl
  | ok evs =>
    simp only [execute_events_ok]
    rfl

/-! ## The rows that a batch appends -/

/-- The events of a batch whose id is new: not in the log, and the first of the batch. -/
def newEvents (known : String → Bool) : List StoredEvent → List StoredEvent
  | [] => []
  | ev :: rest =>
    if known ev.event_id then newEvents known rest
    else ev :: newEvents (fun id => known id || decide (id = ev.event_id)) rest

theorem newEvents_cons (known : String → Bool) (ev : StoredEvent) (rest : List StoredEvent) :
    newEvents known (ev :: rest) = if known ev.event_id then newEvents known rest
      else ev :: newEvents (fun id => known id || decide (id = ev.event_id)) rest := rfl

theorem newEvents_sublist (known : String → Bool) (evs : List StoredEvent) :
    (newEvents known evs).Sublist evs := by
  induction evs generalizing known with
  | nil => exact List.Sublist.refl _
  | cons ev rest ih =>
    rw [newEvents_cons]
    split
    · exact (ih known).cons ev
    · exact (ih _).cons_cons ev

theorem mem_newEvents (known : String → Bool) (evs : List StoredEvent) (id : String) :
    id ∈ (newEvents known evs).map StoredEvent.event_id ↔
      id ∈ evs.map StoredEvent.event_id ∧ known id = false := by
  induction evs generalizing known with
  | nil => simp [newEvents]
  | cons ev rest ih =>
    rw [newEvents_cons]
    by_cases hknown : known ev.event_id = true
    · rw [if_pos hknown, ih, List.map_cons, List.mem_cons]
      constructor
      · rintro ⟨hmem, hid⟩
        exact ⟨Or.inr hmem, hid⟩
      · rintro ⟨rfl | hmem, hid⟩
        · rw [hknown] at hid
          cases hid
        · exact ⟨hmem, hid⟩
    · rw [if_neg hknown, List.map_cons, List.mem_cons, ih, List.map_cons, List.mem_cons]
      simp only [Bool.or_eq_false_iff, decide_eq_false_iff_not]
      by_cases hid : id = ev.event_id
      · simp [hid, hknown]
      · simp [hid]

theorem newEvents_nodup (known : String → Bool) (evs : List StoredEvent) :
    ((newEvents known evs).map StoredEvent.event_id).Nodup := by
  induction evs generalizing known with
  | nil => exact List.nodup_nil
  | cons ev rest ih =>
    rw [newEvents_cons]
    split
    · exact ih known
    · rw [List.map_cons, List.nodup_cons, mem_newEvents]
      refine ⟨?_, ih _⟩
      rintro ⟨-, h⟩
      simp at h

/-- Of two events of one id in a batch, the first is the one that is kept. -/
theorem newEvents_first {known : String → Bool} {evs : List StoredEvent} {ev : StoredEvent}
    (h : ev ∈ newEvents known evs) :
    evs.find? (fun ev' => decide (ev'.event_id = ev.event_id)) = some ev := by
  induction evs generalizing known with
  | nil => cases h
  | cons e rest ih =>
    have hfree : known ev.event_id = false :=
      ((mem_newEvents known (e :: rest) ev.event_id).mp (List.mem_map_of_mem h)).2
    rw [newEvents_cons] at h
    split at h
    · next hknown =>
      have hne : e.event_id ≠ ev.event_id := by
        intro he
        rw [he, hfree] at hknown
        cases hknown
      rw [List.find?_cons_of_neg (by simpa using hne)]
      exact ih h
    · rcases List.mem_cons.mp h with rfl | h
      · rw [List.find?_cons_of_pos (by simp)]
      · have hafter := ((mem_newEvents _ rest ev.event_id).mp (List.mem_map_of_mem h)).2
        have hne : e.event_id ≠ ev.event_id := by
          intro he
          simp [he] at hafter
        rw [List.find?_cons_of_neg (by simpa using hne)]
        exact ih h

/-- The log before one event: whether an id is taken. -/
def logged (id : String) : Bool := (st.events.find id).isSome

theorem apply_event_rows (ev : StoredEvent) :
    (st.apply_event ev).2.events.rows =
      st.events.rows ++ (if st.logged ev.event_id then [] else [rowOf ev]) := by
  rw [apply_event_events]
  unfold logged insert_event Table.insertNew
  have hkey : (rowOf ev).event_id = ev.event_id := rfl
  cases hfind : st.events.find ev.event_id with
  | none => simp [hkey, hfind]
  | some r => simp [hkey, hfind]

theorem apply_event_count (ev : StoredEvent) :
    (st.apply_event ev).1 = if st.logged ev.event_id then 0 else 1 := by
  have hcount : (st.apply_event ev).1 = (st.insert_event ev).1 := by
    unfold apply_event
    cases ev.state_key <;> rfl
  rw [hcount]
  unfold insert_event logged
  cases st.events.find ev.event_id <;> rfl

theorem logged_apply_event (ev : StoredEvent) (id : String) :
    (st.apply_event ev).2.logged id = (st.logged id || decide (id = ev.event_id)) := by
  unfold logged
  rw [apply_event_events, find_insert_event]
  by_cases hid : ev.event_id = id
  · simp [hid]
  · simp [hid, Ne.symm hid]

/-- The log grows by the rows of the new events, in their order, and they are counted. -/
theorem apply_parsed_rows (evs : List StoredEvent) :
    (st.apply_parsed evs).2.events.rows = st.events.rows ++ (newEvents st.logged evs).map rowOf ∧
      (st.apply_parsed evs).1 = (newEvents st.logged evs).length := by
  induction evs generalizing st with
  | nil => simp [apply_parsed, newEvents]
  | cons ev rest ih =>
    obtain ⟨hrows, hcount⟩ := ih (st.apply_event ev).2
    have hlogged : (st.apply_event ev).2.logged =
        fun id => st.logged id || decide (id = ev.event_id) :=
      funext (st.logged_apply_event ev)
    simp only [apply_parsed]
    rw [hrows, hcount, apply_event_rows, apply_event_count, hlogged, newEvents_cons]
    by_cases htaken : st.logged ev.event_id = true
    · -- a taken id stays as taken as it was
      have hsame : (fun id => st.logged id || decide (id = ev.event_id)) = st.logged := by
        funext id
        by_cases hid : id = ev.event_id
        · simp [hid, htaken]
        · simp [hid]
      rw [hsame]
      simp [htaken]
    · simp [htaken, Nat.add_comm]

/-- A batch leaves the sync token as it was. -/
theorem apply_parsed_sync_token (evs : List StoredEvent) :
    (st.apply_parsed evs).2.sync_token = st.sync_token := by
  induction evs generalizing st with
  | nil => rfl
  | cons ev rest ih =>
    simp only [apply_parsed]
    rw [ih]
    unfold apply_event
    cases ev.state_key <;> rfl

/-- The store after a batch that landed: `n` rows more, those of the new events, the first of
each id, behind the rows that were there. -/
structure Grown (evs : List StoredEvent) (n : Nat) (st' : Store) : Prop where
  count : n = ((evs.map StoredEvent.event_id).toFinset.filter
    (fun id => st.events.find id = none)).card
  rows : ∃ new : List StoredEvent, new.length = n ∧ new.Sublist evs ∧
    st'.events.rows = st.events.rows ++ new.map rowOf ∧
    (new.map StoredEvent.event_id).Nodup ∧
    (∀ id, id ∈ new.map StoredEvent.event_id ↔
      id ∈ evs.map StoredEvent.event_id ∧ st.events.find id = none) ∧
    ∀ ev ∈ new, evs.find? (fun ev' => decide (ev'.event_id = ev.event_id)) = some ev
  queue : st'.pending_sends = st.pending_sends
  sync_token : st'.sync_token = st.sync_token

theorem grown_apply_parsed (evs : List StoredEvent) :
    st.Grown evs (st.apply_parsed evs).1 (st.apply_parsed evs).2 := by
  obtain ⟨hrows, hcount⟩ := st.apply_parsed_rows evs
  have hnodup := newEvents_nodup st.logged evs
  have hmem : ∀ id, id ∈ (newEvents st.logged evs).map StoredEvent.event_id ↔
      id ∈ evs.map StoredEvent.event_id ∧ st.events.find id = none := by
    intro id
    rw [mem_newEvents]
    unfold logged
    rw [Option.isSome_eq_false_iff, Option.isNone_iff_eq_none]
  refine ⟨?_, ⟨newEvents st.logged evs, hcount.symm, newEvents_sublist _ _, hrows, hnodup, hmem,
    fun ev hev => newEvents_first hev⟩, st.apply_parsed_pending_sends evs,
    st.apply_parsed_sync_token evs⟩
  have hset : (evs.map StoredEvent.event_id).toFinset.filter (fun id => st.events.find id = none) =
      ((newEvents st.logged evs).map StoredEvent.event_id).toFinset := by
    ext id
    rw [Finset.mem_filter, List.mem_toFinset, List.mem_toFinset, hmem]
  rw [hset, List.toFinset_card_of_nodup hnodup, List.length_map, hcount]

end Store

/-! ## All or nothing -/

/-- A list is read whole, or the first of its entries that is refused is the error. -/
theorem mapM_error {α β ε : Type} {f : α → Except ε β} {l : List α} {e : ε}
    (h : l.mapM f = .error e) : ∃ a ∈ l, f a = .error e := by
  induction l with
  | nil => cases h
  | cons a rest ih =>
    rw [List.mapM_cons] at h
    cases hf : f a with
    | error e' =>
      rw [hf] at h
      cases h
      exact ⟨a, List.mem_cons_self, hf⟩
    | ok b =>
      rw [hf] at h
      cases hr : rest.mapM f with
      | error e' =>
        rw [hr] at h
        cases h
        obtain ⟨a', ha', he⟩ := ih hr
        exact ⟨a', List.mem_cons_of_mem _ ha', he⟩
      | ok bs =>
        rw [hr] at h
        cases h

/-- For every store and every batch: it fails just where an event of it cannot be read, and then
nothing is changed. Else the log grows by the events that it did not have, each id once, and the
count is theirs. The statements of the transaction never fail. -/
theorem a_batch_lands_whole_or_not_at_all (st : Store) (events : List Json) :
    ((∃ e, (st.commit_events events).1 = .error e) ↔
      ∃ event ∈ events, ∃ e, StoredEvent.from_wire event = .error e) ∧
    (∀ e, (st.commit_events events).1 = .error e → (st.commit_events events).2 = st) ∧
    (∀ n, (st.commit_events events).1 = .ok n →
      ∃ evs, List.Forall₂ (fun event ev => StoredEvent.from_wire event = .ok ev) events evs ∧
        st.Grown evs n (st.commit_events events).2) ∧
    (∀ evs : List StoredEvent, ∃ done, st.execute_events evs = .ok done) := by
  refine ⟨?_, ?_, ?_, fun evs => ⟨_, st.execute_events_ok evs⟩⟩
  all_goals unfold Store.commit_events Store.transaction
  · cases hm : events.mapM StoredEvent.from_wire with
    | error e =>
      obtain ⟨event, hmem, he⟩ := mapM_error hm
      exact ⟨fun _ => ⟨event, hmem, e, he⟩, fun _ => ⟨e, rfl⟩⟩
    | ok evs =>
      simp only [st.execute_events_ok]
      constructor
      · rintro ⟨e, he⟩
        cases he
      · rintro ⟨event, hmem, e, he⟩
        obtain ⟨ev, -, hev⟩ := mem_of_forall₂ (mapM_ok_iff.mp hm).flip hmem
        rw [he] at hev
        cases hev
  · intro e he
    cases hm : events.mapM StoredEvent.from_wire with
    | error e' => rfl
    | ok evs =>
      simp only [hm, st.execute_events_ok] at he
      cases he
  · intro n hn
    cases hm : events.mapM StoredEvent.from_wire with
    | error e =>
      simp only [hm] at hn
      cases hn
    | ok evs =>
      simp only [hm, st.execute_events_ok] at hn ⊢
      cases hn
      exact ⟨evs, mapM_ok_iff.mp hm, st.grown_apply_parsed evs⟩

end PigeonMobile
