-- The event log and the state folded from it, after any sequence of batches. The log is
-- the set of the events applied. The folded state is not: of two state events of one key
-- at one depth, the one that is applied last stays.
import PigeonMobile.StoreFacts
import PigeonMobile.LastWriter
import Mathlib.Data.List.Dedup

namespace PigeonMobile

/-! ## One key of the folded state -/

/-- The `room_state` row that a state event folds into. -/
def stateRow (ev : StoredEvent) (state_key : String) : StateRow :=
  { room_id := ev.room_id, type := ev.event_type, state_key, event_id := ev.event_id,
    depth := ev.depth }

/-- The row that an event writes under the key `k`, if it is a state event of that key. -/
def stateRowAt (k : String × String × String) (ev : StoredEvent) : Option StateRow :=
  (ev.state_key.map (stateRow ev)).filter (fun r => decide (r.key = k))

namespace Store

variable (st : Store)

/-- A state event writes to its key as the last writer, by depth. -/
theorem find_apply_event_state (ev : StoredEvent) (k : String × String × String) :
    (st.apply_event ev).2.room_state.find k =
      LastWriter.writes StateRow.depth (st.room_state.find k) (stateRowAt k ev).toList := by
  unfold apply_event stateRowAt
  cases hkey : ev.state_key with
  | none => rfl
  | some state_key =>
    simp only [fold_state, insert_event, Option.map_some]
    rw [Table.find_upsert]
    by_cases hk : (stateRow ev state_key).key = k
    · have hk' : StateRow.key ⟨ev.room_id, ev.event_type, state_key, ev.event_id, ev.depth⟩ = k :=
        hk
      simp only [hk', if_true, Option.filter_some, hk, decide_true, Option.toList_some,
        LastWriter.writes, List.foldl_cons, List.foldl_nil, LastWriter.write]
      cases st.room_state.find k with
      | none => rfl
      | some old => by_cases hle : old.depth ≤ ev.depth <;> simp [stateRow, hle]
    · have hk' : StateRow.key ⟨ev.room_id, ev.event_type, state_key, ev.event_id, ev.depth⟩ ≠ k :=
        hk
      simp only [hk', if_false, Option.filter_some, hk, decide_false, Bool.false_eq_true,
        Option.toList_none, LastWriter.writes_nil]

/-- The writes of a list of events to the key `k`. -/
theorem find_apply_parsed_state (evs : List StoredEvent) (k : String × String × String) :
    (st.apply_parsed evs).2.room_state.find k =
      LastWriter.writes StateRow.depth (st.room_state.find k) (evs.filterMap (stateRowAt k)) := by
  induction evs generalizing st with
  | nil => rfl
  | cons ev rest ih =>
    simp only [apply_parsed]
    rw [ih, find_apply_event_state, ← LastWriter.writes_append]
    congr 1
    cases h : stateRowAt k ev <;> simp [h]

theorem apply_parsed_append (evs evs' : List StoredEvent) :
    (st.apply_parsed (evs ++ evs')).2 = ((st.apply_parsed evs).2.apply_parsed evs').2 := by
  induction evs generalizing st with
  | nil => rfl
  | cons ev rest ih =>
    simp only [List.cons_append, apply_parsed]
    exact ih _

end Store

/-! ## Two stores with the same log and folded state -/

/-- The same rows of `events` and of `room_state`, in whatever order they were written. -/
structure SameLog (st st' : Store) : Prop where
  events : ∀ event_id, st.events.find event_id = st'.events.find event_id
  room_state : ∀ k, st.room_state.find k = st'.room_state.find k

namespace SameLog

variable {st st' : Store}

theorem mem_events (h : SameLog st st') (r : EventRow) :
    r ∈ st.events.rows ↔ r ∈ st'.events.rows := (Table.perm_of_find h.events).mem_iff

theorem mem_room_state (h : SameLog st st') (s : StateRow) :
    s ∈ st.room_state.rows ↔ s ∈ st'.room_state.rows := (Table.perm_of_find h.room_state).mem_iff

theorem max_eq {l l' : List Int} (h : ∀ n, n ∈ l ↔ n ∈ l') : l.max? = l'.max? := by
  cases hl : l.max? with
  | none =>
    rw [List.max?_eq_none_iff] at hl
    subst hl
    have hl' : l' = [] := List.eq_nil_iff_forall_not_mem.mpr
      (fun n hn => by simpa using (h n).mpr hn)
    rw [hl']
    rfl
  | some m =>
    rw [List.max?_eq_some_iff] at hl
    symm
    rw [List.max?_eq_some_iff]
    exact ⟨(h m).mp hl.1, fun b hb => hl.2 b ((h b).mpr hb)⟩

theorem last_activity_ts (h : SameLog st st') (room_id : String) :
    st.last_activity_ts room_id = st'.last_activity_ts room_id := by
  unfold Store.last_activity_ts
  rw [max_eq]
  intro n
  simp only [List.mem_map, List.mem_filter, h.mem_events]

theorem is_room_encrypted (h : SameLog st st') (room_id : String) :
    st.is_room_encrypted room_id = st'.is_room_encrypted room_id := by
  unfold Store.is_room_encrypted
  rw [Bool.eq_iff_iff]
  simp only [List.any_eq_true, h.mem_room_state]

/-- Every read of the current state agrees. -/
theorem current_state (h : SameLog st st') (room_id event_type state_key : String) :
    st.current_state room_id event_type state_key =
      st'.current_state room_id event_type state_key := by
  have hevents : st.events.find = st'.events.find := funext h.events
  unfold Store.current_state
  rw [h.room_state, hevents]

theorem membership (h : SameLog st st') (room_id user_id : String) :
    st.membership room_id user_id = st'.membership room_id user_id := by
  unfold Store.membership
  rw [h.current_state]

theorem summary (h : SameLog st st') (room_id : String) :
    st.summary room_id = st'.summary room_id := by
  have htext : ∀ type field, st.stateText room_id type field =
      st'.stateText room_id type field := by
    intro type field
    have hevents : st.events.find = st'.events.find := funext h.events
    unfold Store.stateText
    rw [h.room_state, hevents]
  unfold Store.summary
  rw [htext, htext, h.is_room_encrypted, h.last_activity_ts]

theorem list_rooms (h : SameLog st st') : st.list_rooms = st'.list_rooms := by
  have hrooms : ((st.room_state.rows.map (·.room_id)).dedup).Perm
      ((st'.room_state.rows.map (·.room_id)).dedup) :=
    ((Table.perm_of_find h.room_state).map _).dedup
  have hts : st.last_activity_ts = st'.last_activity_ts := funext h.last_activity_ts
  unfold Store.list_rooms
  rw [hts, funext h.summary]
  simp only
  congr 1
  -- the order of the list is total, so it does not depend on the order of the rows
  let le : String → String → Prop := fun a b =>
    toLex (-st'.last_activity_ts a, a) ≤ toLex (-st'.last_activity_ts b, b)
  have htotal : Std.Total le := ⟨fun a b => le_total (toLex (-st'.last_activity_ts a, a)) _⟩
  have htrans : IsTrans String le := ⟨fun a b c hab hbc => le_trans hab hbc⟩
  refine List.Perm.eq_of_pairwise ?_ (List.pairwise_insertionSort le _)
    (List.pairwise_insertionSort le _)
    ((List.perm_insertionSort le _).trans (hrooms.trans (List.perm_insertionSort le _).symm))
  intro a b _ _ hab hba
  have hpair : toLex (-st'.last_activity_ts a, a) = toLex (-st'.last_activity_ts b, b) :=
    le_antisymm hab hba
  exact congrArg Prod.snd (congrArg ofLex hpair)

end SameLog

/-! ## Sequences of batches -/

/-- One batch after another, each applied. -/
def Store.apply_batches (st : Store) : List (List Json) → Except StoreError Store
  | [] => .ok st
  | batch :: rest =>
    match st.apply_events batch with
    | .error e => .error e
    | .ok (_, st') => st'.apply_batches rest

/-- The batches have the events of `S` and no others, in any order and any number of times. -/
def Covers (S : List Json) (batches : List (List Json)) : Prop :=
  ∀ e, e ∈ S ↔ ∃ batch ∈ batches, e ∈ batch

/-- Equal event ids mean equal events, as ids are content hashes. -/
def ContentHashed (S : List Json) : Prop :=
  ∀ a ∈ S, ∀ b ∈ S, ∀ x y, StoredEvent.from_wire a = .ok x → StoredEvent.from_wire b = .ok y →
    x.event_id = y.event_id → a = b

/-- A sequence that is applied is one batch of all its events. -/
theorem apply_batches_ok {st st' : Store} {batches : List (List Json)}
    (h : st.apply_batches batches = .ok st') :
    ∃ evs, List.Forall₂ (fun j ev => StoredEvent.from_wire j = .ok ev) batches.flatten evs ∧
      st' = (st.apply_parsed evs).2 := by
  induction batches generalizing st with
  | nil =>
    cases h
    exact ⟨[], List.Forall₂.nil, rfl⟩
  | cons batch rest ih =>
    simp only [Store.apply_batches] at h
    cases hb : st.apply_events batch with
    | error e =>
      rw [hb] at h
      cases h
    | ok out =>
      obtain ⟨n, st₁⟩ := out
      rw [hb] at h
      obtain ⟨evs₁, hparsed₁, hst₁⟩ := st.apply_events_ok hb
      obtain ⟨evs₂, hparsed₂, rfl⟩ := ih h
      refine ⟨evs₁ ++ evs₂, ?_, ?_⟩
      · rw [List.flatten_cons]
        exact List.rel_append hparsed₁ hparsed₂
      · rw [Store.apply_parsed_append, hst₁]

/-! ## Ties -/

/-- `a` is a state event of `S` that none of its key outranks, in `S` or stored. -/
structure Topmost (st : Store) (S : List Json) (a : Json) (x : StoredEvent) (state_key : String) :
    Prop where
  mem : a ∈ S
  parses : StoredEvent.from_wire a = .ok x
  state : x.state_key = some state_key
  over_events : ∀ b ∈ S, ∀ y key, StoredEvent.from_wire b = .ok y → y.state_key = some key →
    (stateRow y key).key = (stateRow x state_key).key → y.depth ≤ x.depth
  over_stored : ∀ row, st.room_state.find (stateRow x state_key).key = some row →
    row.depth ≤ x.depth

/-- No two events of `S` are topmost for one key. -/
def Untied (st : Store) (S : List Json) : Prop :=
  ∀ a b x y key key', Topmost st S a x key → Topmost st S b y key' →
    (stateRow x key).key = (stateRow y key').key → a = b

section Rows

variable {st : Store} {S events : List Json} {evs : List StoredEvent}

theorem stateRowAt_some {k : String × String × String} {ev : StoredEvent} {r : StateRow} :
    stateRowAt k ev = some r ↔
      ∃ key, ev.state_key = some key ∧ stateRow ev key = r ∧ r.key = k := by
  unfold stateRowAt
  cases ev.state_key with
  | none => simp
  | some key =>
    simp only [Option.map_some, Option.filter_eq_some_iff, Option.some.injEq, decide_eq_true_eq]
    constructor
    · rintro ⟨rfl, hk⟩
      exact ⟨key, rfl, rfl, hk⟩
    · rintro ⟨key', rfl, rfl, hk⟩
      exact ⟨rfl, hk⟩

theorem mem_parsed (h : List.Forall₂ (fun j ev => StoredEvent.from_wire j = .ok ev) events evs)
    (x : StoredEvent) : x ∈ evs ↔ ∃ a ∈ events, StoredEvent.from_wire a = .ok x := by
  constructor
  · exact mem_of_forall₂ h
  · rintro ⟨a, ha, hx⟩
    obtain ⟨y, hy, hay⟩ := mem_of_forall₂ (List.Forall₂.flip h) ha
    rw [hx] at hay
    cases hay
    exact hy

/-- The rows written under a key are those of the state events of the key. -/
theorem mem_state_rows (hevents : ∀ e, e ∈ S ↔ e ∈ events)
    (h : List.Forall₂ (fun j ev => StoredEvent.from_wire j = .ok ev) events evs)
    (k : String × String × String) (r : StateRow) :
    r ∈ evs.filterMap (stateRowAt k) ↔ ∃ a ∈ S, ∃ x key, StoredEvent.from_wire a = .ok x ∧
      x.state_key = some key ∧ stateRow x key = r ∧ r.key = k := by
  simp only [List.mem_filterMap, stateRowAt_some, mem_parsed h]
  constructor
  · rintro ⟨x, ⟨a, ha, hx⟩, key, hkey, hr, hk⟩
    exact ⟨a, (hevents a).mpr ha, x, key, hx, hkey, hr, hk⟩
  · rintro ⟨a, ha, x, key, hx, hkey, hr, hk⟩
    exact ⟨x, ⟨a, (hevents a).mp ha, hx⟩, key, hkey, hr, hk⟩

/-- A topmost event is a top write of its key. -/
theorem tops_iff (hevents : ∀ e, e ∈ S ↔ e ∈ events)
    (h : List.Forall₂ (fun j ev => StoredEvent.from_wire j = .ok ev) events evs)
    (k : String × String × String) (r : StateRow) :
    LastWriter.Tops StateRow.depth (st.room_state.find k) (evs.filterMap (stateRowAt k)) r ↔
      ∃ a x key, Topmost st S a x key ∧ stateRow x key = r ∧ r.key = k := by
  constructor
  · intro ht
    obtain ⟨a, ha, x, key, hx, hkey, rfl, hk⟩ := (mem_state_rows hevents h k r).mp ht.mem
    refine ⟨a, x, key, ⟨ha, hx, hkey, ?_, ?_⟩, rfl, hk⟩
    · intro b hb y key' hy hkey' hsame
      exact ht.over_writes (stateRow y key') ((mem_state_rows hevents h k _).mpr
        ⟨b, hb, y, key', hy, hkey', rfl, hsame.trans hk⟩)
    · intro row hrow
      rw [hk] at hrow
      exact ht.over_start row hrow
  · rintro ⟨a, x, key, ht, rfl, hk⟩
    refine ⟨(mem_state_rows hevents h k _).mpr ⟨a, ht.mem, x, key, ht.parses, ht.state, rfl, hk⟩,
      ?_, ?_⟩
    · intro r' hr'
      obtain ⟨b, hb, y, key', hy, hkey', rfl, hk'⟩ := (mem_state_rows hevents h k r').mp hr'
      exact ht.over_events b hb y key' hy hkey' (hk'.trans hk.symm)
    · intro row hrow
      exact ht.over_stored row (by rw [hk]; exact hrow)

/-- The first event of an id is the only one. -/
theorem find_parsed (hash : ContentHashed S) (hevents : ∀ e, e ∈ S ↔ e ∈ events)
    (h : List.Forall₂ (fun j ev => StoredEvent.from_wire j = .ok ev) events evs)
    (event_id : String) (x : StoredEvent) :
    evs.find? (fun ev => decide (ev.event_id = event_id)) = some x ↔
      x.event_id = event_id ∧ ∃ a ∈ S, StoredEvent.from_wire a = .ok x := by
  constructor
  · intro hx
    refine ⟨by simpa using List.find?_some hx, ?_⟩
    obtain ⟨a, ha, hax⟩ := (mem_parsed h x).mp (List.mem_of_find?_eq_some hx)
    exact ⟨a, (hevents a).mpr ha, hax⟩
  · rintro ⟨hid, a, ha, hax⟩
    cases hf : evs.find? (fun ev => decide (ev.event_id = event_id)) with
    | none =>
      rw [List.find?_eq_none] at hf
      exact absurd hid (by simpa using hf x ((mem_parsed h x).mpr ⟨a, (hevents a).mp ha, hax⟩))
    | some y =>
      obtain ⟨b, hb, hby⟩ := (mem_parsed h y).mp (List.mem_of_find?_eq_some hf)
      have hidy : y.event_id = event_id := by simpa using List.find?_some hf
      have hab : b = a := hash b ((hevents b).mpr hb) a ha y x hby hax (hidy.trans hid.symm)
      rw [hab, hax] at hby
      cases hby
      rfl

end Rows

/-! ## When the order of the batches does not matter -/

/-- Every two sequences of batches with the events of `S` lead to the same rows and reads. -/
def Converges (st : Store) (S : List Json) : Prop :=
  ∀ batches batches' st₁ st₂, Covers S batches → Covers S batches' →
    st.apply_batches batches = .ok st₁ → st.apply_batches batches' = .ok st₂ →
    SameLog st₁ st₂ ∧ st₁.list_rooms = st₂.list_rooms ∧
      (∀ room_id event_type state_key,
        st₁.current_state room_id event_type state_key =
          st₂.current_state room_id event_type state_key) ∧
      ∀ room_id user_id, st₁.membership room_id user_id = st₂.membership room_id user_id

/-- A batch that was applied, applied once more, inserts nothing and changes nothing. -/
def Idempotent (st : Store) (S : List Json) : Prop :=
  ∀ batches st₁, Covers S batches → st.apply_batches batches = .ok st₁ →
    ∀ batch ∈ batches, st₁.apply_events batch = .ok (0, st₁)

section

variable {st : Store} {S : List Json}

theorem Covers.flatten {batches : List (List Json)} (h : Covers S batches) (e : Json) :
    e ∈ S ↔ e ∈ batches.flatten := by
  rw [List.mem_flatten]
  exact h e

/-- With no tie, the writes under each key have one top. -/
theorem Untied.agree (hu : Untied st S) {events : List Json} {evs : List StoredEvent}
    (hevents : ∀ e, e ∈ S ↔ e ∈ events)
    (h : List.Forall₂ (fun j ev => StoredEvent.from_wire j = .ok ev) events evs)
    (k : String × String × String) (ys zs : List StateRow)
    (hy : ∀ r, r ∈ evs.filterMap (stateRowAt k) ↔ r ∈ ys)
    (hz : ∀ r, r ∈ evs.filterMap (stateRowAt k) ↔ r ∈ zs) :
    LastWriter.writes StateRow.depth (st.room_state.find k) ys =
      LastWriter.writes StateRow.depth (st.room_state.find k) zs := by
  refine (LastWriter.writes_agree_iff _ _).mpr ?_ ys zs hy hz
  intro r r' hr hr'
  obtain ⟨a, x, key, ha, rfl, hk⟩ := (tops_iff hevents h k r).mp hr
  obtain ⟨b, y, key', hb, rfl, hk'⟩ := (tops_iff hevents h k r').mp hr'
  obtain rfl := hu a b x y key key' ha hb (hk.trans hk'.symm)
  have hxy := ha.parses.symm.trans hb.parses
  cases hxy
  have hkey := ha.state.symm.trans hb.state
  cases hkey
  rfl

/-- With no tie, every two sequences lead to the same rows. -/
theorem Untied.sameLog (hash : ContentHashed S) (hu : Untied st S)
    {batches batches' : List (List Json)}
    {st₁ st₂ : Store} (hc : Covers S batches) (hc' : Covers S batches')
    (h₁ : st.apply_batches batches = .ok st₁) (h₂ : st.apply_batches batches' = .ok st₂) :
    SameLog st₁ st₂ := by
  obtain ⟨evs, hparsed, rfl⟩ := apply_batches_ok h₁
  obtain ⟨evs', hparsed', rfl⟩ := apply_batches_ok h₂
  constructor
  · intro event_id
    rw [Store.find_apply_parsed, Store.find_apply_parsed]
    congr 2
    apply Option.ext
    intro x
    rw [find_parsed hash hc.flatten hparsed, find_parsed hash hc'.flatten hparsed']
  · intro k
    rw [Store.find_apply_parsed_state, Store.find_apply_parsed_state]
    apply hu.agree hc.flatten hparsed k _ _ (fun r => Iff.rfl)
    intro r
    rw [mem_state_rows hc.flatten hparsed, mem_state_rows hc'.flatten hparsed']

/-- An event whose row is there, and whose state row could only replace itself. -/
theorem apply_event_again {st₁ : Store} {ev : StoredEvent}
    (hrow : (st₁.events.find ev.event_id).isSome = true)
    (hstate : ∀ key, ev.state_key = some key → ∃ old,
      st₁.room_state.find (stateRow ev key).key = some old ∧
        (old.depth ≤ ev.depth → stateRow ev key = old)) :
    st₁.apply_event ev = (0, st₁) := by
  obtain ⟨token, events, room_state, pending⟩ := st₁
  have hinsert : Store.insert_event ⟨token, events, room_state, pending⟩ ev =
      (0, ⟨token, events, room_state, pending⟩) := by
    simp only at hrow
    have hnone : (events.find ev.event_id).isNone = false := by simpa using hrow
    have htaken : events.insertNew (Store.rowOf ev) = events := Table.insertNew_taken hrow
    unfold Store.insert_event
    simp only [htaken, hnone]
    rfl
  unfold Store.apply_event
  rw [hinsert]
  cases hkey : ev.state_key with
  | none => rfl
  | some key =>
    obtain ⟨old, hold, hself⟩ := hstate key hkey
    have hsame : room_state.upsert (stateRow ev key) (fun old => decide (old.depth ≤ ev.depth)) =
        room_state := by
      apply Table.upsert_same hold
      intro hle
      exact hself (by simpa using hle)
    simp only [Store.fold_state]
    exact Prod.ext rfl (congrArg (fun t => (⟨token, events, t, pending⟩ : Store)) hsame)

theorem apply_parsed_again {st₁ : Store} {evs : List StoredEvent}
    (h : ∀ ev ∈ evs, st₁.apply_event ev = (0, st₁)) : st₁.apply_parsed evs = (0, st₁) := by
  induction evs with
  | nil => rfl
  | cons ev rest ih =>
    simp only [Store.apply_parsed, h ev List.mem_cons_self,
      ih (fun ev' hev' => h ev' (List.mem_cons_of_mem ev hev'))]

theorem Untied.idempotent (hu : Untied st S) : Idempotent st S := by
  intro batches st₁ hc h₁ batch hbatch
  obtain ⟨evs, hparsed, rfl⟩ := apply_batches_ok h₁
  have hin : ∀ e ∈ batch, e ∈ S := fun e he => (hc e).mpr ⟨batch, hbatch, he⟩
  -- the batch parses, as it was applied
  obtain ⟨again, hagain⟩ : ∃ again, batch.mapM StoredEvent.from_wire = .ok again := by
    apply mapM_total
    intro e he
    obtain ⟨x, -, hx⟩ := mem_of_forall₂ (List.Forall₂.flip hparsed) ((hc.flatten e).mp (hin e he))
    exact ⟨x, hx⟩
  rw [Store.apply_events_parsed _ (mapM_ok_iff.mp hagain)]
  congr 1
  apply apply_parsed_again
  intro ev hev
  obtain ⟨e, he, hwire⟩ := (mem_parsed (mapM_ok_iff.mp hagain) ev).mp hev
  have hmem : ev ∈ evs := (mem_parsed hparsed ev).mpr ⟨e, (hc.flatten e).mp (hin e he), hwire⟩
  apply apply_event_again
  · rw [Store.find_apply_parsed]
    cases st.events.find ev.event_id with
    | some r => rfl
    | none =>
      simp only [Option.none_or, Option.isSome_map, List.find?_isSome]
      exact ⟨ev, hmem, by simp⟩
  · intro key hkey
    rw [Store.find_apply_parsed_state]
    -- one more write of a row that was written leaves what the writes left
    have hrow : stateRow ev key ∈ evs.filterMap (stateRowAt (stateRow ev key).key) :=
      (mem_state_rows hc.flatten hparsed _ _).mpr ⟨e, hin e he, ev, key, hwire, hkey, rfl, rfl⟩
    have hagree := hu.agree hc.flatten hparsed (stateRow ev key).key
      (evs.filterMap (stateRowAt (stateRow ev key).key) ++ [stateRow ev key])
      (evs.filterMap (stateRowAt (stateRow ev key).key)) (by
        intro r
        simp only [List.mem_append, List.mem_singleton]
        constructor
        · exact Or.inl
        · rintro (hr | rfl)
          · exact hr
          · exact hrow) (fun r => Iff.rfl)
    rw [LastWriter.writes_snoc] at hagree
    generalize LastWriter.writes StateRow.depth (st.room_state.find (stateRow ev key).key)
      (evs.filterMap (stateRowAt (stateRow ev key).key)) = cur at hagree
    cases cur with
    | none => cases hagree
    | some old =>
      refine ⟨old, rfl, ?_⟩
      intro hle
      have hle' : old.depth ≤ (stateRow ev key).depth := hle
      simpa [LastWriter.write, hle'] using hagree

/-- The order and the repeats of the batches do not matter, if and only if no two state events
of the set are topmost for one key. -/
theorem the_log_is_its_set_iff (st : Store) (S : List Json) (hash : ContentHashed S) :
    Converges st S ∧ Idempotent st S ↔
      ((∀ e ∈ S, ∃ x, StoredEvent.from_wire e = .ok x) → Untied st S) := by
  constructor
  · rintro ⟨hconv, -⟩ hparse a b x y key key' ha hb hkey
    -- each of the two comes last in one sequence
    have hlast : ∀ c z zkey, Topmost st S c z zkey → ∃ st', st.apply_batches [S ++ [c]] = .ok st' ∧
        Covers S [S ++ [c]] ∧
        st'.room_state.find (stateRow z zkey).key = some (stateRow z zkey) := by
      intro c z zkey hc
      have hmem : ∀ e, e ∈ S ↔ e ∈ S ++ [c] := by
        intro e
        simp only [List.mem_append, List.mem_singleton]
        constructor
        · exact Or.inl
        · rintro (he | rfl)
          · exact he
          · exact hc.mem
      obtain ⟨evs, hevs⟩ : ∃ evs, S.mapM StoredEvent.from_wire = .ok evs := mapM_total hparse
      have hboth : List.Forall₂ (fun j ev => StoredEvent.from_wire j = .ok ev) (S ++ [c])
          (evs ++ [z]) :=
        List.rel_append (mapM_ok_iff.mp hevs) (List.Forall₂.cons hc.parses List.Forall₂.nil)
      have hcovers : Covers S [S ++ [c]] := by
        intro e
        rw [hmem e]
        simp
      refine ⟨(st.apply_parsed (evs ++ [z])).2, ?_, hcovers, ?_⟩
      · simp only [Store.apply_batches]
        rw [Store.apply_events_parsed _ hboth]
      · have hwrites : [z].filterMap (stateRowAt (stateRow z zkey).key) = [stateRow z zkey] := by
          have hrow := stateRowAt_some.mpr ⟨zkey, hc.state, rfl, (rfl : (stateRow z zkey).key = _)⟩
          simp [hrow]
        rw [Store.find_apply_parsed_state, List.filterMap_append, hwrites]
        apply LastWriter.writes_last
        exact (tops_iff (fun e => Iff.rfl) (mapM_ok_iff.mp hevs) _ _).mpr ⟨c, z, zkey, hc, rfl, rfl⟩
    obtain ⟨st₁, h₁, hc₁, hrow₁⟩ := hlast a x key ha
    obtain ⟨st₂, h₂, hc₂, hrow₂⟩ := hlast b y key' hb
    have hsame := (hconv _ _ st₁ st₂ hc₁ hc₂ h₁ h₂).1.room_state (stateRow x key).key
    rw [hrow₁, hkey, hrow₂] at hsame
    have hid : x.event_id = y.event_id := congrArg StateRow.event_id (Option.some.inj hsame)
    exact hash a ha.mem b hb.mem x y ha.parses hb.parses hid
  · intro h
    -- a sequence that is applied has parsed every event
    have hparses : ∀ batches st₁, Covers S batches → st.apply_batches batches = .ok st₁ →
        ∀ e ∈ S, ∃ x, StoredEvent.from_wire e = .ok x := by
      intro batches st₁ hc h₁ e he
      obtain ⟨evs, hparsed, -⟩ := apply_batches_ok h₁
      obtain ⟨x, -, hx⟩ := mem_of_forall₂ (List.Forall₂.flip hparsed) ((hc.flatten e).mp he)
      exact ⟨x, hx⟩
    constructor
    · intro batches batches' st₁ st₂ hc hc' h₁ h₂
      have hsame := (h (hparses batches st₁ hc h₁)).sameLog hash hc hc' h₁ h₂
      exact ⟨hsame, hsame.list_rooms, hsame.current_state, hsame.membership⟩
    · intro batches st₁ hc h₁
      exact (h (hparses batches st₁ hc h₁)).idempotent batches st₁ hc h₁

end

/-! ## Two names at one depth -/

/-- The event that names `!room`. Two members may name it at the same depth, on two forks. -/
def nameEvent (event_id name : String) : Json :=
  .obj [("event_id", .str event_id), ("room_id", .str "!room"),
    ("sender", .str "@bob:pigeon.example"),
    ("type", .str "p.room.name"), ("state_key", .str ""), ("origin_server_ts", .num 7),
    ("depth", .num 5), ("content", .obj [("name", .str name)])]

def twoNames : List Json := [nameEvent "$duck" "Duck", nameEvent "$goose" "Goose"]

theorem twoNames_hashed : ContentHashed twoNames := by
  intro a ha b hb x y hx hy hid
  simp only [twoNames, List.mem_cons, List.not_mem_nil, or_false] at ha hb
  have hids : ∀ event_id name ev, StoredEvent.from_wire (nameEvent event_id name) = .ok ev →
      ev.event_id = event_id := by
    intro event_id name ev hev
    exact (Option.some.inj (StoredEvent.from_wire_ok.mp hev).1).symm
  rcases ha with rfl | rfl <;> rcases hb with rfl | rfl
  · rfl
  · rw [hids _ _ x hx, hids _ _ y hy] at hid
    simp at hid
  · rw [hids _ _ x hx, hids _ _ y hy] at hid
    simp at hid
  · rfl

theorem the_log_is_its_set_iff_twoNames :
    Converges Store.init twoNames ∧ Idempotent Store.init twoNames ↔
      ((∀ e ∈ twoNames, ∃ x, StoredEvent.from_wire e = .ok x) → Untied Store.init twoNames) :=
  the_log_is_its_set_iff Store.init twoNames twoNames_hashed

/-- The name of the room is the one that was applied last. -/
theorem the_last_of_two_names_stays : ¬ ∀ (st : Store) (S : List Json), ContentHashed S →
    Converges st S ∧ Idempotent st S := by
  intro h
  have hconv := (h Store.init twoNames twoNames_hashed).1
  have hcovers : Covers twoNames [[nameEvent "$duck" "Duck"], [nameEvent "$goose" "Goose"]] := by
    intro e
    simp [twoNames]
  have hcovers' : Covers twoNames [[nameEvent "$goose" "Goose"], [nameEvent "$duck" "Duck"]] := by
    intro e
    simp [twoNames, or_comm]
  have hsame := (hconv _ _ _ _ hcovers hcovers' rfl rfl).1.room_state ("!room", "p.room.name", "")
  have hid := congrArg (fun r => r.map StateRow.event_id) hsame
  have hgoose : some "$goose" = some "$duck" := hid
  simp at hgoose

end PigeonMobile
