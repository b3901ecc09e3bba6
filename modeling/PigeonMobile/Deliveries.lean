-- Events of a group that come in batches, from sync or from a backfill, with a pass after each
-- batch. What the batches come to is said by one list: the events that the passes took, in the
-- order in which they took them.
import PigeonMobile.EpochPass
import PigeonMobile.Sync

namespace PigeonMobile

variable {D : Type} {X : PigeonCrypto D}

/-! ## Batches -/

/-- An event of the group of `room` that the pass reads, as it is parsed off the wire. -/
structure GroupEvent (room : String) (ev : StoredEvent) : Prop where
  wire : StoredEvent.from_wire ev.payload = .ok ev
  here : ev.room_id = room
  kind : ev.event_type = "p.room.encrypted" ∨ ev.event_type = "p.mls.commit"

/-- The wire event of a commit or a message to `!room`. -/
def wireEvent (sender event_id type : String) (depth : Int) (content : Json) : Json :=
  .obj [("event_id", .str event_id), ("room_id", .str "!room"), ("sender", .str sender),
    ("type", .str type), ("origin_server_ts", .num depth), ("depth", .num depth),
    ("content", content)]

/-- The event, as it is parsed. -/
def wireStored (sender event_id type : String) (depth : Int) (content : Json) : StoredEvent :=
  { event_id, room_id := "!room", sender, event_type := type, state_key := none
    origin_server_ts := depth, depth, content
    payload := wireEvent sender event_id type depth content
    send_state := .Confirmed, decrypted := none, decrypt_failed := false }

/-- The two ways in which a batch comes. -/
inductive Source where
  | sync
  | backfill (limit : Nat)

/-- The response of a sync with the events in the timeline of a room. -/
def timelineResponse (room : String) (events : List Json) : Json :=
  .obj [("rooms",
    .obj [("join", .obj [(room, .obj [("timeline", .obj [("events", .arr events)])])])])]

/-- A page of the history of a room. -/
def chunkResponse (events : List Json) : Json := .obj [("chunk", .arr events)]

/-- What a batch runs: of the sync, the tables and then the pass. -/
def Source.code (room : String) (events : List Json) : Source → Code (Except CoreError Bool)
  | .sync => (apply_sync (timelineResponse room events)).andThen fun _ => process_inbound_mls
  | .backfill limit => (fetch_messages room limit).andThen fun _ => .done (.ok false)

/-- The server answers a backfill with these events, and no call fails. -/
def sendPage (events : List Json) : (op : Op) → op.Choice
  | .api_messages _ _ => .ok (chunkResponse events)
  | op => Client.calm op

namespace Client

/-- A batch comes in. -/
def deliver (X : PigeonCrypto D) (room : String) (c : Client D)
    (batch : Source × List StoredEvent) : Client D :=
  ((batch.1.code room (batch.2.map (fun ev => ev.payload))).run
    (under X (sendPage (batch.2.map (fun ev => ev.payload)))) c).2

def deliverAll (X : PigeonCrypto D) (room : String) (c : Client D)
    (batches : List (Source × List StoredEvent)) : Client D := batches.foldl (deliver X room) c

end Client

theorem pass_is_local : process_inbound_mls.All (fun op => op.isHttp = false) := by
  apply pass_calls.mono
  intro op hop
  cases op <;> first | rfl | cases hop

namespace Client

theorem under_sendPage (events : List Json) {op : Op} (h : op.isHttp = false) (c : Client D) :
    under X (sendPage events) op c = local_ X op c := by
  cases op <;> first | rfl | cases h

theorem run_page_pass (events : List Json) (c : Client D) :
    process_inbound_mls.run (under X (sendPage events)) c = process_inbound_mls.run (local_ X) c :=
  Prog.run_congr (fun _ c h => under_sendPage events h c) pass_is_local c

theorem local_apply {c : Client D} {batch : List StoredEvent}
    (h : ∀ ev ∈ batch, StoredEvent.from_wire ev.payload = .ok ev) :
    local_ X (.apply_events (batch.map (fun ev => ev.payload))) c =
      (.ok (c.store.apply_parsed batch).1, { c with store := (c.store.apply_parsed batch).2 }) := by
  have hparsed : (batch.map (fun ev => ev.payload)).mapM StoredEvent.from_wire = .ok batch := by
    rw [mapM_ok_iff, List.forall₂_map_left_iff, List.forall₂_same]
    exact h
  have hstore : c.store.apply_events (batch.map (fun ev => ev.payload)) =
      .ok (c.store.apply_parsed batch) := by
    unfold Store.apply_events
    rw [hparsed]
    rfl
  simp only [local_, perform, calm, onStore, hstore]

/-- In either way, a batch is taken into the tables, and the pass runs. -/
theorem deliver_eq {room : String} {c : Client D} {source : Source} {batch : List StoredEvent}
    (h : ∀ ev ∈ batch, GroupEvent room ev) : c.deliver X room (source, batch) =
      (process_inbound_mls.run (local_ X)
        { c with store := (c.store.apply_parsed batch).2 }).2 := by
  have happly := local_apply (X := X) (c := c) (fun ev hev => (h ev hev).wire)
  rw [← under_sendPage (batch.map (fun ev => ev.payload)) rfl] at happly
  cases source with
  | sync =>
    have hevents : syncEvents (timelineResponse room (batch.map (fun ev => ev.payload))) =
        batch.map (fun ev => ev.payload) := List.append_nil _
    have hsync : (apply_sync (timelineResponse room (batch.map (fun ev => ev.payload)))).run
        (under X (sendPage (batch.map (fun ev => ev.payload)))) c =
          (.ok (decide ((c.store.apply_parsed batch).1 > 0)),
            { c with store := (c.store.apply_parsed batch).2 }) := by
      unfold apply_sync
      rw [hevents, Prog.run_call, happly]
      rfl
    simp only [deliver, Source.code, Prog.andThen]
    rw [Prog.run_bind, hsync, run_page_pass]
  | backfill limit =>
    have hpage : sendPage (batch.map (fun ev => ev.payload)) (.api_messages room limit) =
        .ok (chunkResponse (batch.map (fun ev => ev.payload))) := rfl
    have hfetch := fetch_run X (sendPage (batch.map (fun ev => ev.payload))) hpage happly
    simp only [deliver, Source.code, Prog.andThen]
    rw [Prog.run_bind, hfetch, Prog.andThen, Prog.run_bind, run_page_pass]
    generalize process_inbound_mls.run (local_ X)
      { c with store := (c.store.apply_parsed batch).2 } = o
    obtain ⟨r, c'⟩ := o
    cases r <;> rfl

end Client

/-! ## Rows, with no pass run -/

namespace Store

/-- The row of an event once the events of `got` are in, where no pass has run. -/
def seen (st : Store) (got : List StoredEvent) (event_id : String) : Option EventRow :=
  (st.events.find event_id).or
    ((got.find? (fun ev => decide (ev.event_id = event_id))).map rowOf)

theorem seen_append (st : Store) (got batch : List StoredEvent) (event_id : String) :
    st.seen (got ++ batch) event_id = (st.seen got event_id).or
      ((batch.find? (fun ev => decide (ev.event_id = event_id))).map rowOf) := by
  unfold seen
  rw [List.find?_append, Option.or_assoc, Option.map_or]

theorem seen_mono {st : Store} {got : List StoredEvent} {event_id : String} {r : EventRow}
    (h : st.seen got event_id = some r) (batch : List StoredEvent) :
    st.seen (got ++ batch) event_id = some r := by
  rw [seen_append, h]
  rfl

theorem seen_cases {st : Store} {got : List StoredEvent} {event_id : String} {r : EventRow}
    (h : st.seen got event_id = some r) : st.events.find event_id = some r ∨
      st.events.find event_id = none ∧ ∃ ev ∈ got, ev.event_id = event_id ∧ r = rowOf ev := by
  unfold seen at h
  cases hold : st.events.find event_id with
  | some r' =>
    rw [hold] at h
    exact Or.inl h
  | none =>
    rw [hold, Option.none_or, Option.map_eq_some_iff] at h
    obtain ⟨ev, hev, rfl⟩ := h
    have hid := List.find?_some hev
    exact Or.inr ⟨rfl, ev, List.mem_of_find?_eq_some hev, of_decide_eq_true hid, rfl⟩

theorem seen_id {st : Store} {got : List StoredEvent} {event_id : String} {r : EventRow}
    (h : st.seen got event_id = some r) : r.event_id = event_id := by
  rcases seen_cases h with hold | ⟨-, ev, -, hid, rfl⟩
  · exact Table.find_key hold
  · exact hid

theorem seen_congr {st : Store} {S got : List StoredEvent}
    (hid : ∀ a ∈ S, ∀ b ∈ S, a.event_id = b.event_id → a = b) (h : ∀ ev, ev ∈ got ↔ ev ∈ S)
    (k : String) : st.seen got k = st.seen S k := by
  have hfind : got.find? (fun ev => decide (ev.event_id = k)) =
      S.find? (fun ev => decide (ev.event_id = k)) := by
    cases hg : got.find? (fun ev => decide (ev.event_id = k)) with
    | none =>
      symm
      rw [List.find?_eq_none] at hg ⊢
      intro ev hev
      exact hg ev ((h ev).mpr hev)
    | some ev =>
      have hev := (h ev).mp (List.mem_of_find?_eq_some hg)
      have hk : ev.event_id = k := by simpa using List.find?_some hg
      cases hs : S.find? (fun ev => decide (ev.event_id = k)) with
      | none =>
        rw [List.find?_eq_none] at hs
        exact absurd (decide_eq_true hk) (hs ev hev)
      | some ev' =>
        have hk' : ev'.event_id = k := by simpa using List.find?_some hs
        rw [hid ev hev ev' (List.mem_of_find?_eq_some hs) (hk.trans hk'.symm)]
  unfold Store.seen
  rw [hfind]

theorem seen_of_mem {st : Store} {S : List StoredEvent}
    (hid : ∀ a ∈ S, ∀ b ∈ S, a.event_id = b.event_id → a = b) {ev : StoredEvent}
    (hnone : st.events.find ev.event_id = none) (hev : ev ∈ S) :
    st.seen S ev.event_id = some (rowOf ev) := by
  unfold Store.seen
  rw [hnone, Option.none_or]
  cases hs : S.find? (fun x => decide (x.event_id = ev.event_id)) with
  | none =>
    rw [List.find?_eq_none] at hs
    exact absurd (decide_eq_true rfl) (hs ev hev)
  | some ev' =>
    have hk : ev'.event_id = ev.event_id := by simpa using List.find?_some hs
    rw [hid ev' (List.mem_of_find?_eq_some hs) ev hev hk]
    rfl

theorem pendingOf_room {r : EventRow} {item : PendingMls} (h : pendingOf r = .ok (some item)) :
    item.room_id = r.room_id := by
  rcases pendingOf_cases h with ⟨ct, -, -, rfl⟩ | ⟨commit, -, -, rfl⟩ <;> rfl

end Store

/-! ## What some batches come to -/

/-- A waiting event that a pass over the events of `got` takes. -/
def Due (room : String) (c : Client D) (got : List StoredEvent) (item : PendingMls) : Prop :=
  ∃ r, c.store.seen got item.event_id = some r ∧ Store.Waiting r ∧
    Store.pendingOf r = .ok (some item) ∧
    LiveIn room c.session.user_id c.store.has_pending_send item

/-- No waiting row makes the read of the waiting events fail. -/
def AllReadable (c : Client D) (got : List StoredEvent) : Prop :=
  ∀ event_id r, c.store.seen got event_id = some r → Store.Waiting r →
    ∃ o, Store.pendingOf r = .ok o

/-- The events of `got` are in, and the passes have taken those of `order`, so far. -/
structure Partway (M : EpochModel X) (room : String) (d : D) (e : Nat) (c : Client D)
    (got : List StoredEvent) (order : List PendingMls) (c' : Client D) : Prop where
  session : c'.session = c.session
  queue : c'.store.pending_sends = c.store.pending_sends
  engine : ∃ d', c'.e2ee = some d' ∧ ∀ r, M.epoch d' r =
    if r = room then some (M.nextAll c.session.user_id e order) else M.epoch d r
  rows : ∀ k, c'.store.events.find k =
    (c.store.seen got k).map (markRow (M.fate c.session.user_id e order k))
  nodup : (order.map PendingMls.event_id).Nodup
  due : ∀ item ∈ order, Due room c got item

/-- The passes have taken every event that they can take. -/
structure Reached (M : EpochModel X) (room : String) (d : D) (e : Nat) (c : Client D)
    (got : List StoredEvent) (order : List PendingMls) (c' : Client D) : Prop extends
    Partway M room d e c got order c' where
  all : AllReadable c got → ∀ item, Due room c got item → item ∈ order

theorem Due.append {room : String} {c : Client D} {got : List StoredEvent} {item : PendingMls}
    (h : Due room c got item) (batch : List StoredEvent) : Due room c (got ++ batch) item := by
  obtain ⟨r, hr, hw, hof, hl⟩ := h
  exact ⟨r, Store.seen_mono hr batch, hw, hof, hl⟩

theorem Due.unique {room : String} {c : Client D} {got : List StoredEvent} {item item' : PendingMls}
    (h : Due room c got item) (h' : Due room c got item') (hid : item.event_id = item'.event_id) :
    item = item' := by
  obtain ⟨r, hr, -, hof, -⟩ := h
  obtain ⟨r', hr', -, hof', -⟩ := h'
  rw [hid, hr'] at hr
  cases hr
  rw [hof] at hof'
  cases hof'
  rfl

/-- The start: nothing that waits can be taken. -/
theorem Reached.start (M : EpochModel X) {room : String} {d : D} {e : Nat} {c : Client D}
    (hd : c.e2ee = some d) (he : M.epoch d room = some e) (hrest : AtRest X c) :
    Reached M room d e c [] [] c := by
  have hseen : ∀ k, c.store.seen [] k = c.store.events.find k := by
    intro k
    unfold Store.seen
    simp
  refine ⟨⟨rfl, rfl, ⟨d, hd, ?_⟩, ?_, List.nodup_nil, ?_⟩, ?_⟩
  · intro r
    by_cases hr : r = room
    · rw [if_pos hr, hr, he]
      rfl
    · rw [if_neg hr]
  · intro k
    have hid : markRow (M.fate c.session.user_id e [] k) = id := rfl
    rw [hseen, hid, Option.map_id]
    rfl
  · intro item hi
    cases hi
  · intro _ item hdue
    obtain ⟨r, hr, hw, hof, hroom, hl⟩ := hdue
    obtain ⟨pre, hpending, hwaits⟩ := hrest
    rw [hseen] at hr
    have hin : item ∈ pre ++ [] :=
      (Store.mem_pending_iff hpending).mpr ⟨r, (Table.find_some_iff.mp hr).1, hw, hof⟩
    rw [List.append_nil] at hin
    rcases (wait_iff M hd).mp (hwaits item hin) with hnone | hheld
    · rw [hroom, he] at hnone
      cases hnone
    · exact absurd hl hheld

namespace Partway

variable {M : EpochModel X} {room : String} {d : D} {e : Nat} {c c' : Client D}
  {got : List StoredEvent} {order : List PendingMls}

/-- A batch goes into the tables. -/
theorem take_in (h : Partway M room d e c got order c') (batch : List StoredEvent) :
    Partway M room d e c (got ++ batch) order
      { c' with store := (c'.store.apply_parsed batch).2 } := by
  refine ⟨h.session, ?_, h.engine, ?_, h.nodup, fun item hi => (h.due item hi).append batch⟩
  · exact (c'.store.apply_parsed_pending_sends batch).trans h.queue
  · intro k
    have hfind := c'.store.find_apply_parsed batch k
    rw [h.rows k] at hfind
    rw [hfind, Store.seen_append]
    cases hseen : c.store.seen got k with
    | some r => rfl
    | none =>
      -- an event that was taken is one of `got`, so the rows of the batch have no mark
      have hnone : M.fate c.session.user_id e order k = none := by
        rw [M.fate_none_iff]
        intro hin
        obtain ⟨item, hi, rfl⟩ := List.mem_map.mp hin
        obtain ⟨r, hr, -⟩ := h.due item hi
        rw [hseen] at hr
        cases hr
      have hid : markRow none = id := rfl
      rw [hnone, hid, Option.map_id]
      rfl

/-- A row that waits has not been taken. -/
theorem waiting (h : Partway M room d e c got order c') {r : EventRow}
    (hr : r ∈ c'.store.events.rows) (hw : Store.Waiting r) :
    c.store.seen got r.event_id = some r ∧ r.event_id ∉ order.map PendingMls.event_id := by
  have hfind := Table.mem_rows_iff.mp hr
  rw [h.rows, Option.map_eq_some_iff] at hfind
  obtain ⟨r', hr', hmark⟩ := hfind
  rw [← M.fate_none_iff c.session.user_id e]
  cases hf : M.fate c.session.user_id e order r.event_id with
  | none =>
    rw [hf] at hmark
    have hsame : r' = r := hmark
    rw [hsame] at hr'
    exact ⟨hr', rfl⟩
  | some mark =>
    rw [hf] at hmark
    have hdone := mark.row_done r'
    have hrow : mark.row r' = r := hmark
    rw [hrow] at hdone
    exact absurd hw.2 hdone

theorem still_waiting (h : Partway M room d e c got order c') {k : String} {r : EventRow}
    (hr : c.store.seen got k = some r) (hk : k ∉ order.map PendingMls.event_id) :
    r ∈ c'.store.events.rows := by
  rw [Table.mem_rows_iff, Store.seen_id hr, h.rows, hr,
    (M.fate_none_iff c.session.user_id e order k).mpr hk]
  rfl

/-- Where one waiting row cannot be read, the pass does nothing. -/
theorem unread_pass (h : Partway M room d e c got order c') (hread : ¬ AllReadable c got) :
    (process_inbound_mls.run (Client.local_ X) c').2 = c' := by
  obtain ⟨d', hd', -⟩ := h.engine
  cases hp : c'.store.pending_mls with
  | error err => exact run_unread_pass X hd' hp
  | ok items =>
    exfalso
    apply hread
    intro k r hr hw
    by_cases hk : k ∈ order.map PendingMls.event_id
    · obtain ⟨item, hi, rfl⟩ := List.mem_map.mp hk
      obtain ⟨r', hr', -, hof, -⟩ := h.due item hi
      rw [hr'] at hr
      cases hr
      exact ⟨some item, hof⟩
    · exact Store.readable_of_pending hp (h.still_waiting hr hk) hw

/-- The pass after a batch. -/
theorem pass (hd : c.e2ee = some d) (hrest : AtRest X c)
    (hgot : ∀ ev ∈ got, GroupEvent room ev) (h : Partway M room d e c got order c') :
    ∃ new, Reached M room d e c got (order ++ new)
      (process_inbound_mls.run (Client.local_ X) c').2 := by
  obtain ⟨d', hd', hepoch⟩ := h.engine
  have hqueued := has_pending_send_congr h.queue
  cases hp : c'.store.pending_mls with
  | error err =>
    -- a row that cannot be read makes the pass do nothing
    refine ⟨[], ?_⟩
    rw [run_unread_pass X hd' hp, List.append_nil]
    refine ⟨h, ?_⟩
    intro hread
    obtain ⟨items, hitems⟩ : ∃ items, c'.store.pending_mls = .ok items := by
      apply Store.pending_mls_total
      intro r hr hw
      exact hread r.event_id r (h.waiting hr hw).1 hw
    rw [hp] at hitems
    cases hitems
  | ok items =>
    have hmem : ∀ item, item ∈ items ↔ ∃ r ∈ c'.store.events.rows, Store.Waiting r ∧
        Store.pendingOf r = .ok (some item) := fun item => Store.mem_pending_iff hp
    have he' : M.epoch d' room = some (M.nextAll c.session.user_id e order) := by
      rw [hepoch, if_pos rfl]
    have hother : ∀ item ∈ items, item.room_id = room ∨ c'.verdict X item = .wait := by
      intro item hi
      obtain ⟨r, hr, hw, hof⟩ := (hmem item).mp hi
      rcases Store.seen_cases (h.waiting hr hw).1 with hold | ⟨-, ev, hev, -, hrow⟩
      · by_cases hroom : item.room_id = room
        · exact Or.inl hroom
        · obtain ⟨pre, hpending, hwaits⟩ := hrest
          have hin : item ∈ pre ++ [] :=
            (Store.mem_pending_iff hpending).mpr ⟨r, (Table.find_some_iff.mp hold).1, hw, hof⟩
          rw [List.append_nil] at hin
          have hwait := (wait_iff M hd).mp (hwaits item hin)
          rw [wait_iff M hd', hepoch, if_neg hroom, h.session, hqueued]
          exact Or.inr hwait
      · rw [hrow] at hof
        exact Or.inl ((Store.pendingOf_room hof).trans (hgot ev hev).here)
    have hwalk := walk_digestAll M room hd' he' items (Store.pending_nodup hp) hother
    rw [h.session, hqueued] at hwalk
    obtain ⟨hsession, hqueue, ⟨d'', hd'', hepoch'⟩, hrows⟩ := hwalk
    obtain ⟨new, hnew⟩ : ∃ new, new = items.filter (fun item => decide
      (LiveIn room c.session.user_id c.store.has_pending_send item)) := ⟨_, rfl⟩
    rw [← hnew, h.session] at hepoch' hrows
    -- what the pass takes is what is due and has not been taken
    have hmem' : ∀ item, item ∈ new ↔
        Due room c got item ∧ item.event_id ∉ order.map PendingMls.event_id := by
      intro item
      rw [hnew, List.mem_filter, decide_eq_true_eq, hmem]
      constructor
      · rintro ⟨⟨r, hr, hw, hof⟩, hl⟩
        have hseen := h.waiting hr hw
        rw [← Store.pendingOf_id hof] at hseen
        exact ⟨⟨r, hseen.1, hw, hof, hl⟩, hseen.2⟩
      · rintro ⟨⟨r, hr, hw, hof, hl⟩, hk⟩
        exact ⟨⟨r, h.still_waiting hr hk, hw, hof⟩, hl⟩
    have hnodup : (new.map PendingMls.event_id).Nodup := by
      rw [hnew]
      exact (Store.pending_nodup hp).sublist (List.filter_sublist.map PendingMls.event_id)
    have hapart : ∀ k ∈ order.map PendingMls.event_id, k ∉ new.map PendingMls.event_id := by
      intro k hk hin
      obtain ⟨item, hi, rfl⟩ := List.mem_map.mp hin
      exact ((hmem' item).mp hi).2 hk
    refine ⟨new, ⟨?_, ?_, ⟨d'', ?_, ?_⟩, ?_, ?_, ?_⟩, ?_⟩
    · rw [run_process_inbound_mls X hd' hp]
      exact hsession.trans h.session
    · rw [run_process_inbound_mls X hd' hp]
      exact hqueue.trans h.queue
    · rw [run_process_inbound_mls X hd' hp]
      exact hd''
    · intro r
      rw [hepoch', M.nextAll_append, hepoch]
      by_cases hr : r = room
      · rw [if_pos hr, if_pos hr]
      · rw [if_neg hr, if_neg hr, if_neg hr]
    · intro k
      rw [run_process_inbound_mls X hd' hp, hrows, h.rows, Option.map_map, M.fate_append]
      by_cases hk : k ∈ order.map PendingMls.event_id
      · have hnone : M.fate c.session.user_id (M.nextAll c.session.user_id e order) new k = none :=
          (M.fate_none_iff _ _ _ _).mpr (hapart k hk)
        rw [if_pos hk, hnone]
        rfl
      · rw [if_neg hk, (M.fate_none_iff c.session.user_id e order k).mpr hk]
        rfl
    · rw [List.map_append, List.nodup_append]
      refine ⟨h.nodup, hnodup, ?_⟩
      rintro k hk _ hk' rfl
      exact hapart k hk hk'
    · intro item hi
      rcases List.mem_append.mp hi with hi | hi
      · exact h.due item hi
      · exact ((hmem' item).mp hi).1
    · intro _ item hdue
      rw [List.mem_append]
      by_cases hk : item.event_id ∈ order.map PendingMls.event_id
      · obtain ⟨item', hi', hid⟩ := List.mem_map.mp hk
        rw [← (h.due item' hi').unique hdue hid]
        exact Or.inl hi'
      · exact Or.inr ((hmem' item).mpr ⟨hdue, hk⟩)

end Partway

/-! ## Any batches -/

section

variable {M : EpochModel X} {room : String} {d : D} {e : Nat} {c : Client D}
  (hd : c.e2ee = some d) (hrest : AtRest X c)

include hd hrest

/-- One more batch. -/
theorem Reached.deliver {c' : Client D} {got : List StoredEvent} {order : List PendingMls}
    (h : Reached M room d e c got order c') (hgot : ∀ ev ∈ got, GroupEvent room ev)
    {batch : Source × List StoredEvent} (hbatch : ∀ ev ∈ batch.2, GroupEvent room ev) :
    ∃ new, Reached M room d e c (got ++ batch.2) (order ++ new) (c'.deliver X room batch) := by
  obtain ⟨source, batch⟩ := batch
  have hall : ∀ ev ∈ got ++ batch, GroupEvent room ev := by
    intro ev hev
    rcases List.mem_append.mp hev with hev | hev
    · exact hgot ev hev
    · exact hbatch ev hev
  obtain ⟨new, hnew⟩ := (h.toPartway.take_in batch).pass hd hrest hall
  rw [Client.deliver_eq hbatch]
  exact ⟨new, hnew⟩

theorem Reached.deliverAll {c' : Client D} {got : List StoredEvent} {order : List PendingMls}
    (h : Reached M room d e c got order c') (hgot : ∀ ev ∈ got, GroupEvent room ev)
    (batches : List (Source × List StoredEvent))
    (hbatches : ∀ ev ∈ batches.flatMap Prod.snd, GroupEvent room ev) :
    ∃ new, Reached M room d e c (got ++ batches.flatMap Prod.snd) (order ++ new)
      (c'.deliverAll X room batches) := by
  induction batches generalizing c' got order with
  | nil =>
    refine ⟨[], ?_⟩
    rw [List.flatMap_nil, List.append_nil, List.append_nil]
    exact h
  | cons batch rest ih =>
    rw [List.flatMap_cons] at hbatches ⊢
    have hfirst : ∀ ev ∈ batch.2, GroupEvent room ev := fun ev hev =>
      hbatches ev (List.mem_append_left _ hev)
    obtain ⟨new, hnew⟩ := h.deliver hd hrest hgot hfirst
    have hgot' : ∀ ev ∈ got ++ batch.2, GroupEvent room ev := by
      intro ev hev
      rcases List.mem_append.mp hev with hev | hev
      · exact hgot ev hev
      · exact hfirst ev hev
    obtain ⟨new', hnew'⟩ := ih hnew hgot' (fun ev hev => hbatches ev (List.mem_append_right _ hev))
    rw [List.append_assoc, List.append_assoc] at hnew'
    exact ⟨new ++ new', hnew'⟩

end

end PigeonMobile
