-- The room list (`Store::list_rooms`) on state of any shape: one entry a room, in the order of
-- its last activity. One room whose name or topic is a boolean or a number fails the list of
-- all rooms, and an array or an object is shown as its JSON text.
import PigeonMobile.FoldedState
import PigeonMobile.PendingStream

namespace PigeonMobile

/-! ## The current texts of a room -/

/-- A field of the content of the current `(type, "")` event of a room. -/
def Store.currentField (st : Store) (room_id type field : String) : Option Json :=
  ((st.room_state.find (room_id, type, "")).bind (fun s => st.events.find s.event_id)).bind
    (·.contentField field)

/-- A field that is missing, null or a string. -/
def Textual (field : Option Json) : Prop :=
  ∀ j, field = some j → j = .null ∨ ∃ s, j = .str s

theorem Textual.text {field : Option Json} (h : Textual field) :
    field.elim (some none) Json.sqlText = some (field.bind Json.as_str) := by
  cases field with
  | none => rfl
  | some j =>
    rcases h j rfl with rfl | ⟨s, rfl⟩
    · rfl
    · rfl

/-- A field is read as its own text just where it is a string, null or missing. -/
theorem textual_iff {field : Option Json} :
    Textual field ↔ field.elim (some none) Json.sqlText = some (field.bind Json.as_str) := by
  constructor
  · intro h
    exact h.text
  · intro h j hj
    rw [hj] at h
    cases j with
    | null => exact Or.inl rfl
    | str s => exact Or.inr ⟨s, rfl⟩
    | bool | num | float | arr | obj => cases h

section

variable {st : Store}

theorem stateText_text (room_id type field : String) :
    (st.stateText room_id type field).getOptionString =
      (st.currentField room_id type field).elim (some none) Json.sqlText := by
  unfold Store.stateText Store.currentField
  cases (st.room_state.find (room_id, type, "")).bind (fun s => st.events.find s.event_id) with
  | none => rfl
  | some e => exact extract_content e field

/-! ## What the list should be -/

/-- The last activity of a room is the latest time in its log. -/
structure LastActivity (st : Store) (room_id : String) (ts : Int) : Prop where
  latest : ∀ r ∈ st.events.rows, r.room_id = room_id → r.origin_server_ts ≤ ts
  reached : (∃ r ∈ st.events.rows, r.room_id = room_id ∧ r.origin_server_ts = ts) ∨
    ((∀ r ∈ st.events.rows, r.room_id ≠ room_id) ∧ ts = 0)

/-- The entry of a room says what is folded and what is logged of it. -/
structure EntryExact (st : Store) (s : RoomSummary) : Prop where
  name : s.name = (st.currentField s.room_id "p.room.name" "name").bind Json.as_str
  topic : s.topic = (st.currentField s.room_id "p.room.topic" "topic").bind Json.as_str
  encrypted : s.encrypted = true ↔
    ∃ key marker, st.room_state.find (s.room_id, "p.room.encryption", key) = some marker
  activity : LastActivity st s.room_id s.last_activity_ts

/-- The list has one entry for each room with folded state, the latest activity first. -/
structure RoomListExact (st : Store) (rooms : List RoomSummary) : Prop where
  each : ∀ room_id, (∃ s ∈ rooms, s.room_id = room_id) ↔
    ∃ row ∈ st.room_state.rows, row.room_id = room_id
  once : (rooms.map (·.room_id)).Nodup
  entries : ∀ s ∈ rooms, EntryExact st s
  ordered : rooms.Pairwise (fun a b => b.last_activity_ts < a.last_activity_ts ∨
    (b.last_activity_ts = a.last_activity_ts ∧ a.room_id < b.room_id))

/-- The name and the topic of a room are texts, or not there. -/
structure RoomTextual (st : Store) (room_id : String) : Prop where
  name : Textual (st.currentField room_id "p.room.name" "name")
  topic : Textual (st.currentField room_id "p.room.topic" "topic")

/-! ## The list as it is read -/

theorem last_activity (st : Store) (room_id : String) :
    LastActivity st room_id (st.last_activity_ts room_id) := by
  have hmem : ∀ r, r ∈ st.events.rows.filter (fun r => decide (r.room_id = room_id)) ↔
      r ∈ st.events.rows ∧ r.room_id = room_id := by
    intro r
    rw [List.mem_filter, decide_eq_true_eq]
  unfold Store.last_activity_ts
  cases hmax : ((st.events.rows.filter (fun r => decide (r.room_id = room_id))).map
      (·.origin_server_ts)).max? with
  | none =>
    rw [List.max?_eq_none_iff, List.map_eq_nil_iff] at hmax
    have hnone : ∀ r ∈ st.events.rows, r.room_id ≠ room_id := by
      intro r hr hroom
      have hin := (hmem r).mpr ⟨hr, hroom⟩
      rw [hmax] at hin
      cases hin
    exact ⟨fun r hr hroom => absurd hroom (hnone r hr), Or.inr ⟨hnone, rfl⟩⟩
  | some ts =>
    obtain ⟨hin, hmost⟩ := List.max?_eq_some_iff.mp hmax
    refine ⟨?_, Or.inl ?_⟩
    · intro r hr hroom
      exact hmost _ (List.mem_map_of_mem ((hmem r).mpr ⟨hr, hroom⟩))
    · obtain ⟨r, hr, hts⟩ := List.mem_map.mp hin
      obtain ⟨hlog, hroom⟩ := (hmem r).mp hr
      exact ⟨r, hlog, hroom, hts⟩

/-- The rooms in the order of the list. -/
def Store.orderedRooms (st : Store) : List String :=
  ((st.room_state.rows.map (·.room_id)).dedup).insertionSort (fun a b =>
    toLex (-st.last_activity_ts a, a) ≤ toLex (-st.last_activity_ts b, b))

theorem Store.list_rooms_eq (st : Store) : st.list_rooms = st.orderedRooms.mapM st.summary := rfl

theorem mem_orderedRooms {room_id : String} :
    room_id ∈ st.orderedRooms ↔ ∃ row ∈ st.room_state.rows, row.room_id = room_id := by
  unfold Store.orderedRooms
  rw [List.mem_insertionSort, List.mem_dedup, List.mem_map]

theorem orderedRooms_nodup (st : Store) : st.orderedRooms.Nodup := by
  unfold Store.orderedRooms
  rw [(List.perm_insertionSort _ _).nodup_iff]
  exact List.nodup_dedup _

/-- Of two rooms of the list the first has the later activity, or the smaller id at the same. -/
theorem orderedRooms_pairwise (st : Store) : st.orderedRooms.Pairwise (fun a b =>
    st.last_activity_ts b < st.last_activity_ts a ∨
      (st.last_activity_ts b = st.last_activity_ts a ∧ a < b)) := by
  let le : String → String → Prop := fun a b =>
    toLex (-st.last_activity_ts a, a) ≤ toLex (-st.last_activity_ts b, b)
  have htotal : Std.Total le := ⟨fun a b => le_total (toLex (-st.last_activity_ts a, a)) _⟩
  have htrans : IsTrans String le := ⟨fun a b c hab hbc => le_trans hab hbc⟩
  have hsorted : st.orderedRooms.Pairwise le := List.pairwise_insertionSort le _
  refine List.Pairwise.imp ?_ (hsorted.and (orderedRooms_nodup st))
  rintro a b ⟨hle, hne⟩
  rcases Prod.Lex.le_iff.mp hle with hlater | ⟨hsame, hid⟩
  · have hlater : -st.last_activity_ts a < -st.last_activity_ts b := hlater
    left
    omega
  · have hsame : -st.last_activity_ts a = -st.last_activity_ts b := hsame
    right
    refine ⟨by omega, lt_of_le_of_ne hid hne⟩

/-- Where the list is read, its entries are those of the rooms, in their order. -/
theorem list_rooms_entries {rooms : List RoomSummary} (h : st.list_rooms = .ok rooms) :
    List.Forall₂ (fun room_id s => st.summary room_id = .ok s) st.orderedRooms rooms ∧
      rooms.map (·.room_id) = st.orderedRooms := by
  rw [Store.list_rooms_eq] at h
  have hall := mapM_ok_iff.mp h
  refine ⟨hall, ?_⟩
  have hids : List.Forall₂ (fun room_id s => room_id = s.room_id) st.orderedRooms rooms :=
    hall.imp (fun room_id s hs => (summary_ok hs).1.symm)
  have heq := List.forall₂_map_right_iff.mpr hids
  rw [List.forall₂_eq_eq_eq] at heq
  exact heq.symm

theorem RoomTextual.summary {room_id : String} (h : RoomTextual st room_id) :
    st.summary room_id = .ok {
      room_id
      name := (st.currentField room_id "p.room.name" "name").bind Json.as_str
      topic := (st.currentField room_id "p.room.topic" "topic").bind Json.as_str
      encrypted := st.is_room_encrypted room_id
      last_activity_ts := st.last_activity_ts room_id } := by
  unfold Store.summary
  rw [stateText_text, stateText_text, h.name.text, h.topic.text]

/-- The entry of a room is exact just where its name and its topic are texts. -/
theorem summary_exact_iff {room_id : String} {s : RoomSummary} (h : st.summary room_id = .ok s) :
    EntryExact st s ↔ RoomTextual st room_id := by
  obtain ⟨hid, henc, hts, hname, htopic⟩ := summary_ok h
  rw [stateText_text, ← hid] at hname htopic
  rw [← hid] at henc hts ⊢
  constructor
  · intro hexact
    constructor
    · rw [textual_iff, hname, hexact.name]
    · rw [textual_iff, htopic, hexact.topic]
  · intro htextual
    refine ⟨?_, ?_, ?_, ?_⟩
    · exact Option.some.inj (hname.symm.trans htextual.name.text)
    · exact Option.some.inj (htopic.symm.trans htextual.topic.text)
    · rw [henc, is_room_encrypted_iff]
    · rw [hts]
      exact last_activity st s.room_id

end

/-- The room list is read and exact if and only if the current name and the current topic of each
room with folded state are strings, null or missing. -/
theorem room_list_is_exact_iff (st : Store) :
    (∃ rooms, st.list_rooms = .ok rooms ∧ RoomListExact st rooms) ↔
      ∀ row ∈ st.room_state.rows, RoomTextual st row.room_id := by
  constructor
  · rintro ⟨rooms, hrooms, hexact⟩ row hrow
    obtain ⟨hall, -⟩ := list_rooms_entries hrooms
    obtain ⟨s, hs, hsum⟩ := mem_of_forall₂ (List.Forall₂.flip hall)
      (mem_orderedRooms.mpr ⟨row, hrow, rfl⟩)
    exact (summary_exact_iff hsum).mp (hexact.entries s hs)
  · intro htextual
    have hread : ∀ room_id ∈ st.orderedRooms, ∃ s, st.summary room_id = .ok s := by
      intro room_id hroom
      obtain ⟨row, hrow, rfl⟩ := mem_orderedRooms.mp hroom
      exact ⟨_, (htextual row hrow).summary⟩
    obtain ⟨rooms, hrooms⟩ := mapM_total hread
    have hrooms : st.list_rooms = .ok rooms := hrooms
    obtain ⟨hall, hids⟩ := list_rooms_entries hrooms
    have hentry : ∀ s ∈ rooms, ∃ room_id ∈ st.orderedRooms, st.summary room_id = .ok s := by
      intro s hs
      obtain ⟨room_id, hroom, hsum⟩ := mem_of_forall₂ hall hs
      exact ⟨room_id, hroom, hsum⟩
    refine ⟨rooms, hrooms, ?_, ?_, ?_, ?_⟩
    · intro room_id
      rw [← mem_orderedRooms, ← hids, List.mem_map]
    · rw [hids]
      exact orderedRooms_nodup st
    · intro s hs
      obtain ⟨room_id, hroom, hsum⟩ := hentry s hs
      obtain ⟨row, hrow, rfl⟩ := mem_orderedRooms.mp hroom
      exact (summary_exact_iff hsum).mpr (htextual row hrow)
    · have hordered := orderedRooms_pairwise st
      rw [← hids, List.pairwise_map] at hordered
      refine List.Pairwise.imp_of_mem ?_ hordered
      intro a b ha hb h
      obtain ⟨_, -, hsuma⟩ := hentry a ha
      obtain ⟨_, -, hsumb⟩ := hentry b hb
      obtain ⟨hida, -, htsa, -⟩ := summary_ok hsuma
      obtain ⟨hidb, -, htsb, -⟩ := summary_ok hsumb
      rw [htsa, htsb, ← hida, ← hidb]
      exact h

/-! ## A number for a name -/

/-- The name of a room, set to the number 5. -/
def numberName : Json :=
  .obj [("event_id", .str "$name"), ("room_id", .str "!room"),
    ("sender", .str "@bob:pigeon.example"),
    ("type", .str "p.room.name"), ("state_key", .str ""), ("origin_server_ts", .num 7),
    ("depth", .num 5), ("content", .obj [("name", .num 5)])]

/-- No room is listed once one has a number for a name. -/
theorem a_number_hides_every_room : ¬ ∀ ms : List Method,
    ∃ rooms, (Store.written ms).list_rooms = .ok rooms ∧
      RoomListExact (Store.written ms) rooms := by
  intro h
  obtain ⟨rooms, hrooms, -⟩ := h [.apply_events [numberName]]
  cases hrooms

end PigeonMobile
