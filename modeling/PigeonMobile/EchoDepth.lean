-- The depth of a local echo (`queue_send` in `store.rs`): one more than the deepest event of the
-- room, so that the echo stands last. It stands last where that depth is still an `i64`.
import PigeonMobile.StoreMethods

namespace PigeonMobile

/-- The largest depth that a column holds. -/
def DEPTH_MAX : Int := 9223372036854775807

/-- The rows of one room, with its commits. -/
def Store.roomRows (st : Store) (room_id : String) : List EventRow :=
  st.events.rows.filter (fun r => decide (r.room_id = room_id))

/-- The echo `id` stands behind each other event of the room: at a greater depth, and last on
each first page. -/
structure EchoLast (st : Store) (room_id id : String) (echo : EventRow) : Prop where
  row : echo ∈ st.roomRows room_id
  event_id : echo.event_id = id
  deepest : ∀ r ∈ st.roomRows room_id, r ≠ echo → r.depth < echo.depth
  last : ∀ limit, 1 ≤ limit → ∃ page ev, st.timeline room_id limit none = .ok page ∧
    page.getLast? = some ev ∧ ev.event_id = id ∧ ev.depth = echo.depth

/-- A send that is queued, with its echo behind all the room. -/
def QueuedLast (st : Store) (room_id sender body : String) (ids : SendIds) (now : Int) : Prop :=
  ∃ st' echo, st.queue_send room_id sender body ids now = .ok (ids.txn_id, st') ∧
    EchoLast st' room_id ids.event_id echo

namespace Store

variable {st st' : Store}

/-! ## The next depth -/

theorem mem_roomRows {room_id : String} {r : EventRow} :
    r ∈ st.roomRows room_id ↔ r ∈ st.events.rows ∧ r.room_id = room_id := by
  unfold roomRows
  rw [List.mem_filter, decide_eq_true_eq]

/-- The next depth is above every depth of the room. -/
theorem nextDepth_above {room_id : String} {depth : Int} (h : st.nextDepth room_id = .ok depth) :
    ∀ r ∈ st.roomRows room_id, r.depth < depth := by
  intro r hr
  have hmem : r.depth ∈ (st.roomRows room_id).map (·.depth) := List.mem_map_of_mem hr
  unfold nextDepth at h
  simp only at h
  split at h
  · cases h
    unfold roomRows at hmem
    cases hmax :
      ((st.events.rows.filter (fun r => decide (r.room_id = room_id))).map (·.depth)).max? with
    | none =>
      rw [List.max?_eq_none_iff] at hmax
      rw [hmax] at hmem
      cases hmem
    | some m =>
      have hle := (List.max?_eq_some_iff.mp hmax).2 r.depth hmem
      rw [Option.getD_some]
      omega
  · cases h

/-- Where no event of the room is at the largest depth, there is a next one. -/
theorem nextDepth_ok {room_id : String} (hi64 : ∀ r ∈ st.events.rows, Json.inI64 r.depth = true)
    (hmax : ∀ r ∈ st.roomRows room_id, r.depth ≠ DEPTH_MAX) :
    ∃ depth, st.nextDepth room_id = .ok depth := by
  have hin : Json.inI64 ((((st.events.rows.filter (fun r => decide (r.room_id = room_id))).map
      (·.depth)).max?).getD 0 + 1) = true := by
    unfold Json.inI64
    rw [decide_eq_true_eq]
    cases hm :
      ((st.events.rows.filter (fun r => decide (r.room_id = room_id))).map (·.depth)).max? with
    | none =>
      rw [Option.getD_none]
      omega
    | some m =>
      obtain ⟨r, hr, rfl⟩ := List.mem_map.mp (List.max?_eq_some_iff.mp hm).1
      have hbounds := hi64 r (List.mem_filter.mp hr).1
      have hne := hmax r hr
      unfold Json.inI64 at hbounds
      unfold DEPTH_MAX at hne
      rw [decide_eq_true_eq] at hbounds
      rw [Option.getD_some]
      omega
  exact ⟨_, if_pos hin⟩

/-- An event at the largest depth leaves no room for an echo. -/
theorem nextDepth_full {room_id : String} {r : EventRow} (hr : r ∈ st.roomRows room_id)
    (hmax : r.depth = DEPTH_MAX) (depth : Int) : st.nextDepth room_id ≠ .ok depth := by
  intro h
  have hlt := nextDepth_above h r hr
  unfold nextDepth at h
  simp only at h
  split at h
  · next hin =>
    cases h
    unfold Json.inI64 at hin
    unfold DEPTH_MAX at hmax
    rw [decide_eq_true_eq] at hin
    omega
  · cases h

/-! ## The echo -/

/-- A send is queued just where the room has a next depth and its two ids are free. -/
theorem queue_send_iff {room_id sender body : String} {ids : SendIds} {now : Int} :
    (∃ txn_id st', st.queue_send room_id sender body ids now = .ok (txn_id, st')) ↔
      (∃ depth, st.nextDepth room_id = .ok depth) ∧ st.events.find ids.event_id = none ∧
        st.pending_sends.find ids.txn_id = none := by
  unfold queue_send
  cases hd : st.nextDepth room_id with
  | error e =>
    constructor
    · rintro ⟨txn_id, st', h⟩
      cases h
    · rintro ⟨⟨depth, h⟩, -⟩
      cases h
  | ok depth =>
    simp only [bind, Except.bind]
    split
    · next htaken =>
      constructor
      · rintro ⟨txn_id, st', h⟩
        cases h
      · rintro ⟨-, hevent, hpending⟩
        rw [hevent, hpending] at htaken
        simp at htaken
    · next hfree =>
      simp only [not_or, Bool.not_eq_true, Option.isSome_eq_false_iff, Option.isNone_iff_eq_none]
        at hfree
      exact ⟨fun _ => ⟨⟨depth, rfl⟩, hfree⟩, fun _ => ⟨_, _, rfl⟩⟩

/-- The store after a send, row by row: the echo at the next depth, and the rows before. -/
theorem roomRows_queue_send {room_id sender body txn_id : String} {ids : SendIds} {now : Int}
    (hok : st.queue_send room_id sender body ids now = .ok (txn_id, st')) :
    ∃ depth, st.nextDepth room_id = .ok depth ∧
      (∀ r, r ∈ st'.roomRows room_id ↔
        r = echoRow room_id sender body ids.event_id now depth ∨ r ∈ st.roomRows room_id) := by
  obtain ⟨⟨depth, hdepth⟩, hfree, hnew⟩ := queue_send_iff.mp ⟨txn_id, st', hok⟩
  have hrows : st'.events.rows =
      st.events.rows ++ [echoRow room_id sender body ids.event_id now depth] := by
    unfold queue_send at hok
    rw [hdepth] at hok
    simp only [bind, Except.bind] at hok
    rw [if_neg (by simp [hfree, hnew])] at hok
    cases hok
    unfold Table.insertNew
    rw [dif_pos hfree]
    rfl
  refine ⟨depth, hdepth, ?_⟩
  intro r
  simp only [mem_roomRows, hrows, List.mem_append, List.mem_singleton]
  constructor
  · rintro ⟨hr | rfl, hroom⟩
    · exact Or.inr ⟨hr, hroom⟩
    · exact Or.inl rfl
  · rintro (rfl | ⟨hr, hroom⟩)
    · exact ⟨Or.inr rfl, rfl⟩
    · exact ⟨Or.inl hr, hroom⟩

/-- The newest row of a room is the one that is deeper than each other. -/
theorem timelineRows_head {room_id : String} {echo : EventRow} (hrow : echo ∈ st.roomRows room_id)
    (htype : echo.type ≠ "p.mls.commit")
    (hdeepest : ∀ r ∈ st.roomRows room_id, r ≠ echo → r.depth < echo.depth) :
    ∃ older, st.timelineRows room_id none = echo :: older := by
  have hshown : ∀ r, r ∈ st.timelineRows room_id none ↔
      r ∈ st.roomRows room_id ∧ r.type ≠ "p.mls.commit" := by
    intro r
    unfold timelineRows dagSort
    simp only [List.mem_reverse, List.mem_insertionSort, List.mem_filter, decide_eq_true_eq,
      mem_roomRows]
    simp [and_assoc]
  have hsorted : (st.timelineRows room_id none).Pairwise (fun a b => b.position ≤ a.position) := by
    unfold timelineRows
    rw [List.pairwise_reverse]
    exact dagSort_sorted _
  have hmem := (hshown echo).mpr ⟨hrow, htype⟩
  cases hlist : st.timelineRows room_id none with
  | nil =>
    rw [hlist] at hmem
    cases hmem
  | cons newest older =>
    rw [hlist] at hmem hsorted
    refine ⟨older, ?_⟩
    rcases List.mem_cons.mp hmem with rfl | hbehind
    · rfl
    · have hle := (List.pairwise_cons.mp hsorted).1 echo hbehind
      have hnewest := ((hshown newest).mp (by rw [hlist]; exact List.mem_cons_self)).1
      by_cases hne : newest = echo
      · rw [hne]
      · have hlt := hdeepest newest hnewest hne
        have hposition : newest.position < echo.position := by
          unfold EventRow.position
          rw [Prod.Lex.toLex_lt_toLex]
          exact Or.inl hlt
        exact absurd hle (not_le_of_gt hposition)

end Store

/-- So each first page ends with it. -/
theorem Paired.page_ends {st : Store} (h : Paired st) {room_id : String} {echo : EventRow}
    {older : List EventRow} (hrows : st.timelineRows room_id none = echo :: older) {limit : Nat}
    (hlimit : 1 ≤ limit) : ∃ page ev, st.timeline room_id limit none = .ok page ∧
      page.getLast? = some ev ∧ ev.event_id = echo.event_id ∧ ev.depth = echo.depth := by
  obtain ⟨page, hpage, hcolumns⟩ := h.page room_id limit none
  obtain ⟨n, rfl⟩ : ∃ n, limit = n + 1 := ⟨limit - 1, by omega⟩
  have hrev := List.forall₂_reverse_iff.mpr hcolumns
  unfold Store.pageRows at hrev
  rw [List.reverse_reverse, hrows, List.take_succ_cons] at hrev
  obtain ⟨ev, rest, ⟨ev₀, hev₀, rfl⟩, -, hlist⟩ := List.forall₂_cons_left_iff.mp hrev
  refine ⟨page, Store.asShown echo ev₀, hpage, ?_, hev₀.event_id, hev₀.depth⟩
  rw [List.getLast?_eq_head?_reverse, hlist, List.head?_cons]

/-- The depths of the log are depths of a payload, so each is an `i64`. -/
theorem Paired.depths {st : Store} (h : Paired st) :
    ∀ r ∈ st.events.rows, Json.inI64 r.depth = true := by
  intro r hr
  obtain ⟨ev, hev⟩ := h.columns r.event_id r (Table.mem_rows_iff.mp hr)
  have hdepth := (StoredEvent.from_wire_ok.mp hev.parses).2.2.2.2.2.1
  rw [hev.depth] at hdepth
  unfold Json.as_i64 at hdepth
  split at hdepth
  · split at hdepth
    · next hin =>
      cases hdepth
      exact hin
    · cases hdepth
  · cases hdepth

/-- Whatever the store was told, a send is queued with its echo last in the room just where no
event of the room is at the largest depth and the ids are free. -/
theorem echo_is_last_iff (ms : List Method) (room_id sender body : String) (ts : Int) (n : Nat)
    (now : Millis) :
    QueuedLast (Store.written ms) room_id sender body (next_send_ids ts n) now ↔
      (∀ r ∈ (Store.written ms).events.rows, r.room_id = room_id → r.depth ≠ DEPTH_MAX) ∧
      (Store.written ms).events.find (next_send_ids ts n).event_id = none ∧
      (Store.written ms).pending_sends.find (next_send_ids ts n).txn_id = none := by
  have h := written_paired ms
  generalize Store.written ms = st at h
  generalize next_send_ids ts n = ids
  constructor
  · rintro ⟨st', echo, hok, -⟩
    obtain ⟨⟨depth, hdepth⟩, hfree, hnew⟩ := Store.queue_send_iff.mp ⟨_, _, hok⟩
    refine ⟨?_, hfree, hnew⟩
    intro r hr hroom hmax
    exact Store.nextDepth_full (Store.mem_roomRows.mpr ⟨hr, hroom⟩) hmax depth hdepth
  · rintro ⟨hmax, hfree, hnew⟩
    have hnext := Store.nextDepth_ok h.depths (by
      intro r hr
      obtain ⟨hmem, hroom⟩ := Store.mem_roomRows.mp hr
      exact hmax r hmem hroom)
    obtain ⟨txn_id, st', hok⟩ := Store.queue_send_iff
      |>.mpr ⟨hnext, hfree, hnew⟩
    obtain rfl := (st.queue_send_ok hok).1
    obtain ⟨depth, hdepth, hrows⟩ := Store.roomRows_queue_send hok
    have h' := h.queue_send now.2 hok
    have hecho := (hrows _).mpr (Or.inl rfl)
    have hdeepest : ∀ r ∈ st'.roomRows room_id,
        r ≠ Store.echoRow room_id sender body ids.event_id now depth → r.depth < depth := by
      intro r hr hne
      rcases (hrows r).mp hr with he | hold
      · exact absurd he hne
      · exact Store.nextDepth_above hdepth r hold
    obtain ⟨older, hhead⟩ := Store.timelineRows_head hecho (by simp [Store.echoRow]) hdeepest
    exact ⟨st', _, hok, hecho, rfl, hdeepest, fun limit hlimit => h'.page_ends hhead hlimit⟩

/-- An event of the server at the largest depth that `from_wire` takes. -/
def deepEvent : Json :=
  .obj [("event_id", .str "$deep"), ("room_id", .str "!room"), ("sender", .str "@mallory:pigeon"),
    ("type", .str "p.room.message"), ("origin_server_ts", .num 1),
    ("depth", .num 9223372036854775807),
    ("content", .obj [("msgtype", .str "p.text"), ("body", .str "hi")])]

/-- In its room nothing can be sent any more. -/
theorem a_deep_event_stops_the_queue :
    ¬ ∀ (ms : List Method) (room_id sender body : String) (ts : Int) (n : Nat) (now : Millis),
    (Store.written ms).events.find (next_send_ids ts n).event_id = none →
    (Store.written ms).pending_sends.find (next_send_ids ts n).txn_id = none →
    QueuedLast (Store.written ms) room_id sender body (next_send_ids ts n) now := by
  intro h
  obtain ⟨st', echo, hok, -⟩ := h [.apply_events [deepEvent]] "!room" "@me:pigeon" "hello" 2 0
    ⟨2, by decide⟩ (by decide) (by decide)
  cases hok

end PigeonMobile
