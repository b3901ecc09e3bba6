-- The stream of inbound MLS events (`Store::pending_mls`) on content of any shape. What SQLite
-- reads of a JSON value is text for a string, but also for an array or an object, and no text
-- at all for a boolean or a number, which fails the whole read.
import PigeonMobile.MlsPass
import PigeonMobile.Sync
import PigeonMobile.StoreMethods

namespace PigeonMobile

/-! ## What SQLite reads of a JSON value -/

/-- The text that a column of type `Option<String>` gives for a JSON value, where it gives any. -/
def Json.sqlText : Json → Option (Option String)
  | .null => some none
  | .str s => some (some s)
  | .arr items => some (some (Json.to_string (.arr items)))
  | .obj fields => some (some (Json.to_string (.obj fields)))
  | .bool _ => none
  | .num _ => none
  | .float _ => none

/-- An array or an object. -/
def Json.compound : Json → Bool
  | .arr _ => true
  | .obj _ => true
  | _ => false

/-- A field of the content of a stored event. -/
def EventRow.contentField (r : EventRow) (key : String) : Option Json :=
  (r.payload.get "content").bind (·.get key)

/-- The text that is read of it. -/
def EventRow.contentText (r : EventRow) (key : String) : Option (Option String) :=
  (r.contentField key).elim (some none) Json.sqlText

theorem extract_content (r : EventRow) (key : String) :
    (json_extract r.payload ["content", key]).getOptionString = r.contentText key := by
  have hfold : ["content", key].foldl (fun v k => v.bind (·.get k)) (some r.payload) =
      r.contentField key := rfl
  unfold json_extract EventRow.contentText
  rw [hfold]
  cases r.contentField key with
  | none => rfl
  | some j =>
    cases j with
    | num n => by_cases hn : Json.inI64 n <;> simp [hn, Json.sqlText, SqlValue.getOptionString]
    | null | bool | float | str | arr | obj => rfl

/-- A value gives its own text, or none at all, just where it is a string, null or missing. -/
theorem text_of_string {field : Option Json}
    (htext : ∃ t, field.elim (some none) Json.sqlText = some t)
    (hflat : ∀ j, field = some j → j.compound = false) :
    field.elim (some none) Json.sqlText = some (field.bind Json.as_str) := by
  obtain ⟨t, ht⟩ := htext
  cases field with
  | none => rfl
  | some j =>
    have hflat := hflat j rfl
    cases j with
    | null | str => rfl
    | arr | obj => cases hflat
    | bool | num | float => cases ht

/-- An array or an object is read as a text that it is not. -/
theorem text_of_compound {j : Json} (h : j.compound = true) :
    ∃ s, j.sqlText = some (some s) ∧ j.as_str = none := by
  cases j with
  | arr items => exact ⟨_, rfl, rfl⟩
  | obj fields => exact ⟨_, rfl, rfl⟩
  | null | bool | num | float | str => cases h

/-! ## What the stream should be -/

/-- The key of the content that an MLS event is read by. -/
def EventRow.mlsKey (r : EventRow) : String :=
  if r.type = "p.room.encrypted" then "ciphertext" else "commit"

/-- The entry of an event whose content has a string under its key. -/
def EventRow.wanted (r : EventRow) : Option PendingMls :=
  ((r.contentField r.mlsKey).bind Json.as_str).map (fun text =>
    if r.type = "p.room.encrypted" then .Message ⟨r.event_id, r.room_id, r.sender, text⟩
    else .Commit ⟨r.event_id, r.room_id, r.sender, text⟩)

/-- The stream has the events that wait and have a string under their key, in DAG order. Where
nothing else fails, the pass that reads it ends well, and so does the cycle of the sync loop
whose response leads to the store. -/
structure StreamExact {D : Type} (X : PigeonCrypto D) (st : Store) : Prop where
  stream : st.pending_mls =
    .ok ((dagSort (st.events.rows.filter (fun r => decide (Store.Waiting r)))).filterMap
      EventRow.wanted)
  pass : ∀ (c : Client D) (d : D), c.store = st → c.e2ee = some d →
    ∃ b, (process_inbound_mls.run (Client.local_ X) c).1 = .ok b
  cycle : ∀ (c : Client D) (d : D) (resp : Json) (n : Nat),
    c.store.apply_events (syncEvents resp) = .ok (n, st) → c.e2ee = some d →
    ∃ backoff, ((sync_success resp).run (Client.local_ X) c).1 = .ok backoff

/-- The content of an event is of a shape that the read is made for: neither of the two fields
is a boolean or a number, and its own is no array and no object. -/
structure WellTyped (r : EventRow) : Prop where
  ciphertext : ∃ t, r.contentText "ciphertext" = some t
  commit : ∃ t, r.contentText "commit" = some t
  own : ∀ j, r.contentField r.mlsKey = some j → j.compound = false

section

variable {r : EventRow}

theorem mlsKey_cases (r : EventRow) : r.mlsKey = "ciphertext" ∨ r.mlsKey = "commit" := by
  unfold EventRow.mlsKey
  split
  · exact Or.inl rfl
  · exact Or.inr rfl

theorem wanted_id {item : PendingMls} (h : r.wanted = some item) : item.event_id = r.event_id := by
  unfold EventRow.wanted at h
  obtain ⟨text, -, rfl⟩ := Option.map_eq_some_iff.mp h
  split <;> rfl

/-- A row that is read gives the entry of the text under its key. -/
theorem pendingOf_text (hw : Store.Waiting r) {t u own : Option String}
    (hct : r.contentText "ciphertext" = some t) (hcm : r.contentText "commit" = some u)
    (hown : r.contentText r.mlsKey = some own) : Store.pendingOf r = .ok (own.map (fun text =>
      if r.type = "p.room.encrypted" then .Message ⟨r.event_id, r.room_id, r.sender, text⟩
      else .Commit ⟨r.event_id, r.room_id, r.sender, text⟩)) := by
  unfold Store.pendingOf
  rw [extract_content, extract_content, hct, hcm]
  unfold EventRow.mlsKey at hown
  by_cases htype : r.type = "p.room.encrypted"
  · rw [if_pos htype, hct] at hown
    cases hown
    simp [htype]
  · rw [if_neg htype, hcm] at hown
    cases hown
    have hcommit := hw.1.resolve_left htype
    simp [hcommit]

/-- A row that is read has text under both keys. -/
theorem texts_of_pending {o : Option PendingMls} (h : Store.pendingOf r = .ok o) :
    (∃ t, r.contentText "ciphertext" = some t) ∧ ∃ t, r.contentText "commit" = some t := by
  unfold Store.pendingOf at h
  rw [extract_content, extract_content] at h
  split at h
  · next t u ht hu => exact ⟨⟨t, ht⟩, u, hu⟩
  · cases h

theorem WellTyped.pending (h : WellTyped r) (hw : Store.Waiting r) :
    Store.pendingOf r = .ok r.wanted := by
  obtain ⟨t, ht⟩ := h.ciphertext
  obtain ⟨u, hu⟩ := h.commit
  have hreads : ∃ t, r.contentText r.mlsKey = some t := by
    rcases mlsKey_cases r with hkey | hkey <;> rw [hkey]
    · exact ⟨t, ht⟩
    · exact ⟨u, hu⟩
  exact pendingOf_text hw ht hu (text_of_string hreads h.own)

end

/-! ## A cycle where nothing fails -/

section Cycle

variable {D : Type} (X : PigeonCrypto D)

/-- With the network down a flush stops at the first message it sends. -/
theorem run_flush_one (send : PendingSend) (c : Client D) :
    ∃ flushed, ((flush_one send).run (Client.local_ X) c).1 = .ok flushed := by
  unfold flush_one
  rw [Prog.run_bind]
  rcases ((encrypt_for_send send.room_id send.body).run (Client.local_ X) c).1 with e | _ |
    ciphertext
  · exact ⟨.settled, rfl⟩
  · simp only
    generalize ((encrypt_for_send send.room_id send.body).run (Client.local_ X) c).2 = c'
    have hread : Client.local_ X (.is_room_encrypted send.room_id) c' =
        (.ok (c'.store.is_room_encrypted send.room_id), c') := rfl
    rw [Prog.run_call, hread]
    cases c'.store.is_room_encrypted send.room_id with
    | true => exact ⟨.held, rfl⟩
    | false => exact ⟨.stop, rfl⟩
  · exact ⟨.stop, rfl⟩

theorem run_flush_sends (sends : List PendingSend) (changed : Bool) (c : Client D) :
    ∃ b, ((flush_sends sends changed).run (Client.local_ X) c).1 = .ok b := by
  induction sends generalizing changed c with
  | nil => exact ⟨changed, rfl⟩
  | cons send rest ih =>
    obtain ⟨flushed, hone⟩ := run_flush_one X send c
    unfold flush_sends Prog.andThen
    rw [Prog.run_bind, hone]
    cases flushed with
    | held => exact ih changed _
    | stop => exact ⟨changed, rfl⟩
    | settled => exact ih true _

theorem run_flush_pending (c : Client D) :
    ∃ b, (flush_pending.run (Client.local_ X) c).1 = .ok b := by
  obtain ⟨b, hsends⟩ := run_flush_sends X c.store.pending_sends_list false c
  have hlock : Client.local_ X .lock_send c = ((), c) := rfl
  have hread : Client.local_ X .pending_sends c = (.ok c.store.pending_sends_list, c) := rfl
  refine ⟨b, ?_⟩
  unfold flush_pending
  rw [Prog.run_call, hlock]
  simp only
  rw [Prog.run_call, hread]
  simp only
  rw [Prog.run_bind, hsends]
  rfl

/-- What the Welcomes of a response do to the client: they leave the tables alone, and the
session keeps its engine. -/
theorem run_of_welcomes {α : Type} {p : Code α} (hp : p.All (fun op => op.ofWelcomes = true))
    (c : Client D) : (p.run (Client.local_ X) c).2.store = c.store ∧
      ((p.run (Client.local_ X) c).2.e2ee.isSome = c.e2ee.isSome) := by
  induction p generalizing c with
  | done a => exact ⟨rfl, rfl⟩
  | call op k ih =>
    rw [Prog.run_call]
    obtain ⟨hstore, hengine⟩ := ih _ (hp.2 _) (Client.local_ X op c).2
    have hcall : (Client.local_ X op c).2.store = c.store ∧
        (Client.local_ X op c).2.e2ee.isSome = c.e2ee.isSome := by
      have hkept : ∀ {β : Type} (f : D → Option KeyMap → Except CoreError β × D × Option KeyMap),
          (c.onEngine f).2.store = c.store ∧ (c.onEngine f).2.e2ee.isSome = c.e2ee.isSome := by
        intro β f
        unfold Client.onEngine
        split
        · exact ⟨rfl, rfl⟩
        · next hd => exact ⟨rfl, by rw [hd]; rfl⟩
      cases op with
      | e2ee => exact ⟨rfl, rfl⟩
      | has_group room_id => exact hkept _
      | join_from_welcome welcome_b64 => exact hkept _
      | _ => cases hp.1
    exact ⟨hstore.trans hcall.1, hengine.trans hcall.2⟩

/-- A cycle ends well where its response is applied and the stream is read. -/
theorem run_sync_success {c : Client D} {d : D} {resp : Json} {n : Nat} {st : Store}
    {items : List PendingMls} (happly : c.store.apply_events (syncEvents resp) = .ok (n, st))
    (he : c.e2ee = some d) (hp : st.pending_mls = .ok items) :
    ∃ backoff, ((sync_success resp).run (Client.local_ X) c).1 = .ok backoff := by
  have happlied : (apply_sync resp).run (Client.local_ X) c =
      (.ok (decide (n > 0)), { c with store := st }) := by
    have hcall : Client.local_ X (.apply_events (syncEvents resp)) c =
        (.ok n, { c with store := st }) := by
      simp only [Client.local_, Client.perform, Client.calm, Client.onStore, happly]
    unfold apply_sync
    rw [Prog.run_call, hcall]
    rfl
  unfold sync_success
  rw [Prog.run_andThen_ok happlied, Prog.run_bind]
  obtain ⟨hstore, hengine⟩ := run_of_welcomes X (apply_to_device_calls resp) { c with store := st }
  generalize ((apply_to_device resp).run (Client.local_ X) { c with store := st }).1 = joined
  generalize ((apply_to_device resp).run (Client.local_ X) { c with store := st }).2 = c₁
    at hstore hengine
  obtain ⟨c₂, htoken, hpending, he₂⟩ : ∃ c₂, (persist_sync_token resp).run (Client.local_ X) c₁ =
      (.ok (), c₂) ∧ c₂.store.pending_mls = .ok items ∧ c₂.e2ee = c₁.e2ee := by
    unfold persist_sync_token
    cases (resp.index "next_batch").as_str with
    | none =>
      refine ⟨c₁, rfl, ?_, rfl⟩
      rw [hstore]
      exact hp
    | some next =>
      refine ⟨{ c₁ with store := c₁.store.save_sync_token next }, rfl, ?_, rfl⟩
      rw [hstore]
      exact hp
  obtain ⟨d₂, hd₂⟩ : ∃ d₂, c₂.e2ee = some d₂ := by
    rw [he₂]
    apply Option.isSome_iff_exists.mp
    rw [hengine, he]
    rfl
  obtain ⟨b, hpass⟩ := run_read_pass X hd₂ hpending
  rw [Prog.run_andThen_ok htoken, Prog.run_andThen_ok hpass]
  generalize c₂.digestAll X items = c₃
  obtain ⟨flushed, hflush⟩ := run_flush_pending X c₃
  have hnotify : ∀ changed (c : Client D), ((notify changed).run (Client.local_ X) c).1 =
      .ok BACKOFF_START := by
    intro changed c
    cases changed <;> rfl
  refine ⟨BACKOFF_START, ?_⟩
  unfold Prog.andThen
  rw [Prog.run_bind, hflush]
  exact hnotify _ _

end Cycle

/-- The stream is exact, and neither the pass nor the sync loop fails on it, if and only if no
event that waits has a boolean or a number as its `ciphertext` or `commit`, or an array or an
object under the key it is read by. -/
theorem pending_stream_is_exact_iff {D : Type} (X : PigeonCrypto D) (st : Store) :
    StreamExact X st ↔ ∀ r ∈ st.events.rows, Store.Waiting r → WellTyped r := by
  constructor
  · intro h r hr hw
    obtain ⟨found, hfound, hitems⟩ := Store.pending_mls_ok.mp h.stream
    rw [← Store.pendingRows_eq] at hitems
    obtain ⟨o, ho, hpending⟩ := mem_of_forall₂ hfound.flip (Store.mem_pendingRows.mpr ⟨hr, hw⟩)
    have hpending : Store.pendingOf r = .ok o := hpending
    obtain ⟨⟨t, ht⟩, u, hu⟩ := texts_of_pending hpending
    refine ⟨⟨t, ht⟩, ⟨u, hu⟩, ?_⟩
    intro j hj
    by_contra hcompound
    rw [Bool.not_eq_false] at hcompound
    obtain ⟨s, hs, hnot⟩ := text_of_compound hcompound
    -- its entry is in the stream, where only a string under its key would put it
    have hown : r.contentText r.mlsKey = some (some s) := by
      unfold EventRow.contentText
      rw [hj]
      exact hs
    rw [pendingOf_text hw ht hu hown] at hpending
    obtain ⟨item, hitem⟩ : ∃ item, o = some item := ⟨_, (Except.ok.inj hpending).symm⟩
    have hmem : item ∈ st.pendingRows.filterMap EventRow.wanted := by
      rw [← hitems, List.mem_filterMap]
      exact ⟨o, ho, hitem⟩
    obtain ⟨r', hr', hwanted⟩ := List.mem_filterMap.mp hmem
    have hid : item.event_id = r.event_id := by
      rw [hitem] at hpending
      exact Store.pendingOf_id (pendingOf_text hw ht hu hown |>.trans hpending)
    have hsame : r' = r := List.inj_on_of_nodup_map st.events.nodup
      (Store.mem_pendingRows.mp hr').1 hr ((wanted_id hwanted).symm.trans hid)
    rw [hsame] at hwanted
    unfold EventRow.wanted at hwanted
    rw [hj, Option.bind_some, hnot] at hwanted
    cases hwanted
  · intro h
    have hfound : Store.ReadRows st.pendingRows (st.pendingRows.map EventRow.wanted) := by
      unfold Store.ReadRows
      rw [List.forall₂_map_right_iff, List.forall₂_same]
      intro r hr
      obtain ⟨hmem, hw⟩ := Store.mem_pendingRows.mp hr
      exact (h r hmem hw).pending hw
    have hstream : st.pending_mls = .ok (st.pendingRows.filterMap EventRow.wanted) := by
      refine Store.pending_mls_ok.mpr ⟨_, hfound, ?_⟩
      rw [List.filterMap_map, Function.id_comp]
    refine ⟨hstream, ?_, ?_⟩
    · intro c d hc hd
      rw [← hc] at hstream
      obtain ⟨b, hrun⟩ := run_read_pass X hd hstream
      exact ⟨b, by rw [hrun]⟩
    · intro c d resp n happly hd
      exact run_sync_success X happly hd hstream

/-! ## A number for a ciphertext -/

/-- An encrypted event whose ciphertext is the number 5. -/
def numberEvent : Json :=
  .obj [("event_id", .str "$five"), ("room_id", .str "!room"),
    ("sender", .str "@bob:pigeon.example"),
    ("type", .str "p.room.encrypted"), ("origin_server_ts", .num 7), ("depth", .num 5),
    ("content", .obj [("algorithm", .str "p.mls.1"), ("ciphertext", .num 5)])]

/-- The stream cannot be read while the event waits. -/
theorem a_number_blocks_the_stream : ¬ ∀ ms : List Method, (Store.written ms).pending_mls =
    .ok ((dagSort ((Store.written ms).events.rows.filter
      (fun r => decide (Store.Waiting r)))).filterMap EventRow.wanted) := by
  intro h
  have hread := h [.apply_events [numberEvent]]
  cases hread

end PigeonMobile
