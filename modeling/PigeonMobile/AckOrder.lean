-- An acknowledged send reaches the store twice: as the ack (`resolve_send`) and in a
-- sync response (`apply_events`). Whichever is first, one row is left, but not the same
-- one. The ack first promotes the echo, which stays at the depth the client guessed. The
-- event first keeps the row of the server, at the depth the server gave it.
import PigeonMobile.StoreRuns
import PigeonMobile.OwnMessages

namespace PigeonMobile

/-! ## The two orders -/

def acked_then_synced (st : Store) (txn_id event_id : String) (event : Json) :
    Except StoreError Store := do
  let st ← st.resolve_send txn_id event_id
  let (_, st) ← st.apply_events [event]
  return st

def synced_then_acked (st : Store) (txn_id event_id : String) (event : Json) :
    Except StoreError Store := do
  let (_, st) ← st.apply_events [event]
  st.resolve_send txn_id event_id

/-- What a timeline says of an event: its id, its text, its position and its send state. -/
structure Entry where
  event_id : String
  body : Option String
  cursor : Int
  pending : Bool
  failed : Bool
  deriving DecidableEq

def entryOf (e : TimelineEvent) : Entry := ⟨e.event_id, e.body, e.cursor, e.pending, e.failed⟩

/-- A timeline page, as entries. -/
def page (from_str : String → Option Json) (st : Store) (room_id : String) (limit : Nat)
    (before : Option Int) : Except StoreError (List Entry) :=
  (timeline from_str st room_id limit before).map (·.map entryOf)

/-- The server's event of a queued send: the text in plain, or its ciphertext. -/
structure Bears (p : PendingRow) (ev : StoredEvent) : Prop where
  room_id : ev.room_id = p.room_id
  content : ev.event_type = "p.room.message" ∧
    (ev.content.get "body").bind Json.as_str = some p.body ∨
    ev.event_type = "p.room.encrypted"

/-- Two stores show one timeline of the room, and the event sits where the server put it. -/
structure SameTimeline (from_str : String → Option Json) (p : PendingRow) (ev : StoredEvent)
    (st₁ st₂ : Store) : Prop where
  pages : ∀ limit before, ∃ entries, page from_str st₁ p.room_id limit before = .ok entries ∧
    page from_str st₂ p.room_id limit before = .ok entries
  position : ∀ r, st₁.events.find ev.event_id = some r ∨ st₂.events.find ev.event_id = some r →
    r.depth = ev.depth

/-- The text that a decrypted plaintext is rendered as. -/
def renderedText (from_str : String → Option Json) (plaintext : String) : Option String :=
  match (from_str plaintext).filter isImage with
  | some content => (content.get "body").bind Json.as_str
  | none => some plaintext

/-- The log has the event where the server put it, or the client guessed its depth when
it queued the send, and the ciphertext shows the text that was queued. -/
def InPlace (from_str : String → Option Json) (st : Store) (p : PendingRow) (ev : StoredEvent) :
    Prop :=
  (∃ r, st.events.find ev.event_id = some r ∧ r.depth = ev.depth) ∨
  (st.events.find ev.event_id = none ∧
    (∃ r, st.events.find p.event_id = some r ∧ r.depth = ev.depth) ∧
    (ev.event_type = "p.room.encrypted" → renderedText from_str p.body = some p.body))

/-! ## Pages of stores that differ in one row -/

/-- A change of rows that moves none of them. -/
structure Unmoved (st : Store) (g : EventRow → EventRow) : Prop where
  event_id : ∀ r ∈ st.events.rows, (g r).event_id = r.event_id
  room_id : ∀ r ∈ st.events.rows, (g r).room_id = r.room_id
  depth : ∀ r ∈ st.events.rows, (g r).depth = r.depth
  type : ∀ r ∈ st.events.rows, (g r).type = "p.mls.commit" ↔ r.type = "p.mls.commit"

section Pages

variable {st st' : Store} {g : EventRow → EventRow}

theorem Unmoved.rows_perm (h : Unmoved st g)
    (hfind : ∀ k, st'.events.find k = (st.events.find k).map g) :
    st'.events.rows.Perm (st.events.rows.map g) := by
  have hkeys : (st.events.rows.map g).map EventRow.event_id =
      st.events.rows.map EventRow.event_id := by
    rw [List.map_map]
    exact List.map_congr_left h.event_id
  have hnodup : (st.events.rows.map g).Nodup := by
    apply List.Nodup.of_map EventRow.event_id
    rw [hkeys]
    exact st.events.nodup
  rw [List.perm_ext_iff_of_nodup (List.Nodup.of_map _ st'.events.nodup) hnodup]
  intro r
  rw [Table.mem_rows_iff, hfind, Option.map_eq_some_iff, List.mem_map]
  constructor
  · rintro ⟨r₀, hr₀, rfl⟩
    exact ⟨r₀, (Table.find_some_iff.mp hr₀).1, rfl⟩
  · rintro ⟨r₀, hr₀, rfl⟩
    refine ⟨r₀, ?_, rfl⟩
    rw [h.event_id r₀ hr₀]
    exact Table.mem_rows_iff.mp hr₀

/-- The page of the one store is the page of the other, row by row. -/
theorem Unmoved.timelineRows (h : Unmoved st g)
    (hfind : ∀ k, st'.events.find k = (st.events.find k).map g) (room_id : String)
    (before : Option Int) :
    st'.timelineRows room_id before = (st.timelineRows room_id before).map g := by
  let shown : EventRow → Bool := fun r => decide (r.room_id = room_id ∧
    (∀ d ∈ before, r.depth < d) ∧ r.type ≠ "p.mls.commit")
  have hshown : ∀ r ∈ st.events.rows, (shown ∘ g) r = shown r := by
    intro r hr
    simp only [shown, Function.comp_apply, h.room_id r hr, h.depth r hr, ne_eq, h.type r hr]
  have hperm : (st'.events.rows.filter shown).Perm ((st.events.rows.filter shown).map g) := by
    have hp := (h.rows_perm hfind).filter shown
    rw [List.filter_map, List.filter_congr hshown] at hp
    exact hp
  have hsub : ∀ r ∈ dagSort (st.events.rows.filter shown), r ∈ st.events.rows := by
    intro r hr
    exact (List.mem_filter.mp ((dagSort_perm _).mem_iff.mp hr)).1
  have hsort : dagSort (st'.events.rows.filter shown) =
      (dagSort (st.events.rows.filter shown)).map g := by
    apply dagSort_unique
    · exact st'.events.nodup.sublist (List.filter_sublist.map EventRow.event_id)
    · rw [List.pairwise_map]
      apply (dagSort_sorted _).imp_of_mem
      intro a b ha hb hab
      have hposition : ∀ r ∈ st.events.rows, (g r).position = r.position := by
        intro r hr
        unfold EventRow.position
        rw [h.depth r hr, h.event_id r hr]
      rw [hposition a (hsub a ha), hposition b (hsub b hb)]
      exact hab
    · exact ((dagSort_perm _).map g).trans hperm.symm
  unfold Store.timelineRows
  rw [hsort, List.map_reverse]

/-- The entry of one row. -/
def rowEntry (from_str : String → Option Json) (r : EventRow) : Except StoreError Entry :=
  (Store.parse_stored_payload r).map (fun ev => entryOf (TimelineEvent.of from_str ev))

theorem mapM_map_ok {α β γ ε : Type} (f : α → Except ε β) (g : β → γ) (l : List α) :
    l.mapM (fun a => (f a).map g) = (l.mapM f).map (·.map g) := by
  induction l with
  | nil => rfl
  | cons a rest ih =>
    rw [List.mapM_cons, List.mapM_cons, ih]
    cases f a with
    | error e => rfl
    | ok b => cases rest.mapM f <;> rfl

theorem page_eq (from_str : String → Option Json) (st : Store) (room_id : String) (limit : Nat)
    (before : Option Int) : page from_str st room_id limit before =
      (((st.timelineRows room_id before).take limit).mapM (rowEntry from_str)).map
        List.reverse := by
  unfold page PigeonMobile.timeline Store.timeline rowEntry
  rw [mapM_map_ok]
  cases ((st.timelineRows room_id before).take limit).mapM Store.parse_stored_payload with
  | error e => rfl
  | ok evs =>
    simp only [bind, Except.bind, pure, Except.pure, Except.map, List.map_reverse, List.map_map]
    rfl

/-- Rows with one entry each give one page. -/
theorem Unmoved.page (from_str : String → Option Json) (h : Unmoved st g)
    (hfind : ∀ k, st'.events.find k = (st.events.find k).map g)
    (hentry : ∀ r ∈ st.events.rows, rowEntry from_str (g r) = rowEntry from_str r)
    (room_id : String) (limit : Nat) (before : Option Int) :
    page from_str st' room_id limit before = page from_str st room_id limit before := by
  rw [page_eq, page_eq, h.timelineRows hfind, ← List.map_take, List.mapM_map]
  congr 1
  have hsub : ∀ r ∈ (st.timelineRows room_id before).take limit, r ∈ st.events.rows := by
    intro r hr
    have hr := List.mem_of_mem_take hr
    unfold Store.timelineRows at hr
    rw [List.mem_reverse] at hr
    exact (List.mem_filter.mp ((dagSort_perm _).mem_iff.mp hr)).1
  generalize (st.timelineRows room_id before).take limit = rows at hsub
  induction rows with
  | nil => rfl
  | cons r rest ih =>
    rw [List.mapM_cons, List.mapM_cons, Function.comp_apply, hentry r (hsub r List.mem_cons_self),
      ih (fun r' hr' => hsub r' (List.mem_cons_of_mem _ hr'))]

/-- Two stores differ in the row of one event: it is in one place, and gives one entry. -/
theorem page_swapped (from_str : String → Option Json) {id : String} {r r' : EventRow}
    (hr : st.events.find id = some r) (hr' : st'.events.find id = some r')
    (hother : ∀ k, k ≠ id → st'.events.find k = st.events.find k)
    (hroom : r'.room_id = r.room_id) (hdepth : r'.depth = r.depth)
    (htype : r'.type = "p.mls.commit" ↔ r.type = "p.mls.commit")
    (hentry : rowEntry from_str r' = rowEntry from_str r)
    (room_id : String) (limit : Nat) (before : Option Int) :
    page from_str st' room_id limit before = page from_str st room_id limit before := by
  let swap : EventRow → EventRow := fun a => if a.event_id = id then r' else a
  have hswap : ∀ a ∈ st.events.rows, (a = r ∧ swap a = r') ∨ swap a = a := by
    intro a ha
    by_cases hk : a.event_id = id
    · have hkey := Table.mem_rows_iff.mp ha
      rw [hk, hr] at hkey
      exact Or.inl ⟨(Option.some.inj hkey).symm, if_pos hk⟩
    · exact Or.inr (if_neg hk)
  -- what the two rows share, every row shares with its swap
  have hkeep : ∀ {β : Type} (f : EventRow → β), f r' = f r →
      ∀ a ∈ st.events.rows, f (swap a) = f a := by
    intro β f hf a ha
    rcases hswap a ha with ⟨rfl, hs⟩ | hs
    · rw [hs, hf]
    · rw [hs]
  have hid : r'.event_id = r.event_id := (Table.find_key hr').trans (Table.find_key hr).symm
  have hunmoved : Unmoved st swap := by
    refine ⟨hkeep _ hid, hkeep _ hroom, hkeep _ hdepth, ?_⟩
    intro a ha
    rw [hkeep (fun b => b.type = "p.mls.commit") (propext htype) a ha]
  refine hunmoved.page from_str ?_ (hkeep _ hentry) room_id limit before
  intro k
  by_cases hk : k = id
  · rw [hk, hr, hr']
    exact congrArg some (if_pos (Table.find_key hr)).symm
  · rw [hother k hk]
    cases ha : st.events.find k with
    | none => rfl
    | some a =>
      have hka : ¬ a.event_id = id := by
        rw [Table.find_key ha]
        exact hk
      exact congrArg some (if_neg hka).symm

/-- A store whose rows read back gives a page. -/
theorem page_ok (from_str : String → Option Json) (hrows : ∀ r ∈ st.events.rows, Store.Readable r)
    (room_id : String) (limit : Nat) (before : Option Int) :
    ∃ entries, page from_str st room_id limit before = .ok entries := by
  rw [page_eq]
  obtain ⟨entries, hentries⟩ :
      ∃ entries, ((st.timelineRows room_id before).take limit).mapM (rowEntry from_str) =
        .ok entries := by
    apply mapM_total
    intro r hr
    have hr := List.mem_of_mem_take hr
    unfold Store.timelineRows at hr
    rw [List.mem_reverse] at hr
    have hmem := (List.mem_filter.mp ((dagSort_perm _).mem_iff.mp hr)).1
    obtain ⟨ev, hev, -⟩ := Store.parse_readable (hrows r hmem)
    unfold rowEntry
    rw [hev]
    exact ⟨_, rfl⟩
  rw [hentries]
  exact ⟨_, rfl⟩

end Pages

/-! ## The entry of a confirmed row -/

/-- The text that a row shows. -/
def rowBody (from_str : String → Option Json) (r : EventRow) : Option String :=
  if r.type = "p.room.message" then bodyOf r.payload
  else if r.type = "p.room.encrypted" then r.decrypted.bind (renderedText from_str)
  else none

theorem rowBody_message (from_str : String → Option Json) {r : EventRow}
    (h : r.type = "p.room.message") : rowBody from_str r = bodyOf r.payload := if_pos h

theorem rowBody_encrypted (from_str : String → Option Json) {r : EventRow}
    (h : r.type = "p.room.encrypted") :
    rowBody from_str r = r.decrypted.bind (renderedText from_str) := by
  unfold rowBody
  rw [if_neg (by rw [h]; decide), if_pos h]

theorem rowEntry_confirmed (from_str : String → Option Json) {r : EventRow} {ev : StoredEvent}
    (h : Columns r ev) (hloc : r.local_ = 0) :
    rowEntry from_str r = .ok ⟨r.event_id, rowBody from_str r, r.depth, false, false⟩ := by
  have hparse : Store.parse_stored_payload r = .ok { ev with
      send_state := .Confirmed, decrypted := r.decrypted
      decrypt_failed := decide (r.decrypt_state = DECRYPT_FAILED) } := by
    unfold Store.parse_stored_payload
    rw [h.parses, hloc]
    rfl
  have hbody : (TimelineEvent.of from_str { ev with
      send_state := .Confirmed, decrypted := r.decrypted
      decrypt_failed := decide (r.decrypt_state = DECRYPT_FAILED) }).body = rowBody from_str r := by
    have hcontent := bodyOf_parses h.parses
    unfold rowBody TimelineEvent.of decrypted_image
    simp only [h.type, hcontent]
    by_cases hmsg : r.type = "p.room.message"
    · rw [if_pos hmsg, if_pos hmsg]
    · rw [if_neg hmsg, if_neg hmsg]
      by_cases henc : r.type = "p.room.encrypted"
      · rw [if_pos henc, if_pos henc, if_pos henc]
        cases r.decrypted with
        | none => rfl
        | some plaintext => rfl
      · rw [if_neg henc, if_neg henc]
  unfold rowEntry
  rw [hparse]
  simp only [Except.map, entryOf, hbody]
  congr 2
  · exact h.event_id
  · exact h.depth

/-! ## What each order leaves -/

/-- The row of the event after the ack and then the delivery. -/
def ackedRow (st : Store) (p : PendingRow) (ev : StoredEvent) : Option EventRow :=
  match st.events.find ev.event_id with
  | some r => some (Store.carryPlaintext p.body r)
  | none => (st.events.find p.event_id).map (Store.promote ev.event_id)

/-- The row of the event after the delivery and then the ack. -/
def syncedRow (st : Store) (p : PendingRow) (ev : StoredEvent) : EventRow :=
  Store.carryPlaintext p.body ((st.events.find ev.event_id).getD (Store.rowOf ev))

/-- The log after an ack and a delivery: `row` under the id of the event, and no echo. -/
def Settles (st : Store) (p : PendingRow) (ev : StoredEvent) (row : Option EventRow)
    (st' : Store) : Prop :=
  ∀ k, st'.events.find k =
    if k = ev.event_id then row else if k = p.event_id then none else st.events.find k

section Orders

variable {S : Server} {st : Store} {t : String} {p : PendingRow} {e : Json} {ev : StoredEvent}

/-- One event is delivered. -/
theorem apply_one (h : Sound st) (hsends : S.sends e) (hev : StoredEvent.from_wire e = .ok ev) :
    ∃ n st', st.apply_events [e] = .ok (n, st') ∧ Sound st' ∧
      st'.pending_sends = st.pending_sends ∧ ∀ k, st'.events.find k =
        if k = ev.event_id then some ((st.events.find k).getD (Store.rowOf ev))
        else st.events.find k := by
  have hok := st.apply_events_parsed (List.Forall₂.cons hev List.Forall₂.nil)
  have hbatch : ∀ j ∈ [e], S.sends j := by
    intro j hj
    rw [List.mem_singleton.mp hj]
    exact hsends
  refine ⟨(st.apply_parsed [ev]).1, (st.apply_parsed [ev]).2, hok, h.apply_events hbatch hok,
    st.apply_parsed_pending_sends [ev], ?_⟩
  · intro k
    rw [st.find_apply_parsed]
    by_cases hk : k = ev.event_id
    · rw [if_pos hk, hk]
      cases st.events.find ev.event_id <;> simp
    · rw [if_neg hk]
      cases st.events.find k <;> simp [Ne.symm hk]

theorem acked_then_synced_ok (h : Sound st) (hsends : S.sends e)
    (hev : StoredEvent.from_wire e = .ok ev) (hp : st.pending_sends.find t = some p) :
    ∃ st', acked_then_synced st t ev.event_id e = .ok st' ∧ Sound st' ∧
      Settles st p ev (ackedRow st p ev) st' := by
  have hremote := S.sends_remote e ev hsends hev
  obtain ⟨hlocal, r₀, hr₀, -⟩ := h.echoes t p hp
  have hne : p.event_id ≠ ev.event_id := by
    intro he
    exact hremote (he ▸ hlocal)
  -- the ack leaves a row under the id of the event, so the delivery adds none
  obtain ⟨st₁, hack, hfind⟩ : ∃ st₁, st.resolve_send t ev.event_id = .ok st₁ ∧
      Settles st p ev (ackedRow st p ev) st₁ := by
    unfold Settles ackedRow
    cases hrow : st.events.find ev.event_id with
    | some r =>
      obtain ⟨st₁, hack, -, -, hfind⟩ :=
        st.resolve_send_raced hp (h.unreferenced hp) (by rw [hrow]; rfl)
      refine ⟨st₁, hack, ?_⟩
      intro k
      rw [hfind]
      by_cases hk : k = ev.event_id
      · rw [if_pos hk, if_neg (by rw [hk]; exact Ne.symm hne), hk, hrow]
        simp
      · rw [if_neg hk]
        cases st.events.find k <;> simp [hk]
    | none =>
      obtain ⟨st₁, hack, -, -, hfind⟩ := st.resolve_send_promotes hp (h.unreferenced hp) hrow hne
      exact ⟨st₁, hack, hfind⟩
  have hsound := h.resolve_send hremote hack
  obtain ⟨n, st₂, hsync, hsound₂, -, hfind₂⟩ := apply_one hsound hsends hev
  refine ⟨st₂, ?_, hsound₂, ?_⟩
  · unfold acked_then_synced
    rw [hack]
    simp only [bind, Except.bind, hsync]
    rfl
  · intro k
    rw [hfind₂, hfind]
    by_cases hk : k = ev.event_id
    · rw [if_pos hk, if_pos hk]
      unfold ackedRow
      cases st.events.find ev.event_id with
      | some r => rfl
      | none => simp [hr₀]
    · rw [if_neg hk, if_neg hk]

theorem synced_then_acked_ok (h : Sound st) (hsends : S.sends e)
    (hev : StoredEvent.from_wire e = .ok ev) (hp : st.pending_sends.find t = some p) :
    ∃ st', synced_then_acked st t ev.event_id e = .ok st' ∧ Sound st' ∧
      Settles st p ev (some (syncedRow st p ev)) st' := by
  have hremote := S.sends_remote e ev hsends hev
  have hne : p.event_id ≠ ev.event_id := by
    intro he
    exact hremote (he ▸ (h.echoes t p hp).1)
  obtain ⟨n, st₁, hsync, hsound, hpending, hfind⟩ := apply_one h hsends hev
  have hp₁ : st₁.pending_sends.find t = some p := by rw [hpending]; exact hp
  have hrow : st₁.events.find ev.event_id =
      some ((st.events.find ev.event_id).getD (Store.rowOf ev)) := by
    rw [hfind, if_pos rfl]
  obtain ⟨st₂, hack, -, -, hfind₂⟩ :=
    st₁.resolve_send_raced hp₁ (hsound.unreferenced hp₁) (by rw [hrow]; rfl)
  refine ⟨st₂, ?_, hsound.resolve_send hremote hack, ?_⟩
  · unfold synced_then_acked
    simp only [bind, Except.bind, hsync]
    exact hack
  · intro k
    rw [hfind₂]
    by_cases hk : k = ev.event_id
    · rw [if_pos hk, if_neg (by rw [hk]; exact Ne.symm hne), hk, hrow]
      simp [syncedRow]
    · rw [if_neg hk, hfind, if_neg hk]
      cases st.events.find k <;> simp [hk]

end Orders

/-! ## When the orders agree -/

/-- A page long enough has one entry for a confirmed row. -/
theorem page_one (from_str : String → Option Json) {st : Store} (h : Sound st) {r : EventRow}
    (hr : st.events.find r.event_id = some r) (hloc : r.local_ = 0)
    (htype : r.type ≠ "p.mls.commit")
    {limit : Nat} (hlimit : st.events.rows.length ≤ limit) {entries : List Entry}
    (hpage : page from_str st r.room_id limit none = .ok entries) :
    entries.filter (fun x => decide (x.event_id = r.event_id)) =
      [⟨r.event_id, rowBody from_str r, r.depth, false, false⟩] := by
  have hmem : r ∈ st.events.rows := Table.mem_rows_iff.mpr hr
  obtain ⟨shown, ev, hshown, hone, hev⟩ :=
    st.timeline_one hlimit (fun r' hr' => h.readable hr') hmem
    rfl htype (p := fun id => decide (id = r.event_id)) (decide_eq_true rfl) (by
      intro r' hr' hid
      have hkey := Table.mem_rows_iff.mp hr'
      rw [of_decide_eq_true hid, hr] at hkey
      exact (Option.some.inj hkey).symm)
  obtain ⟨ev₀, hcolumns⟩ := h.columns _ r hr
  have hentry := rowEntry_confirmed from_str hcolumns hloc
  unfold rowEntry at hentry
  rw [hev] at hentry
  have hentry : entryOf (TimelineEvent.of from_str ev) = _ := Except.ok.inj hentry
  have hentries : entries = shown.map (fun ev => entryOf (TimelineEvent.of from_str ev)) := by
    unfold page PigeonMobile.timeline at hpage
    rw [hshown] at hpage
    simp only [bind, Except.bind, pure, Except.pure, Except.map, Except.ok.injEq, List.map_map]
      at hpage
    exact hpage.symm
  rw [hentries, List.filter_map, ← hentry]
  exact congrArg (List.map _) hone

section Agree

variable {S : Server} {st : Store} {t : String} {p : PendingRow} {e : Json} {ev : StoredEvent}

theorem carryPlaintext_depth (body : String) (r : EventRow) :
    (Store.carryPlaintext body r).depth = r.depth := by
  unfold Store.carryPlaintext
  split <;> rfl

/-- The echo shows the queued text under its new id. -/
theorem promoted_body (from_str : String → Option Json) {r : EventRow} (h : EchoOf p r)
    (hcolumns : ∃ ev, Columns r ev) (id : String) :
    rowBody from_str (Store.promote id r) = some p.body := by
  obtain ⟨ev₀, hev₀⟩ := hcolumns
  have htype : (Store.promote id r).type = "p.room.message" := h.type
  rw [rowBody_message from_str htype, bodyOf_promoted hev₀, h.body]

/-- The row of the server shows the queued text too, where it renders as itself. -/
theorem synced_body (from_str : String → Option Json) (hev : StoredEvent.from_wire e = .ok ev)
    (hb : Bears p ev) :
    rowBody from_str (Store.carryPlaintext p.body (Store.rowOf ev)) = some p.body ↔
      (ev.event_type = "p.room.encrypted" → renderedText from_str p.body = some p.body) := by
  rcases hb.content with ⟨hmsg, hbody⟩ | henc
  · have hne : ev.event_type ≠ "p.room.encrypted" := by
      rw [hmsg]
      decide
    have hrow : Store.carryPlaintext p.body (Store.rowOf ev) = Store.rowOf ev := if_neg hne
    have htype : (Store.rowOf ev).type = "p.room.message" := hmsg
    have hshown : rowBody from_str (Store.rowOf ev) = some p.body := by
      rw [rowBody_message from_str htype, ← hbody]
      exact bodyOf_parses (columns_rowOf hev).parses
    rw [hrow, hshown]
    simp [hne]
  · have hrow : (Store.carryPlaintext p.body (Store.rowOf ev)).type = "p.room.encrypted" ∧
        (Store.carryPlaintext p.body (Store.rowOf ev)).decrypted = some p.body := by
      unfold Store.carryPlaintext
      rw [if_pos (show (Store.rowOf ev).type = "p.room.encrypted" from henc)]
      exact ⟨henc, rfl⟩
    rw [rowBody_encrypted from_str hrow.1, hrow.2, Option.bind_some]
    simp [henc]

/-- Where the log has the event, both orders leave the same log. -/
theorem known_event_agrees (from_str : String → Option Json) {st₁ st₂ : Store} {r : EventRow}
    (hr : st.events.find ev.event_id = some r) (h₁ : Settles st p ev (ackedRow st p ev) st₁)
    (h₂ : Settles st p ev (some (syncedRow st p ev)) st₂) (hsound : Sound st₁) :
    SameTimeline from_str p ev st₁ st₂ ↔ r.depth = ev.depth := by
  have hacked : ackedRow st p ev = some (Store.carryPlaintext p.body r) := by
    unfold ackedRow
    rw [hr]
  have hsynced : syncedRow st p ev = Store.carryPlaintext p.body r := by
    unfold syncedRow
    rw [hr]
    rfl
  rw [hacked] at h₁
  rw [hsynced] at h₂
  constructor
  · intro h
    rw [← h.position (Store.carryPlaintext p.body r) (Or.inl (by rw [h₁, if_pos rfl])),
      carryPlaintext_depth]
  · intro hdepth
    have hsame : ∀ k, st₂.events.find k = (st₁.events.find k).map id := by
      intro k
      rw [h₁, h₂, Option.map_id, id]
    have hunmoved : Unmoved st₁ id :=
      ⟨fun _ _ => rfl, fun _ _ => rfl, fun _ _ => rfl, fun _ _ => Iff.rfl⟩
    refine ⟨?_, ?_⟩
    · intro limit before
      obtain ⟨entries, hentries⟩ :=
        page_ok from_str (fun _ hr => hsound.readable hr) p.room_id limit before
      refine ⟨entries, hentries, ?_⟩
      rw [hunmoved.page from_str hsame (fun _ _ => rfl)]
      exact hentries
    · intro r' hr'
      rw [h₁, h₂, if_pos rfl, or_self] at hr'
      rw [← Option.some.inj hr', carryPlaintext_depth, hdepth]

/-- Where it does not, the echo must be where the server puts the event. -/
theorem new_event_agrees (from_str : String → Option Json) {st₁ st₂ : Store} {r : EventRow}
    (hev : StoredEvent.from_wire e = .ok ev) (hb : Bears p ev)
    (hnew : st.events.find ev.event_id = none) (hr : st.events.find p.event_id = some r)
    (hcolumns : ∃ ev, Columns r ev) (hecho : EchoOf p r)
    (h₁ : Settles st p ev (ackedRow st p ev) st₁)
    (h₂ : Settles st p ev (some (syncedRow st p ev)) st₂) (hs₁ : Sound st₁) (hs₂ : Sound st₂) :
    SameTimeline from_str p ev st₁ st₂ ↔ r.depth = ev.depth ∧
      (ev.event_type = "p.room.encrypted" → renderedText from_str p.body = some p.body) := by
  let promoted := Store.promote ev.event_id r
  let stored := Store.carryPlaintext p.body (Store.rowOf ev)
  have hacked : ackedRow st p ev = some promoted := by
    unfold ackedRow
    rw [hnew, hr]
    rfl
  have hsynced : syncedRow st p ev = stored := by
    unfold syncedRow
    rw [hnew]
    rfl
  rw [hacked] at h₁
  rw [hsynced] at h₂
  have hstored : stored.event_id = ev.event_id ∧ stored.room_id = p.room_id ∧
      stored.depth = ev.depth ∧ stored.type = ev.event_type ∧ stored.local_ = 0 := by
    have hsame : stored.event_id = ev.event_id ∧ stored.room_id = ev.room_id ∧
        stored.depth = ev.depth ∧ stored.type = ev.event_type ∧ stored.local_ = 0 := by
      unfold stored Store.carryPlaintext
      split <;> exact ⟨rfl, rfl, rfl, rfl, rfl⟩
    rw [← hb.room_id]
    exact hsame
  obtain ⟨hid, hroom, hdepth, htype, hloc⟩ := hstored
  have hnocommit : ev.event_type ≠ "p.mls.commit" := by
    rcases hb.content with ⟨hmsg, -⟩ | henc
    · rw [hmsg]
      decide
    · rw [henc]
      decide
  have hcommit : promoted.type ≠ "p.mls.commit" := by
    rw [show promoted.type = "p.room.message" from hecho.type]
    decide
  have hfind₁ : st₁.events.find ev.event_id = some promoted := by rw [h₁, if_pos rfl]
  have hfind₂ : st₂.events.find ev.event_id = some stored := by rw [h₂, if_pos rfl]
  have hbody := promoted_body from_str hecho hcolumns ev.event_id
  rw [← synced_body from_str hev hb]
  constructor
  · intro h
    obtain ⟨entries, hpage₁, hpage₂⟩ :=
      h.pages (max st₁.events.rows.length st₂.events.rows.length) none
    have hone₁ := page_one from_str hs₁ (r := promoted) hfind₁ rfl hcommit (le_max_left _ _)
      (by rw [show promoted.room_id = p.room_id from hecho.room_id]; exact hpage₁)
    have hone₂ := page_one from_str hs₂ (r := stored) (by rw [hid]; exact hfind₂) hloc
      (by rw [htype]; exact hnocommit) (le_max_right _ _) (by rw [hroom]; exact hpage₂)
    rw [hid] at hone₂
    have hentry := List.head_eq_of_cons_eq (hone₁.symm.trans hone₂)
    refine ⟨?_, ?_⟩
    · have hcursor : promoted.depth = stored.depth := congrArg Entry.cursor hentry
      rw [hdepth] at hcursor
      exact hcursor
    · rw [← hbody]
      exact (congrArg Entry.body hentry).symm
  · rintro ⟨hplace, hshown⟩
    have hother : ∀ k, k ≠ ev.event_id → st₂.events.find k = st₁.events.find k := by
      intro k hk
      rw [h₂, h₁, if_neg hk, if_neg hk]
    have hentry : rowEntry from_str stored = rowEntry from_str promoted := by
      obtain ⟨ev₁, hev₁⟩ := hs₁.columns _ _ hfind₁
      obtain ⟨ev₂, hev₂⟩ := hs₂.columns _ _ hfind₂
      rw [rowEntry_confirmed from_str hev₁ rfl, rowEntry_confirmed from_str hev₂ hloc, hbody,
        hshown, hid, hdepth, ← hplace]
      rfl
    refine ⟨?_, ?_⟩
    · intro limit before
      obtain ⟨entries, hentries⟩ :=
        page_ok from_str (fun _ hr => hs₁.readable hr) p.room_id limit before
      refine ⟨entries, hentries, ?_⟩
      rw [page_swapped from_str hfind₁ hfind₂ hother (hroom.trans hecho.room_id.symm)
        (hdepth.trans hplace.symm)
        ⟨fun hc => absurd (htype.symm.trans hc) hnocommit, fun hc => absurd hc hcommit⟩ hentry]
      exact hentries
    · rintro r' (hr' | hr')
      · rw [hfind₁] at hr'
        rw [← Option.some.inj hr']
        exact hplace
      · rw [hfind₂] at hr'
        rw [← Option.some.inj hr']
        exact hdepth

end Agree

/-- The ack and the delivery of a send lead to one timeline, with the event where the
server put it, just where the event is in place already, or the client guessed its depth. -/
theorem ack_and_sync_agree_iff (S : Server) (from_str : String → Option Json) {st : Store}
    (hst : st.Reachable S) {p : PendingRow} (hp : p ∈ st.pending_sends.rows) {e : Json}
    {ev : StoredEvent} (hsends : S.sends e) (hev : StoredEvent.from_wire e = .ok ev)
    (hb : Bears p ev) :
    ∃ st₁ st₂, acked_then_synced st p.txn_id ev.event_id e = .ok st₁ ∧
      synced_then_acked st p.txn_id ev.event_id e = .ok st₂ ∧
      (SameTimeline from_str p ev st₁ st₂ ↔ InPlace from_str st p ev) := by
  have hsound := hst.sound
  have hp := Table.mem_rows_iff.mp hp
  obtain ⟨st₁, h₁, hs₁, hset₁⟩ := acked_then_synced_ok hsound hsends hev hp
  obtain ⟨st₂, h₂, hs₂, hset₂⟩ := synced_then_acked_ok hsound hsends hev hp
  obtain ⟨-, r, hr, hecho⟩ := hsound.echoes _ _ hp
  refine ⟨st₁, st₂, h₁, h₂, ?_⟩
  unfold InPlace
  cases hrow : st.events.find ev.event_id with
  | some r₀ =>
    rw [known_event_agrees from_str hrow hset₁ hset₂ hs₁]
    simp
  | none =>
    rw [new_event_agrees from_str hev hb hrow hr (hsound.columns _ r hr) hecho hset₁ hset₂ hs₁ hs₂,
      hr]
    simp

/-! ## A message of someone else in between -/

/-- A text in `!room`, as its server sends it. -/
def roomText (event_id sender : String) (depth : Int) (body : String) : Json :=
  .obj [("event_id", .str event_id), ("room_id", .str "!room"), ("sender", .str sender),
    ("type", .str "p.room.message"), ("origin_server_ts", .num 8), ("depth", .num depth),
    ("content", textContent body)]

/-- The answer of Bob was at depth 2 before the server took the message of Ann. -/
def roomServer : Server where
  sends j := j = roomText "$yes" "@bob:pigeon.example" 2 "hello" ∨
    j = roomText "$hi" "@ann:pigeon.example" 3 "hi"
  acks id := id = "$hi"
  sends_remote := by
    intro j ev hj hev
    rcases hj with rfl | rfl
    · exact parsed_not_local hev rfl (by decide)
    · exact parsed_not_local hev rfl (by decide)
  acks_remote := by
    rintro id rfl
    exact not_local (by decide)

/-- The store that a method leaves, or the one before it where the method fails. -/
def storeAfter (st : Store) : Except StoreError Store → Store
  | .ok st' => st'
  | .error _ => st

def hiQueued : Store :=
  storeAfter Store.init ((Store.init.queue_send "!room" "@ann:pigeon.example" "hi"
    (next_send_ids 7 0) 7).map Prod.snd)

/-- Ann queued her message, and then the answer of Bob came in. -/
def answeredStore : Store :=
  storeAfter hiQueued ((hiQueued.apply_events [roomText "$yes" "@bob:pigeon.example" 2 "hello"]).map
    Prod.snd)

theorem answeredStore_reachable : answeredStore.Reachable roomServer := by
  have hqueue : StoreStep roomServer Store.init hiQueued :=
    @StoreStep.queue_send roomServer Store.init hiQueued "!room" "@ann:pigeon.example" "hi" "m7-0"
      7 7 0 rfl rfl
  have hbatch : ∀ j ∈ [roomText "$yes" "@bob:pigeon.example" 2 "hello"], roomServer.sends j := by
    intro j hj
    exact Or.inl (List.mem_singleton.mp hj)
  have happly : StoreStep roomServer hiQueued answeredStore :=
    @StoreStep.apply_events roomServer hiQueued answeredStore _ 1 hbatch rfl
  exact (Relation.ReflTransGen.single hqueue).tail happly

def hiPending : PendingRow := ⟨"m7-0", "!room", "hi", "$local-7-0", 7⟩

def hiSent : StoredEvent :=
  { event_id := "$hi", room_id := "!room", sender := "@ann:pigeon.example"
    event_type := "p.room.message", state_key := none, origin_server_ts := 8, depth := 3
    content := textContent "hi", payload := roomText "$hi" "@ann:pigeon.example" 3 "hi"
    send_state := .Confirmed, decrypted := none, decrypt_failed := false }

theorem hi_bears : Bears hiPending hiSent := ⟨rfl, Or.inl ⟨rfl, rfl⟩⟩

theorem ack_and_sync_agree_iff_hi :
    ∃ st₁ st₂, acked_then_synced answeredStore "m7-0" "$hi"
      (roomText "$hi" "@ann:pigeon.example" 3 "hi") =
        .ok st₁ ∧
      synced_then_acked answeredStore "m7-0" "$hi" (roomText "$hi" "@ann:pigeon.example" 3 "hi") =
        .ok st₂ ∧
      (SameTimeline (fun _ => none) hiPending hiSent st₁ st₂ ↔
        InPlace (fun _ => none) answeredStore hiPending hiSent) :=
  ack_and_sync_agree_iff roomServer (fun _ => none) answeredStore_reachable
    (List.mem_singleton_self hiPending) (Or.inr rfl) rfl hi_bears

/-- The ack first shows the message before the answer, the delivery first after it. -/
theorem the_ack_keeps_the_guessed_depth : ¬ ∀ (S : Server) (from_str : String → Option Json)
    (st : Store), st.Reachable S → ∀ p ∈ st.pending_sends.rows, ∀ e ev, S.sends e →
    StoredEvent.from_wire e = .ok ev → Bears p ev →
    ∃ st₁ st₂, acked_then_synced st p.txn_id ev.event_id e = .ok st₁ ∧
      synced_then_acked st p.txn_id ev.event_id e = .ok st₂ ∧
      SameTimeline from_str p ev st₁ st₂ := by
  intro h
  obtain ⟨st₁, st₂, h₁, h₂, hsame⟩ := h roomServer (fun _ => none) answeredStore
    answeredStore_reachable hiPending (List.mem_singleton_self hiPending)
    (roomText "$hi" "@ann:pigeon.example" 3 "hi") hiSent (Or.inr rfl) rfl hi_bears
  obtain ⟨entries, hpage₁, hpage₂⟩ := hsame.pages 10 none
  have hshown₁ : page (fun _ => none) st₁ "!room" 10 none =
      .ok [⟨"$hi", some "hi", 1, false, false⟩, ⟨"$yes", some "hello", 2, false, false⟩] := by
    cases h₁
    rfl
  have hshown₂ : page (fun _ => none) st₂ "!room" 10 none =
      .ok [⟨"$yes", some "hello", 2, false, false⟩, ⟨"$hi", some "hi", 3, false, false⟩] := by
    cases h₂
    rfl
  have hboth := (hshown₁.symm.trans hpage₁).trans (hpage₂.symm.trans hshown₂)
  have hentries := Except.ok.inj hboth
  exact absurd hentries (by decide)

end PigeonMobile
