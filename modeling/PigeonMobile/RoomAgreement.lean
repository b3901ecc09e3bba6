-- Two phones of one server, each with its own runs. Where each has synced past the state events of
-- a room that the other has in its log, they agree on the room.
import PigeonMobile.SyncDelivery

namespace PigeonMobile

section Stores

variable {S : Server} {st other : Store} {room_id : String}

/-- Each state event of the room that the other log has, this one has too. -/
def Knows (S : Server) (st other : Store) (room_id : String) : Prop :=
  ∀ j ev, S.sends j → StoredEvent.from_wire j = .ok ev → ev.room_id = room_id →
    ev.state_key ≠ none → (∃ r, other.events.find ev.event_id = some r) → InLog st j

/-- The event that the folded row of a key refers to, as the server sent it. -/
structure Refers (S : Server) (st : Store) (key : String × String × String) (s : StateRow)
    (j : Json) (ev : StoredEvent) : Prop where
  sent : S.sends j
  parses : StoredEvent.from_wire j = .ok ev
  room_id : ev.room_id = key.1
  type : ev.event_type = key.2.1
  state_key : ev.state_key = some key.2.2
  depth : ev.depth = s.depth
  logged : ∃ r, st.events.find ev.event_id = some r
  read : st.current_state key.1 key.2.1 key.2.2 = .ok (some ev)

theorem Store.Reachable.refers (h : st.Reachable S) (hash : S.Hashed)
    {key : String × String × String} {s : StateRow} (hcur : st.room_state.find key = some s) :
    ∃ j ev, Refers S st key s j ev := by
  have hfolded := h.folded hash
  obtain ⟨r, hr, hdepth, hdeep⟩ := hfolded.deepest_row hcur
  obtain ⟨ev, hev⟩ := h.sound.columns _ r hr
  obtain ⟨hroom, htype, hkey⟩ := EventRow.stateKey_some.mp hdeep.sets
  refine ⟨r.payload, ev, ?_, hev.parses, hev.room_id.trans hroom, hev.type.trans htype,
    hev.state_key.trans hkey, hev.depth.trans hdepth, ⟨r, ?_⟩, ?_⟩
  · rcases hfolded.logged _ r hr with hsent | ⟨hnone, -⟩
    · exact hsent
    · rw [hkey] at hnone
      cases hnone
  · rw [hev.event_id, Table.find_key hr]
    exact hr
  · unfold Store.current_state
    simp only [hcur, Option.bind_some, hr, hev.parses]
    rfl

/-- What the other has folded is folded here, or something at least as deep. -/
theorem Knows.over (hknows : Knows S st other room_id) (h : st.Reachable S) (hash : S.Hashed)
    {type key : String} {s : StateRow} {j : Json} {ev : StoredEvent}
    (href : Refers S other (room_id, type, key) s j ev) :
    ∃ s', st.room_state.find (room_id, type, key) = some s' ∧ s.depth ≤ s'.depth := by
  have hstate : ev.state_key ≠ none := by
    rw [href.state_key]
    exact Option.some_ne_none key
  have hlogged := hknows j ev href.sent href.parses href.room_id hstate href.logged
  obtain ⟨s', hs', hle⟩ := h.folded_over hash href.sent href.parses href.state_key hlogged
  rw [href.room_id, href.type] at hs'
  rw [href.depth] at hle
  exact ⟨s', hs', hle⟩

theorem Knows.encrypted (hknows : Knows S st other room_id) (h : st.Reachable S)
    (h' : other.Reachable S) (hash : S.Hashed) (hother : other.is_room_encrypted room_id = true) :
    st.is_room_encrypted room_id = true := by
  obtain ⟨key, s, hs⟩ := is_room_encrypted_iff.mp hother
  obtain ⟨j, ev, href⟩ := h'.refers hash hs
  obtain ⟨s', hs', -⟩ := hknows.over h hash href
  exact is_room_encrypted_iff.mpr ⟨key, s', hs'⟩

/-- The two have read the same current event, or two of one depth. -/
def Agree (found found' : Option StoredEvent) : Prop :=
  found = found' ∨ ∃ ev ev', found = some ev ∧ found' = some ev' ∧ ev.event_id ≠ ev'.event_id ∧
    ev.depth = ev'.depth

theorem Knows.agree (hknows : Knows S st other room_id) (hknown : Knows S other st room_id)
    (h : st.Reachable S) (h' : other.Reachable S) (hash : S.Hashed) (type key : String) :
    ∃ found found', st.current_state room_id type key = .ok found ∧
      other.current_state room_id type key = .ok found' ∧ Agree found found' := by
  have hnothing : ∀ st : Store, st.room_state.find (room_id, type, key) = none →
      st.current_state room_id type key = .ok none := by
    intro st hnone
    unfold Store.current_state
    rw [hnone]
    rfl
  cases hs : st.room_state.find (room_id, type, key) with
  | none =>
    cases hs' : other.room_state.find (room_id, type, key) with
    | none => exact ⟨none, none, hnothing st hs, hnothing other hs', Or.inl rfl⟩
    | some s' =>
      obtain ⟨j, ev, href⟩ := h'.refers hash hs'
      obtain ⟨s, hsome, -⟩ := hknows.over h hash href
      rw [hs] at hsome
      cases hsome
  | some s =>
    obtain ⟨j, ev, href⟩ := h.refers hash hs
    obtain ⟨s', hs', hle⟩ := hknown.over h' hash href
    obtain ⟨j', ev', href'⟩ := h'.refers hash hs'
    obtain ⟨s₂, hs₂, hle'⟩ := hknows.over h hash href'
    obtain rfl : s = s₂ := Option.some.inj (hs.symm.trans hs₂)
    refine ⟨some ev, some ev', href.read, href'.read, ?_⟩
    by_cases hid : ev.event_id = ev'.event_id
    · left
      obtain rfl := hash.same j j' ev ev' href.sent href'.sent href.parses href'.parses hid
      rw [Except.ok.inj (href.parses.symm.trans href'.parses)]
    · right
      refine ⟨ev, ev', rfl, rfl, hid, ?_⟩
      rw [href.depth, href'.depth]
      exact le_antisymm hle hle'

end Stores

/-! ## The phones -/

/-- The token covers each state event of the room that the other log has. -/
def SyncedPast {S : Server} (F : SyncFeed S) (st other : Store) (room_id : String) : Prop :=
  ∀ j ev, S.sends j → StoredEvent.from_wire j = .ok ev → ev.room_id = room_id →
    ev.state_key ≠ none → (∃ r, other.events.find ev.event_id = some r) →
      CoveredBy F st.sync_token j

section Phones

variable {S : Server} {D D' : Type} {X : PigeonCrypto D} {X' : PigeonCrypto D'}
  {F F' : SyncFeed S} {c : Client D} {c' : Client D'} {p : Pool Nat (Client D) Op Op.Res}
  {p' : Pool Nat (Client D') Op Op.Res}

theorem SyncedPast.knows {room_id : String} {other : Store}
    (h : SyncedPast F p.state.store other room_id)
    (hc : c.store = Store.init) (hr : (device X F).Reaches (Threaded.idle c) p) :
    Knows S p.state.store other room_id := by
  intro j ev hsent hev hroom hstate hlogged
  exact (delivered X F hc hr).2.logged j (h j ev hsent hev hroom hstate hlogged)

/-- Two phones that have each synced past the state events of a room that the other has agree on it:
on whether it is encrypted, and on the current event of each type and key, or they hold two of
the same depth. However their loops, sends, backfills and passes interleaved, and wherever they were
killed. -/
theorem synced_phones_agree (hash : S.Hashed) (hc : c.store = Store.init)
    (hc' : c'.store = Store.init) (hr : (device X F).Reaches (Threaded.idle c) p)
    (hr' : (device X' F').Reaches (Threaded.idle c') p') {room_id : String}
    (hpast : SyncedPast F p.state.store p'.state.store room_id)
    (hpast' : SyncedPast F' p'.state.store p.state.store room_id) :
    p.state.store.is_room_encrypted room_id = p'.state.store.is_room_encrypted room_id ∧
      ∀ type key, ∃ found found', p.state.store.current_state room_id type key = .ok found ∧
        p'.state.store.current_state room_id type key = .ok found' ∧ Agree found found' := by
  have hreach := (delivered X F hc hr).1
  have hreach' := (delivered X' F' hc' hr').1
  have hknows := hpast.knows hc hr
  have hknows' := hpast'.knows hc' hr'
  refine ⟨?_, hknows.agree hknows' hreach hreach' hash⟩
  rw [Bool.eq_iff_iff]
  exact ⟨hknows'.encrypted hreach' hreach hash, hknows.encrypted hreach hreach' hash⟩

end Phones

/-- Two phones after a first sync of each: they agree on the name. -/
theorem synced_phones_agree_name : ∃ st st' : Store, st.sync_token = some "t1" ∧
    st'.sync_token = some "t1" ∧ ∃ found found',
      st.current_state "!room" "p.room.name" "" = .ok found ∧
        st'.current_state "!room" "p.room.name" "" = .ok found' ∧ Agree found found' := by
  obtain ⟨p, hp, htoken⟩ := first_sync
  obtain ⟨p', hp', htoken'⟩ := first_sync
  have hpast : SyncedPast markedFeed p.state.store p'.state.store "!room" :=
    fun j _ hsent _ _ _ _ => ⟨"t1", htoken, rfl, hsent⟩
  have hpast' : SyncedPast markedFeed p'.state.store p.state.store "!room" :=
    fun j _ hsent _ _ _ _ => ⟨"t1", htoken', rfl, hsent⟩
  obtain ⟨-, hagree⟩ := synced_phones_agree markingServer_hashed rfl rfl hp hp' hpast hpast'
  exact ⟨p.state.store, p'.state.store, htoken, htoken', hagree "p.room.name" ""⟩

end PigeonMobile
