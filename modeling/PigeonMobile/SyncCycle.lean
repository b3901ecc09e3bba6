-- One sync that brings whole histories: the events of any number of groups come mixed, in any
-- order, with the Welcomes to them. The pass after it walks each group from the epoch that its
-- Welcome gave to the last one.
import PigeonMobile.DeliveryOrder
import PigeonMobile.EpochAgreement
import PigeonMobile.WelcomeGroups

namespace PigeonMobile

variable {D : Type} {X : PigeonCrypto D}

/-! ## Histories -/

/-- The events of a group from the epoch `first` to `last`, and the Welcome that adds the device
at the epoch `joins`. -/
structure GroupHistory where
  room : String
  first : Nat
  joins : Nat
  last : Nat
  welcome : WelcomeEvent
  events : List StoredEvent

/-- What a pass reads in an event. -/
def ReadsAs (ev : StoredEvent) (item : PendingMls) : Prop :=
  Store.pendingOf (Store.rowOf ev) = .ok (some item)

/-- A commit that ends the epoch. -/
def IsCommit (M : EpochModel X) (e : Nat) (ev : StoredEvent) : Prop :=
  ∃ m, ReadsAs ev (.Commit m) ∧ M.commitEpoch m.room_id m.commit_b64 = some e

/-- A message of the epoch. -/
def IsMessage (M : EpochModel X) (e : Nat) (ev : StoredEvent) : Prop :=
  ∃ m, ReadsAs ev (.Message m) ∧ M.messageEpoch m.room_id m.ciphertext_b64 = some e

/-- Commits and messages of other users, of depths that respect the history. -/
structure WellFormed (M : EpochModel X) (self_user : String) (h : GroupHistory) : Prop where
  begins : h.first ≤ h.joins
  ends : h.joins ≤ h.last
  wire : ∀ ev ∈ h.events, StoredEvent.from_wire ev.payload = .ok ev
  here : ∀ ev ∈ h.events, ev.room_id = h.room
  others : ∀ ev ∈ h.events, ev.sender ≠ self_user
  kinds : ∀ ev ∈ h.events, ∃ e, h.first ≤ e ∧
    ((e < h.last ∧ IsCommit M e ev) ∨ (e ≤ h.last ∧ IsMessage M e ev))
  commits : ∀ e, h.first ≤ e → e < h.last → ∃ ev ∈ h.events, IsCommit M e ev
  deeper : ∀ e, ∀ a ∈ h.events, ∀ b ∈ h.events, IsCommit M e a → IsCommit M (e + 1) b →
    a.depth < b.depth
  created : ∀ e, ∀ a ∈ h.events, ∀ b ∈ h.events, IsCommit M e a → IsMessage M (e + 1) b →
    a.depth < b.depth
  ended : ∀ e, ∀ a ∈ h.events, ∀ b ∈ h.events, IsMessage M e a → IsCommit M e b →
    a.depth < b.depth
  welcomed : Installs M h.room h.welcome.welcome_b64 h.joins
  declared : h.welcome.room_id = none ∨ h.welcome.room_id = some h.room

/-- An event that comes with the histories, and that no pass takes in their rooms. -/
structure Alongside (hs : List GroupHistory) (ev : StoredEvent) : Prop where
  wire : StoredEvent.from_wire ev.payload = .ok ev
  read : ∃ o, Store.pendingOf (Store.rowOf ev) = .ok o
  elsewhere : ∀ item, ReadsAs ev item → ∀ h ∈ hs, item.room_id ≠ h.room

/-- One response with all of them: the events in any order, and the Welcomes in any order. -/
structure Brings (resp : Json) (hs : List GroupHistory) : Prop where
  rooms : (hs.map GroupHistory.room).Nodup
  events : ∃ others batch : List StoredEvent, (∀ ev ∈ others, Alongside hs ev) ∧
    batch.Perm (others ++ hs.flatMap GroupHistory.events) ∧
    (batch.map StoredEvent.event_id).Nodup ∧ syncEvents resp = batch.map StoredEvent.payload
  welcomes : ∃ order : List GroupHistory, order.Perm hs ∧
    syncWelcomes resp = order.map GroupHistory.welcome

/-- A device that is in none of the groups, and has processed none of their events. -/
structure Outside (M : EpochModel X) (c : Client D) (hs : List GroupHistory) : Prop where
  engine : ∃ d, c.e2ee = some d ∧ ∀ h ∈ hs, M.epoch d h.room = none
  untouched : ∀ h ∈ hs, ∀ ev ∈ h.events, c.store.events.find ev.event_id = none ∨
    c.store.events.find ev.event_id = some (Store.rowOf ev)
  waiting : ∃ items, c.store.pending_mls = .ok items ∧ ∀ item ∈ items, ∀ h ∈ hs,
    item.room_id = h.room → ∃ ev ∈ h.events, ReadsAs ev item

/-- The sync, without what it does for the UI and the queue. -/
def sync_cycle (resp : Json) : Code (Except CoreError Bool) :=
  (apply_sync resp).andThen fun _ => (apply_to_device resp).bind fun _ => process_inbound_mls

/-- The copy is at the last epoch, every message is read or marked as its epoch says, and none of
the events waits. -/
structure Decrypted (M : EpochModel X) (h : GroupHistory) (c : Client D) : Prop where
  epoch : c.epochOf M.epoch h.room = some h.last
  read : ∀ ev ∈ h.events, ∀ m e, ReadsAs ev (.Message m) →
    M.messageEpoch m.room_id m.ciphertext_b64 = some e → h.joins ≤ e →
    c.store.outcome ev.event_id = some (some (M.plaintext m.room_id m.ciphertext_b64), false)
  failed : ∀ ev ∈ h.events, ∀ e, IsMessage M e ev → e < h.joins →
    c.store.outcome ev.event_id = some (none, true)
  pending : ∃ items, c.store.pending_mls = .ok items ∧ ∀ item ∈ items, item.room_id ≠ h.room

/-! ## The pass, seen from one group -/

/-- A pass over any events walks the group through its own, whatever the others are. -/
structure RoomWalked (M : EpochModel X) (room : String) (e : Nat) (c : Client D)
    (walked : List PendingMls) (c' : Client D) : Prop where
  engine : ∃ d', c'.e2ee = some d' ∧ M.epoch d' room = some (M.nextAll c.session.user_id e walked)
  rows : ∀ item ∈ walked, c'.store.events.find item.event_id =
    (c.store.events.find item.event_id).map
      (markRow (M.fate c.session.user_id e walked item.event_id))

/-- An event that is not of the group, or is held back, leaves the copy and the other rows. -/
theorem digest_beside (M : EpochModel X) {room : String} {c : Client D} {d : D}
    (h : c.e2ee = some d) {item : PendingMls}
    (hbeside : ¬ LiveIn room c.session.user_id c.store.has_pending_send item) :
    ∃ d', (c.digest X item).e2ee = some d' ∧ M.epoch d' room = M.epoch d room ∧
      ∀ k, k ≠ item.event_id →
        (c.digest X item).store.events.find k = c.store.events.find k := by
  by_cases hwait : c.verdict X item = .wait
  · rw [Client.digest_wait X hwait]
    exact ⟨d, h, rfl, fun _ _ => rfl⟩
  · rw [wait_iff M h, not_or, not_not] at hwait
    obtain ⟨hheld, hlive⟩ := hwait
    obtain ⟨e, he⟩ := Option.ne_none_iff_exists'.mp hheld
    obtain ⟨d', hd', hmove, hstore⟩ := digest_live M h he hlive
    have hroom : room ≠ item.room_id := fun heq => hbeside ⟨heq.symm, hlive⟩
    refine ⟨d', hd', ?_, ?_⟩
    · rw [hmove, if_neg hroom]
    · intro k hk
      rw [hstore, Mark.find_write]
      simp [hk]

theorem room_walk (M : EpochModel X) (room : String) {c : Client D} {d : D} (h : c.e2ee = some d)
    {e : Nat} (he : M.epoch d room = some e) (items : List PendingMls)
    (hnodup : (items.map PendingMls.event_id).Nodup) :
    RoomWalked M room e c (items.filter (fun item =>
      decide (LiveIn room c.session.user_id c.store.has_pending_send item)))
        (c.digestAll X items) := by
  induction items generalizing c d e with
  | nil =>
    refine ⟨⟨d, h, he⟩, ?_⟩
    intro item hitem
    cases hitem
  | cons item rest ih =>
    rw [List.map_cons, List.nodup_cons] at hnodup
    have hsession : (c.digest X item).session = c.session := Client.take_session X c _ _
    have hqueue : (c.digest X item).store.pending_sends = c.store.pending_sends :=
      Client.take_queue X c _ _
    have hqueued := has_pending_send_congr hqueue
    have hrun : c.digestAll X (item :: rest) = (c.digest X item).digestAll X rest := rfl
    have hlater : ∀ x ∈ rest.filter (fun x =>
        decide (LiveIn room c.session.user_id c.store.has_pending_send x)),
        x.event_id ≠ item.event_id := by
      intro x hx heq
      exact hnodup.1 (heq ▸ List.mem_map_of_mem (List.mem_filter.mp hx).1)
    by_cases hlive : LiveIn room c.session.user_id c.store.has_pending_send item
    · obtain ⟨hroom, hl⟩ := hlive
      obtain ⟨d', hd', hmove, hstore⟩ := digest_live M h (hroom.symm ▸ he) hl
      have he' : M.epoch d' room = some (M.next c.session.user_id e item) := by
        rw [hmove, if_pos hroom.symm]
      have hwalk := ih hd' he' hnodup.2
      rw [hsession, hqueued] at hwalk
      rw [List.filter_cons, if_pos (decide_eq_true ⟨hroom, hl⟩), hrun]
      refine ⟨hsession ▸ hwalk.engine, ?_⟩
      intro x hx
      rcases List.mem_cons.mp hx with rfl | hx
      · rw [digestAll_find X (c.digest X x) hnodup.1, hstore, Mark.find_write, M.fate_cons,
          if_pos rfl]
        simp only [if_true]
        rfl
      · have hne := hlater x hx
        have hsame : (c.digest X item).store.events.find x.event_id =
            c.store.events.find x.event_id := by
          rw [hstore, Mark.find_write]
          simp [hne]
        rw [hwalk.rows x hx, hsame, hsession, M.fate_cons, if_neg hne.symm]
    · obtain ⟨d', hd', he', hrows⟩ := digest_beside M h hlive
      have hwalk := ih hd' (he'.trans he) hnodup.2
      rw [hsession, hqueued] at hwalk
      rw [List.filter_cons, if_neg (by simp [hlive]), hrun]
      refine ⟨hsession ▸ hwalk.engine, ?_⟩
      intro x hx
      rw [hwalk.rows x hx, hrows _ (hlater x hx), hsession]

/-- What waits after a pass waited before it. -/
theorem pending_digestAll {c : Client D} {waiting : List PendingMls}
    (h : c.store.pending_mls = .ok waiting) (items : List PendingMls) :
    ∃ rest, (c.digestAll X items).store.pending_mls = .ok rest ∧ ∀ item ∈ rest, item ∈ waiting := by
  induction items generalizing c waiting with
  | nil => exact ⟨waiting, h, fun _ hitem => hitem⟩
  | cons item items ih =>
    have hone : ∃ rest, (c.digest X item).store.pending_mls = .ok rest ∧
        ∀ x ∈ rest, x ∈ waiting := by
      unfold Client.digest
      cases c.verdict X item with
      | wait => exact ⟨waiting, h, fun _ hx => hx⟩
      | take moved mark =>
        exact ⟨_, Store.pending_mls_write h mark item.event_id, fun x hx =>
          (List.mem_filter.mp hx).1⟩
    obtain ⟨mid, hmid, hsub⟩ := hone
    obtain ⟨rest, hrest, hsub'⟩ := ih hmid
    exact ⟨rest, hrest, fun x hx => hsub x (hsub' x hx)⟩

/-! ## The Welcomes -/

/-- A Welcome that the engine takes, declared for its room or for none. -/
theorem run_welcome {c : Client D} {d d' : D} (h : c.e2ee = some d) {room : String}
    {w : WelcomeEvent} (hdeclared : w.room_id = none ∨ w.room_id = some room)
    (hg : X.load_group d room = false) (hx : X.join_from_welcome d w.welcome_b64 = .ok d') :
    ((apply_welcome w).run (Client.local_ X) c).2 = c.hold X d' := by
  obtain ⟨welcome, room_id⟩ := w
  rcases hdeclared with hnone | hsome
  · obtain rfl : room_id = none := hnone
    obtain ⟨api, session, store, e2ee, ks⟩ := c
    obtain rfl : e2ee = some d := h
    have hput := Client.local_put X ⟨api, session, store, some d, ks⟩ d'
    simp only at hput hx
    unfold apply_welcome join_group
    rw [Prog.run_call]
    simp only [Client.local_, Client.perform, Client.calm, Client.onEngine, E2ee.join_from_welcome,
      E2ee.mutate, hx, Except.map, hput]
    rfl
  · obtain rfl : room_id = some room := hsome
    exact run_apply_welcome h hg hx

/-- A device after Welcomes: the copies that they gave, and nothing else has changed. -/
structure Joined (M : EpochModel X) (c : Client D) (d : D) (hs : List GroupHistory)
    (c' : Client D) : Prop where
  session : c'.session = c.session
  store : c'.store = c.store
  engine : ∃ d', c'.e2ee = some d' ∧ (∀ h ∈ hs, M.epoch d' h.room = some h.joins) ∧
    ∀ r, (∀ h ∈ hs, r ≠ h.room) → M.epoch d' r = M.epoch d r

theorem run_welcomes (M : EpochModel X) {hs : List GroupHistory} {c : Client D} {d : D}
    (hd : c.e2ee = some d) (hrooms : (hs.map GroupHistory.room).Nodup)
    (houtside : ∀ h ∈ hs, M.epoch d h.room = none)
    (hwelcomed : ∀ h ∈ hs, Installs M h.room h.welcome.welcome_b64 h.joins)
    (hdeclared : ∀ h ∈ hs, h.welcome.room_id = none ∨ h.welcome.room_id = some h.room)
    (joined : Bool) : Joined M c d hs
      ((apply_welcomes (hs.map GroupHistory.welcome) joined).run (Client.local_ X) c).2 := by
  induction hs generalizing c d joined with
  | nil =>
    refine ⟨rfl, rfl, d, hd, ?_, fun _ _ => rfl⟩
    intro h hmem
    cases hmem
  | cons h hs ih =>
    obtain ⟨hfresh, hrooms⟩ := List.nodup_cons.mp hrooms
    have hnone := houtside h List.mem_cons_self
    obtain ⟨d', hx, hmove⟩ := hwelcomed h List.mem_cons_self d hnone
    have hg : X.load_group d h.room = false := by
      rw [M.load_group, hnone]
      rfl
    have hrun := run_welcome hd (hdeclared h List.mem_cons_self) hg hx
    have hother : ∀ h' ∈ hs, h'.room ≠ h.room := fun h' hmem heq =>
      hfresh (heq ▸ List.mem_map_of_mem hmem)
    have hstill : ∀ h' ∈ hs, M.epoch d' h'.room = none := by
      intro h' hmem
      rw [hmove, if_neg (hother h' hmem)]
      exact houtside h' (List.mem_cons_of_mem _ hmem)
    have hrest := ih (Client.hold_e2ee X c d') hrooms hstill
      (fun h' hmem => hwelcomed h' (List.mem_cons_of_mem _ hmem))
      (fun h' hmem => hdeclared h' (List.mem_cons_of_mem _ hmem))
      (joined || ((apply_welcome h.welcome).run (Client.local_ X) c).1)
    have hrunAll : ((apply_welcomes ((h :: hs).map GroupHistory.welcome) joined).run
        (Client.local_ X) c).2 =
        ((apply_welcomes (hs.map GroupHistory.welcome)
          (joined || ((apply_welcome h.welcome).run (Client.local_ X) c).1)).run
          (Client.local_ X) (c.hold X d')).2 := by
      rw [List.map_cons, apply_welcomes, Prog.run_bind, hrun]
    rw [hrunAll]
    obtain ⟨d'', hd'', hjoins, hrooms'⟩ := hrest.engine
    refine ⟨hrest.session, hrest.store, d'', hd'', ?_, ?_⟩
    · intro h' hmem
      rcases List.mem_cons.mp hmem with rfl | hmem
      · rw [hrooms' _ (fun x hx => (hother x hx).symm), hmove, if_pos rfl]
      · exact hjoins h' hmem
    · intro r hr
      rw [hrooms' r (fun x hx => hr x (List.mem_cons_of_mem _ hx)), hmove,
        if_neg (hr h List.mem_cons_self)]

/-- The Welcomes of a response. -/
theorem run_to_device (M : EpochModel X) {resp : Json} {hs order : List GroupHistory}
    {c : Client D} {d : D} (hd : c.e2ee = some d)
    (hwelcomes : syncWelcomes resp = order.map GroupHistory.welcome) (horder : order.Perm hs)
    (hrooms : (hs.map GroupHistory.room).Nodup)
    (houtside : ∀ h ∈ hs, M.epoch d h.room = none)
    (hwelcomed : ∀ h ∈ hs, Installs M h.room h.welcome.welcome_b64 h.joins)
    (hdeclared : ∀ h ∈ hs, h.welcome.room_id = none ∨ h.welcome.room_id = some h.room) :
    Joined M c d hs ((apply_to_device resp).run (Client.local_ X) c).2 := by
  have hmem : ∀ h, h ∈ order ↔ h ∈ hs := fun h => horder.mem_iff
  have hrun : Joined M c d order ((apply_to_device resp).run (Client.local_ X) c).2 := by
    unfold apply_to_device
    unfold syncWelcomes at hwelcomes
    cases hevents : ((resp.index "to_device").index "events").as_array with
    | none =>
      rw [hevents] at hwelcomes
      obtain rfl : order = [] := List.map_eq_nil_iff.mp hwelcomes.symm
      exact ⟨rfl, rfl, d, hd, fun h hh => absurd hh List.not_mem_nil, fun _ _ => rfl⟩
    | some events =>
      rw [hevents] at hwelcomes
      simp only
      rw [Prog.run_call, Client.local_e2ee X hd]
      simp only
      have hlist : events.filterMap welcomeOf = order.map GroupHistory.welcome := hwelcomes
      rw [hlist]
      exact run_welcomes M hd ((horder.map _).nodup_iff.mpr hrooms)
        (fun h hh => houtside h ((hmem h).mp hh)) (fun h hh => hwelcomed h ((hmem h).mp hh))
        (fun h hh => hdeclared h ((hmem h).mp hh)) false
  obtain ⟨d', hd', hjoins, hothers⟩ := hrun.engine
  exact ⟨hrun.session, hrun.store, d', hd', fun h hh => hjoins h ((hmem h).mpr hh),
    fun r hr => hothers r (fun h hh => hr h ((hmem h).mp hh))⟩

/-! ## The order of a history -/

theorem ReadsAs.unique {ev : StoredEvent} {item item' : PendingMls} (h : ReadsAs ev item)
    (h' : ReadsAs ev item') : item = item' :=
  Option.some.inj (Except.ok.inj (h.symm.trans h'))

theorem IsCommit.unique {M : EpochModel X} {e e' : Nat} {ev : StoredEvent} (h : IsCommit M e ev)
    (h' : IsCommit M e' ev) : e = e' := by
  obtain ⟨m, hm, he⟩ := h
  obtain ⟨m', hm', he'⟩ := h'
  cases hm.unique hm'
  exact Option.some.inj (he.symm.trans he')

theorem IsMessage.unique {M : EpochModel X} {e e' : Nat} {ev : StoredEvent} (h : IsMessage M e ev)
    (h' : IsMessage M e' ev) : e = e' := by
  obtain ⟨m, hm, he⟩ := h
  obtain ⟨m', hm', he'⟩ := h'
  cases hm.unique hm'
  exact Option.some.inj (he.symm.trans he')

theorem IsCommit.not_message {M : EpochModel X} {e e' : Nat} {ev : StoredEvent}
    (h : IsCommit M e ev) : ¬ IsMessage M e' ev := by
  rintro ⟨m', hm', -⟩
  obtain ⟨m, hm, -⟩ := h
  cases hm.unique hm'

/-- An event of another user moves the epochs that it is the commit of. -/
theorem moves_iff (M : EpochModel X) {self_user : String} {ev : StoredEvent} {item : PendingMls}
    (hread : ReadsAs ev item) (hother : ev.sender ≠ self_user) (k : Nat) :
    M.next self_user k item = k + 1 ↔ IsCommit M k ev := by
  rcases Store.pendingOf_cases hread with ⟨ct, -, -, rfl⟩ | ⟨commit, -, -, rfl⟩
  · constructor
    · intro h
      exact absurd h (by simp [EpochModel.next])
    · rintro ⟨m, hm, -⟩
      cases hread.unique hm
  · simp only [EpochModel.next]
    constructor
    · intro h
      split at h
      · next hboth => exact ⟨_, hread, hboth.2⟩
      · omega
    · rintro ⟨m, hm, he⟩
      cases hread.unique hm
      exact if_pos ⟨hother, he⟩

namespace WellFormed

variable {M : EpochModel X} {self_user : String} {h : GroupHistory}

theorem commit_range (hw : WellFormed M self_user h) {ev : StoredEvent} (hev : ev ∈ h.events)
    {e : Nat} (hc : IsCommit M e ev) : h.first ≤ e ∧ e < h.last := by
  obtain ⟨e', hfirst, ⟨hlast, hc'⟩ | ⟨-, hm⟩⟩ := hw.kinds ev hev
  · rw [hc.unique hc']
    exact ⟨hfirst, hlast⟩
  · exact absurd hm hc.not_message

theorem message_range (hw : WellFormed M self_user h) {ev : StoredEvent} (hev : ev ∈ h.events)
    {e : Nat} (hm : IsMessage M e ev) : h.first ≤ e ∧ e ≤ h.last := by
  obtain ⟨e', hfirst, ⟨-, hc⟩ | ⟨hlast, hm'⟩⟩ := hw.kinds ev hev
  · exact absurd hm hc.not_message
  · rw [hm.unique hm']
    exact ⟨hfirst, hlast⟩

/-- A later commit is deeper. -/
theorem commits_ascend (hw : WellFormed M self_user h) {e e' : Nat} (hlt : e < e')
    {a b : StoredEvent} (ha : a ∈ h.events) (hb : b ∈ h.events) (hca : IsCommit M e a)
    (hcb : IsCommit M e' b) : a.depth < b.depth := by
  induction e' generalizing b with
  | zero => omega
  | succ e' ih =>
    obtain ⟨hfirst, -⟩ := hw.commit_range ha hca
    obtain ⟨-, hlast⟩ := hw.commit_range hb hcb
    rcases Nat.lt_or_ge e e' with hbetween | hge
    · obtain ⟨c, hc, hcc⟩ := hw.commits e' (by omega) (by omega)
      have hac := ih hbetween hc hcc
      have hcb' := hw.deeper e' c hc b hb hcc hcb
      omega
    · obtain rfl : e = e' := by omega
      exact hw.deeper e a ha b hb hca hcb

/-- A message is deeper than all commits before its epoch. -/
theorem commit_then_message (hw : WellFormed M self_user h) {e k : Nat} (hlt : k < e)
    {a b : StoredEvent} (ha : a ∈ h.events) (hb : b ∈ h.events) (hca : IsCommit M k a)
    (hmb : IsMessage M e b) : a.depth < b.depth := by
  obtain ⟨hfirst, -⟩ := hw.commit_range ha hca
  obtain ⟨-, hlast⟩ := hw.message_range hb hmb
  obtain ⟨e, rfl⟩ : ∃ n, e = n + 1 := ⟨e - 1, by omega⟩
  rcases Nat.lt_or_ge k e with hbetween | hge
  · obtain ⟨c, hc, hcc⟩ := hw.commits e (by omega) (by omega)
    have hac := hw.commits_ascend hbetween ha hc hca hcc
    have hcb := hw.created e c hc b hb hcc hmb
    omega
  · obtain rfl : k = e := by omega
    exact hw.created k a ha b hb hca hmb

end WellFormed

/-! ## The walk through a history -/

/-- What a pass reads of a history, in the order of the depths. -/
structure InDagOrder (h : GroupHistory) (items : List PendingMls) : Prop where
  event : ∀ item ∈ items, ∃ ev ∈ h.events, ReadsAs ev item
  all : ∀ ev ∈ h.events, ∀ item, ReadsAs ev item → item ∈ items
  ids : (items.map PendingMls.event_id).Nodup
  order : items.Pairwise (fun a b => ∀ ev ∈ h.events, ∀ ev' ∈ h.events, ReadsAs ev a →
    ReadsAs ev' b → ev.depth ≤ ev'.depth)

namespace InDagOrder

variable {M : EpochModel X} {self_user : String} {h : GroupHistory} {items : List PendingMls}

theorem moves (hi : InDagOrder h items) (hw : WellFormed M self_user h) {item : PendingMls}
    (hitem : item ∈ items) {k : Nat} (hmove : M.next self_user k item = k + 1) :
    ∃ ev ∈ h.events, ReadsAs ev item ∧ IsCommit M k ev := by
  obtain ⟨ev, hev, hread⟩ := hi.event item hitem
  exact ⟨ev, hev, hread, (moves_iff M hread (hw.others ev hev) k).mp hmove⟩

/-- The commits of a part of the list come in the order of their epochs. -/
theorem ascends (hi : InDagOrder h items) (hw : WellFormed M self_user h) {part : List PendingMls}
    (hpart : part.Sublist items) : part.Pairwise (fun a b => ∀ k l,
      M.next self_user k a = k + 1 → M.next self_user l b = l + 1 → k ≤ l) := by
  apply (hi.order.sublist hpart).imp_of_mem
  intro a b ha hb hle k l hk hl
  obtain ⟨ev, hev, hread, hc⟩ := hi.moves hw (hpart.subset ha) hk
  obtain ⟨ev', hev', hread', hc'⟩ := hi.moves hw (hpart.subset hb) hl
  by_contra hlt
  have hdepth := hw.commits_ascend (Nat.lt_of_not_le hlt) hev' hev hc' hc
  have hdepth' := hle ev hev ev' hev' hread hread'
  omega

/-- A part that has all commits from the epoch of the Welcome up to `top` gets there. -/
theorem reaches (hi : InDagOrder h items) (hw : WellFormed M self_user h) {part : List PendingMls}
    (hpart : part.Sublist items) {top : Nat} (htop : top ≤ h.last)
    (hall : ∀ k, h.joins ≤ k → k < top → ∀ ev ∈ h.events, IsCommit M k ev →
      ∀ item, ReadsAs ev item → item ∈ part) :
    top ≤ M.nextAll self_user h.joins part := by
  apply M.nextAll_reaches (hi.ascends hw hpart)
  intro k hk hlt
  have hfirst := hw.begins
  obtain ⟨ev, hev, hc⟩ := hw.commits k (by omega) (by omega)
  obtain ⟨m, hread, -⟩ := id hc
  exact ⟨_, hall k hk hlt ev hev hc _ hread, (moves_iff M hread (hw.others ev hev) k).mpr hc⟩

/-- A part without commits of `top` stays there. -/
theorem stops (hi : InDagOrder h items) (hw : WellFormed M self_user h) {part : List PendingMls}
    (hpart : part.Sublist items) {top : Nat} (htop : h.joins ≤ top)
    (hnone : ∀ item ∈ part, ∀ ev ∈ h.events, ReadsAs ev item → ¬ IsCommit M top ev) :
    M.nextAll self_user h.joins part ≤ top := by
  apply M.nextAll_le htop
  intro item hitem
  rcases M.next_le self_user top item with hstill | hmove
  · exact hstill
  · obtain ⟨ev, hev, hread, hc⟩ := hi.moves hw (hpart.subset hitem) hmove
    exact absurd hc (hnone item hitem ev hev hread)

/-- The walk ends at the last epoch. -/
theorem ends (hi : InDagOrder h items) (hw : WellFormed M self_user h) :
    M.nextAll self_user h.joins items = h.last := by
  apply Nat.le_antisymm
  · apply hi.stops hw (List.Sublist.refl _) hw.ends
    intro item _ ev hev _ hc
    have hrange := hw.commit_range hev hc
    omega
  · apply hi.reaches hw (List.Sublist.refl _) (Nat.le_refl _)
    intro k _ _ ev hev _ item hread
    exact hi.all ev hev item hread

/-- The walk meets a message at its epoch, if it does not begin after it. -/
theorem meets (hi : InDagOrder h items) (hw : WellFormed M self_user h)
    {before after : List PendingMls} {item : PendingMls} (hsplit : items = before ++ item :: after)
    {ev : StoredEvent} (hev : ev ∈ h.events) (hread : ReadsAs ev item) {e : Nat}
    (hm : IsMessage M e ev) (he : h.joins ≤ e) : M.nextAll self_user h.joins before = e := by
  have hpart : before.Sublist items := hsplit ▸ List.sublist_append_left _ _
  have horder := hi.order
  rw [hsplit, List.pairwise_append, List.pairwise_cons] at horder
  obtain ⟨-, ⟨hlater, -⟩, hearlier⟩ := horder
  apply Nat.le_antisymm
  · apply hi.stops hw hpart he
    intro x hx ev' hev' hread' hc
    have hdepth := hw.ended e ev hev ev' hev' hm hc
    have hdepth' := hearlier x hx item List.mem_cons_self ev' hev' ev hev hread' hread
    omega
  · apply hi.reaches hw hpart (hw.message_range hev hm).2
    intro k hk hlt ev' hev' hc x hread'
    have hdepth := hw.commit_then_message hlt hev' hev hc hm
    have hx := hi.all ev' hev' x hread'
    rw [hsplit] at hx
    rcases List.mem_append.mp hx with hx | hx
    · exact hx
    · rcases List.mem_cons.mp hx with rfl | hx
      · -- one item is no commit and message at once
        obtain ⟨m, hmessage, -⟩ := hm
        obtain ⟨m', hcommit, -⟩ := hc
        cases hread.unique hmessage
        cases hread'.unique hcommit
      · have hdepth' := hlater x hx ev hev ev' hev' hread hread'
        omega

/-- The mark of a message: its plaintext from the epoch of the Welcome on, and none before. -/
theorem mark (hi : InDagOrder h items) (hw : WellFormed M self_user h) {ev : StoredEvent}
    (hev : ev ∈ h.events) {m : PendingDecrypt} (hread : ReadsAs ev (.Message m)) {e : Nat}
    (he : M.messageEpoch m.room_id m.ciphertext_b64 = some e) :
    M.fate self_user h.joins items m.event_id =
      some (if h.joins ≤ e then .text (M.plaintext m.room_id m.ciphertext_b64) else .failed) := by
  obtain ⟨before, after, hsplit⟩ := List.append_of_mem (hi.all ev hev _ hread)
  have hfresh : (PendingMls.Message m).event_id ∉ before.map PendingMls.event_id := by
    have hids := hi.ids
    rw [hsplit, List.map_append, List.map_cons, List.nodup_append] at hids
    intro hmem
    exact hids.2.2 _ hmem _ List.mem_cons_self rfl
  have hfate := M.fate_mid self_user h.joins before after (.Message m) hfresh
  rw [← hsplit] at hfate
  have hmid : M.fate self_user h.joins items m.event_id =
      some (M.markAt (M.nextAll self_user h.joins before) (.Message m)) := hfate
  rw [hmid]
  simp only [EpochModel.markAt, he]
  by_cases hjoins : h.joins ≤ e
  · have hmeets := hi.meets hw hsplit hev hread ⟨m, hread, he⟩ hjoins
    rw [hmeets, if_pos rfl, if_pos hjoins]
  · have hge := M.nextAll_ge self_user h.joins before
    rw [if_neg hjoins, if_neg]
    intro heq
    cases heq
    exact hjoins hge

end InDagOrder

/-! ## The tables after the sync -/

/-- The histories are in the tables, and nothing else waits in their rooms. -/
structure TakenIn (hs : List GroupHistory) (st : Store) : Prop where
  came : ∀ h ∈ hs, ∀ ev ∈ h.events, st.events.find ev.event_id = some (Store.rowOf ev)
  waits : ∀ r ∈ st.events.rows, Store.Waiting r →
    (∃ h ∈ hs, ∃ ev ∈ h.events, r = Store.rowOf ev) ∨
    ∃ o, Store.pendingOf r = .ok o ∧ ∀ item, o = some item → ∀ h ∈ hs, item.room_id ≠ h.room

/-- An event that is read waits in its room. -/
theorem ReadsAs.row {ev : StoredEvent} {item : PendingMls} (h : ReadsAs ev item) :
    Store.Waiting (Store.rowOf ev) ∧ item.event_id = ev.event_id ∧ item.room_id = ev.room_id := by
  refine ⟨?_, Store.pendingOf_id h, Store.pendingOf_room h⟩
  rcases Store.pendingOf_cases h with ⟨ct, htype, -, -⟩ | ⟨commit, htype, -, -⟩
  · exact ⟨Or.inl htype, rfl⟩
  · exact ⟨Or.inr htype, rfl⟩

/-- An event of another user is not held back. -/
theorem ReadsAs.live {ev : StoredEvent} {item : PendingMls} (h : ReadsAs ev item)
    {self_user : String} (hother : ev.sender ≠ self_user) (queued : String → Bool) :
    Live self_user queued item := by
  rcases Store.pendingOf_cases h with ⟨ct, -, -, rfl⟩ | ⟨commit, -, -, rfl⟩
  · exact fun hboth => hother hboth.1
  · trivial

namespace WellFormed

variable {M : EpochModel X} {self_user : String} {h : GroupHistory}

/-- Every event of a history is read. -/
theorem reads (hw : WellFormed M self_user h) {ev : StoredEvent} (hev : ev ∈ h.events) :
    ∃ item, ReadsAs ev item := by
  obtain ⟨e, -, ⟨-, m, hread, -⟩ | ⟨-, m, hread, -⟩⟩ := hw.kinds ev hev
  · exact ⟨_, hread⟩
  · exact ⟨_, hread⟩

end WellFormed

theorem taken_in {M : EpochModel X} {c : Client D} {hs : List GroupHistory}
    {others batch : List StoredEvent} (hbeside : ∀ ev ∈ others, Alongside hs ev)
    (hperm : batch.Perm (others ++ hs.flatMap GroupHistory.events))
    (hids : (batch.map StoredEvent.event_id).Nodup) (houtside : Outside M c hs) :
    TakenIn hs (c.store.apply_parsed batch).2 := by
  refine ⟨?_, ?_⟩
  · intro h hh ev hev
    have hin : ev ∈ batch := by
      rw [hperm.mem_iff, List.mem_append, List.mem_flatMap]
      exact Or.inr ⟨h, hh, hev⟩
    rw [Store.find_apply_parsed]
    rcases houtside.untouched h hh ev hev with hnone | hold
    · exact Store.seen_of_mem (List.inj_on_of_nodup_map hids) hnone hin
    · rw [hold, Option.some_or]
  · intro r hr hw
    rcases c.store.row_of_apply_parsed (Table.mem_rows_iff.mp hr) with hold | ⟨ev, hev, -, hrow⟩
    · obtain ⟨items, hpending, hours⟩ := houtside.waiting
      have hrow := Table.mem_rows_iff.mpr hold
      obtain ⟨o, hof⟩ := Store.readable_of_pending hpending hrow hw
      rw [or_iff_not_imp_left]
      intro hnot
      refine ⟨o, hof, ?_⟩
      rintro item rfl h hh hroom
      -- an old row that waits in the room is that of an event of the history
      have hin := (Store.mem_pending_iff hpending).mpr ⟨r, hrow, hw, hof⟩
      obtain ⟨ev, hev, hread⟩ := hours item hin h hh hroom
      have hid : r.event_id = ev.event_id := (Store.pendingOf_id hof).symm.trans hread.row.2.1
      rw [hid] at hold
      rcases houtside.untouched h hh ev hev with hnone | hsame
      · rw [hnone] at hold
        cases hold
      · rw [hsame] at hold
        exact hnot ⟨h, hh, ev, hev, (Option.some.inj hold).symm⟩
    · rw [hperm.mem_iff, List.mem_append, List.mem_flatMap] at hev
      rcases hev with hother | ⟨h, hh, hev⟩
      · obtain ⟨o, hof⟩ := (hbeside ev hother).read
        refine Or.inr ⟨o, hrow ▸ hof, ?_⟩
        rintro item rfl
        exact (hbeside ev hother).elsewhere item hof
      · exact Or.inl ⟨h, hh, ev, hev, hrow⟩

namespace TakenIn

variable {M : EpochModel X} {self_user : String} {hs : List GroupHistory} {st : Store}

/-- The pass can read all that waits. -/
theorem pending (ht : TakenIn hs st) (hwell : ∀ h ∈ hs, WellFormed M self_user h) :
    ∃ items, st.pending_mls = .ok items := by
  apply Store.pending_mls_total
  intro r hr hw
  rcases ht.waits r hr hw with ⟨h, hh, ev, hev, rfl⟩ | ⟨o, hof, -⟩
  · obtain ⟨item, hread⟩ := (hwell h hh).reads hev
    exact ⟨some item, hread⟩
  · exact ⟨o, hof⟩

/-- What waits in the room of a history is of the history. -/
theorem own (ht : TakenIn hs st) (hwell : ∀ h ∈ hs, WellFormed M self_user h)
    (hrooms : (hs.map GroupHistory.room).Nodup) {items : List PendingMls}
    (hp : st.pending_mls = .ok items) {h : GroupHistory} (hh : h ∈ hs) {item : PendingMls}
    (hitem : item ∈ items) (hroom : item.room_id = h.room) : ∃ ev ∈ h.events, ReadsAs ev item := by
  obtain ⟨r, hr, hw, hof⟩ := (Store.mem_pending_iff hp).mp hitem
  rcases ht.waits r hr hw with ⟨h', hh', ev, hev, rfl⟩ | ⟨o, hof', haway⟩
  · have hsame : h'.room = h.room := by
      rw [← hroom, Store.pendingOf_room hof]
      exact ((hwell h' hh').here ev hev).symm
    obtain rfl : h' = h := List.inj_on_of_nodup_map hrooms hh' hh hsame
    exact ⟨ev, hev, hof⟩
  · rw [hof] at hof'
    exact absurd hroom (haway item (Except.ok.inj hof').symm h hh)

/-- The part of the pass in the room of a history walks through it in the order of the depths. -/
theorem in_dag_order (ht : TakenIn hs st) (hwell : ∀ h ∈ hs, WellFormed M self_user h)
    (hrooms : (hs.map GroupHistory.room).Nodup) {items : List PendingMls}
    (hp : st.pending_mls = .ok items) {h : GroupHistory} (hh : h ∈ hs) (queued : String → Bool) :
    InDagOrder h (items.filter (fun item => decide (LiveIn h.room self_user queued item))) := by
  have hsub := List.filter_sublist (p := fun item =>
    decide (LiveIn h.room self_user queued item)) (l := items)
  refine ⟨?_, ?_, ?_, ?_⟩
  · intro item hitem
    obtain ⟨hin, hlive⟩ := List.mem_filter.mp hitem
    exact ht.own hwell hrooms hp hh hin (of_decide_eq_true hlive).1
  · intro ev hev item hread
    obtain ⟨hw, -, hroom⟩ := hread.row
    have hrow : Store.rowOf ev ∈ st.events.rows := Table.mem_rows_iff.mpr (ht.came h hh ev hev)
    rw [List.mem_filter, Store.mem_pending_iff hp, decide_eq_true_eq]
    exact ⟨⟨_, hrow, hw, hread⟩, hroom.trans ((hwell h hh).here ev hev),
      hread.live ((hwell h hh).others ev hev) queued⟩
  · exact (Store.pending_nodup hp).sublist (hsub.map _)
  · have hordered : items.Pairwise (fun a b => ∀ ev ∈ h.events, ∀ ev' ∈ h.events, ReadsAs ev a →
        ReadsAs ev' b → ev.depth ≤ ev'.depth) := by
      apply Store.pending_pairwise hp
      intro r r' hr hr' _ _ hle a b hof hof' ev hev ev' hev' hread hread'
      -- the rows are those of the events, for there is one row for each id
      have hrow : r = Store.rowOf ev := by
        have hfind := Table.mem_rows_iff.mp hr
        rw [← Store.pendingOf_id hof, hread.row.2.1, ht.came h hh ev hev] at hfind
        exact (Option.some.inj hfind).symm
      have hrow' : r' = Store.rowOf ev' := by
        have hfind := Table.mem_rows_iff.mp hr'
        rw [← Store.pendingOf_id hof', hread'.row.2.1, ht.came h hh ev' hev'] at hfind
        exact (Option.some.inj hfind).symm
      rw [hrow, hrow'] at hle
      exact Prod.Lex.monotone_fst _ _ hle
    exact hordered.sublist hsub

end TakenIn

/-! ## The cycle -/

/-- The events of a response go into the tables. -/
theorem run_sync_batch {c : Client D} {resp : Json} {batch : List StoredEvent}
    (hwire : ∀ ev ∈ batch, StoredEvent.from_wire ev.payload = .ok ev)
    (hevents : syncEvents resp = batch.map StoredEvent.payload) :
    ∃ b, (apply_sync resp).run (Client.local_ X) c =
      (.ok b, { c with store := (c.store.apply_parsed batch).2 }) := by
  refine ⟨decide ((c.store.apply_parsed batch).1 > 0), ?_⟩
  have happly := Client.local_apply (X := X) (c := c) hwire
  unfold apply_sync
  rw [hevents, Prog.run_call]
  have hsame : batch.map StoredEvent.payload = batch.map (fun ev => ev.payload) := rfl
  rw [hsame, happly]
  rfl

/-- The pass, where the copies are those of the Welcomes and the histories are in the tables. -/
theorem decrypted_of_pass (M : EpochModel X) {c : Client D} {hs : List GroupHistory}
    (hwell : ∀ h ∈ hs, WellFormed M c.session.user_id h) (hrooms : (hs.map GroupHistory.room).Nodup)
    (ht : TakenIn hs c.store) {d : D} (hd : c.e2ee = some d) {h : GroupHistory} (hh : h ∈ hs)
    (hjoins : M.epoch d h.room = some h.joins) {items : List PendingMls}
    (hp : c.store.pending_mls = .ok items) : Decrypted M h (c.digestAll X items) := by
  have hw := hwell h hh
  have hdag := ht.in_dag_order hwell hrooms hp hh c.store.has_pending_send
  have hwalk := room_walk M h.room hd hjoins items (Store.pending_nodup hp)
  generalize hwalked : items.filter (fun item => decide (LiveIn h.room c.session.user_id
    c.store.has_pending_send item)) = walked at hdag hwalk
  -- the row of an event of the history, with its mark
  have hrow : ∀ ev ∈ h.events, ∀ item, ReadsAs ev item →
      (c.digestAll X items).store.events.find item.event_id =
        some (markRow (M.fate c.session.user_id h.joins walked item.event_id)
          (Store.rowOf ev)) := by
    intro ev hev item hread
    rw [hwalk.rows item (hdag.all ev hev item hread), hread.row.2.1, ht.came h hh ev hev]
    rfl
  have hmessage : ∀ ev ∈ h.events, ∀ m e, ReadsAs ev (.Message m) →
      M.messageEpoch m.room_id m.ciphertext_b64 = some e →
        (c.digestAll X items).store.outcome ev.event_id = some ((if h.joins ≤ e then
          Mark.text (M.plaintext m.room_id m.ciphertext_b64) else .failed).row
            (Store.rowOf ev)).told := by
    intro ev hev m e hread he
    have hfind := hrow ev hev _ hread
    rw [hread.row.2.1] at hfind
    have hmark := hdag.mark hw hev hread he
    have hid : m.event_id = ev.event_id := hread.row.2.1
    rw [hid] at hmark
    unfold Store.outcome
    rw [hfind, hmark]
    rfl
  refine ⟨?_, ?_, ?_, ?_⟩
  · obtain ⟨d', hd', he'⟩ := hwalk.engine
    unfold Client.epochOf
    rw [hd', Option.bind_some, he', hdag.ends hw]
  · intro ev hev m e hread he hjoined
    rw [hmessage ev hev m e hread he, if_pos hjoined]
    rfl
  · rintro ev hev e ⟨m, hread, he⟩ hearly
    rw [hmessage ev hev m e hread he, if_neg (Nat.not_le.mpr hearly)]
    rfl
  · obtain ⟨rest, hrest, hsub⟩ := pending_digestAll hp items
    refine ⟨rest, hrest, ?_⟩
    intro item hitem hroom
    -- an event of the room was walked, so its row is marked, and no longer waits
    obtain ⟨ev, hev, hread⟩ := ht.own hwell hrooms hp hh (hsub item hitem) hroom
    obtain ⟨r, hr, hstate, -⟩ := waiting_row hrest hitem
    rw [hrow ev hev item hread] at hr
    cases hfate : M.fate c.session.user_id h.joins walked item.event_id with
    | none =>
      rw [M.fate_none_iff] at hfate
      exact hfate (List.mem_map_of_mem (hdag.all ev hev item hread))
    | some mark =>
      rw [hfate, Option.some.injEq] at hr
      exact mark.row_done _ (hr ▸ hstate)

/-- One sync and its pass decrypt the histories of all the rooms. -/
theorem one_cycle_decrypts (M : EpochModel X) (c : Client D) (resp : Json) (hs : List GroupHistory)
    (hwell : ∀ h ∈ hs, WellFormed M c.session.user_id h) (hbrings : Brings resp hs)
    (houtside : Outside M c hs) :
    (∃ b, ((sync_cycle resp).run (Client.local_ X) c).1 = .ok b) ∧
      ∀ h ∈ hs, Decrypted M h ((sync_cycle resp).run (Client.local_ X) c).2 := by
  obtain ⟨others, batch, hbeside, hperm, hids, hevents⟩ := hbrings.events
  obtain ⟨order, horder, hwelcomes⟩ := hbrings.welcomes
  obtain ⟨d, hd, hnone⟩ := houtside.engine
  have hwire : ∀ ev ∈ batch, StoredEvent.from_wire ev.payload = .ok ev := by
    intro ev hev
    rw [hperm.mem_iff, List.mem_append, List.mem_flatMap] at hev
    rcases hev with hother | ⟨h, hh, hev⟩
    · exact (hbeside ev hother).wire
    · exact (hwell h hh).wire ev hev
  obtain ⟨b, hsync⟩ := run_sync_batch (X := X) (c := c) hwire hevents
  have hjoined := run_to_device (c := { c with store := (c.store.apply_parsed batch).2 }) M hd
    hwelcomes horder hbrings.rooms hnone (fun h hh => (hwell h hh).welcomed)
    (fun h hh => (hwell h hh).declared)
  generalize hafter : ((apply_to_device resp).run (Client.local_ X)
    { c with store := (c.store.apply_parsed batch).2 }).2 = c' at hjoined
  obtain ⟨d', hd', hjoins, -⟩ := hjoined.engine
  have ht : TakenIn hs c'.store := by
    rw [hjoined.store]
    exact taken_in hbeside hperm hids houtside
  have hwell' : ∀ h ∈ hs, WellFormed M c'.session.user_id h := by
    rw [hjoined.session]
    exact hwell
  obtain ⟨items, hp⟩ := ht.pending hwell'
  obtain ⟨b', hpass⟩ := run_read_pass X hd' hp
  have hrun : (sync_cycle resp).run (Client.local_ X) c = (.ok b', c'.digestAll X items) := by
    unfold sync_cycle Prog.andThen
    rw [Prog.run_bind, hsync]
    simp only
    rw [Prog.run_bind, hafter, hpass]
  rw [hrun]
  exact ⟨⟨b', rfl⟩, fun h hh =>
    decrypted_of_pass M hwell' hbrings.rooms ht hd' hh (hjoins h hh) hp⟩

/-! ## A history of Bob -/

/-- A message of the epoch 0, before the commit that ends it. -/
def bobEarly : StoredEvent :=
  wireStored "@bob:pigeon.example" "$early" "p.room.encrypted" 2
    (encryptedContent (epochText 0 "before"))

/-- The commit of the epoch 1. -/
def bobLater : StoredEvent :=
  wireStored "@bob:pigeon.example" "$later" "p.mls.commit" 5 (commitContent (epochText 1 "!room"))

/-- The Welcome adds Ann at the epoch 1. -/
def bobHistory : GroupHistory where
  room := "!room"
  first := 0
  joins := 1
  last := 2
  welcome := ⟨epochText 1 "!room", some "!room"⟩
  events := [bobEarly, bobCommit, bobMessage, bobLater]

/-- All of it in one response, the last event first. -/
def bobResponse : Json :=
  .obj [
    ("rooms", .obj [("join", .obj [("!room", .obj [("timeline", .obj [("events",
      .arr [bobLater.payload, bobMessage.payload, bobCommit.payload, bobEarly.payload])])])])]),
    ("to_device", .obj [("events", .arr [.obj [("type", .str "p.mls.welcome"),
      ("content", .obj [("welcome", .str (epochText 1 "!room")), ("room_id", .str "!room")])]])])]

theorem bob_kinds {ev : StoredEvent} (hev : ev ∈ bobHistory.events) : ∃ e,
    (e < 2 ∧ IsCommit epochModel e ev ∧ ev.depth = 2 * e + 3) ∨
      (e ≤ 2 ∧ IsMessage epochModel e ev ∧ ev.depth = 2 * e + 2) := by
  simp only [bobHistory, List.mem_cons, List.not_mem_nil, or_false] at hev
  rcases hev with rfl | rfl | rfl | rfl
  · exact ⟨0, Or.inr ⟨by decide, ⟨_, rfl, rfl⟩, rfl⟩⟩
  · exact ⟨0, Or.inl ⟨by decide, ⟨_, rfl, rfl⟩, rfl⟩⟩
  · exact ⟨1, Or.inr ⟨by decide, ⟨_, rfl, rfl⟩, rfl⟩⟩
  · exact ⟨1, Or.inl ⟨by decide, ⟨_, rfl, rfl⟩, rfl⟩⟩

theorem bob_commit_depth {ev : StoredEvent} (hev : ev ∈ bobHistory.events) {e : Nat}
    (h : IsCommit epochModel e ev) : ev.depth = 2 * e + 3 := by
  obtain ⟨e', ⟨-, hc, hdepth⟩ | ⟨-, hm, -⟩⟩ := bob_kinds hev
  · rw [h.unique hc]
    exact hdepth
  · exact absurd hm h.not_message

theorem bob_message_depth {ev : StoredEvent} (hev : ev ∈ bobHistory.events) {e : Nat}
    (h : IsMessage epochModel e ev) : ev.depth = 2 * e + 2 := by
  obtain ⟨e', ⟨-, hc, -⟩ | ⟨-, hm, hdepth⟩⟩ := bob_kinds hev
  · exact absurd h hc.not_message
  · rw [h.unique hm]
    exact hdepth

theorem bob_history_well_formed :
    WellFormed epochModel freshClient.session.user_id bobHistory where
  begins := by decide
  ends := by decide
  wire ev hev := by
    simp only [bobHistory, List.mem_cons, List.not_mem_nil, or_false] at hev
    rcases hev with rfl | rfl | rfl | rfl <;> rfl
  here ev hev := by
    simp only [bobHistory, List.mem_cons, List.not_mem_nil, or_false] at hev
    rcases hev with rfl | rfl | rfl | rfl <;> rfl
  others ev hev := by
    simp only [bobHistory, List.mem_cons, List.not_mem_nil, or_false] at hev
    rcases hev with rfl | rfl | rfl | rfl <;> decide
  kinds ev hev := by
    obtain ⟨e, ⟨hlast, hc, -⟩ | ⟨hlast, hm, -⟩⟩ := bob_kinds hev
    · exact ⟨e, Nat.zero_le e, Or.inl ⟨hlast, hc⟩⟩
    · exact ⟨e, Nat.zero_le e, Or.inr ⟨hlast, hm⟩⟩
  commits e _ hlast := by
    have hlt : e < 2 := hlast
    obtain rfl | rfl : e = 0 ∨ e = 1 := by omega
    · exact ⟨bobCommit, by simp [bobHistory], _, rfl, rfl⟩
    · exact ⟨bobLater, by simp [bobHistory], _, rfl, rfl⟩
  deeper e a ha b hb hca hcb := by
    rw [bob_commit_depth ha hca, bob_commit_depth hb hcb]
    omega
  created e a ha b hb hca hmb := by
    rw [bob_commit_depth ha hca, bob_message_depth hb hmb]
    omega
  ended e a ha b hb hma hcb := by
    rw [bob_message_depth ha hma, bob_commit_depth hb hcb]
    omega
  welcomed d _ := ⟨_, rfl, fun r => Copies.epoch_set d "!room" r 1⟩
  declared := Or.inr rfl

theorem bob_response_brings : Brings bobResponse [bobHistory] where
  rooms := by decide
  events := by
    refine ⟨[], [bobLater, bobMessage, bobCommit, bobEarly], ?_, ?_, by decide, rfl⟩
    · intro ev hev
      cases hev
    · exact List.reverse_perm bobHistory.events
  welcomes := ⟨[bobHistory], List.Perm.refl _, rfl⟩

theorem ann_outside : Outside epochModel freshClient [bobHistory] where
  engine := ⟨Table.empty, rfl, fun _ _ => rfl⟩
  untouched _ _ _ _ := Or.inl rfl
  waiting := ⟨[], rfl, fun _ hitem => absurd hitem List.not_mem_nil⟩

theorem one_cycle_decrypts_bob :
    (∃ b, ((sync_cycle bobResponse).run (Client.local_ epochCrypto) freshClient).1 = .ok b) ∧
      ∀ h ∈ [bobHistory], Decrypted epochModel h
        ((sync_cycle bobResponse).run (Client.local_ epochCrypto) freshClient).2 := by
  apply one_cycle_decrypts epochModel freshClient bobResponse [bobHistory] ?_ bob_response_brings
    ann_outside
  intro h hh
  rw [List.mem_singleton.mp hh]
  exact bob_history_well_formed

end PigeonMobile
