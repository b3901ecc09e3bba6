-- The devices of a group. Each has its own store and its own copy of the group, and all read
-- one log of commits. A device that takes the log in, slice by slice, goes through the epochs
-- one after the other, unless a commit comes from another device of its own user.
import PigeonMobile.Deliveries
import Mathlib.Logic.Function.Basic

namespace PigeonMobile

variable {D : Type} {X : PigeonCrypto D}

/-! ## The log -/

/-- A commit of the log: who made it, whom it adds and the Welcome for them, and its event. -/
structure Broadcast (ι : Type) where
  author : ι
  added : ι
  welcome : String
  event : StoredEvent

variable {ι : Type}

/-- What the pass reads in the event of a commit. -/
def commitItem (ev : StoredEvent) (commit : String) : PendingMls :=
  .Commit ⟨ev.event_id, ev.room_id, ev.sender, commit⟩

/-- A log of commits: the commit at the place `k` belongs to the epoch `k`, and its event comes
from the author's user. -/
structure SoundLog (M : EpochModel X) (room : String) (user : ι → String)
    (log : List (Broadcast ι)) : Prop where
  event : ∀ b ∈ log, GroupEvent room b.event
  sender : ∀ b ∈ log, b.event.sender = user b.author
  reads : ∀ k b, log[k]? = some b → ∃ commit,
    Store.pendingOf (Store.rowOf b.event) = .ok (some (commitItem b.event commit)) ∧
      M.commitEpoch b.event.room_id commit = some k
  deeper : log.Pairwise (fun a b => a.event.depth < b.event.depth)
  ids : (log.map (fun b => b.event.event_id)).Nodup

/-- A device whose store has the first `got` events of the log: no other event waits. -/
structure Follows (log : List (Broadcast ι)) (got : Nat) (c : Client D) (d : D) : Prop where
  engine : c.e2ee = some d
  waiting : ∀ r ∈ c.store.events.rows, Store.Waiting r →
    ∃ b ∈ log.take got, r = Store.rowOf b.event
  absent : ∀ b ∈ log.drop got, c.store.events.find b.event.event_id = none

/-- The commits that are still ahead of the copy, and that the store has, wait. -/
def KeepsAhead (log : List (Broadcast ι)) (got : Nat) (c : Client D) (e : Option Nat) : Prop :=
  ∀ k b, log[k]? = some b → k < got → (∀ n, e = some n → n ≤ k) →
    c.store.events.find b.event.event_id = some (Store.rowOf b.event)

/-! ## A slice comes in -/

/-- The next `n` events of the log. -/
def slice (log : List (Broadcast ι)) (got n : Nat) : List StoredEvent :=
  ((log.drop got).take n).map (fun b => b.event)

/-- The store after the slice is in, and before the pass. -/
def Client.takeIn (c : Client D) (events : List StoredEvent) : Client D :=
  { c with store := (c.store.apply_parsed events).2 }

namespace SoundLog

variable {M : EpochModel X} {room : String} {user : ι → String} {log : List (Broadcast ι)}

theorem slice_group (h : SoundLog M room user log) (got n : Nat) :
    ∀ ev ∈ slice log got n, GroupEvent room ev := by
  intro ev hev
  obtain ⟨b, hb, rfl⟩ := List.mem_map.mp hev
  exact h.event b (List.mem_of_mem_drop (List.mem_of_mem_take hb))

/-- The events of the log are read in the order of the log. -/
theorem index_le (h : SoundLog M room user log) {k l : Nat} {a b : Broadcast ι}
    (ha : log[k]? = some a) (hb : log[l]? = some b) (hdepth : a.event.depth ≤ b.event.depth) :
    k ≤ l := by
  by_contra hlt
  obtain ⟨hk, rfl⟩ := List.getElem?_eq_some_iff.mp ha
  obtain ⟨hl, rfl⟩ := List.getElem?_eq_some_iff.mp hb
  have hdeep := List.pairwise_iff_getElem.mp h.deeper l k hl hk (by omega)
  omega

end SoundLog

theorem Follows.takeIn {M : EpochModel X} {room : String} {user : ι → String}
    {log : List (Broadcast ι)} (hlog : SoundLog M room user log) {got : Nat} {c : Client D} {d : D}
    (h : Follows log got c d) (n : Nat) : Follows log (got + n) (c.takeIn (slice log got n)) d := by
  refine ⟨h.engine, ?_, ?_⟩
  · intro r hr hw
    have hfind := Table.mem_rows_iff.mp hr
    have hstore : (c.takeIn (slice log got n)).store.events.find r.event_id =
        c.store.seen (slice log got n) r.event_id := c.store.find_apply_parsed _ _
    rw [hstore] at hfind
    rcases Store.seen_cases hfind with hold | ⟨-, ev, hev, -, hrow⟩
    · obtain ⟨b, hb, hrow⟩ := h.waiting r (Table.find_some_iff.mp hold).1 hw
      refine ⟨b, ?_, hrow⟩
      rw [List.take_add]
      exact List.mem_append_left _ hb
    · obtain ⟨b, hb, rfl⟩ := List.mem_map.mp hev
      refine ⟨b, ?_, hrow⟩
      rw [List.take_add]
      exact List.mem_append_right _ hb
  · intro b hb
    have hstore : (c.takeIn (slice log got n)).store.events.find b.event.event_id =
        c.store.seen (slice log got n) b.event.event_id := c.store.find_apply_parsed _ _
    rw [hstore]
    have hsplit : log.drop got = (log.drop got).take n ++ log.drop (got + n) := by
      rw [← List.drop_drop, List.take_append_drop]
    have hold : c.store.events.find b.event.event_id = none := by
      apply h.absent
      rw [hsplit]
      exact List.mem_append_right _ hb
    have hslice : (slice log got n).find? (fun ev => decide (ev.event_id = b.event.event_id)) =
        none := by
      rw [List.find?_eq_none]
      intro ev hev hid
      obtain ⟨a, ha, rfl⟩ := List.mem_map.mp hev
      have hids := hlog.ids
      rw [← List.take_append_drop got log, hsplit, List.map_append, List.map_append,
        List.nodup_append, List.nodup_append] at hids
      exact hids.2.1.2.2 _ (List.mem_map_of_mem ha) _ (List.mem_map_of_mem hb)
        (of_decide_eq_true hid)
    unfold Store.seen
    rw [hold, hslice]
    rfl

theorem KeepsAhead.takeIn {log : List (Broadcast ι)} {got : Nat} {c : Client D} {d : D}
    {e : Option Nat} (hids : (log.map (fun b => b.event.event_id)).Nodup)
    (hf : Follows log got c d) (h : KeepsAhead log got c e) (n : Nat) :
    KeepsAhead log (got + n) (c.takeIn (slice log got n)) e := by
  intro k b hb hk he
  have hstore : (c.takeIn (slice log got n)).store.events.find b.event.event_id =
      c.store.seen (slice log got n) b.event.event_id := c.store.find_apply_parsed _ _
  rw [hstore]
  by_cases hold : k < got
  · unfold Store.seen
    rw [h k b hb hold he]
    rfl
  · obtain ⟨hlen, rfl⟩ := List.getElem?_eq_some_iff.mp hb
    have hin : log[k] ∈ (log.drop got).take n := by
      rw [List.mem_iff_getElem]
      refine ⟨k - got, by simp; omega, ?_⟩
      rw [List.getElem_take, List.getElem_drop]
      congr 1
      omega
    have hnone := hf.absent log[k] (List.mem_of_mem_take hin)
    apply Store.seen_of_mem ?_ hnone (List.mem_map_of_mem hin)
    intro ev hev ev' hev' hid
    obtain ⟨a, ha, rfl⟩ := List.mem_map.mp hev
    obtain ⟨a', ha', rfl⟩ := List.mem_map.mp hev'
    rw [List.inj_on_of_nodup_map hids (List.mem_of_mem_drop (List.mem_of_mem_take ha))
      (List.mem_of_mem_drop (List.mem_of_mem_take ha')) hid]

/-! ## The pass -/

theorem next_commit_iff (M : EpochModel X) {self_user : String} {k : Nat} {ev : StoredEvent}
    {commit : String} : M.next self_user k (commitItem ev commit) = k + 1 ↔
      ev.sender ≠ self_user ∧ M.commitEpoch ev.room_id commit = some k := by
  simp only [commitItem, EpochModel.next]
  constructor
  · intro h
    by_contra hnot
    rw [if_neg hnot] at h
    omega
  · intro h
    rw [if_pos h]

namespace Follows

variable {M : EpochModel X} {room : String} {user : ι → String} {log : List (Broadcast ι)}
  {got : Nat} {c : Client D} {d : D}

/-- A waiting row is the event of a commit of the log. -/
theorem row (hlog : SoundLog M room user log) (h : Follows log got c d) {r : EventRow}
    (hr : r ∈ c.store.events.rows) (hw : Store.Waiting r) :
    ∃ k b commit, log[k]? = some b ∧ k < got ∧
      r = Store.rowOf b.event ∧ Store.pendingOf r = .ok (some (commitItem b.event commit)) ∧
        M.commitEpoch b.event.room_id commit = some k := by
  obtain ⟨b, hb, rfl⟩ := h.waiting r hr hw
  obtain ⟨k, hk, rfl⟩ := List.mem_iff_getElem.mp hb
  rw [List.length_take] at hk
  rw [List.getElem_take]
  have hat : log[k]? = some log[k] := List.getElem?_eq_getElem (by omega)
  obtain ⟨commit, hof, hepoch⟩ := hlog.reads k log[k] hat
  exact ⟨k, log[k], commit, hat, by omega, rfl, hof, hepoch⟩

theorem pending (hlog : SoundLog M room user log) (h : Follows log got c d) :
    ∃ items, c.store.pending_mls = .ok items := by
  apply Store.pending_mls_total
  intro r hr hw
  obtain ⟨k, b, commit, -, -, -, hof, -⟩ := h.row hlog hr hw
  exact ⟨some (commitItem b.event commit), hof⟩

theorem item (hlog : SoundLog M room user log) (h : Follows log got c d) {items : List PendingMls}
    (hp : c.store.pending_mls = .ok items) {item : PendingMls} (hi : item ∈ items) :
    ∃ k b commit, log[k]? = some b ∧ k < got ∧ item = commitItem b.event commit ∧
      M.commitEpoch b.event.room_id commit = some k := by
  obtain ⟨r, hr, hw, hof⟩ := (Store.mem_pending_iff hp).mp hi
  obtain ⟨k, b, commit, hat, hk, -, hof', hepoch⟩ := h.row hlog hr hw
  rw [hof] at hof'
  cases hof'
  exact ⟨k, b, commit, hat, hk, rfl, hepoch⟩

/-- The pass takes the commits in the order of the log. -/
theorem sorted (hlog : SoundLog M room user log) (h : Follows log got c d) {items : List PendingMls}
    (hp : c.store.pending_mls = .ok items) (self_user : String) :
    items.Pairwise (fun a b => ∀ k l, M.next self_user k a = k + 1 →
      M.next self_user l b = l + 1 → k ≤ l) := by
  apply Store.pending_pairwise hp
  intro r₁ r₂ hr₁ hr₂ hw₁ hw₂ hle x₁ x₂ hx₁ hx₂ k₁ k₂ hk₁ hk₂
  obtain ⟨l₁, b₁, commit₁, hat₁, -, rfl, hof₁, hepoch₁⟩ := h.row hlog hr₁ hw₁
  obtain ⟨l₂, b₂, commit₂, hat₂, -, rfl, hof₂, hepoch₂⟩ := h.row hlog hr₂ hw₂
  rw [hof₁] at hx₁
  rw [hof₂] at hx₂
  cases hx₁
  cases hx₂
  rw [next_commit_iff, hepoch₁] at hk₁
  rw [next_commit_iff, hepoch₂] at hk₂
  rw [← Option.some.inj hk₁.2, ← Option.some.inj hk₂.2]
  have hdepth : b₁.event.depth ≤ b₂.event.depth := by
    rcases Prod.Lex.le_iff.mp hle with hlt | ⟨heq, -⟩
    · exact le_of_lt hlt
    · exact le_of_eq heq
  exact hlog.index_le hat₁ hat₂ hdepth

/-- Where the commit of an epoch is an own one, or there is none, no event moves the copy from
that epoch. -/
theorem skips (hlog : SoundLog M room user log) (h : Follows log got c d) {items : List PendingMls}
    (hp : c.store.pending_mls = .ok items) {top : Nat} {self_user : String}
    (hown : ∀ b, log[top]? = some b → b.event.sender = self_user) {item : PendingMls}
    (hi : item ∈ items) : M.next self_user top item = top := by
  obtain ⟨k, b, commit, hat, -, rfl, hepoch⟩ := h.item hlog hp hi
  rcases M.next_le self_user top (commitItem b.event commit) with hstill | hmove
  · exact hstill
  · exfalso
    obtain ⟨hsender, hepoch'⟩ := (next_commit_iff M).mp hmove
    rw [hepoch] at hepoch'
    cases hepoch'
    exact hsender (hown b hat)

/-- Where the commits that are ahead of the copy wait, and are of other users, the pass goes
through all that the store has. -/
theorem catches_up (hlog : SoundLog M room user log) (h : Follows log got c d)
    {items : List PendingMls} (hp : c.store.pending_mls = .ok items) {n : Nat}
    (hkeeps : KeepsAhead log got c (some n)) (hgot : got ≤ log.length) {self_user : String}
    (hother : ∀ k b, log[k]? = some b → n ≤ k → b.event.sender ≠ self_user) :
    got ≤ M.nextAll self_user n items := by
  apply M.nextAll_reaches (h.sorted hlog hp self_user)
  intro k hk hlt
  have hat : log[k]? = some log[k] := List.getElem?_eq_getElem (by omega)
  obtain ⟨commit, hof, hepoch⟩ := hlog.reads k log[k] hat
  have hfind := hkeeps k log[k] hat hlt (fun m hm => by cases hm; exact hk)
  have hkind := (hlog.event log[k] (List.getElem_mem _)).kind
  refine ⟨commitItem log[k].event commit, ?_, ?_⟩
  · exact (Store.mem_pending_iff hp).mpr
      ⟨Store.rowOf log[k].event, (Table.find_some_iff.mp hfind).1, ⟨hkind, rfl⟩, hof⟩
  · exact (next_commit_iff M).mpr ⟨hother k log[k] hat hk, hepoch⟩

/-- A device with no copy of the group: every commit goes on waiting. -/
theorem pass_outside (hlog : SoundLog M room user log) (h : Follows log got c d)
    (he : M.epoch d room = none) : (process_inbound_mls.run (Client.local_ X) c).2 = c := by
  obtain ⟨items, hp⟩ := h.pending hlog
  rw [run_process_inbound_mls X h.engine hp]
  apply Client.digestAll_wait
  intro item hi
  obtain ⟨k, b, commit, hat, -, rfl, -⟩ := h.item hlog hp hi
  apply verdict_no_group h.engine
  have hroom : (commitItem b.event commit).room_id = room :=
    (hlog.event b (List.mem_of_getElem? hat)).here
  rw [hroom, M.load_group, he]
  rfl

/-- A device with a copy: the pass walks over the commits that wait, and none waits after it. -/
theorem pass_inside (hlog : SoundLog M room user log) (h : Follows log got c d) {n : Nat}
    (he : M.epoch d room = some n) {items : List PendingMls}
    (hp : c.store.pending_mls = .ok items) :
    ∃ d', Follows log got (process_inbound_mls.run (Client.local_ X) c).2 d' ∧
      M.epoch d' room = some (M.nextAll c.session.user_id n items) ∧
      (process_inbound_mls.run (Client.local_ X) c).2.session = c.session := by
  have hhere : ∀ item ∈ items, LiveIn room c.session.user_id c.store.has_pending_send item := by
    intro item hi
    obtain ⟨k, b, commit, hat, -, rfl, -⟩ := h.item hlog hp hi
    exact ⟨(hlog.event b (List.mem_of_getElem? hat)).here, trivial⟩
  have hwalk := walk_digestAll M room h.engine he items (Store.pending_nodup hp)
    (fun item hi => Or.inl (hhere item hi).1)
  have hall : items.filter (fun item => decide
      (LiveIn room c.session.user_id c.store.has_pending_send item)) = items := by
    rw [List.filter_eq_self]
    intro item hi
    exact decide_eq_true (hhere item hi)
  rw [hall, ← run_process_inbound_mls X h.engine hp] at hwalk
  obtain ⟨hsession, -, ⟨d', hd', hepoch⟩, hrows⟩ := hwalk
  refine ⟨d', ⟨hd', ?_, ?_⟩, ?_, hsession⟩
  · intro r hr hw
    exfalso
    have hfind := Table.mem_rows_iff.mp hr
    rw [hrows, Option.map_eq_some_iff] at hfind
    obtain ⟨r', hr', hmark⟩ := hfind
    cases hf : M.fate c.session.user_id n items r.event_id with
    | some mark =>
      rw [hf] at hmark
      have hrow : mark.row r' = r := hmark
      have hdone := mark.row_done r'
      rw [hrow] at hdone
      exact hdone hw.2
    | none =>
      rw [hf] at hmark
      have hrow : r' = r := hmark
      rw [hrow] at hr'
      have hin := (Table.find_some_iff.mp hr').1
      obtain ⟨k, b, commit, -, -, -, hof, -⟩ := h.row hlog hin hw
      have hitem := (Store.mem_pending_iff hp).mpr ⟨r, hin, hw, hof⟩
      rw [M.fate_none_iff] at hf
      apply hf
      rw [← Store.pendingOf_id hof]
      exact List.mem_map_of_mem hitem
  · intro b hb
    rw [hrows, h.absent b hb]
    rfl
  · rw [hepoch, if_pos rfl]

/-- A slice comes to a device with no copy of the group. -/
theorem deliver_outside (hlog : SoundLog M room user log) (h : Follows log got c d)
    (he : M.epoch d room = none) (source : Source) (n : Nat) :
    c.deliver X room (source, slice log got n) = c.takeIn (slice log got n) := by
  rw [Client.deliver_eq (hlog.slice_group got n)]
  exact (h.takeIn hlog n).pass_outside hlog he

/-- A slice comes to a device with a copy. The copy stays before the commit of another device
of its user, and where there is none, it goes through all that the store has. -/
theorem deliver_inside (hlog : SoundLog M room user log) (h : Follows log got c d) {e : Nat}
    (he : M.epoch d room = some e) (source : Source) {n : Nat} (hn : got + n ≤ log.length) :
    ∃ d' e', Follows log (got + n) (c.deliver X room (source, slice log got n)) d' ∧
      M.epoch d' room = some e' ∧ e ≤ e' ∧
      (c.deliver X room (source, slice log got n)).session = c.session ∧
      (∀ top, e ≤ top → (∀ b, log[top]? = some b → b.event.sender = c.session.user_id) → e' ≤ top) ∧
      (KeepsAhead log got c (some e) →
        (∀ k b, log[k]? = some b → e ≤ k → b.event.sender ≠ c.session.user_id) → got + n ≤ e') := by
  have hin := h.takeIn hlog n
  obtain ⟨items, hp⟩ := hin.pending hlog
  obtain ⟨d', hfollows, hepoch, hsession⟩ := hin.pass_inside hlog he hp
  rw [Client.deliver_eq (hlog.slice_group got n)]
  refine ⟨d', _, hfollows, hepoch, M.nextAll_ge _ _ _, hsession, ?_, ?_⟩
  · intro top htop hown
    exact M.nextAll_le htop (fun item hi => hin.skips hlog hp hown hi)
  · intro hkeeps hother
    exact hin.catches_up hlog hp (hkeeps.takeIn hlog.ids h n) hn hother

end Follows

/-! ## Joins and adds -/

theorem local_add_member {c c' : Client D} {d : D} (h : c.e2ee = some d) {room kp : String}
    {out : AddOutcome} (hadd : Client.local_ X (.add_member room kp) c = (.ok out, c')) :
    ∃ d', X.add_member d room kp = .ok (d', out.welcome, out.commit) ∧ c' = c.hold X d' := by
  obtain ⟨api, session, store, e2ee, ks⟩ := c
  obtain rfl : e2ee = some d := h
  simp only [Client.local_, Client.perform, Client.calm, Client.onEngine, E2ee.add_member,
    E2ee.onGroup] at hadd
  by_cases hg : X.load_group d room = true
  · rw [if_pos hg] at hadd
    rcases hx : X.add_member d room kp with reason | ⟨d', welcome, commit⟩
    · rw [hx] at hadd
      cases hadd
    · have hput := Client.local_put X ⟨api, session, store, some d, ks⟩ d'
      simp only at hput
      rw [hx] at hadd
      simp only [Except.map, E2ee.mutate, hput] at hadd
      cases hadd
      exact ⟨d', rfl, rfl⟩
  · rw [if_neg hg] at hadd
    cases hadd

/-- A Welcome that comes to a device with a copy of the group changes nothing. -/
theorem run_apply_welcome_again {c : Client D} {d : D} (h : c.e2ee = some d) {room : String}
    (hg : X.load_group d room = true) (welcome : String) :
    ((apply_welcome ⟨welcome, some room⟩).run (Client.local_ X) c).2 = c := by
  unfold apply_welcome
  simp only
  rw [Prog.run_call, Client.local_has_group X h, hg]
  rfl

/-- A Welcome that the engine takes. -/
theorem run_apply_welcome {c : Client D} {d d' : D} (h : c.e2ee = some d) {room welcome : String}
    (hg : X.load_group d room = false) (hx : X.join_from_welcome d welcome = .ok d') :
    ((apply_welcome ⟨welcome, some room⟩).run (Client.local_ X) c).2 = c.hold X d' := by
  unfold apply_welcome join_group
  simp only
  rw [Prog.run_call, Client.local_has_group X h, hg]
  simp only
  obtain ⟨api, session, store, e2ee, ks⟩ := c
  obtain rfl : e2ee = some d := h
  have hput := Client.local_put X ⟨api, session, store, some d, ks⟩ d'
  simp only at hput
  rw [Prog.run_call]
  simp only [Client.local_, Client.perform, Client.calm, Client.onEngine, E2ee.join_from_welcome,
    E2ee.mutate, hx, Except.map, hput]
  rfl

end PigeonMobile
