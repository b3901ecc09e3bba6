-- Whether the outcome of some events depends on how they are delivered. It does as soon as a
-- commit moves the copy and another event of the set cares: a pass marks an event for good,
-- and it may see the event before or after the commit.
import PigeonMobile.Deliveries

namespace PigeonMobile

variable {D : Type} {X : PigeonCrypto D}

/-! ## What the order cannot change -/

/-- The batches deliver the events of `S`, and no others. -/
def Delivers (S : List StoredEvent) (batches : List (Source × List StoredEvent)) : Prop :=
  ∀ ev, ev ∈ batches.flatMap Prod.snd ↔ ev ∈ S

/-- A commit of another user, of the epoch `e`, is to be taken. -/
def Moves (M : EpochModel X) (room : String) (c : Client D) (S : List StoredEvent) (e : Nat) :
    Prop :=
  ∃ m, Due room c S (.Commit m) ∧ m.sender ≠ c.session.user_id ∧
    M.commitEpoch m.room_id m.commit_b64 = some e

/-- A message of the epoch `e` is to be taken. -/
def Reads (M : EpochModel X) (room : String) (c : Client D) (S : List StoredEvent) (e : Nat) :
    Prop :=
  ∃ m, Due room c S (.Message m) ∧ M.messageEpoch m.room_id m.ciphertext_b64 = some e

/-- The order does not matter: the copy stays at `e`, or it goes to `e + 1` and no event is of
the one epoch or the other. An event that cannot be read stops every pass after it, so then
nothing at all is to be taken but commits that do not apply. -/
def OrderFree (M : EpochModel X) (room : String) (c : Client D) (S : List StoredEvent)
    (e : Nat) : Prop :=
  (¬ Moves M room c S e ∧ (AllReadable c S ∨ ∀ m, ¬ Due room c S (.Message m))) ∨
    (AllReadable c S ∧ ¬ Reads M room c S e ∧ ¬ Reads M room c S (e + 1) ∧
      ¬ Moves M room c S (e + 1))

/-- What the tables tell of a row: its plaintext, and whether it is undecryptable. -/
def EventRow.told (r : EventRow) : Option String × Bool :=
  (r.decrypted, decide (r.decrypt_state = DECRYPT_FAILED))

theorem due_congr {room : String} {c : Client D} {S got : List StoredEvent}
    (h : ∀ k, c.store.seen got k = c.store.seen S k) (item : PendingMls) :
    Due room c got item ↔ Due room c S item := by
  unfold Due
  rw [h]

theorem readable_congr {c : Client D} {S got : List StoredEvent}
    (h : ∀ k, c.store.seen got k = c.store.seen S k) : AllReadable c got ↔ AllReadable c S := by
  unfold AllReadable
  simp only [h]

/-! ## What the batches come to -/

namespace Partway

variable {M : EpochModel X} {room : String} {d : D} {e : Nat} {c c' : Client D}
  {got : List StoredEvent} {order : List PendingMls}

theorem outcome (h : Partway M room d e c got order c') (k : String) : c'.store.outcome k =
    (c.store.seen got k).map (fun r => (markRow (M.fate c.session.user_id e order k) r).told) := by
  have hout : c'.store.outcome k = (c'.store.events.find k).map EventRow.told := rfl
  rw [hout, h.rows, Option.map_map]
  rfl

theorem epochOf (h : Partway M room d e c got order c') (r : String) : c'.epochOf M.epoch r =
    if r = room then some (M.nextAll c.session.user_id e order) else M.epoch d r := by
  obtain ⟨d', hd', hepoch⟩ := h.engine
  unfold Client.epochOf
  rw [hd', Option.bind_some, hepoch]

/-- Two clients that have come to the same epoch, with marks that say the same. -/
theorem sameOutcome {c₁ c₂ : Client D} {got₁ got₂ : List StoredEvent}
    {order₁ order₂ : List PendingMls}
    (h₁ : Partway M room d e c got₁ order₁ c₁) (h₂ : Partway M room d e c got₂ order₂ c₂)
    (hseen : ∀ k, c.store.seen got₁ k = c.store.seen got₂ k)
    (hepoch : M.nextAll c.session.user_id e order₁ = M.nextAll c.session.user_id e order₂)
    (hmark : ∀ k r, c.store.seen got₁ k = some r →
      (markRow (M.fate c.session.user_id e order₁ k) r).told =
        (markRow (M.fate c.session.user_id e order₂ k) r).told) : SameOutcome M.epoch c₁ c₂ := by
  constructor
  · intro k
    rw [h₁.outcome, h₂.outcome, ← hseen]
    cases hr : c.store.seen got₁ k with
    | none => rfl
    | some r => exact congrArg some (hmark k r hr)
  · intro r
    rw [h₁.epochOf, h₂.epochOf, hepoch]

/-- A mark for a commit tells nothing. -/
theorem told_of_commits (h : Partway M room d e c got order c')
    (hno : ∀ m, ¬ Due room c got (.Message m)) {k : String} {r : EventRow}
    (hr : c.store.seen got k = some r) :
    (markRow (M.fate c.session.user_id e order k) r).told = r.told := by
  by_cases hk : k ∈ order.map PendingMls.event_id
  · obtain ⟨item, hi, rfl⟩ := List.mem_map.mp hk
    obtain ⟨before, after, rfl⟩ := List.append_of_mem hi
    have hnodup := h.nodup
    rw [List.map_append, List.map_cons, List.nodup_append] at hnodup
    have hnot : item.event_id ∉ before.map PendingMls.event_id := fun hin =>
      hnodup.2.2 _ hin _ List.mem_cons_self rfl
    obtain ⟨r', hr', hw, -⟩ := h.due item hi
    rw [hr'] at hr
    cases hr
    cases item with
    | Message m => exact absurd (h.due (.Message m) hi) (hno m)
    | Commit m =>
      rw [M.fate_mid c.session.user_id e before after (.Commit m) hnot]
      simp [markRow, EpochModel.markAt, Mark.row, Store.withState, EventRow.told, DECRYPT_OK,
        DECRYPT_FAILED, hw.2]
  · rw [(M.fate_none_iff _ _ _ _).mpr hk]
    rfl

end Partway

namespace Reached

variable {M : EpochModel X} {room : String} {d : D} {e : Nat} {c : Client D}

/-- Where every epoch of the two walks gives the same marks, so do the walks. -/
theorem fate_same {c₁ c₂ : Client D} {got₁ got₂ : List StoredEvent}
    {order₁ order₂ : List PendingMls}
    (h₁ : Reached M room d e c got₁ order₁ c₁) (h₂ : Reached M room d e c got₂ order₂ c₂)
    (hread₁ : AllReadable c got₁) (hread₂ : AllReadable c got₂)
    (hdue : ∀ item, Due room c got₁ item ↔ Due room c got₂ item)
    (hconst : ∀ item, Due room c got₁ item → ∀ before, (∀ x ∈ before, Due room c got₁ x) →
      M.markAt (M.nextAll c.session.user_id e before) item = M.markAt e item) (k : String) :
    M.fate c.session.user_id e order₁ k = M.fate c.session.user_id e order₂ k := by
  by_cases hk : k ∈ order₁.map PendingMls.event_id
  · obtain ⟨item, hi, rfl⟩ := List.mem_map.mp hk
    have hd₁ := h₁.due item hi
    have hi₂ := h₂.all hread₂ item ((hdue item).mp hd₁)
    rw [M.fate_const h₁.nodup hi, M.fate_const h₂.nodup hi₂]
    · intro before after hsplit
      apply hconst item hd₁ before
      intro x hx
      exact (hdue x).mpr (h₂.due x (hsplit ▸ List.mem_append_left _ hx))
    · intro before after hsplit
      apply hconst item hd₁ before
      intro x hx
      exact h₁.due x (hsplit ▸ List.mem_append_left _ hx)
  · have hk₂ : k ∉ order₂.map PendingMls.event_id := by
      intro hin
      obtain ⟨item, hi, rfl⟩ := List.mem_map.mp hin
      exact hk (List.mem_map_of_mem (h₁.all hread₁ item ((hdue item).mpr (h₂.due item hi))))
    rw [(M.fate_none_iff _ _ _ _).mpr hk, (M.fate_none_iff _ _ _ _).mpr hk₂]

end Reached

/-- No commit of the epoch is to be taken: no event that is moves the copy from it. -/
theorem next_of_not_moves {M : EpochModel X} {room : String} {c : Client D} {S : List StoredEvent}
    {e : Nat} (h : ¬ Moves M room c S e) {item : PendingMls} (hdue : Due room c S item) :
    M.next c.session.user_id e item = e := by
  cases item with
  | Message m => rfl
  | Commit m =>
    have hnot : ¬ (m.sender ≠ c.session.user_id ∧ M.commitEpoch m.room_id m.commit_b64 = some e) :=
      fun hboth => h ⟨m, hdue, hboth.1, hboth.2⟩
    simp only [EpochModel.next]
    rw [if_neg hnot]

theorem markAt_of_not_reads {M : EpochModel X} {room : String} {c : Client D} {S : List StoredEvent}
    {e e' : Nat} (h : ¬ Reads M room c S e) (h' : ¬ Reads M room c S e') {item : PendingMls}
    (hdue : Due room c S item) : M.markAt e' item = M.markAt e item := by
  cases item with
  | Commit m => rfl
  | Message m =>
    have hnot : M.messageEpoch m.room_id m.ciphertext_b64 ≠ some e := fun he => h ⟨m, hdue, he⟩
    have hnot' : M.messageEpoch m.room_id m.ciphertext_b64 ≠ some e' := fun he => h' ⟨m, hdue, he⟩
    simp only [EpochModel.markAt]
    rw [if_neg hnot, if_neg hnot']

/-- Where the order does not matter, any two deliveries have one outcome. -/
theorem order_free_same {M : EpochModel X} {room : String} {d : D} {e : Nat} {c c₁ c₂ : Client D}
    {S got₁ got₂ : List StoredEvent} {order₁ order₂ : List PendingMls}
    (hseen₁ : ∀ k, c.store.seen got₁ k = c.store.seen S k)
    (hseen₂ : ∀ k, c.store.seen got₂ k = c.store.seen S k) (hfree : OrderFree M room c S e)
    (h₁ : Reached M room d e c got₁ order₁ c₁) (h₂ : Reached M room d e c got₂ order₂ c₂) :
    SameOutcome M.epoch c₁ c₂ := by
  have hdue₁ : ∀ item, Due room c got₁ item ↔ Due room c S item := due_congr hseen₁
  have hdue₂ : ∀ item, Due room c got₂ item ↔ Due room c S item := due_congr hseen₂
  have hdue : ∀ item, Due room c got₁ item ↔ Due room c got₂ item := fun item =>
    (hdue₁ item).trans (hdue₂ item).symm
  have hin₁ : ∀ item ∈ order₁, Due room c S item := fun item hi => (hdue₁ item).mp (h₁.due item hi)
  have hin₂ : ∀ item ∈ order₂, Due room c S item := fun item hi => (hdue₂ item).mp (h₂.due item hi)
  have hseen : ∀ k, c.store.seen got₁ k = c.store.seen got₂ k := fun k =>
    (hseen₁ k).trans (hseen₂ k).symm
  by_cases hmoves : Moves M room c S e
  · rcases hfree with ⟨hnot, -⟩ | ⟨hread, hr, hr', hm'⟩
    · exact absurd hmoves hnot
    · -- the copy goes to the next epoch, wherever its commit stands
      obtain ⟨m, hdueM, hsender, hepochM⟩ := hmoves
      have hread₁ := (readable_congr hseen₁).mpr hread
      have hread₂ := (readable_congr hseen₂).mpr hread
      have hmoved : M.next c.session.user_id e (.Commit m) = e + 1 := by
        simp only [EpochModel.next]
        rw [if_pos ⟨hsender, hepochM⟩]
      have hlast : ∀ items : List PendingMls, (∀ x ∈ items, Due room c S x) →
          PendingMls.Commit m ∈ items → M.nextAll c.session.user_id e items = e + 1 := by
        intro items hin hmem
        have honce := M.nextAll_once (fun x hx => next_of_not_moves hm' (hin x hx))
        have hleaves := M.nextAll_leaves hmem hmoved
        omega
      apply h₁.sameOutcome h₂.toPartway hseen
      · rw [hlast order₁ hin₁ (h₁.all hread₁ _ ((hdue₁ _).mpr hdueM)),
          hlast order₂ hin₂ (h₂.all hread₂ _ ((hdue₂ _).mpr hdueM))]
      · intro k r _
        rw [h₁.fate_same h₂ hread₁ hread₂ hdue]
        intro item hitem before hbefore
        have honce : M.nextAll c.session.user_id e before = e ∨
            M.nextAll c.session.user_id e before = e + 1 :=
          M.nextAll_once (fun x hx => next_of_not_moves hm' ((hdue₁ x).mp (hbefore x hx)))
        rcases honce with hn | hn
        · rw [hn]
        · rw [hn]
          exact markAt_of_not_reads hr hr' ((hdue₁ item).mp hitem)
  · -- the copy stays where it is
    have hstill : ∀ items : List PendingMls, (∀ x ∈ items, Due room c S x) →
        M.nextAll c.session.user_id e items = e := fun items hin =>
      M.nextAll_still (fun x hx => next_of_not_moves hmoves (hin x hx))
    have hsame : M.nextAll c.session.user_id e order₁ = M.nextAll c.session.user_id e order₂ := by
      rw [hstill order₁ hin₁, hstill order₂ hin₂]
    apply h₁.sameOutcome h₂.toPartway hseen hsame
    intro k r hr
    by_cases hread : AllReadable c S
    · have hread₁ := (readable_congr hseen₁).mpr hread
      have hread₂ := (readable_congr hseen₂).mpr hread
      rw [h₁.fate_same h₂ hread₁ hread₂ hdue]
      intro item _ before hbefore
      rw [hstill before (fun x hx => (hdue₁ x).mp (hbefore x hx))]
    · have hno : ∀ m, ¬ Due room c S (.Message m) := by
        rcases hfree with ⟨-, hread' | hno⟩ | ⟨hread', -⟩
        · exact absurd hread' hread
        · exact hno
        · exact absurd hread' hread
      rw [h₁.told_of_commits (fun m hm => hno m ((hdue₁ _).mp hm)) hr,
        h₂.told_of_commits (fun m hm => hno m ((hdue₂ _).mp hm)) (hseen k ▸ hr)]

/-! ## Deliveries that tell -/

section

variable {M : EpochModel X} {room : String} {d : D} {e : Nat} {c : Client D} {S : List StoredEvent}
  (hd : c.e2ee = some d) (he : M.epoch d room = some e) (hrest : AtRest X c)

include hrest in
theorem readable_nil : AllReadable c [] := by
  intro k r hr hw
  obtain ⟨pre, hpending, -⟩ := hrest
  rcases Store.seen_cases hr with hold | ⟨-, ev, hev, -⟩
  · exact Store.readable_of_pending hpending (Table.find_some_iff.mp hold).1 hw
  · cases hev

theorem AllReadable.append {got : List StoredEvent} (h : AllReadable c got) {ev : StoredEvent}
    (hev : ∃ o, Store.pendingOf (Store.rowOf ev) = .ok o) : AllReadable c (got ++ [ev]) := by
  intro k r hr hw
  rw [Store.seen_append] at hr
  cases hs : c.store.seen got k with
  | some r' =>
    rw [hs] at hr
    cases hr
    exact h k r hs hw
  | none =>
    rw [hs, Option.none_or, Option.map_eq_some_iff] at hr
    obtain ⟨ev', hev', rfl⟩ := hr
    have hmem := List.mem_of_find?_eq_some hev'
    rw [List.mem_singleton] at hmem
    rw [hmem]
    exact hev

include hd he hrest

/-- What is due is an event of `S` that is new to the client. -/
theorem Due.event {item : PendingMls} (h : Due room c S item) : ∃ ev ∈ S,
    ev.event_id = item.event_id ∧ c.store.events.find item.event_id = none ∧
      Store.pendingOf (Store.rowOf ev) = .ok (some item) ∧ Due room c [ev] item := by
  obtain ⟨r, hr, hw, hof, hroom, hl⟩ := h
  rcases Store.seen_cases hr with hold | ⟨hnone, ev, hev, hid, rfl⟩
  · exfalso
    have hstart := Reached.start M hd he hrest
    have hdue : Due room c [] item := by
      refine ⟨r, ?_, hw, hof, hroom, hl⟩
      unfold Store.seen
      rw [hold]
      rfl
    exact absurd (hstart.all (readable_nil hrest) item hdue) List.not_mem_nil
  · refine ⟨ev, hev, hid, hnone, hof, Store.rowOf ev, ?_, hw, hof, hroom, hl⟩
    unfold Store.seen
    rw [hnone]
    simp [hid]

omit he in
/-- One event alone: the pass takes it. -/
theorem Reached.one {c' : Client D} {got : List StoredEvent} {order : List PendingMls}
    (h : Reached M room d e c got order c') (hread : AllReadable c got)
    (hgot : ∀ ev ∈ got, GroupEvent room ev) {ev : StoredEvent} (hev : GroupEvent room ev)
    {item : PendingMls} (hof : Store.pendingOf (Store.rowOf ev) = .ok (some item))
    (hdue : Due room c [ev] item) (hfresh : c.store.seen got item.event_id = none) :
    Reached M room d e c (got ++ [ev]) (order ++ [item]) (c'.deliver X room (.sync, [ev])) := by
  have hone : ∀ x ∈ (Source.sync, [ev]).2, GroupEvent room x := by
    intro x hx
    rw [List.mem_singleton.mp hx]
    exact hev
  obtain ⟨new, hnew⟩ := h.deliver hd hrest hgot hone
  have hread' : AllReadable c (got ++ [ev]) := hread.append ⟨some item, hof⟩
  have hdue' : Due room c (got ++ [ev]) item := by
    obtain ⟨r, hr, hw, hof', hl⟩ := hdue
    refine ⟨r, ?_, hw, hof', hl⟩
    rw [Store.seen_append, hfresh, Option.none_or]
    unfold Store.seen at hr hfresh
    rw [Option.or_eq_none_iff] at hfresh
    rw [hfresh.1, Option.none_or] at hr
    exact hr
  have hnodup := hnew.nodup
  rw [List.map_append, List.nodup_append] at hnodup
  -- what the pass takes is due, and it was not before
  have honly : ∀ x ∈ new, x = item := by
    intro x hx
    obtain ⟨r, hr, hw, hof', hl⟩ := hnew.due x (List.mem_append_right _ hx)
    rw [Store.seen_append] at hr
    cases hs : c.store.seen got x.event_id with
    | some r' =>
      rw [hs] at hr
      cases hr
      have hin := h.all hread x ⟨r, hs, hw, hof', hl⟩
      exact absurd rfl (hnodup.2.2 _ (List.mem_map_of_mem hin) _ (List.mem_map_of_mem hx))
    | none =>
      rw [hs, Option.none_or, Option.map_eq_some_iff] at hr
      obtain ⟨ev', hev', rfl⟩ := hr
      have hmem := List.mem_of_find?_eq_some hev'
      rw [List.mem_singleton] at hmem
      rw [hmem, hof] at hof'
      cases hof'
      rfl
  have hmem : item ∈ new := by
    rcases List.mem_append.mp (hnew.all hread' item hdue') with hin | hin
    · obtain ⟨r, hr, -⟩ := h.due item hin
      rw [hfresh] at hr
      cases hr
    · exact hin
  have hlist : new = [item] := by
    cases new with
    | nil => cases hmem
    | cons x rest =>
      have hx := honly x List.mem_cons_self
      cases rest with
      | nil => rw [hx]
      | cons y rest' =>
        have hy := honly y (List.mem_cons_of_mem _ List.mem_cons_self)
        have hn := hnodup.2.1
        rw [hx, hy] at hn
        simp at hn
  rw [hlist] at hnew
  exact hnew

/-- An event of `S` comes first, and then all of `S`. -/
theorem one_then_all (hS : ∀ ev ∈ S, GroupEvent room ev) {a : PendingMls} (ha : Due room c S a) :
    ∃ batches got rest, Delivers S batches ∧ (∀ ev, ev ∈ got ↔ ev ∈ S) ∧
      Reached M room d e c got (a :: rest) (c.deliverAll X room batches) := by
  obtain ⟨evA, hevA, hidA, hnewA, hofA, hdueA⟩ := ha.event hd he hrest
  have hfreshA : c.store.seen [] a.event_id = none := by
    unfold Store.seen
    rw [hnewA]
    rfl
  have hone := (Reached.start M hd he hrest).one hd hrest (readable_nil hrest)
    (fun ev hev => by cases hev) (hS evA hevA) hofA hdueA hfreshA
  have hgotA : ∀ ev ∈ [] ++ [evA], GroupEvent room ev := by
    intro ev hev
    rw [List.nil_append, List.mem_singleton] at hev
    rw [hev]
    exact hS evA hevA
  obtain ⟨rest, hall⟩ := @Reached.deliver _ _ _ _ _ _ _ hd hrest _ _ _ hone hgotA (.sync, S) hS
  have hmem : ∀ ev, ev ∈ ([] ++ [evA]) ++ S ↔ ev ∈ S := by
    intro ev
    simp only [List.mem_append, List.mem_singleton, List.not_mem_nil, false_or]
    constructor
    · rintro (rfl | h)
      · exact hevA
      · exact h
    · exact Or.inr
  refine ⟨[(.sync, [evA]), (.sync, S)], _, rest, ?_, hmem, hall⟩
  intro ev
  rw [← hmem ev]
  simp

/-- Two events of `S` come one by one, and then all of `S`. -/
theorem two_then_all (hS : ∀ ev ∈ S, GroupEvent room ev) {a b : PendingMls} (ha : Due room c S a)
    (hb : Due room c S b) (hne : a.event_id ≠ b.event_id) : ∃ batches got rest,
      Delivers S batches ∧ (∀ ev, ev ∈ got ↔ ev ∈ S) ∧
      Reached M room d e c got ([a, b] ++ rest) (c.deliverAll X room batches) := by
  obtain ⟨evA, hevA, hidA, hnewA, hofA, hdueA⟩ := ha.event hd he hrest
  obtain ⟨evB, hevB, hidB, hnewB, hofB, hdueB⟩ := hb.event hd he hrest
  have hstart := Reached.start M hd he hrest
  have hfreshA : c.store.seen [] a.event_id = none := by
    unfold Store.seen
    rw [hnewA]
    rfl
  have hfreshB : c.store.seen ([] ++ [evA]) b.event_id = none := by
    have hneB : ¬ evA.event_id = b.event_id := by
      rw [hidA]
      exact hne
    unfold Store.seen
    rw [hnewB]
    simp [hneB]
  have hone := hstart.one hd hrest (readable_nil hrest) (fun ev hev => by cases hev) (hS evA hevA)
    hofA hdueA hfreshA
  have hgotA : ∀ ev ∈ [] ++ [evA], GroupEvent room ev := by
    intro ev hev
    rw [List.nil_append, List.mem_singleton] at hev
    rw [hev]
    exact hS evA hevA
  have htwo := hone.one hd hrest ((readable_nil hrest).append ⟨some a, hofA⟩) hgotA (hS evB hevB)
    hofB hdueB hfreshB
  have hgotAB : ∀ ev ∈ ([] ++ [evA]) ++ [evB], GroupEvent room ev := by
    intro ev hev
    rcases List.mem_append.mp hev with hev | hev
    · exact hgotA ev hev
    · rw [List.mem_singleton.mp hev]
      exact hS evB hevB
  obtain ⟨rest, hall⟩ := @Reached.deliver _ _ _ _ _ _ _ hd hrest _ _ _ htwo hgotAB (.sync, S) hS
  have hmem : ∀ ev, ev ∈ (([] ++ [evA]) ++ [evB]) ++ S ↔ ev ∈ S := by
    intro ev
    simp only [List.mem_append, List.mem_singleton, List.not_mem_nil, false_or]
    constructor
    · rintro ((rfl | rfl) | h)
      · exact hevA
      · exact hevB
      · exact h
    · exact Or.inr
  refine ⟨[(.sync, [evA]), (.sync, [evB]), (.sync, S)], _, rest, ?_, hmem, hall⟩
  intro ev
  rw [← hmem ev]
  simp

/-- All of `S` in one batch, where the pass cannot read one of them. -/
theorem all_unread (hS : ∀ ev ∈ S, GroupEvent room ev) (hread : ¬ AllReadable c S) :
    Partway M room d e c S [] (c.deliverAll X room [(.sync, S)]) := by
  have hpart := (Reached.start M hd he hrest).toPartway.take_in S
  rw [List.nil_append] at hpart
  have hpass := hpart.unread_pass hread
  have hrun : c.deliverAll X room [(.sync, S)] = c.deliver X room (.sync, S) := rfl
  rw [hrun, Client.deliver_eq hS, hpass]
  exact hpart

end

theorem delivers_one (S : List StoredEvent) : Delivers S [(.sync, S)] := by
  intro ev
  simp

/-! ## Where the order matters -/

theorem told_text (plaintext : String) (r : EventRow) :
    ((Mark.text plaintext).row r).told = (some plaintext, false) := rfl

theorem told_failed (r : EventRow) : (Mark.failed.row r).told = (r.decrypted, true) := rfl

/-- A message is read at its epoch, and undecryptable at any other. -/
theorem told_apart (M : EpochModel X) (m : PendingDecrypt) {e e' : Nat}
    (h : M.messageEpoch m.room_id m.ciphertext_b64 = some e) (hne : e ≠ e') (r : EventRow) :
    ((M.markAt e (.Message m)).row r).told ≠ ((M.markAt e' (.Message m)).row r).told := by
  have hne' : ¬ M.messageEpoch m.room_id m.ciphertext_b64 = some e' := by
    rw [h]
    intro heq
    exact hne (Option.some.inj heq)
  simp only [EpochModel.markAt]
  rw [if_pos h, if_neg hne', told_text, told_failed]
  intro heq
  have hflag := congrArg Prod.snd heq
  cases hflag

/-- An event that has been marked as read or as undecryptable is not as it came. -/
theorem told_moved (M : EpochModel X) (m : PendingDecrypt) (e : Nat) (ev : StoredEvent) :
    ((M.markAt e (.Message m)).row (Store.rowOf ev)).told ≠ (Store.rowOf ev).told := by
  simp only [EpochModel.markAt]
  by_cases h : M.messageEpoch m.room_id m.ciphertext_b64 = some e
  · rw [if_pos h, told_text]
    intro heq
    have htext := congrArg Prod.fst heq
    cases htext
  · rw [if_neg h, told_failed]
    intro heq
    have hflag := congrArg Prod.snd heq
    cases hflag

section

variable {M : EpochModel X} {room : String} {d : D} {e : Nat} {c : Client D} {S : List StoredEvent}
  (hd : c.e2ee = some d) (he : M.epoch d room = some e) (hrest : AtRest X c)
  (hS : ∀ ev ∈ S, GroupEvent room ev)
  (hid : ∀ a ∈ S, ∀ b ∈ S, a.event_id = b.event_id → a = b)

/-- The commit that `Moves` gives moves the copy on. -/
theorem Moves.commit {e' : Nat} (h : Moves M room c S e') : ∃ m, Due room c S (.Commit m) ∧
    M.next c.session.user_id e' (.Commit m) = e' + 1 := by
  obtain ⟨m, hdue, hsender, hepoch⟩ := h
  refine ⟨m, hdue, ?_⟩
  simp only [EpochModel.next]
  rw [if_pos ⟨hsender, hepoch⟩]

theorem due_kinds_apart {m : PendingCommit} {m' : PendingDecrypt} (h : Due room c S (.Commit m))
    (h' : Due room c S (.Message m')) :
    PendingMls.event_id (.Commit m) ≠ PendingMls.event_id (.Message m') := by
  intro heq
  cases h.unique h' heq

/-- What the passes tell of an event that came first. -/
theorem told_first {c' : Client D} {got : List StoredEvent} {item : PendingMls}
    {rest : List PendingMls} (h : Reached M room d e c got (item :: rest) c') {r : EventRow}
    (hr : c.store.seen got item.event_id = some r) :
    c'.store.outcome item.event_id = some ((M.markAt e item).row r).told := by
  rw [h.outcome, hr, M.fate_cons, if_pos rfl]
  rfl

/-- What the passes tell of an event that came second. -/
theorem told_second {c' : Client D} {got : List StoredEvent} {first item : PendingMls}
    {rest : List PendingMls} (h : Reached M room d e c got (first :: item :: rest) c')
    {r : EventRow}
    (hne : first.event_id ≠ item.event_id) (hr : c.store.seen got item.event_id = some r) :
    c'.store.outcome item.event_id =
      some ((M.markAt (M.next c.session.user_id e first) item).row r).told := by
  rw [h.outcome, hr, M.fate_cons, if_neg hne, M.fate_cons, if_pos rfl]
  rfl

include hd he hrest hS hid

/-- A message of the epoch before a commit, or of the one after it, tells which came first. -/
theorem reads_tells (hm : Moves M room c S e) {e' : Nat} (he' : e' = e ∨ e' = e + 1)
    (hr : Reads M room c S e')
    (hsame : ∀ b₁ b₂, Delivers S b₁ → Delivers S b₂ →
      SameOutcome M.epoch (c.deliverAll X room b₁) (c.deliverAll X room b₂)) : False := by
  obtain ⟨k, hdueK, hmoveK⟩ := hm.commit
  obtain ⟨m, hdueM, hepochM⟩ := hr
  have hne := due_kinds_apart hdueK hdueM
  obtain ⟨b₁, got₁, rest₁, hb₁, hgot₁, h₁⟩ := two_then_all hd he hrest hS hdueK hdueM hne
  obtain ⟨b₂, got₂, rest₂, hb₂, hgot₂, h₂⟩ := two_then_all hd he hrest hS hdueM hdueK hne.symm
  obtain ⟨r, hseen, -⟩ := id hdueM
  have hr₁ := (Store.seen_congr hid hgot₁ _).trans hseen
  have hr₂ := (Store.seen_congr hid hgot₂ _).trans hseen
  have htold := (hsame b₁ b₂ hb₁ hb₂).1 (PendingMls.event_id (.Message m))
  rw [told_second h₁ hne hr₁, told_first h₂ hr₂, hmoveK] at htold
  rcases he' with rfl | rfl
  · exact told_apart M m hepochM (by omega) r (Option.some.inj htold).symm
  · exact told_apart M m hepochM (by omega) r (Option.some.inj htold)

omit hd he hrest hS in
theorem readable_subset (hread : AllReadable c S) {T : List StoredEvent} (hT : ∀ ev ∈ T, ev ∈ S) :
    AllReadable c T := by
  intro k r hr hw
  rcases Store.seen_cases hr with hold | ⟨hnone, ev, hev, hk, rfl⟩
  · apply hread k r _ hw
    unfold Store.seen
    rw [hold]
    rfl
  · apply hread k _ _ hw
    rw [← hk] at hnone ⊢
    exact Store.seen_of_mem hid hnone (hT ev hev)

/-- All the commits of the next epoch come before everything else: the copy goes one epoch at
most. -/
theorem next_commits_first (hread : AllReadable c S) : ∃ batches got order, Delivers S batches ∧
    Reached M room d e c got order (c.deliverAll X room batches) ∧
      M.nextAll c.session.user_id e order ≤ e + 1 := by
  classical
  obtain ⟨T, hTdef⟩ : ∃ T, T = S.filter (fun ev => decide (∃ item,
      Store.pendingOf (Store.rowOf ev) = .ok (some item) ∧
        M.next c.session.user_id (e + 1) item ≠ e + 1)) := ⟨_, rfl⟩
  have hT : ∀ ev ∈ T, ev ∈ S := by
    intro ev hev
    rw [hTdef] at hev
    exact List.mem_of_mem_filter hev
  have hTgroup : ∀ ev ∈ T, GroupEvent room ev := fun ev hev => hS ev (hT ev hev)
  have hidT : ∀ a ∈ T, ∀ b ∈ T, a.event_id = b.event_id → a = b := fun a ha b hb =>
    hid a (hT a ha) b (hT b hb)
  have hmem : ∀ ev, ev ∈ T ++ S ↔ ev ∈ S := by
    intro ev
    rw [List.mem_append]
    exact ⟨fun h => h.elim (hT ev) id, Or.inr⟩
  obtain ⟨early, hearly⟩ := @Reached.deliver _ _ _ _ _ _ _ hd hrest _ _ _
    (Reached.start M hd he hrest) (fun ev hev => by cases hev) (.sync, T) hTgroup
  obtain ⟨late, hlate⟩ := @Reached.deliver _ _ _ _ _ _ _ hd hrest _ _ _ hearly hTgroup (.sync, S) hS
  rw [List.nil_append, List.nil_append] at hearly hlate
  -- the first pass takes none of the epoch of the copy
  have hstill : ∀ x ∈ early, M.next c.session.user_id e x = e := by
    intro x hx
    obtain ⟨ev, hev, -, -, hof, -⟩ := (hearly.due x hx).event hd he hrest
    rw [hTdef, List.mem_filter, decide_eq_true_eq] at hev
    obtain ⟨-, y, hof', hnext⟩ := hev
    rw [hof] at hof'
    cases hof'
    exact M.next_one hnext (by omega)
  -- the second takes none of the next epoch: the first has taken them all
  have honce : ∀ x ∈ late, M.next c.session.user_id (e + 1) x = e + 1 := by
    intro x hx
    by_contra hnext
    have hdue : Due room c S x := (due_congr (Store.seen_congr hid hmem) x).mp
      (hlate.due x (List.mem_append_right _ hx))
    obtain ⟨ev, hev, hk, hnone, hof, r, -, hw, hof', hl⟩ := hdue.event hd he hrest
    have hevT : ev ∈ T := by
      rw [hTdef, List.mem_filter, decide_eq_true_eq]
      exact ⟨hev, x, hof, hnext⟩
    have hseen : c.store.seen T x.event_id = some (Store.rowOf ev) := by
      rw [← hk] at hnone ⊢
      exact Store.seen_of_mem hidT hnone hevT
    have hdueT : Due room c T x := ⟨Store.rowOf ev, hseen, ⟨(hS ev hev).kind, rfl⟩, hof, hl⟩
    have hin := hearly.all (readable_subset hid hread hT) x hdueT
    have hnodup := hlate.nodup
    rw [List.map_append, List.nodup_append] at hnodup
    exact hnodup.2.2 _ (List.mem_map_of_mem hin) _ (List.mem_map_of_mem hx) rfl
  refine ⟨[(.sync, T), (.sync, S)], _, early ++ late, ?_, hlate, ?_⟩
  · intro ev
    rw [← hmem ev]
    simp
  · rw [M.nextAll_append, M.nextAll_still hstill]
    have hnear := M.nextAll_once (e := e) honce
    omega

/-- A commit of the epoch after a commit tells which came first. -/
theorem moves_tells (hread : AllReadable c S) (hm : Moves M room c S e)
    (hm' : Moves M room c S (e + 1))
    (hsame : ∀ b₁ b₂, Delivers S b₁ → Delivers S b₂ →
      SameOutcome M.epoch (c.deliverAll X room b₁) (c.deliverAll X room b₂)) : False := by
  obtain ⟨k₀, hdue₀, hmove₀⟩ := hm.commit
  obtain ⟨k₁, hdue₁, hmove₁⟩ := hm'.commit
  have hne : PendingMls.event_id (.Commit k₀) ≠ PendingMls.event_id (.Commit k₁) := by
    intro heq
    rw [← hdue₀.unique hdue₁ heq] at hmove₁
    have hleft : M.next c.session.user_id e (.Commit k₀) ≠ e := by omega
    have hstill : M.next c.session.user_id (e + 1) (.Commit k₀) = e + 1 :=
      M.next_one hleft (by omega)
    omega
  obtain ⟨b₁, got₁, rest₁, hb₁, -, h₁⟩ := two_then_all hd he hrest hS hdue₀ hdue₁ hne
  obtain ⟨b₂, got₂, order₂, hb₂, h₂, hnear⟩ := next_commits_first hd he hrest hS hid hread
  have hfar : e + 2 ≤ M.nextAll c.session.user_id e ([.Commit k₀, .Commit k₁] ++ rest₁) := by
    rw [M.nextAll_append, M.nextAll_cons, M.nextAll_cons, hmove₀, hmove₁]
    exact M.nextAll_ge _ _ _
  have hepoch := (hsame b₁ b₂ hb₁ hb₂).2 room
  rw [h₁.epochOf, h₂.epochOf, if_pos rfl, if_pos rfl] at hepoch
  have heq := Option.some.inj hepoch
  omega

omit hid in
/-- An event that cannot be read tells whether a commit that applies came before it. -/
theorem unread_tells_commit (hread : ¬ AllReadable c S) (hm : Moves M room c S e)
    (hsame : ∀ b₁ b₂, Delivers S b₁ → Delivers S b₂ →
      SameOutcome M.epoch (c.deliverAll X room b₁) (c.deliverAll X room b₂)) : False := by
  obtain ⟨k, hdue, hmove⟩ := hm.commit
  obtain ⟨b₁, got, rest, hb₁, -, h₁⟩ := one_then_all hd he hrest hS hdue
  have h₂ := all_unread hd he hrest hS hread
  have hepoch := (hsame b₁ _ hb₁ (delivers_one S)).2 room
  rw [h₁.epochOf, h₂.epochOf, if_pos rfl, if_pos rfl, M.nextAll_cons, hmove] at hepoch
  have hge := M.nextAll_ge c.session.user_id (e + 1) rest
  have hnil : M.nextAll c.session.user_id e [] = e := rfl
  have heq := Option.some.inj hepoch
  omega

/-- It tells whether a message came before it. -/
theorem unread_tells_message (hread : ¬ AllReadable c S) {m : PendingDecrypt}
    (hdue : Due room c S (.Message m))
    (hsame : ∀ b₁ b₂, Delivers S b₁ → Delivers S b₂ →
      SameOutcome M.epoch (c.deliverAll X room b₁) (c.deliverAll X room b₂)) : False := by
  obtain ⟨b₁, got, rest, hb₁, hgot, h₁⟩ := one_then_all hd he hrest hS hdue
  have h₂ := all_unread hd he hrest hS hread
  obtain ⟨ev, hev, hk, hnone, -, -⟩ := hdue.event hd he hrest
  have hseen : c.store.seen S (PendingMls.event_id (.Message m)) = some (Store.rowOf ev) := by
    rw [← hk] at hnone ⊢
    exact Store.seen_of_mem hid hnone hev
  have htold := (hsame b₁ _ hb₁ (delivers_one S)).1 (PendingMls.event_id (.Message m))
  have hsecond := h₂.outcome (PendingMls.event_id (.Message m))
  rw [hseen] at hsecond
  rw [told_first h₁ ((Store.seen_congr hid hgot _).trans hseen), hsecond] at htold
  exact told_moved M m e ev (Option.some.inj htold)

end

/-- A client that holds a group at the epoch `e` gets some events of it. Any two ways of
delivering them end with the same epoch, the same plaintexts and the same undecryptable
messages if and only if the set is order free. -/
theorem any_two_deliveries_agree_iff (M : EpochModel X) (room : String) (c : Client D) (d : D)
    (e : Nat) (S : List StoredEvent) (hd : c.e2ee = some d) (he : M.epoch d room = some e)
    (hrest : AtRest X c) (hS : ∀ ev ∈ S, GroupEvent room ev)
    (hid : ∀ a ∈ S, ∀ b ∈ S, a.event_id = b.event_id → a = b) :
    (∀ b₁ b₂, Delivers S b₁ → Delivers S b₂ →
      SameOutcome M.epoch (c.deliverAll X room b₁) (c.deliverAll X room b₂)) ↔
        OrderFree M room c S e := by
  constructor
  · intro hsame
    by_cases hm : Moves M room c S e
    · have hread : AllReadable c S := by
        by_contra hread
        exact unread_tells_commit hd he hrest hS hread hm hsame
      refine Or.inr ⟨hread, ?_, ?_, ?_⟩
      · intro hr
        exact reads_tells hd he hrest hS hid hm (Or.inl rfl) hr hsame
      · intro hr
        exact reads_tells hd he hrest hS hid hm (Or.inr rfl) hr hsame
      · intro hm'
        exact moves_tells hd he hrest hS hid hread hm hm' hsame
    · by_cases hread : AllReadable c S
      · exact Or.inl ⟨hm, Or.inl hread⟩
      · refine Or.inl ⟨hm, Or.inr ?_⟩
        intro m hdue
        exact unread_tells_message hd he hrest hS hid hread hdue hsame
  · intro hfree b₁ b₂ hb₁ hb₂
    have hstart := Reached.start M hd he hrest
    have hnil : ∀ ev ∈ ([] : List StoredEvent), GroupEvent room ev := fun ev hev => by cases hev
    obtain ⟨order₁, h₁⟩ := hstart.deliverAll hd hrest hnil b₁
      (fun ev hev => hS ev ((hb₁ ev).mp hev))
    obtain ⟨order₂, h₂⟩ := hstart.deliverAll hd hrest hnil b₂
      (fun ev hev => hS ev ((hb₂ ev).mp hev))
    exact order_free_same (Store.seen_congr hid hb₁) (Store.seen_congr hid hb₂) hfree h₁ h₂

/-! ## A message that comes before its commit -/

/-- The commit of the epoch 0. -/
def bobCommit : StoredEvent :=
  wireStored "@bob:pigeon.example" "$commit" "p.mls.commit" 3
    (.obj [("commit", .str (epochText 0 "!room"))])

/-- A message of the epoch 1. -/
def bobMessage : StoredEvent :=
  wireStored "@bob:pigeon.example" "$message" "p.room.encrypted" 4
    (.obj [("algorithm", .str "p.mls.1"), ("ciphertext", .str (epochText 1 "hi"))])

theorem bob_events : ∀ ev ∈ [bobCommit, bobMessage], GroupEvent "!room" ev := by
  intro ev hev
  rcases List.mem_cons.mp hev with rfl | hev
  · exact ⟨rfl, rfl, Or.inr rfl⟩
  · rw [List.mem_singleton.mp hev]
    exact ⟨rfl, rfl, Or.inl rfl⟩

theorem member_at_rest : AtRest epochCrypto memberClient :=
  ⟨[], rfl, fun _ hi => absurd hi List.not_mem_nil⟩

theorem any_two_deliveries_agree_iff_bob :
    (∀ b₁ b₂, Delivers [bobCommit, bobMessage] b₁ → Delivers [bobCommit, bobMessage] b₂ →
      SameOutcome epochModel.epoch (memberClient.deliverAll epochCrypto "!room" b₁)
        (memberClient.deliverAll epochCrypto "!room" b₂)) ↔
      OrderFree epochModel "!room" memberClient [bobCommit, bobMessage] 0 := by
  apply any_two_deliveries_agree_iff epochModel "!room" memberClient
    (Copies.set Table.empty "!room" 0) 0 [bobCommit, bobMessage] rfl rfl member_at_rest bob_events
  intro a ha b hb hab
  simp only [List.mem_cons, List.not_mem_nil, or_false] at ha hb
  rcases ha with rfl | rfl
  · rcases hb with rfl | rfl
    · rfl
    · exact absurd hab (by decide)
  · rcases hb with rfl | rfl
    · exact absurd hab (by decide)
    · rfl

/-- The message of a page that comes before the page of its commit stays undecryptable. -/
theorem a_late_commit_loses_a_message : ¬ ∀ b₁ b₂, Delivers [bobCommit, bobMessage] b₁ →
    Delivers [bobCommit, bobMessage] b₂ →
      SameOutcome epochModel.epoch (memberClient.deliverAll epochCrypto "!room" b₁)
        (memberClient.deliverAll epochCrypto "!room" b₂) := by
  intro h
  have hone : Delivers [bobCommit, bobMessage] [(.sync, [bobCommit]), (.sync, [bobMessage])] := by
    intro ev
    simp
  have htwo : Delivers [bobCommit, bobMessage]
      [(.sync, [bobMessage]), (.backfill 50, [bobCommit])] := by
    intro ev
    simp [or_comm]
  have hsame := (h _ _ hone htwo).1 "$message"
  have hread : (memberClient.deliverAll epochCrypto "!room"
      [(.sync, [bobCommit]), (.sync, [bobMessage])]).store.outcome "$message" =
        some (some "hi", false) := rfl
  have hlost : (memberClient.deliverAll epochCrypto "!room"
      [(.sync, [bobMessage]), (.backfill 50, [bobCommit])]).store.outcome "$message" =
        some (none, true) := rfl
  rw [hread, hlost] at hsame
  cases hsame

end PigeonMobile
