-- A pass in the epoch model. A group copy is an epoch, so what a pass does with the events of
-- a group is a walk over epochs: a commit of the epoch that the copy is at moves it on, a
-- message of that epoch is read, and every other event is marked and changes nothing.
import PigeonMobile.MlsPass
import PigeonMobile.EpochGroup

namespace PigeonMobile

variable {D : Type} {X : PigeonCrypto D}

/-! ## What waits -/

namespace Store

/-- The waiting events are the waiting rows that hold a ciphertext or a commit. -/
theorem mem_pending_iff {st : Store} {items : List PendingMls} (h : st.pending_mls = .ok items)
    {item : PendingMls} : item ∈ items ↔
      ∃ r ∈ st.events.rows, Waiting r ∧ pendingOf r = .ok (some item) := by
  obtain ⟨found, hfound, rfl⟩ := pending_mls_ok.mp h
  have hmem : item ∈ found.filterMap id ↔ some item ∈ found := by simp
  rw [hmem]
  constructor
  · intro hin
    obtain ⟨r, hr, hof⟩ := mem_of_forall₂ hfound hin
    obtain ⟨hrow, hw⟩ := mem_pendingRows.mp hr
    exact ⟨r, hrow, hw, hof⟩
  · rintro ⟨r, hr, hw, hof⟩
    obtain ⟨o, ho, hof'⟩ := mem_of_forall₂ hfound.flip (mem_pendingRows.mpr ⟨hr, hw⟩)
    have hsame : o = some item := Except.ok.inj (hof'.symm.trans hof)
    rw [← hsame]
    exact ho

/-- The read gives a list where every waiting row can be read. -/
theorem pending_mls_total {st : Store}
    (h : ∀ r ∈ st.events.rows, Waiting r → ∃ o, pendingOf r = .ok o) :
    ∃ items, st.pending_mls = .ok items := by
  have hall : ∀ r ∈ st.pendingRows, ∃ o, pendingOf r = .ok o := by
    intro r hr
    obtain ⟨hrow, hw⟩ := mem_pendingRows.mp hr
    exact h r hrow hw
  obtain ⟨found, hfound⟩ := mapM_total hall
  exact ⟨_, pending_mls_ok.mpr ⟨found, mapM_ok_iff.mp hfound, rfl⟩⟩

/-- Two waiting events stand in the order of their rows. -/
theorem pending_pairwise {st : Store} {items : List PendingMls} (h : st.pending_mls = .ok items)
    {R : PendingMls → PendingMls → Prop}
    (hrow : ∀ r r', r ∈ st.events.rows → r' ∈ st.events.rows → Waiting r → Waiting r' →
      r.position ≤ r'.position → ∀ a b, pendingOf r = .ok (some a) → pendingOf r' = .ok (some b) →
        R a b) : items.Pairwise R := by
  obtain ⟨found, hfound, rfl⟩ := pending_mls_ok.mp h
  have hsorted := dagSort_sorted (st.events.rows.filter (fun r => decide (Waiting r)))
  rw [← pendingRows_eq] at hsorted
  have hin : ∀ r ∈ st.pendingRows, r ∈ st.events.rows ∧ Waiting r := fun r hr =>
    mem_pendingRows.mp hr
  clear h
  generalize st.pendingRows = rows at hfound hsorted hin
  induction hfound with
  | nil => exact List.Pairwise.nil
  | @cons r o rest os hof hrest ih =>
    rw [List.pairwise_cons] at hsorted
    have htail := ih hsorted.2 (fun x hx => hin x (List.mem_cons_of_mem _ hx))
    cases o with
    | none => exact htail
    | some a =>
      have hhead : ∀ b ∈ os.filterMap id, R a b := by
        intro b hb
        rw [List.mem_filterMap] at hb
        obtain ⟨o', ho', hsome⟩ := hb
        obtain rfl : o' = some b := hsome
        obtain ⟨r', hr', hof'⟩ := mem_of_forall₂ hrest ho'
        have hfirst := hin r List.mem_cons_self
        have hlater := hin r' (List.mem_cons_of_mem _ hr')
        exact hrow r r' hfirst.1 hlater.1 hfirst.2 hlater.2 (hsorted.1 r' hr') a b hof hof'
      exact List.Pairwise.cons hhead htail

theorem readable_of_pending {st : Store} {items : List PendingMls} (h : st.pending_mls = .ok items)
    {r : EventRow} (hr : r ∈ st.events.rows) (hw : Waiting r) : ∃ o, pendingOf r = .ok o := by
  obtain ⟨found, hfound, -⟩ := pending_mls_ok.mp h
  obtain ⟨o, -, hof⟩ := mem_of_forall₂ hfound.flip (mem_pendingRows.mpr ⟨hr, hw⟩)
  exact ⟨o, hof⟩

end Store

/-! ## One event -/

/-- An event that the pass does not hold back: an own message waits while one is queued. -/
def Live (self_user : String) (queued : String → Bool) : PendingMls → Prop
  | .Commit _ => True
  | .Message m => ¬ (m.sender = self_user ∧ queued m.room_id = true)

instance (self_user : String) (queued : String → Bool) (item : PendingMls) :
    Decidable (Live self_user queued item) := by
  cases item with
  | Commit c => exact isTrue trivial
  | Message m =>
    unfold Live
    infer_instance

namespace EpochModel

variable (M : EpochModel X)

/-- The epoch of a copy after an event of its group: commits of the own user are skipped. -/
def next (self_user : String) (e : Nat) : PendingMls → Nat
  | .Commit c =>
    if c.sender ≠ self_user ∧ M.commitEpoch c.room_id c.commit_b64 = some e then e + 1 else e
  | .Message _ => e

/-- The mark that an event of the group gets at an epoch. -/
def markAt (e : Nat) : PendingMls → Mark
  | .Commit _ => .processed
  | .Message m =>
    if M.messageEpoch m.room_id m.ciphertext_b64 = some e then
      .text (M.plaintext m.room_id m.ciphertext_b64)
    else .failed

/-- The epoch after a list of events. -/
def nextAll (self_user : String) (e : Nat) (items : List PendingMls) : Nat :=
  items.foldl (M.next self_user) e

theorem next_ge (self_user : String) (e : Nat) (item : PendingMls) :
    e ≤ M.next self_user e item := by
  cases item with
  | Commit c =>
    simp only [next]
    by_cases h : c.sender ≠ self_user ∧ M.commitEpoch c.room_id c.commit_b64 = some e
    · rw [if_pos h]
      omega
    · rw [if_neg h]
  | Message m => exact Nat.le_refl e

theorem nextAll_ge (self_user : String) (e : Nat) (items : List PendingMls) :
    e ≤ M.nextAll self_user e items := by
  induction items generalizing e with
  | nil => exact Nat.le_refl e
  | cons item rest ih =>
    have h1 := M.next_ge self_user e item
    have h2 := ih (M.next self_user e item)
    unfold nextAll at h2 ⊢
    rw [List.foldl_cons]
    omega

theorem nextAll_append (self_user : String) (e : Nat) (items rest : List PendingMls) :
    M.nextAll self_user e (items ++ rest) =
      M.nextAll self_user (M.nextAll self_user e items) rest := List.foldl_append

end EpochModel

/-- An event of a group that is not held waits. -/
theorem verdict_no_group {c : Client D} {d : D} (h : c.e2ee = some d) {item : PendingMls}
    (hg : X.load_group d item.room_id = false) : c.verdict X item = .wait := by
  unfold Client.verdict
  rw [h]
  cases item with
  | Commit m =>
    have hg' : X.load_group d m.room_id = false := hg
    simp [judge, hg']
  | Message m =>
    have hg' : X.load_group d m.room_id = false := hg
    simp [judge, hg']

/-- An event that is held back waits. -/
theorem verdict_held {c : Client D} {item : PendingMls}
    (hl : ¬ Live c.session.user_id c.store.has_pending_send item) : c.verdict X item = .wait := by
  unfold Client.verdict
  cases c.e2ee with
  | none => rfl
  | some d =>
    cases item with
    | Commit m => exact absurd trivial hl
    | Message m =>
      have hs : m.sender = c.session.user_id ∧ c.store.has_pending_send m.room_id = true := by
        unfold Live at hl
        exact not_not.mp hl
      simp [judge, hs]

/-- Any other event moves the epoch as the walk says, and gets its mark. -/
theorem digest_live (M : EpochModel X) {c : Client D} {d : D} (h : c.e2ee = some d)
    {item : PendingMls} {e : Nat} (he : M.epoch d item.room_id = some e)
    (hl : Live c.session.user_id c.store.has_pending_send item) :
    ∃ d', (c.digest X item).e2ee = some d' ∧
      (∀ r, M.epoch d' r =
        if r = item.room_id then some (M.next c.session.user_id e item) else M.epoch d r) ∧
      (c.digest X item).store = (M.markAt e item).write item.event_id c.store := by
  have hsame : ∀ r, M.epoch d r = if r = item.room_id then some e else M.epoch d r := by
    intro r
    by_cases hr : r = item.room_id
    · rw [if_pos hr, hr, he]
    · rw [if_neg hr]
  unfold Client.digest Client.verdict
  rw [h]
  cases item with
  | Commit m =>
    have hg : X.load_group d m.room_id = true := by
      rw [M.load_group]
      simp only [PendingMls.room_id] at he
      rw [he]
      rfl
    simp only [judge, hg, if_true, EpochModel.next, EpochModel.markAt]
    by_cases hs : m.sender ≠ c.session.user_id
    · rw [if_pos hs]
      by_cases hc : M.commitEpoch m.room_id m.commit_b64 = some e
      · obtain ⟨d', hx, hmove⟩ := M.commit_applies d m.room_id m.commit_b64 e he hc
        rw [hx, if_pos ⟨hs, hc⟩]
        exact ⟨d', rfl, hmove, rfl⟩
      · obtain ⟨reason, hx⟩ := M.commit_refused d m.room_id m.commit_b64 (by
          simp only [PendingMls.room_id] at he
          rw [he]
          exact hc)
        have hnot : ¬ (m.sender ≠ c.session.user_id ∧
            M.commitEpoch m.room_id m.commit_b64 = some e) := fun hboth => hc hboth.2
        rw [hx, if_neg hnot]
        exact ⟨d, h, hsame, rfl⟩
    · have hnot : ¬ (m.sender ≠ c.session.user_id ∧
          M.commitEpoch m.room_id m.commit_b64 = some e) := fun hboth => hs hboth.1
      rw [if_neg hs, if_neg hnot]
      exact ⟨d, h, hsame, rfl⟩
  | Message m =>
    have hg : X.load_group d m.room_id = true := by
      rw [M.load_group]
      simp only [PendingMls.room_id] at he
      rw [he]
      rfl
    have hnot : ¬ (m.sender = c.session.user_id ∧ c.store.has_pending_send m.room_id = true) := hl
    simp only [judge, hg, if_true, EpochModel.next, EpochModel.markAt]
    rw [if_neg hnot]
    by_cases hc : M.messageEpoch m.room_id m.ciphertext_b64 = some e
    · obtain ⟨d', hx, hmove⟩ := M.message_reads d m.room_id m.ciphertext_b64 e he hc
      rw [hx, if_pos hc]
      exact ⟨d', rfl, fun r => (hmove r).trans (hsame r), rfl⟩
    · obtain ⟨reason, hx⟩ := M.message_refused d m.room_id m.ciphertext_b64 (by
        simp only [PendingMls.room_id] at he
        rw [he]
        exact hc)
      rw [hx, if_neg hc]
      exact ⟨d, h, hsame, rfl⟩

/-! ## What a walk does to a row -/

/-- A row with the mark that it has got, if it has got one. -/
def markRow : Option Mark → EventRow → EventRow
  | none, r => r
  | some mark, r => mark.row r

namespace EpochModel

variable (M : EpochModel X)

/-- The mark that a walk from the epoch `e` gives an event. -/
def fate (self_user : String) : Nat → List PendingMls → String → Option Mark
  | _, [], _ => none
  | e, item :: rest, event_id =>
    if item.event_id = event_id then some (M.markAt e item)
    else fate self_user (M.next self_user e item) rest event_id

theorem fate_cons (self_user : String) (e : Nat) (item : PendingMls) (rest : List PendingMls)
    (event_id : String) : M.fate self_user e (item :: rest) event_id =
      if item.event_id = event_id then some (M.markAt e item)
      else M.fate self_user (M.next self_user e item) rest event_id := rfl

theorem fate_none_iff (self_user : String) (e : Nat) (items : List PendingMls) (event_id : String) :
    M.fate self_user e items event_id = none ↔ event_id ∉ items.map PendingMls.event_id := by
  induction items generalizing e with
  | nil => simp [fate]
  | cons item rest ih =>
    rw [fate_cons]
    by_cases h : item.event_id = event_id
    · rw [if_pos h]
      simp [h]
    · rw [if_neg h, ih]
      have h' : event_id ≠ item.event_id := fun heq => h heq.symm
      simp [h']

theorem fate_append (self_user : String) (e : Nat) (items rest : List PendingMls)
    (event_id : String) : M.fate self_user e (items ++ rest) event_id =
      if event_id ∈ items.map PendingMls.event_id then M.fate self_user e items event_id
      else M.fate self_user (M.nextAll self_user e items) rest event_id := by
  induction items generalizing e with
  | nil => rfl
  | cons item items ih =>
    rw [List.cons_append, fate_cons, fate_cons]
    by_cases h : item.event_id = event_id
    · rw [if_pos h, if_pos h, if_pos (by simp [h])]
    · rw [if_neg h, if_neg h, ih]
      have h' : event_id ≠ item.event_id := fun heq => h heq.symm
      have hmem : event_id ∈ (item :: items).map PendingMls.event_id ↔
          event_id ∈ items.map PendingMls.event_id := by simp [h']
      by_cases hin : event_id ∈ items.map PendingMls.event_id
      · rw [if_pos hin, if_pos (hmem.mpr hin)]
      · rw [if_neg hin, if_neg (fun hc => hin (hmem.mp hc))]
        rfl

/-- The mark of the event in the middle of a walk. -/
theorem fate_mid (self_user : String) (e : Nat) (before after : List PendingMls) (item : PendingMls)
    (h : item.event_id ∉ before.map PendingMls.event_id) :
    M.fate self_user e (before ++ item :: after) item.event_id =
      some (M.markAt (M.nextAll self_user e before) item) := by
  rw [fate_append, if_neg h, fate_cons, if_pos rfl]

end EpochModel

/-! ## A pass over one group -/

/-- An event of the group of `room` that the pass does not hold back. -/
def LiveIn (room self_user : String) (queued : String → Bool) (item : PendingMls) : Prop :=
  item.room_id = room ∧ Live self_user queued item

instance (room self_user : String) (queued : String → Bool) (item : PendingMls) :
    Decidable (LiveIn room self_user queued item) := by
  unfold LiveIn
  infer_instance

/-- What a pass does, where the waiting events of other groups cannot be taken: it walks over
the events of the one group. -/
structure Walked (M : EpochModel X) (room : String) (d : D) (e : Nat) (c : Client D)
    (items : List PendingMls) (c' : Client D) : Prop where
  session : c'.session = c.session
  queue : c'.store.pending_sends = c.store.pending_sends
  engine : ∃ d', c'.e2ee = some d' ∧ ∀ r, M.epoch d' r =
    if r = room then some (M.nextAll c.session.user_id e items) else M.epoch d r
  rows : ∀ k, c'.store.events.find k =
    (c.store.events.find k).map (markRow (M.fate c.session.user_id e items k))

theorem has_pending_send_congr {st st' : Store} (h : st'.pending_sends = st.pending_sends) :
    st'.has_pending_send = st.has_pending_send := by
  funext room_id
  unfold Store.has_pending_send
  rw [h]

/-- An event that waits is of a group that is not held, or it is held back. -/
theorem wait_iff (M : EpochModel X) {c : Client D} {d : D} (h : c.e2ee = some d)
    {item : PendingMls} : c.verdict X item = .wait ↔
      M.epoch d item.room_id = none ∨ ¬ Live c.session.user_id c.store.has_pending_send item := by
  constructor
  · intro hv
    by_cases hl : Live c.session.user_id c.store.has_pending_send item
    · cases he : M.epoch d item.room_id with
      | none => exact Or.inl rfl
      | some e =>
        obtain ⟨d', -, -, hstore⟩ := digest_live M h he hl
        have hsame : c.digest X item = c := Client.digest_wait X hv
        exfalso
        unfold Client.verdict at hv
        rw [h] at hv
        have hg : X.load_group d item.room_id = true := by
          rw [M.load_group, he]
          rfl
        cases item with
        | Commit m =>
          have hg' : X.load_group d m.room_id = true := hg
          simp only [judge, hg', if_true] at hv
          split at hv <;> cases hv
        | Message m =>
          have hg' : X.load_group d m.room_id = true := hg
          have hnot : ¬ (m.sender = c.session.user_id ∧
              c.store.has_pending_send m.room_id = true) := hl
          simp only [judge, hg', if_true] at hv
          rw [if_neg hnot] at hv
          have htake := readVerdict_isTake (X.decrypt d m.room_id m.ciphertext_b64)
          rw [hv] at htake
          cases htake
    · exact Or.inr hl
  · rintro (he | hl)
    · apply verdict_no_group h
      rw [M.load_group, he]
      rfl
    · exact verdict_held hl

theorem walk_digestAll (M : EpochModel X) (room : String) {c : Client D} {d : D}
    (h : c.e2ee = some d) {e : Nat} (he : M.epoch d room = some e) (items : List PendingMls)
    (hnodup : (items.map PendingMls.event_id).Nodup)
    (hother : ∀ item ∈ items, item.room_id = room ∨ c.verdict X item = .wait) :
    Walked M room d e c (items.filter (fun item =>
      decide (LiveIn room c.session.user_id c.store.has_pending_send item)))
        (c.digestAll X items) := by
  induction items generalizing c d e with
  | nil =>
    refine ⟨rfl, rfl, ⟨d, h, ?_⟩, ?_⟩
    · intro r
      by_cases hr : r = room
      · rw [if_pos hr, hr, he]
        rfl
      · rw [if_neg hr]
    · intro k
      have hsame : c.digestAll X [] = c := rfl
      have hid : markRow none = id := rfl
      have hnone : M.fate c.session.user_id e [] k = none := rfl
      rw [List.filter_nil, hnone, hid, Option.map_id, hsame]
      rfl
  | cons item rest ih =>
    rw [List.map_cons, List.nodup_cons] at hnodup
    have hrest : ∀ x ∈ rest, x.room_id = room ∨ c.verdict X x = .wait := fun x hx =>
      hother x (List.mem_cons_of_mem _ hx)
    by_cases hlive : LiveIn room c.session.user_id c.store.has_pending_send item
    · -- the event is taken: the copy moves, and its row is marked
      obtain ⟨hroom, hl⟩ := hlive
      obtain ⟨d', hd', hmove, hstore⟩ := digest_live M h (hroom.symm ▸ he) hl
      rw [hroom] at hmove
      have hsession : (c.digest X item).session = c.session := Client.take_session X c _ _
      have hqueue : (c.digest X item).store.pending_sends = c.store.pending_sends :=
        Client.take_queue X c _ _
      have hqueued := has_pending_send_congr hqueue
      have he' : M.epoch d' room = some (M.next c.session.user_id e item) := by
        rw [hmove, if_pos rfl]
      have hother' : ∀ x ∈ rest, x.room_id = room ∨ (c.digest X item).verdict X x = .wait := by
        intro x hx
        rcases hrest x hx with hr | hw
        · exact Or.inl hr
        · by_cases hr : x.room_id = room
          · exact Or.inl hr
          · rw [wait_iff M h] at hw
            rw [wait_iff M hd', hsession, hqueued, hmove, if_neg hr]
            exact Or.inr hw
      have hwalk := ih hd' he' hnodup.2 hother'
      have hfilter : (item :: rest).filter (fun x =>
          decide (LiveIn room c.session.user_id c.store.has_pending_send x)) =
          item :: rest.filter (fun x =>
            decide (LiveIn room c.session.user_id c.store.has_pending_send x)) := by
        rw [List.filter_cons, if_pos (decide_eq_true ⟨hroom, hl⟩)]
      rw [hsession, hqueued] at hwalk
      obtain ⟨hs, hq, ⟨d'', hd'', hepoch⟩, hrows⟩ := hwalk
      rw [hfilter]
      refine ⟨hs.trans hsession, hq.trans hqueue, ⟨d'', hd'', ?_⟩, ?_⟩
      · intro r
        rw [hepoch, hsession]
        by_cases hr : r = room
        · rw [if_pos hr, if_pos hr]
          rfl
        · rw [if_neg hr, if_neg hr, hmove, if_neg hr]
      · intro k
        have hrun : c.digestAll X (item :: rest) = (c.digest X item).digestAll X rest := rfl
        rw [hrun, hrows, hsession, hstore, Mark.find_write, Option.map_map, M.fate_cons]
        by_cases hk : item.event_id = k
        · subst hk
          have hnot : M.fate c.session.user_id (M.next c.session.user_id e item)
              (rest.filter (fun x =>
                decide (LiveIn room c.session.user_id c.store.has_pending_send x)))
              item.event_id = none := by
            rw [M.fate_none_iff]
            intro hin
            exact hnodup.1 (List.map_subset _ (List.filter_subset_self _) hin)
          rw [hnot]
          simp only [if_true]
          rfl
        · have hk' : k ≠ item.event_id := fun heq => hk heq.symm
          simp only [hk, hk', if_false]
          rfl
    · have hfilter : (item :: rest).filter (fun x =>
          decide (LiveIn room c.session.user_id c.store.has_pending_send x)) =
          rest.filter (fun x =>
            decide (LiveIn room c.session.user_id c.store.has_pending_send x)) := by
        rw [List.filter_cons, if_neg (by simp [hlive])]
      have hwait : c.verdict X item = .wait := by
        rcases hother item List.mem_cons_self with hr | hw
        · rw [wait_iff M h]
          exact Or.inr (fun hl => hlive ⟨hr, hl⟩)
        · exact hw
      have hrun : c.digestAll X (item :: rest) = c.digestAll X rest := by
        have hone : c.digestAll X (item :: rest) = (c.digest X item).digestAll X rest := rfl
        rw [hone, Client.digest_wait X hwait]
      rw [hfilter, hrun]
      exact ih h he hnodup.2 hrest

/-! ## How far a walk goes -/

namespace EpochModel

variable (M : EpochModel X) {self_user : String}

theorem next_le (self_user : String) (e : Nat) (item : PendingMls) :
    M.next self_user e item = e ∨ M.next self_user e item = e + 1 := by
  cases item with
  | Commit c =>
    simp only [next]
    by_cases h : c.sender ≠ self_user ∧ M.commitEpoch c.room_id c.commit_b64 = some e
    · rw [if_pos h]
      exact Or.inr rfl
    · rw [if_neg h]
      exact Or.inl rfl
  | Message m => exact Or.inl rfl

/-- An event moves one epoch at most. -/
theorem next_one {e e' : Nat} {item : PendingMls} (h : M.next self_user e item ≠ e) (hne : e ≠ e') :
    M.next self_user e' item = e' := by
  cases item with
  | Message m => rfl
  | Commit c =>
    simp only [next] at h ⊢
    have hboth : c.sender ≠ self_user ∧ M.commitEpoch c.room_id c.commit_b64 = some e := by
      by_contra hnot
      rw [if_neg hnot] at h
      exact h rfl
    have hnot : ¬ (c.sender ≠ self_user ∧ M.commitEpoch c.room_id c.commit_b64 = some e') := by
      rintro ⟨-, heq⟩
      rw [hboth.2] at heq
      exact hne (Option.some.inj heq)
    rw [if_neg hnot]

theorem nextAll_cons (self_user : String) (e : Nat) (item : PendingMls) (rest : List PendingMls) :
    M.nextAll self_user e (item :: rest) =
      M.nextAll self_user (M.next self_user e item) rest := rfl

/-- A walk with no commit of its epoch stays there. -/
theorem nextAll_still {e : Nat} {items : List PendingMls}
    (h : ∀ item ∈ items, M.next self_user e item = e) : M.nextAll self_user e items = e := by
  induction items with
  | nil => rfl
  | cons item rest ih =>
    rw [nextAll_cons, h item List.mem_cons_self]
    exact ih (fun x hx => h x (List.mem_cons_of_mem _ hx))

/-- A walk with no commit of the next epoch goes one epoch at most. -/
theorem nextAll_once {e : Nat} {items : List PendingMls}
    (h : ∀ item ∈ items, M.next self_user (e + 1) item = e + 1) :
    M.nextAll self_user e items = e ∨ M.nextAll self_user e items = e + 1 := by
  induction items with
  | nil => exact Or.inl rfl
  | cons item rest ih =>
    have hrest : ∀ x ∈ rest, M.next self_user (e + 1) x = e + 1 := fun x hx =>
      h x (List.mem_cons_of_mem _ hx)
    rw [nextAll_cons]
    rcases M.next_le self_user e item with hn | hn
    · rw [hn]
      exact ih hrest
    · rw [hn]
      exact Or.inr (M.nextAll_still hrest)

/-- A walk with a commit of its epoch leaves it. -/
theorem nextAll_leaves {e : Nat} {items : List PendingMls} {item : PendingMls} (hi : item ∈ items)
    (h : M.next self_user e item = e + 1) : e + 1 ≤ M.nextAll self_user e items := by
  induction items generalizing e with
  | nil => cases hi
  | cons x rest ih =>
    rw [nextAll_cons]
    rcases M.next_le self_user e x with hn | hn
    · rw [hn]
      rcases List.mem_cons.mp hi with rfl | hi
      · omega
      · exact ih hi h
    · rw [hn]
      exact M.nextAll_ge self_user (e + 1) rest

/-- A walk does not go past an epoch that none of its events moves. -/
theorem nextAll_le {e top : Nat} {items : List PendingMls} (he : e ≤ top)
    (h : ∀ item ∈ items, M.next self_user top item = top) : M.nextAll self_user e items ≤ top := by
  induction items generalizing e with
  | nil => exact he
  | cons item rest ih =>
    have hrest : ∀ x ∈ rest, M.next self_user top x = top := fun x hx =>
      h x (List.mem_cons_of_mem _ hx)
    rw [nextAll_cons]
    by_cases htop : e = top
    · rw [htop, h item List.mem_cons_self]
      exact ih (Nat.le_refl top) hrest
    · have hnext := M.next_le self_user e item
      exact ih (by omega) hrest

/-- A walk over commits that come in order, one for each epoch up to `top`, gets there. -/
theorem nextAll_reaches {e top : Nat} {items : List PendingMls}
    (hsorted : items.Pairwise (fun a b => ∀ k l, M.next self_user k a = k + 1 →
      M.next self_user l b = l + 1 → k ≤ l))
    (hall : ∀ k, e ≤ k → k < top → ∃ item ∈ items, M.next self_user k item = k + 1) :
    top ≤ M.nextAll self_user e items := by
  induction items generalizing e with
  | nil =>
    by_contra hlt
    have hnil : M.nextAll self_user e [] = e := rfl
    obtain ⟨item, hi, -⟩ := hall e (Nat.le_refl e) (by omega)
    cases hi
  | cons x rest ih =>
    rw [List.pairwise_cons] at hsorted
    rw [nextAll_cons]
    by_cases hlt : e < top
    · rcases M.next_le self_user e x with hstill | hmove
      · -- the commit of `e` comes later, so `x` is of an epoch that is past
        rw [hstill]
        apply ih hsorted.2
        intro k hk hktop
        obtain ⟨item, hi, hmove⟩ := hall k hk hktop
        rcases List.mem_cons.mp hi with rfl | hi
        · exfalso
          obtain ⟨y, hy, hymove⟩ := hall e (Nat.le_refl e) hlt
          rcases List.mem_cons.mp hy with rfl | hy
          · omega
          · have hke := hsorted.1 y hy k e hmove hymove
            have hke' : k = e := by omega
            rw [hke'] at hmove
            omega
        · exact ⟨item, hi, hmove⟩
      · rw [hmove]
        apply ih hsorted.2
        intro k hk hktop
        obtain ⟨item, hi, hkmove⟩ := hall k (by omega) hktop
        rcases List.mem_cons.mp hi with rfl | hi
        · have hleft : M.next self_user e item ≠ e := by omega
          have hstill : M.next self_user k item = k := M.next_one hleft (by omega)
          omega
        · exact ⟨item, hi, hkmove⟩
    · have hge := M.nextAll_ge self_user (M.next self_user e x) rest
      have hnext := M.next_ge self_user e x
      omega

/-- Where no epoch of the walk matters to a mark, an event that was taken has the mark of
the first. -/
theorem fate_const {e : Nat} {items : List PendingMls}
    (hnodup : (items.map PendingMls.event_id).Nodup) {item : PendingMls} (hi : item ∈ items)
    (h : ∀ before after, items = before ++ item :: after →
      M.markAt (M.nextAll self_user e before) item = M.markAt e item) :
    M.fate self_user e items item.event_id = some (M.markAt e item) := by
  obtain ⟨before, after, rfl⟩ := List.append_of_mem hi
  rw [List.map_append, List.map_cons, List.nodup_append] at hnodup
  have hnot : item.event_id ∉ before.map PendingMls.event_id := fun hin =>
    hnodup.2.2 _ hin _ List.mem_cons_self rfl
  rw [M.fate_mid self_user e before after item hnot, h before after rfl]

end EpochModel

end PigeonMobile
