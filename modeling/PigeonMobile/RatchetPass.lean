-- A pass in the ratchet model. A group copy is an epoch, and a message decrypts once: its key
-- is used up, and a second attempt fails and changes nothing. What a pass does is a walk over
-- the keys of the device.
import PigeonMobile.MlsPass
import PigeonMobile.EpochGroup

namespace PigeonMobile

variable {D : Type} {X : PigeonCrypto D}

/-! ## Keys -/

/-- The epoch of each group copy, and the messages whose keys are used up. -/
structure Keys where
  epoch : String → Option Nat
  spent : String → String → Bool

namespace Keys

/-- The copy of `room` moves to its next epoch. -/
def advance (k : Keys) (room : String) : Keys :=
  { k with epoch := fun r => if r = room then (k.epoch r).map (· + 1) else k.epoch r }

/-- The key of a message is used up. -/
def spend (k : Keys) (room ct : String) : Keys :=
  { k with spent := fun r c => decide (r = room ∧ c = ct) || k.spent r c }

/-- `k'` holds the groups of `k`, is at no earlier epoch of any, and has used up the keys that
`k` has. -/
structure Le (k k' : Keys) : Prop where
  held : ∀ room, (k'.epoch room).isSome = (k.epoch room).isSome
  epoch : ∀ room e e', k.epoch room = some e → k'.epoch room = some e' → e ≤ e'
  spent : ∀ room ct, k.spent room ct = true → k'.spent room ct = true

theorem Le.refl (k : Keys) : k.Le k := by
  refine ⟨fun _ => rfl, ?_, fun _ _ h => h⟩
  intro room e e' h h'
  rw [h] at h'
  cases h'
  exact Nat.le_refl e

/-- The epoch of a group that `k` holds. -/
theorem Le.at {k k' : Keys} (h : k.Le k') {room : String} {e : Nat} (he : k.epoch room = some e) :
    ∃ e', k'.epoch room = some e' ∧ e ≤ e' := by
  have hheld := h.held room
  rw [he] at hheld
  obtain ⟨e', he'⟩ := Option.isSome_iff_exists.mp hheld
  exact ⟨e', he', h.epoch room e e' he he'⟩

theorem Le.trans {k₁ k₂ k₃ : Keys} (h : k₁.Le k₂) (h' : k₂.Le k₃) : k₁.Le k₃ := by
  refine ⟨fun room => (h'.held room).trans (h.held room), ?_, ?_⟩
  · intro room e e'' he he''
    obtain ⟨e', he', hle⟩ := h.at he
    have hle' := h'.epoch room e' e'' he' he''
    omega
  · intro room ct hs
    exact h'.spent room ct (h.spent room ct hs)

theorem le_advance (k : Keys) (room : String) : k.Le (k.advance room) := by
  refine ⟨?_, ?_, fun _ _ h => h⟩
  · intro r
    unfold advance
    by_cases hr : r = room
    · simp [hr]
    · simp [hr]
  · intro r e e' he he'
    unfold advance at he'
    by_cases hr : r = room
    · simp only [hr, if_true] at he'
      rw [← hr, he] at he'
      simp at he'
      omega
    · simp only [hr, if_false] at he'
      rw [he] at he'
      cases he'
      exact Nat.le_refl e

theorem le_spend (k : Keys) (room ct : String) : k.Le (k.spend room ct) := by
  refine ⟨fun _ => rfl, (Le.refl k).epoch, ?_⟩
  intro r c h
  simp [spend, h]

theorem spent_spend (k : Keys) (room ct : String) : (k.spend room ct).spent room ct = true := by
  simp [spend]

end Keys

/-! ## The model -/

/-- The laws of the ratchet. -/
structure RatchetModel {D : Type} (X : PigeonCrypto D) where
  keys : D → Keys
  commitEpoch : String → String → Option Nat
  messageEpoch : String → String → Option Nat
  plaintext : String → String → String
  load_group : ∀ d room, X.load_group d room = ((keys d).epoch room).isSome
  /-- A commit made at epoch `e` applies to a copy at `e` and moves it to `e + 1`. -/
  commit_applies : ∀ d room commit e, (keys d).epoch room = some e →
    commitEpoch room commit = some e →
    ∃ d', X.process_commit d room commit = .ok d' ∧ keys d' = (keys d).advance room
  commit_refused : ∀ d room commit, commitEpoch room commit ≠ (keys d).epoch room →
    ∃ reason, X.process_commit d room commit = .error reason
  /-- A message sent at epoch `e` is read by a copy at `e`, once. -/
  message_reads : ∀ d room ct e, (keys d).epoch room = some e → messageEpoch room ct = some e →
    (keys d).spent room ct = false →
    ∃ d', X.decrypt d room ct = .ok (d', some (plaintext room ct)) ∧
      keys d' = (keys d).spend room ct
  message_refused : ∀ d room ct,
    (messageEpoch room ct ≠ (keys d).epoch room ∨ (keys d).spent room ct = true) →
    ∃ reason, X.decrypt d room ct = .error reason

namespace RatchetModel

variable (M : RatchetModel X)

/-- The commit is of the epoch that the copy is at. -/
def Moves (k : Keys) (c : PendingCommit) : Prop :=
  (k.epoch c.room_id).isSome ∧ M.commitEpoch c.room_id c.commit_b64 = k.epoch c.room_id

/-- The message is of the epoch that the copy is at, and its key is there. -/
def Reads (k : Keys) (m : PendingDecrypt) : Prop :=
  (k.epoch m.room_id).isSome ∧ M.messageEpoch m.room_id m.ciphertext_b64 = k.epoch m.room_id ∧
    k.spent m.room_id m.ciphertext_b64 = false

instance (k : Keys) (c : PendingCommit) : Decidable (M.Moves k c) := by
  unfold Moves
  infer_instance

instance (k : Keys) (m : PendingDecrypt) : Decidable (M.Reads k m) := by
  unfold Reads
  infer_instance

/-- The keys after an event. -/
def next (k : Keys) : PendingMls → Keys
  | .Commit c => if M.Moves k c then k.advance c.room_id else k
  | .Message m => if M.Reads k m then k.spend m.room_id m.ciphertext_b64 else k

/-- The keys after a list of events. -/
def walk (k : Keys) (items : List PendingMls) : Keys := items.foldl M.next k

/-- The mark of an event of a group that is held. -/
def markAt (k : Keys) : PendingMls → Mark
  | .Commit _ => .processed
  | .Message m =>
    if M.Reads k m then .text (M.plaintext m.room_id m.ciphertext_b64) else .failed

variable {M}

theorem walk_append (k : Keys) (items rest : List PendingMls) :
    M.walk k (items ++ rest) = M.walk (M.walk k items) rest := List.foldl_append

theorem walk_snoc (k : Keys) (items : List PendingMls) (item : PendingMls) :
    M.walk k (items ++ [item]) = M.next (M.walk k items) item := M.walk_append k items [item]

theorem le_next (k : Keys) (item : PendingMls) : k.Le (M.next k item) := by
  cases item with
  | Commit c =>
    simp only [next]
    split
    · exact k.le_advance c.room_id
    · exact Keys.Le.refl k
  | Message m =>
    simp only [next]
    split
    · exact k.le_spend m.room_id m.ciphertext_b64
    · exact Keys.Le.refl k

theorem le_walk (k : Keys) (items : List PendingMls) : k.Le (M.walk k items) := by
  induction items generalizing k with
  | nil => exact Keys.Le.refl k
  | cons item rest ih => exact (le_next k item).trans (ih (M.next k item))

/-- An event of a group that is not held changes nothing. -/
theorem next_not_held {k : Keys} {item : PendingMls} (h : k.epoch item.room_id = none) :
    M.next k item = k := by
  cases item with
  | Commit c =>
    have hnot : ¬ M.Moves k c := by
      intro hm
      have hheld := hm.1
      simp only [PendingMls.room_id] at h
      rw [h] at hheld
      cases hheld
    simp only [next, hnot, if_false]
  | Message m =>
    have hnot : ¬ M.Reads k m := by
      intro hm
      have hheld := hm.1
      simp only [PendingMls.room_id] at h
      rw [h] at hheld
      cases hheld
    simp only [next, hnot, if_false]

/-! ## The calls of the engine -/

/-- What `process_commit` does to the keys. -/
theorem commit_keys (M : RatchetModel X) {d : D} {c : PendingCommit}
    (hheld : ((M.keys d).epoch c.room_id).isSome) :
    M.keys ((X.process_commit d c.room_id c.commit_b64).toOption.getD d) =
      M.next (M.keys d) (.Commit c) := by
  simp only [next]
  by_cases hm : M.Moves (M.keys d) c
  · obtain ⟨e, he⟩ := Option.isSome_iff_exists.mp hm.1
    obtain ⟨d', hx, hkeys⟩ := M.commit_applies d c.room_id c.commit_b64 e he (hm.2.trans he)
    rw [if_pos hm, hx]
    exact hkeys
  · have hepoch : M.commitEpoch c.room_id c.commit_b64 ≠ (M.keys d).epoch c.room_id :=
      fun heq => hm ⟨hheld, heq⟩
    obtain ⟨reason, hx⟩ := M.commit_refused d c.room_id c.commit_b64 hepoch
    rw [if_neg hm, hx]
    rfl

/-- What `decrypt` answers, and what it does to the keys. -/
theorem decrypt_keys (M : RatchetModel X) {d : D} {m : PendingDecrypt}
    (hheld : ((M.keys d).epoch m.room_id).isSome) :
    (M.Reads (M.keys d) m ∧ ∃ d', X.decrypt d m.room_id m.ciphertext_b64 =
        .ok (d', some (M.plaintext m.room_id m.ciphertext_b64)) ∧
        M.keys d' = (M.keys d).spend m.room_id m.ciphertext_b64) ∨
      (¬ M.Reads (M.keys d) m ∧ ∃ reason,
        X.decrypt d m.room_id m.ciphertext_b64 = .error reason) := by
  by_cases hr : M.Reads (M.keys d) m
  · obtain ⟨e, he⟩ := Option.isSome_iff_exists.mp hr.1
    exact Or.inl ⟨hr, M.message_reads d m.room_id m.ciphertext_b64 e he (hr.2.1.trans he) hr.2.2⟩
  · refine Or.inr ⟨hr, M.message_refused d m.room_id m.ciphertext_b64 ?_⟩
    by_contra hnot
    rw [not_or, not_not, Bool.not_eq_true] at hnot
    exact hr ⟨hheld, hnot.1, hnot.2⟩

/-! ## A single pass -/

/-- An event of a group that is not held waits. -/
theorem digest_not_held (M : RatchetModel X) {c : Client D} {d : D} (h : c.e2ee = some d)
    {item : PendingMls} (hheld : (M.keys d).epoch item.room_id = none) : c.digest X item = c := by
  apply Client.digest_wait X
  have hg : X.load_group d item.room_id = false := by
    rw [M.load_group, hheld]
    rfl
  unfold Client.verdict
  rw [h]
  cases item with
  | Commit m =>
    have hg : X.load_group d m.room_id = false := hg
    simp only [judge, hg, Bool.false_eq_true, if_false]
  | Message m =>
    have hg : X.load_group d m.room_id = false := hg
    simp only [judge, hg, Bool.false_eq_true, if_false]

/-- Any other event moves the keys as the walk says, and gets its mark. -/
theorem digest_held (M : RatchetModel X) {c : Client D} {d : D} (h : c.e2ee = some d)
    {item : PendingMls} (hother : item.sender ≠ c.session.user_id)
    (hheld : ((M.keys d).epoch item.room_id).isSome) :
    (∃ d', (c.digest X item).e2ee = some d' ∧ M.keys d' = M.next (M.keys d) item) ∧
      (c.digest X item).store = (M.markAt (M.keys d) item).write item.event_id c.store := by
  have hg : X.load_group d item.room_id = true := (M.load_group d item.room_id).trans hheld
  unfold Client.digest Client.verdict
  rw [h]
  cases item with
  | Commit m =>
    have hg : X.load_group d m.room_id = true := hg
    have hother : m.sender ≠ c.session.user_id := hother
    have hkeys := commit_keys M (c := m) hheld
    simp only [judge, hg, if_true]
    rw [if_pos hother]
    cases hx : X.process_commit d m.room_id m.commit_b64 with
    | error reason =>
      rw [hx] at hkeys
      exact ⟨⟨d, h, hkeys⟩, rfl⟩
    | ok d' =>
      rw [hx] at hkeys
      exact ⟨⟨d', rfl, hkeys⟩, rfl⟩
  | Message m =>
    have hg : X.load_group d m.room_id = true := hg
    have hnot : ¬ (m.sender = c.session.user_id ∧ c.store.has_pending_send m.room_id = true) :=
      fun hboth => hother hboth.1
    simp only [judge, hg, if_true, next, markAt]
    rw [if_neg hnot]
    rcases decrypt_keys M (m := m) hheld with ⟨hr, d', hx, hkeys⟩ | ⟨hr, reason, hx⟩
    · rw [hx, if_pos hr, if_pos hr]
      exact ⟨⟨d', rfl, hkeys⟩, rfl⟩
    · rw [hx, if_neg hr, if_neg hr]
      exact ⟨⟨d, h, rfl⟩, rfl⟩

theorem digest_keys (M : RatchetModel X) {c : Client D} {d : D} (h : c.e2ee = some d)
    {item : PendingMls} (hother : item.sender ≠ c.session.user_id) :
    ∃ d', (c.digest X item).e2ee = some d' ∧ M.keys d' = M.next (M.keys d) item := by
  cases hheld : (M.keys d).epoch item.room_id with
  | none =>
    rw [digest_not_held M h hheld, next_not_held hheld]
    exact ⟨d, h, rfl⟩
  | some e => exact (digest_held M h hother (by rw [hheld]; rfl)).1

/-- A pass over events of other users walks over the keys. -/
theorem digestAll_keys (M : RatchetModel X) {c : Client D} {d : D} (h : c.e2ee = some d)
    {items : List PendingMls} (hothers : ∀ item ∈ items, item.sender ≠ c.session.user_id) :
    ∃ d', (c.digestAll X items).e2ee = some d' ∧ M.keys d' = M.walk (M.keys d) items := by
  induction items generalizing c d with
  | nil => exact ⟨d, h, rfl⟩
  | cons item rest ih =>
    obtain ⟨d₁, h₁, hkeys₁⟩ := digest_keys M h (hothers item List.mem_cons_self)
    have hsession : (c.digest X item).session = c.session := Client.take_session X c _ _
    obtain ⟨d₂, h₂, hkeys₂⟩ := ih h₁ (by
      intro x hx
      rw [hsession]
      exact hothers x (List.mem_cons_of_mem _ hx))
    refine ⟨d₂, h₂, ?_⟩
    rw [hkeys₂, hkeys₁]
    rfl

theorem digestAll_session (c : Client D) (items : List PendingMls) :
    (c.digestAll X items).session = c.session := by
  induction items generalizing c with
  | nil => rfl
  | cons item rest ih => exact (ih (c.digest X item)).trans (Client.take_session X c _ _)

/-- A pass leaves a row as it was before its event, and as that event has left it after. -/
theorem digestAll_split (c : Client D) {pre post : List PendingMls} {item : PendingMls}
    (hnodup : ((pre ++ item :: post).map PendingMls.event_id).Nodup) :
    (c.digestAll X pre).store.events.find item.event_id = c.store.events.find item.event_id ∧
      (c.digestAll X (pre ++ item :: post)).store.events.find item.event_id =
        ((c.digestAll X pre).digest X item).store.events.find item.event_id := by
  rw [List.map_append, List.map_cons, List.nodup_append, List.nodup_cons] at hnodup
  have hpre : item.event_id ∉ pre.map PendingMls.event_id := fun hin =>
    hnodup.2.2 _ hin _ List.mem_cons_self rfl
  have hsplit : c.digestAll X (pre ++ item :: post) =
      ((c.digestAll X pre).digest X item).digestAll X post := Client.digestAll_append X c pre _
  refine ⟨digestAll_find X c hpre, ?_⟩
  rw [hsplit, digestAll_find X _ hnodup.2.1.1]

section Row

variable {c : Client D} {d : D} {pre post : List PendingMls} {item : PendingMls}

/-- The row of an event of a held group, after a pass over it. -/
theorem digestAll_row (M : RatchetModel X) (h : c.e2ee = some d)
    (hnodup : ((pre ++ item :: post).map PendingMls.event_id).Nodup)
    (hothers : ∀ x ∈ pre ++ item :: post, x.sender ≠ c.session.user_id)
    (hheld : ((M.keys d).epoch item.room_id).isSome) :
    (c.digestAll X (pre ++ item :: post)).store.events.find item.event_id =
      (c.store.events.find item.event_id).map (M.markAt (M.walk (M.keys d) pre) item).row := by
  obtain ⟨hpre, hpost⟩ := digestAll_split (X := X) c hnodup
  obtain ⟨d₁, h₁, hkeys₁⟩ := digestAll_keys M h
    (fun x (hx : x ∈ pre) => hothers x (List.mem_append_left _ hx))
  have hother : item.sender ≠ (c.digestAll X pre).session.user_id := by
    rw [digestAll_session]
    exact hothers item (List.mem_append_right _ List.mem_cons_self)
  have hheld₁ : ((M.keys d₁).epoch item.room_id).isSome := by
    rw [hkeys₁, (le_walk (M := M) (M.keys d) pre).held]
    exact hheld
  rw [hpost, (digest_held M h₁ hother hheld₁).2, Mark.find_write, hpre, hkeys₁]
  simp only [if_true]

/-- The row of an event of a group that is not held. -/
theorem digestAll_row_waits (M : RatchetModel X) (h : c.e2ee = some d)
    (hnodup : ((pre ++ item :: post).map PendingMls.event_id).Nodup)
    (hothers : ∀ x ∈ pre ++ item :: post, x.sender ≠ c.session.user_id)
    (hheld : (M.keys d).epoch item.room_id = none) :
    (c.digestAll X (pre ++ item :: post)).store.events.find item.event_id =
      c.store.events.find item.event_id := by
  obtain ⟨hpre, hpost⟩ := digestAll_split (X := X) c hnodup
  obtain ⟨d₁, h₁, hkeys₁⟩ := digestAll_keys M h
    (fun x (hx : x ∈ pre) => hothers x (List.mem_append_left _ hx))
  have hheld₁ : (M.keys d₁).epoch item.room_id = none := by
    have hsame := (le_walk (M := M) (M.keys d) pre).held item.room_id
    rw [hheld] at hsame
    rw [hkeys₁]
    simpa using hsame
  rw [hpost, digest_not_held M h₁ hheld₁, hpre]

end Row

end RatchetModel

/-! ## An engine that keeps the laws -/

/-- The copies of a device, and the messages that it has read. -/
structure Ratchets where
  copies : Copies
  read : List (String × String)

/-- The engine of the epoch model, where a message decrypts once. -/
def ratchetCrypto : PigeonCrypto Ratchets where
  new _ := .ok ⟨Table.empty, []⟩
  load_group d room := (d.copies.epoch room).isSome
  create_group d room := .ok { d with copies := d.copies.set room 0 }
  add_member d room _ :=
    match d.copies.epoch room with
    | some e =>
      .ok ({ d with copies := d.copies.set room (e + 1) }, epochText (e + 1) room, epochText e room)
    | none => .error "no group"
  process_commit d room commit :=
    if d.copies.epoch room = some (epochOf commit) then
      .ok { d with copies := d.copies.set room (epochOf commit + 1) }
    else .error "wrong epoch"
  join_from_welcome d welcome :=
    .ok { d with copies := d.copies.set (textOf welcome) (epochOf welcome) }
  encrypt d room plaintext :=
    match d.copies.epoch room with
    | some e => .ok (d, epochText e plaintext)
    | none => .error "no group"
  decrypt d room ciphertext :=
    if d.copies.epoch room = some (epochOf ciphertext) then
      if (room, ciphertext) ∈ d.read then .error "used key"
      else .ok ({ d with read := (room, ciphertext) :: d.read }, some (textOf ciphertext))
    else .error "wrong epoch"
  new_key_packages d n := .ok (d, List.replicate n "key-package")
  new_last_resort_key_package d := .ok (d, "key-package")
  signature_public_key _ := "key"
  export_storage _ := ""
  restore _ _ _ := .error "not stored"

def Ratchets.keys (d : Ratchets) : Keys :=
  ⟨d.copies.epoch, fun room ct => decide ((room, ct) ∈ d.read)⟩

theorem Ratchets.keys_set {d : Ratchets} {room : String} {e : Nat}
    (he : d.copies.epoch room = some e) :
    Ratchets.keys { d with copies := d.copies.set room (e + 1) } = d.keys.advance room := by
  have hepoch : (d.copies.set room (e + 1)).epoch =
      fun r => if r = room then (d.copies.epoch r).map (· + 1) else d.copies.epoch r := by
    funext r
    rw [Copies.epoch_set]
    by_cases hr : r = room
    · rw [if_pos hr, if_pos hr, hr, he]
      rfl
    · rw [if_neg hr, if_neg hr]
  unfold Ratchets.keys Keys.advance
  rw [hepoch]

theorem Ratchets.keys_read (d : Ratchets) (room ct : String) :
    Ratchets.keys { d with read := (room, ct) :: d.read } = d.keys.spend room ct := by
  have hspent : (fun r c => decide ((r, c) ∈ (room, ct) :: d.read)) =
      fun r c => decide (r = room ∧ c = ct) || decide ((r, c) ∈ d.read) := by
    funext r c
    simp
  unfold Ratchets.keys Keys.spend
  rw [hspent]

def ratchetModel : RatchetModel ratchetCrypto where
  keys := Ratchets.keys
  commitEpoch _ commit := some (epochOf commit)
  messageEpoch _ ciphertext := some (epochOf ciphertext)
  plaintext _ ciphertext := textOf ciphertext
  load_group _ _ := rfl
  commit_applies d room commit e he hc := by
    obtain rfl : epochOf commit = e := Option.some.inj hc
    have he : d.copies.epoch room = some (epochOf commit) := he
    refine ⟨{ d with copies := d.copies.set room (epochOf commit + 1) }, ?_, Ratchets.keys_set he⟩
    simp [ratchetCrypto, he]
  commit_refused d room commit h := by
    have h : ¬ d.copies.epoch room = some (epochOf commit) := fun heq => h heq.symm
    refine ⟨"wrong epoch", ?_⟩
    simp [ratchetCrypto, h]
  message_reads d room ct e he hm hspent := by
    obtain rfl : epochOf ct = e := Option.some.inj hm
    have he : d.copies.epoch room = some (epochOf ct) := he
    have hnot : (room, ct) ∉ d.read := of_decide_eq_false hspent
    refine ⟨{ d with read := (room, ct) :: d.read }, ?_, d.keys_read room ct⟩
    simp [ratchetCrypto, he, hnot]
  message_refused d room ct h := by
    by_cases he : d.copies.epoch room = some (epochOf ct)
    · have hread : (room, ct) ∈ d.read := by
        rcases h with hne | hspent
        · exact absurd he.symm hne
        · exact of_decide_eq_true hspent
      refine ⟨"used key", ?_⟩
      simp [ratchetCrypto, he, hread]
    · refine ⟨"wrong epoch", ?_⟩
      simp [ratchetCrypto, he]

end PigeonMobile
