-- Where passes that race lose something. A pass that goes on over a stale snapshot gives the
-- engine once more what a pass before it has given it: an early commit that was refused is
-- applied there, and a message that was read is marked undecryptable.
import PigeonMobile.PassRaces
import PigeonMobile.CommitOrder
import PigeonMobile.FoldedState

namespace PigeonMobile

variable {D : Type} {X : PigeonCrypto D}

/-! ## Stale schedules -/

section Schedule

variable {ι : Type} [DecidableEq ι] {c : Client D} {d : D} {i : ι}
  {left : ι → Code (Except CoreError Bool)}
  {p₀ : Crew ι (Client D) Op Op.Res (Except CoreError Bool)}

omit [DecidableEq ι] in
theorem passCall_local (i : ι) (op : Op) (c : Client D) :
    PassCall X i op c (Client.local_ X op c).1 (Client.local_ X op c).2 := rfl

/-- A pass takes its snapshot. -/
theorem reaches_snapshot {items : List PendingMls} (hd : c.e2ee = some d)
    (hp : c.store.pending_mls = .ok items) (hi : left i = process_inbound_mls)
    (hr : Crew.Reaches (PassCall X) p₀ ⟨c, left⟩) : Crew.Reaches (PassCall X) p₀
      ⟨c, Function.update left i (process_each c.session.user_id items false)⟩ := by
  have hsome : PassCall X i .e2ee c true c := Client.local_e2ee X hd
  have hsession : PassCall X i .session c c.session c := rfl
  have hpending : PassCall X i .pending_mls c (.ok items) c := by
    unfold PassCall
    simp only [Client.local_, Client.perform, Client.calm, Client.onStore, hp, Except.map]
  have h₁ := hr.call hi hsome
  have h₂ := h₁.call (Function.update_self i _ _) hsession
  have h₃ := h₂.call (Function.update_self i _ _) hpending
  simp only [Function.update_idem] at h₃
  exact h₃

/-- A pass goes through the next events of its snapshot. -/
theorem reaches_walked (pre rest : List PendingMls) (changed : Bool) (hd : c.e2ee = some d)
    (hi : left i = process_each c.session.user_id (pre ++ rest) changed)
    (hr : Crew.Reaches (PassCall X) p₀ ⟨c, left⟩) :
    ∃ changed', Crew.Reaches (PassCall X) p₀ ⟨c.digestAll X pre,
      Function.update left i (process_each c.session.user_id rest changed')⟩ := by
  induction pre generalizing c d left changed with
  | nil =>
    refine ⟨changed, ?_⟩
    have hleft : Function.update left i (process_each c.session.user_id rest changed) = left := by
      rw [Function.update_eq_self_iff]
      exact hi.symm
    rw [hleft]
    exact hr
  | cons item pre ih =>
    have hone := hr.part (f := Client.local_ X) passCall_local i
      (process_one c.session.user_id item) _ hi
    rw [run_process_one X hd item] at hone
    obtain ⟨d', hd'⟩ := Client.take_e2ee X c hd item.event_id (c.verdict X item)
    have hself : (c.digest X item).session.user_id = c.session.user_id :=
      congrArg Session.user_id (Client.take_session X c item.event_id (c.verdict X item))
    obtain ⟨changed', hrest⟩ := ih (c := c.digest X item) (d := d')
      (changed || (c.verdict X item).isTake) hd'
      (by rw [hself, Function.update_self]; rfl) hone
    rw [Function.update_idem, hself] at hrest
    exact ⟨changed', hrest⟩

end Schedule

theorem engine_digestAll {c : Client D} {d : D} (hd : c.e2ee = some d) (items : List PendingMls) :
    ∃ d', (c.digestAll X items).e2ee = some d' := by
  induction items generalizing c d with
  | nil => exact ⟨d, hd⟩
  | cons item rest ih =>
    obtain ⟨d', hd'⟩ := Client.take_e2ee X c hd item.event_id (c.verdict X item)
    exact ih hd'

/-- Two passes take one snapshot. Each goes through `pre` of it, and then through the rest. -/
theorem reaches_stale {c : Client D} {d : D} {pre rest : List PendingMls} (hd : c.e2ee = some d)
    (hp : c.store.pending_mls = .ok (pre ++ rest)) : ∃ p, Crew.Reaches (PassCall X) (racing 1 c) p ∧
      p.Ended ∧
      p.state = (((c.digestAll X pre).digestAll X pre).digestAll X rest).digestAll X rest := by
  have hstart : Crew.Reaches (PassCall X) (racing 1 c) ⟨c, fun _ => process_inbound_mls⟩ :=
    Relation.ReflTransGen.refl
  have h₁ := reaches_snapshot (i := 0) hd hp rfl hstart
  have h₂ := reaches_snapshot (i := 1) hd hp rfl h₁
  obtain ⟨d₁, hd₁⟩ := engine_digestAll hd pre
  obtain ⟨d₂, hd₂⟩ := engine_digestAll hd₁ pre
  obtain ⟨d₃, hd₃⟩ := engine_digestAll hd₂ rest
  have hself₁ := RatchetModel.digestAll_session (X := X) c pre
  have hself₂ := (RatchetModel.digestAll_session (X := X) _ pre).trans hself₁
  have hself₃ := (RatchetModel.digestAll_session (X := X) _ rest).trans hself₂
  obtain ⟨b₃, h₃⟩ := reaches_walked (i := 0) pre rest false hd rfl h₂
  obtain ⟨b₄, h₄⟩ := reaches_walked (i := 1) pre rest false hd₁ (by rw [hself₁]; rfl) h₃
  rw [hself₁] at h₄
  obtain ⟨b₅, h₅⟩ := reaches_walked (i := 0) rest [] b₃ hd₂
    (by rw [hself₂, List.append_nil]; rfl) h₄
  obtain ⟨b₆, h₆⟩ := reaches_walked (i := 1) rest [] b₄ hd₃
    (by rw [hself₃, List.append_nil]; rfl) h₅
  refine ⟨_, h₆, ?_, rfl⟩
  intro i
  rcases Fin.exists_fin_two.mp ⟨i, rfl⟩ with rfl | rfl
  · exact ⟨.ok b₅, rfl⟩
  · exact ⟨.ok b₆, rfl⟩

/-! ## Keys that come back to an event -/

section Keys

variable {M : RatchetModel X} {k : Keys}

/-- A walk over a commit of its epoch leaves that epoch. -/
theorem walk_leaves {items : List PendingMls} {c : PendingCommit} {e : Nat}
    (hc : .Commit c ∈ items) (he : k.epoch c.room_id = some e)
    (hcommit : M.commitEpoch c.room_id c.commit_b64 = some e) :
    ∃ e', (M.walk k items).epoch c.room_id = some e' ∧ e < e' := by
  obtain ⟨before, after, rfl⟩ := List.append_of_mem hc
  obtain ⟨e₁, he₁, hle₁⟩ := (RatchetModel.le_walk (M := M) k before).at he
  have hrest : (M.next (M.walk k before) (.Commit c)).Le
      (M.walk k (before ++ .Commit c :: after)) := by
    rw [RatchetModel.walk_append]
    exact RatchetModel.le_walk (M.next (M.walk k before) (.Commit c)) after
  have hnext : ∃ e₂, (M.next (M.walk k before) (.Commit c)).epoch c.room_id = some e₂ ∧ e < e₂ := by
    by_cases hsame : e₁ = e
    · have hmoves : M.Moves (M.walk k before) c := ⟨by rw [he₁]; rfl, by rw [hcommit, he₁, hsame]⟩
      refine ⟨e₁ + 1, ?_, by omega⟩
      simp [RatchetModel.next, hmoves, Keys.advance, he₁]
    · obtain ⟨e₂, he₂, hle₂⟩ := (RatchetModel.le_next (M := M) (M.walk k before) (.Commit c)).at he₁
      exact ⟨e₂, he₂, by omega⟩
  obtain ⟨e₂, he₂, hlt⟩ := hnext
  obtain ⟨e₃, he₃, hle₃⟩ := hrest.at he₂
  exact ⟨e₃, he₃, by omega⟩

/-- After an event that spoils a message of their epoch, keys do not read it. -/
theorem not_reads_spoiled {pre : List PendingMls} {m : PendingDecrypt} {x : PendingMls} {f : Nat}
    (hx : x ∈ pre) (hspoils : M.Spoils m x) (hf : k.epoch m.room_id = some f)
    (hmessage : M.messageEpoch m.room_id m.ciphertext_b64 = some f) :
    ¬ M.Reads (M.walk k pre) m := by
  intro hreads
  have hend : (M.walk k pre).epoch m.room_id = some f := hreads.2.1.symm.trans hmessage
  cases x with
  | Commit c =>
    obtain ⟨hroom, hcommit⟩ := hspoils
    rw [← hroom] at hf hend
    obtain ⟨e', he', hlt⟩ := walk_leaves hx hf (hcommit.trans hmessage)
    rw [hend] at he'
    cases he'
    omega
  | Message m' =>
    obtain ⟨hroom, hct⟩ := hspoils
    obtain ⟨before, after, rfl⟩ := List.append_of_mem hx
    have hrest : (M.next (M.walk k before) (.Message m')).Le
        (M.walk k (before ++ .Message m' :: after)) := by
      rw [RatchetModel.walk_append]
      exact RatchetModel.le_walk (M.next (M.walk k before) (.Message m')) after
    have hhere := RatchetModel.le_next (M := M) (M.walk k before) (.Message m')
    obtain ⟨e, he, hle⟩ := (RatchetModel.le_walk (M := M) k before).at hf
    have hge := (hhere.trans hrest).epoch m.room_id e f he hend
    obtain rfl : e = f := by omega
    have hreads' : M.Reads (M.walk k before) m' := by
      refine ⟨by rw [hroom, he]; rfl, by rw [hroom, hct, he, hmessage], ?_⟩
      by_contra hspent
      rw [Bool.not_eq_false, hroom, hct] at hspent
      have hlater := (hhere.trans hrest).spent _ _ hspent
      rw [hreads.2.2] at hlater
      cases hlater
    have hspent : (M.next (M.walk k before) (.Message m')).spent m.room_id m.ciphertext_b64 =
        true := by
      simp only [RatchetModel.next, hreads', if_true, hroom, hct]
      exact Keys.spent_spend _ _ _
    have hlater := hrest.spent _ _ hspent
    rw [hreads.2.2] at hlater
    cases hlater

/-- Keys that do not read a message of their epoch or an earlier one never will. -/
theorem not_reads_later {k' : Keys} {m : PendingDecrypt} {e f : Nat} (hle : k.Le k')
    (he : k.epoch m.room_id = some e)
    (hmessage : M.messageEpoch m.room_id m.ciphertext_b64 = some f)
    (hfe : f ≤ e) (hnot : ¬ M.Reads k m) : ¬ M.Reads k' m := by
  intro hreads
  have hend : k'.epoch m.room_id = some f := hreads.2.1.symm.trans hmessage
  have hef := hle.epoch m.room_id e f he hend
  obtain rfl : e = f := by omega
  refine hnot ⟨by rw [he]; rfl, by rw [hmessage, he], ?_⟩
  by_contra hspent
  rw [Bool.not_eq_false] at hspent
  have hlater := hle.spent _ _ hspent
  rw [hreads.2.2] at hlater
  cases hlater

end Keys

/-! ## Rows that wait -/

/-- A row that waits holds no plaintext. -/
def PlainRow (r : EventRow) : Prop := r.decrypt_state = 0 → r.decrypted = none

def Plain (st : Store) : Prop := ∀ k r, st.events.find k = some r → PlainRow r

theorem plain_withPlaintext (plaintext : String) (r : EventRow) :
    PlainRow (Store.withPlaintext plaintext r) := fun h => absurd h ok_ne_zero

theorem plain_withState {n : Nat} (hn : n ≠ 0) (r : EventRow) : PlainRow (Store.withState n r) :=
  fun h => absurd h hn

theorem plain_carryPlaintext {r : EventRow} (h : PlainRow r) (body : String) :
    PlainRow (Store.carryPlaintext body r) := by
  unfold Store.carryPlaintext
  split
  · exact plain_withPlaintext body r
  · exact h

/-- A write to one row. -/
theorem Plain.update {st st' : Store} (h : Plain st) {id : String} {f : EventRow → EventRow}
    (hf : ∀ r, PlainRow r → PlainRow (f r)) (hfind : ∀ k, st'.events.find k =
      (st.events.find k).map (fun r => if k = id then f r else r)) : Plain st' := by
  intro k r hr
  rw [hfind] at hr
  obtain ⟨r₀, hr₀, rfl⟩ := Option.map_eq_some_iff.mp hr
  split
  · exact hf r₀ (h k r₀ hr₀)
  · exact h k r₀ hr₀

theorem Plain.step {S : Server} {st st' : Store} (hsound : Sound st) (h : Plain st)
    (hs : StoreStep S st st') : Plain st' := by
  cases hs with
  | save_sync_token token => exact h
  | apply_events _ hok =>
    obtain ⟨evs, -, happ⟩ := st.apply_events_ok hok
    obtain rfl : (st.apply_parsed evs).2 = st' := by rw [happ]
    intro k r hr
    rcases st.row_of_apply_parsed hr with hold | ⟨ev, -, -, rfl⟩
    · exact h k r hold
    · exact fun _ => rfl
  | queue_send _ hok =>
    obtain ⟨depth, -, -, -, -, hevents, -⟩ := st.find_queue_send hok
    intro k r hr
    rw [hevents] at hr
    split at hr
    · cases hr
      exact fun _ => rfl
    · exact h k r hr
  | @resolve_send _ txn_id id _ hok =>
    cases hsound.acked hok with
    | unknown _ hst =>
      rw [hst]
      exact h
    | raced p _ _ _ _ _ hfind =>
      intro k r hr
      rw [hfind] at hr
      split at hr
      · cases hr
      · obtain ⟨r₁, hr₁, rfl⟩ := Option.map_eq_some_iff.mp hr
        split
        · exact plain_carryPlaintext (h k r₁ hr₁) p.body
        · exact h k r₁ hr₁
    | promoted p _ _ _ _ hfind =>
      intro k r hr
      rw [hfind] at hr
      split at hr
      · obtain ⟨r₁, hr₁, rfl⟩ := Option.map_eq_some_iff.mp hr
        exact h p.event_id r₁ hr₁
      · split at hr
        · cases hr
        · exact h k r hr
  | fail_send txn_id =>
    cases hp : st.pending_sends.find txn_id with
    | none =>
      rw [st.fail_send_unknown hp]
      exact h
    | some p =>
      obtain ⟨-, -, hfind⟩ := st.fail_send_queued hp
      have hfailed : ∀ r, PlainRow r → PlainRow (Store.markFailed r) := fun _ hr => hr
      exact h.update hfailed hfind
  | set_decrypted event_id plaintext =>
    exact h.update (fun r _ => plain_withPlaintext plaintext r)
      (fun k => (Mark.text plaintext).find_write event_id k st)
  | set_decrypt_failed event_id =>
    exact h.update (fun r _ => plain_withState failed_ne_zero r)
      (fun k => Mark.failed.find_write event_id k st)
  | set_commit_processed event_id =>
    exact h.update (fun r _ => plain_withState ok_ne_zero r)
      (fun k => Mark.processed.find_write event_id k st)

/-- In every store that can be reached, a row that waits holds no plaintext. -/
theorem Store.Reachable.plain {S : Server} {st : Store} (h : st.Reachable S) : Plain st := by
  induction h with
  | refl =>
    intro k r hr
    cases hr
  | tail hs hstep ih => exact ih.step (Store.Reachable.sound hs) hstep

/-! ## What is lost -/

/-- An image with no caption has no body. -/
theorem body_uncaptioned {from_str : String → Option Json} {ev : StoredEvent} {plaintext : String}
    {v : Json} (htype : ev.event_type = "p.room.encrypted") (hdec : ev.decrypted = some plaintext)
    (hv : from_str plaintext = some v) (himage : isImage v = true)
    (hbody : ¬ ((v.get "body").bind Json.as_str).isSome) :
    (TimelineEvent.of from_str ev).body = none := by
  have hsome : (from_str plaintext).filter isImage = some v :=
    Option.filter_eq_some_iff.mpr ⟨hv, himage⟩
  rw [body_decrypted from_str htype hdec, hsome]
  exact Option.not_isSome_iff_eq_none.mp hbody

/-- An encrypted entry with no body says whether it is undecryptable. -/
theorem system_text_encrypted {from_str : String → Option Json} {ev : StoredEvent}
    (htype : ev.event_type = "p.room.encrypted")
    (hbody : (TimelineEvent.of from_str ev).body = none) :
    (TimelineEvent.of from_str ev).system_text =
      if ev.decrypt_failed then some UNABLE_TO_DECRYPT else none := by
  unfold TimelineEvent.of at hbody ⊢
  simp only at hbody ⊢
  rw [hbody]
  simp [htype]

section Lost

variable {M : RatchetModel X} {from_str : String → Option Json} {S : Server} {c : Client D} {d : D}
  {items : List PendingMls} (hd : c.e2ee = some d) (hp : c.store.pending_mls = .ok items)
  (hothers : ∀ x ∈ items, x.sender ≠ c.session.user_id)
  (hall : ∀ (n : Nat) (p : Crew (Fin (n + 1)) (Client D) Op Op.Res (Except CoreError Bool)),
    Crew.Reaches (PassCall X) (racing n c) p → p.Ended →
      LosesNothing M from_str items (process_inbound_mls.run (Client.local_ X) c).2 p.state)

include hd hp hall in
/-- What a stale schedule comes to loses nothing. -/
theorem stale_loses_nothing (pre rest : List PendingMls) (heq : items = pre ++ rest) :
    LosesNothing M from_str items (c.digestAll X items)
      ((((c.digestAll X pre).digestAll X pre).digestAll X rest).digestAll X rest) := by
  obtain ⟨p, hr, hended, hstate⟩ := reaches_stale (X := X) hd (heq ▸ hp)
  have hlose := hall 1 p hr hended
  rw [run_process_inbound_mls X hd hp, hstate] at hlose
  exact hlose

include hd hp hothers hall in
/-- No commit is of the epoch at which a single pass ends: the second pass would apply it. -/
theorem no_commit_of_last (c' : PendingCommit) (hc' : .Commit c' ∈ items) :
    ¬ M.Moves (M.walk (M.keys d) items) c' := by
  intro hmoves
  obtain ⟨d₁, hd₁, hkeys₁⟩ := RatchetModel.digestAll_keys M hd hothers
  obtain ⟨d₂, hd₂, hkeys₂⟩ := RatchetModel.digestAll_keys M hd₁ (by
    rw [RatchetModel.digestAll_session]
    exact hothers)
  have hlose := stale_loses_nothing hd hp hall [] items rfl
  have hsame := hlose.epochs c'.room_id
  have hend : M.keysOf ((c.digestAll X items).digestAll X items) = M.walk (M.keys d₁) items := by
    rw [keysOf_engine hd₂, hkeys₂]
  have hlast : (M.keysOf ((c.digestAll X items).digestAll X items)).epoch c'.room_id =
      (M.keysOf (c.digestAll X items)).epoch c'.room_id := hsame
  rw [hend, keysOf_engine hd₁, hkeys₁] at hlast
  obtain ⟨e, he⟩ := Option.isSome_iff_exists.mp hmoves.1
  obtain ⟨e', he', hlt⟩ := walk_leaves hc' he (hmoves.2.trans he)
  rw [hlast, he] at he'
  cases he'
  omega

/-- A message that a pass reads gets its plaintext. -/
theorem read_row {c : Client D} {d : D} {pre post : List PendingMls} {m : PendingDecrypt}
    {r : EventRow} (hd : c.e2ee = some d)
    (hids : ((pre ++ .Message m :: post).map PendingMls.event_id).Nodup)
    (hothers : ∀ x ∈ pre ++ .Message m :: post, x.sender ≠ c.session.user_id)
    (hreads : M.Reads (M.walk (M.keys d) pre) m) (hr : c.store.events.find m.event_id = some r) :
    (c.digestAll X (pre ++ .Message m :: post)).store.events.find m.event_id =
      some (Store.withPlaintext (M.plaintext m.room_id m.ciphertext_b64) r) := by
  have hgroup : ((M.keys d).epoch (PendingMls.Message m).room_id).isSome := by
    rw [← (RatchetModel.le_walk (M := M) (M.keys d) pre).held]
    exact hreads.1
  have hafter := RatchetModel.digestAll_row M hd hids hothers hgroup
  have hmap := congrArg (Option.map (M.markAt (M.walk (M.keys d) pre) (.Message m)).row) hr
  refine hafter.trans (hmap.trans ?_)
  simp only [RatchetModel.markAt, hreads, if_true, Option.map_some]
  rfl

/-- A message that a pass does not read is marked undecryptable. -/
theorem refused_row {c : Client D} {d : D} (pre post : List PendingMls) {m : PendingDecrypt}
    {r : EventRow} (hd : c.e2ee = some d)
    (hids : ((pre ++ .Message m :: post).map PendingMls.event_id).Nodup)
    (hothers : ∀ x ∈ pre ++ .Message m :: post, x.sender ≠ c.session.user_id)
    (hgroup : ((M.keys d).epoch m.room_id).isSome) (hnot : ¬ M.Reads (M.walk (M.keys d) pre) m)
    (hr : c.store.events.find m.event_id = some r) :
    (c.digestAll X (pre ++ .Message m :: post)).store.events.find m.event_id =
      some (Store.withState DECRYPT_FAILED r) := by
  have hafter := RatchetModel.digestAll_row M hd hids hothers hgroup
  have hmap := congrArg (Option.map (M.markAt (M.walk (M.keys d) pre) (.Message m)).row) hr
  refine hafter.trans (hmap.trans ?_)
  simp only [RatchetModel.markAt, hnot, if_false, Option.map_some]
  rfl

include hd hp hothers hall in
/-- No message that a single pass reads comes after an event that spoils it: a second pass that
takes the event at the epoch of the message would lose it for both. -/
theorem no_message_spoiled (hplain : Plain c.store) {pre : List PendingMls} {m : PendingDecrypt}
    (hread : M.ReadsAfter (M.keys d) items pre m) {x : PendingMls} (hx : x ∈ pre) :
    ¬ M.Spoils m x := by
  intro hspoils
  obtain ⟨⟨post, heq⟩, hreads⟩ := hread
  have hids := Store.pending_nodup hp
  have hm : PendingMls.Message m ∈ items := by
    rw [heq]
    exact List.mem_append_right _ List.mem_cons_self
  obtain ⟨r₀, hrow, hwaits, hof⟩ := waiting_row hp hm
  have hlose := stale_loses_nothing hd hp hall pre (.Message m :: post) heq
  rw [heq] at hids hothers
  have hsingle := read_row hd hids hothers hreads hrow
  rw [← heq] at hsingle
  obtain ⟨r', hr', hdec, -⟩ := hlose.messages m hm _ hsingle rfl
  -- the keys when the first pass comes to the message
  have hpre : ∀ y ∈ pre, y.sender ≠ c.session.user_id := fun y hy =>
    hothers y (List.mem_append_left _ hy)
  have hpost : ∀ y ∈ PendingMls.Message m :: post, y.sender ≠ c.session.user_id := fun y hy =>
    hothers y (List.mem_append_right _ hy)
  have hself₁ := RatchetModel.digestAll_session (X := X) c pre
  have hself₂ := (RatchetModel.digestAll_session (X := X) _ pre).trans hself₁
  obtain ⟨d₁, hd₁, hkeys₁⟩ := RatchetModel.digestAll_keys M hd hpre
  obtain ⟨d₂, hd₂, hkeys₂⟩ := RatchetModel.digestAll_keys M hd₁ (hself₁ ▸ hpre)
  obtain ⟨d₃, hd₃, hkeys₃⟩ := RatchetModel.digestAll_keys M hd₂ (hself₂ ▸ hpost)
  obtain ⟨f, hf⟩ := Option.isSome_iff_exists.mp hreads.1
  have hmessage := hreads.2.1.trans hf
  have hf₁ : (M.keys d₁).epoch m.room_id = some f := by
    rw [hkeys₁]
    exact hf
  obtain ⟨e, he, hfe⟩ : ∃ e, (M.keys d₂).epoch m.room_id = some e ∧ f ≤ e := by
    rw [hkeys₂]
    exact (RatchetModel.le_walk (M.keys d₁) pre).at hf₁
  -- after the second one has been over the event before it, neither reads it
  have hnot₂ : ¬ M.Reads (M.keys d₂) m := by
    rw [hkeys₂]
    exact not_reads_spoiled hx hspoils hf₁ hmessage
  have hnot₃ : ¬ M.Reads (M.keys d₃) m := by
    rw [hkeys₃]
    exact not_reads_later (RatchetModel.le_walk _ _) he hmessage hfe hnot₂
  have hgroup₃ : ((M.keys d₃).epoch m.room_id).isSome := by
    rw [hkeys₃, (RatchetModel.le_walk (M := M) _ _).held, he]
    rfl
  rw [List.map_append, List.nodup_append] at hids
  have hbefore : m.event_id ∉ pre.map PendingMls.event_id := fun hin =>
    hids.2.2 _ hin _ List.mem_cons_self rfl
  have hrow₁ := (digestAll_find X c hbefore).trans hrow
  have hrow₂ := (digestAll_find X (c.digestAll X pre) hbefore).trans hrow₁
  have hrow₃ := refused_row [] post hd₂ hids.2.1 (hself₂ ▸ hpost) (by rw [he]; rfl) hnot₂ hrow₂
  have hself₃ := (RatchetModel.digestAll_session (X := X) _ (PendingMls.Message m :: post)).trans
    hself₂
  have hrow₄ := refused_row [] post hd₃ hids.2.1 (hself₃ ▸ hpost) hgroup₃ hnot₃ hrow₃
  obtain rfl := Option.some.inj (hrow₄.symm.trans hr')
  have hnone : r₀.decrypted = none := hplain _ _ hrow hwaits
  have htext : r₀.decrypted = some (M.plaintext m.room_id m.ciphertext_b64) := hdec
  rw [hnone] at htext
  cases htext

include hd hp hothers hall in
/-- Each message that a single pass reads renders a body: a second pass marks it undecryptable,
and an image with no caption shows that. -/
theorem no_caption_missing (hsound : Sound c.store) {pre : List PendingMls} {m : PendingDecrypt}
    (hread : M.ReadsAfter (M.keys d) items pre m) :
    Captioned from_str (M.plaintext m.room_id m.ciphertext_b64) := by
  intro v hv himage
  by_contra hbody
  obtain ⟨⟨post, heq⟩, hreads⟩ := hread
  have hids := Store.pending_nodup hp
  have hm : PendingMls.Message m ∈ items := by
    rw [heq]
    exact List.mem_append_right _ List.mem_cons_self
  obtain ⟨r₀, hrow, hwaits, hof⟩ := waiting_row hp hm
  obtain ⟨ev, hcolumns⟩ := hsound.columns _ r₀ hrow
  have htype : ev.event_type = "p.room.encrypted" := by
    rw [hcolumns.type]
    exact message_type hof
  have hlose := stale_loses_nothing hd hp hall [] items rfl
  obtain ⟨d₁, hd₁, hkeys₁⟩ := RatchetModel.digestAll_keys M hd hothers
  have hself₁ := RatchetModel.digestAll_session (X := X) c items
  have hspent : (M.keys d₁).spent m.room_id m.ciphertext_b64 = true := by
    rw [hkeys₁, heq, RatchetModel.walk_append]
    refine (RatchetModel.le_walk (M.next (M.walk (M.keys d) pre) (.Message m)) post).spent _ _ ?_
    simp only [RatchetModel.next, hreads, if_true]
    exact Keys.spent_spend _ _ _
  have hnot : ¬ M.Reads (M.walk (M.keys d₁) pre) m := by
    intro hagain
    have hlater := (RatchetModel.le_walk (M := M) (M.keys d₁) pre).spent _ _ hspent
    rw [hagain.2.2] at hlater
    cases hlater
  have hgroup : ((M.keys d₁).epoch m.room_id).isSome := by
    rw [hkeys₁, (RatchetModel.le_walk (M := M) (M.keys d) items).held,
      ← (RatchetModel.le_walk (M := M) (M.keys d) pre).held]
    exact hreads.1
  rw [heq] at hids hothers
  have hothers₁ : ∀ x ∈ pre ++ .Message m :: post,
      x.sender ≠ (c.digestAll X items).session.user_id := by
    rw [hself₁]
    exact hothers
  have hsingle := read_row hd hids hothers hreads hrow
  rw [← heq] at hsingle
  have htwice := refused_row pre post hd₁ hids hothers₁ hgroup hnot hsingle
  rw [← heq] at htwice
  obtain ⟨r', hr', -, hshown⟩ := hlose.messages m hm _ hsingle rfl
  obtain rfl := Option.some.inj (htwice.symm.trans hr')
  -- the entry of the decrypted row says nothing, and that of the marked one does
  have hparses : StoredEvent.from_wire r₀.payload = .ok ev := hcolumns.parses
  unfold rendered Store.parse_stored_payload Store.withState Store.withPlaintext at hshown
  simp only [hparses, bind, Except.bind, pure, Except.pure, Except.map] at hshown
  have hentry := Except.ok.inj hshown
  have hlines := congrArg TimelineEvent.system_text hentry
  have hline : ∀ failed, (TimelineEvent.of from_str { ev with
      send_state := .from_local r₀.local_
      decrypted := some (M.plaintext m.room_id m.ciphertext_b64)
      decrypt_failed := failed }).system_text = if failed then some UNABLE_TO_DECRYPT else none :=
    fun failed => system_text_encrypted htype (body_uncaptioned htype rfl hv himage hbody)
  rw [hline, hline] at hlines
  simp [DECRYPT_OK, DECRYPT_FAILED] at hlines

end Lost

/-- However the calls of passes over events of other users interleave, they lose nothing, iff
the events come in order. -/
theorem racing_passes_lose_nothing_iff {D : Type} (X : PigeonCrypto D) (M : RatchetModel X)
    (from_str : String → Option Json) (S : Server) (c : Client D) (d : D) (hd : c.e2ee = some d)
    (hreach : c.store.Reachable S) (items : List PendingMls)
    (hp : c.store.pending_mls = .ok items)
    (hothers : ∀ x ∈ items, x.sender ≠ c.session.user_id) :
    (∀ (n : Nat) (p : Crew (Fin (n + 1)) (Client D) Op Op.Res (Except CoreError Bool)),
      Crew.Reaches (PassCall X) (racing n c) p → p.Ended →
        LosesNothing M from_str items (process_inbound_mls.run (Client.local_ X) c).2 p.state) ↔
      OrderedStream M from_str (M.keys d) items := by
  constructor
  · intro hall
    refine ⟨no_commit_of_last hd hp hothers hall, ?_, ?_⟩
    · intro pre m hread x hx
      exact no_message_spoiled hd hp hothers hall hreach.plain hread hx
    · intro pre m hread
      exact no_caption_missing hd hp hothers hall hreach.sound hread
  · intro horder n p hr hended
    exact races_lose_nothing hd hreach.sound hp hothers horder hr hended

/-! ## Bob's events -/

/-- Bob writes at epoch 0, and then he ends it. -/
def bobLetter : Json :=
  roomEvent "$msg" "@bob:pigeon.example" "p.room.encrypted" 1
    (encryptedContent (epochText 0 "hello"))

def bobLetterCommit : Json :=
  roomEvent "$cmt" "@bob:pigeon.example" "p.mls.commit" 2 (commitContent (epochText 0 "add"))

/-- A commit of the epoch after, which comes before it. -/
def earlyCommit : Json :=
  roomEvent "$early" "@bob:pigeon.example" "p.mls.commit" 1 (commitContent (epochText 1 "add"))

def bobServer : Server where
  sends j := j = bobLetter ∨ j = bobLetterCommit ∨ j = earlyCommit
  acks _ := False
  sends_remote := by
    intro j ev hj hev
    rcases hj with rfl | rfl | rfl
    · exact parsed_not_local hev rfl (by decide)
    · exact parsed_not_local hev rfl (by decide)
    · exact parsed_not_local hev rfl (by decide)
  acks_remote := none_acked

def orderedStore : Store :=
  storeAfter Store.init ((Store.init.apply_events [bobLetter, bobLetterCommit]).map Prod.snd)

def earlyStore : Store :=
  storeAfter Store.init ((Store.init.apply_events [earlyCommit, bobLetterCommit]).map Prod.snd)

theorem orderedStore_reachable : orderedStore.Reachable bobServer := by
  have hbatch : ∀ j ∈ [bobLetter, bobLetterCommit], bobServer.sends j := by
    intro j hj
    rcases List.mem_cons.mp hj with rfl | hj
    · exact Or.inl rfl
    · exact Or.inr (Or.inl (List.mem_singleton.mp hj))
  exact Relation.ReflTransGen.single
    (@StoreStep.apply_events bobServer Store.init orderedStore _ 2 hbatch rfl)

theorem earlyStore_reachable : earlyStore.Reachable bobServer := by
  have hbatch : ∀ j ∈ [earlyCommit, bobLetterCommit], bobServer.sends j := by
    intro j hj
    rcases List.mem_cons.mp hj with rfl | hj
    · exact Or.inr (Or.inr rfl)
    · exact Or.inr (Or.inl (List.mem_singleton.mp hj))
  exact Relation.ReflTransGen.single
    (@StoreStep.apply_events bobServer Store.init earlyStore _ 2 hbatch rfl)

/-- A client that holds the group of `!room` at epoch 0. -/
def bobReader (st : Store) : Client Ratchets :=
  { api := ⟨"https://pigeon.example", some "token"⟩
    session := ⟨"@ann:pigeon.example", "ANN1", "pigeon.example"⟩
    store := st
    e2ee := some ⟨Copies.set Table.empty "!room" 0, []⟩
    key_store := some Table.empty }

def orderedItems : List PendingMls :=
  [.Message ⟨"$msg", "!room", "@bob:pigeon.example", epochText 0 "hello"⟩,
    .Commit ⟨"$cmt", "!room", "@bob:pigeon.example", epochText 0 "add"⟩]

def earlyItems : List PendingMls :=
  [.Commit ⟨"$early", "!room", "@bob:pigeon.example", epochText 1 "add"⟩,
    .Commit ⟨"$cmt", "!room", "@bob:pigeon.example", epochText 0 "add"⟩]

/-- Nothing comes before Bob's message. -/
theorem bob_before {pre post : List PendingMls} {m : PendingDecrypt}
    (h : orderedItems = pre ++ .Message m :: post) : pre = [] := by
  cases pre with
  | nil => rfl
  | cons a pre =>
    have htail := (List.cons.inj h).2
    cases pre with
    | nil => cases (List.cons.inj htail).1
    | cons b pre =>
      have hlast := (List.cons.inj htail).2
      exact absurd hlast.symm (by simp)

theorem bob_ordered : OrderedStream ratchetModel (fun _ => none)
    (ratchetModel.keys ⟨Copies.set Table.empty "!room" 0, []⟩) orderedItems := by
  refine ⟨?_, ?_, ?_⟩
  · intro c hc
    have hc : PendingMls.Commit c =
        .Commit ⟨"$cmt", "!room", "@bob:pigeon.example", epochText 0 "add"⟩ := by
      rcases List.mem_cons.mp hc with hmessage | hc
      · cases hmessage
      · exact List.mem_singleton.mp hc
    cases hc
    decide
  · intro pre m hread x hx
    obtain ⟨post, heq⟩ := hread.1
    rw [bob_before heq] at hx
    exact absurd hx List.not_mem_nil
  · intro pre m hread v hv
    cases hv

/-- Two passes over his message and his commit, each from the same snapshot. -/
theorem racing_passes_lose_nothing_bob : LosesNothing ratchetModel (fun _ => none) orderedItems
    (process_inbound_mls.run (Client.local_ ratchetCrypto) (bobReader orderedStore)).2
    (((bobReader orderedStore).digestAll ratchetCrypto orderedItems).digestAll ratchetCrypto
      orderedItems) := by
  have hp : (bobReader orderedStore).store.pending_mls = .ok ([] ++ orderedItems) := rfl
  obtain ⟨p, hr, hended, hstate⟩ := reaches_stale (X := ratchetCrypto) rfl hp
  have hothers : ∀ x ∈ orderedItems,
      x.sender ≠ (bobReader orderedStore).session.user_id := by decide
  have hlose := (racing_passes_lose_nothing_iff ratchetCrypto ratchetModel (fun _ => none) bobServer
    (bobReader orderedStore) _ rfl orderedStore_reachable orderedItems hp hothers).mpr bob_ordered
    1 p hr hended
  rw [hstate] at hlose
  exact hlose

/-- A commit that a single pass refuses is applied by a second one over the same snapshot. -/
theorem a_stale_pass_goes_too_far : ¬ ∀ (D : Type) (X : PigeonCrypto D) (M : RatchetModel X)
    (from_str : String → Option Json) (S : Server) (c : Client D) (d : D), c.e2ee = some d →
    c.store.Reachable S → ∀ items : List PendingMls, c.store.pending_mls = .ok items →
    (∀ x ∈ items, x.sender ≠ c.session.user_id) →
    (∀ x ∈ items, ((M.keys d).epoch x.room_id).isSome) →
    ∀ (n : Nat) (p : Crew (Fin (n + 1)) (Client D) Op Op.Res (Except CoreError Bool)),
      Crew.Reaches (PassCall X) (racing n c) p → p.Ended →
        LosesNothing M from_str items (process_inbound_mls.run (Client.local_ X) c).2 p.state := by
  intro h
  have hp : (bobReader earlyStore).store.pending_mls = .ok ([] ++ earlyItems) := rfl
  obtain ⟨p, hr, hended, hstate⟩ := reaches_stale (X := ratchetCrypto) rfl hp
  have hothers : ∀ x ∈ earlyItems, x.sender ≠ (bobReader earlyStore).session.user_id := by decide
  have hgroup : ∀ x ∈ earlyItems, ((ratchetModel.keys ⟨Copies.set Table.empty "!room" 0, []⟩).epoch
      x.room_id).isSome := by decide
  have hlose := h Ratchets ratchetCrypto ratchetModel (fun _ => none) bobServer
    (bobReader earlyStore) _ rfl earlyStore_reachable earlyItems hp hothers hgroup 1 p hr hended
  have hepoch := hlose.epochs "!room"
  rw [hstate] at hepoch
  cases hepoch

end PigeonMobile
