-- A message from another device of the same user waits while a send of its room is queued. The
-- passes that hold it back apply no commit behind it, where each commit has its turn, so the group
-- stays at the epoch of the message, and the message can be decrypted once the queue has drained.
import PigeonMobile.CommitOrder
import PigeonMobile.EngineSteps

namespace PigeonMobile

variable {D : Type} {X : PigeonCrypto D} {S : Server}

/-! ## The epoch over one call -/

/-- A call on a group leaves the device, or `pigeon-crypto` moves it, which has the group. -/
theorem onGroup_device {β : Type} {P : D → Prop} {d : D} (hd : P d) (ks : Option KeyMap)
    (fault : Fault) {room_id : String} {r : Except String (D × β)}
    (hr : X.load_group d room_id = true → ∀ d' b, r = .ok (d', b) → P d') :
    P (E2ee.onGroup X d ks fault room_id r).2.1 := by
  have hmutate : X.load_group d room_id = true → P (E2ee.mutate X d ks fault r).2.1 := by
    intro hload
    unfold E2ee.mutate
    rcases r with reason | ⟨d', b⟩
    · exact hd
    · have hmoved := hr hload d' b rfl
      simp only
      rcases E2ee.persist X d' ks fault with ⟨_ | _, ks'⟩ <;> exact hmoved
  unfold E2ee.onGroup
  split
  · exact hd
  · split
    · next hload => exact hmutate hload
    · exact hd

namespace EpochModel

variable (M : EpochModel X) {room : String}

/-- A commit of another epoch, or of another group, leaves the epoch. -/
theorem commit_keeps {d d' : D} {room_id commit_b64 : String}
    (hload : X.load_group d room_id = true)
    (hother : room_id = room → M.commitEpoch room commit_b64 ≠ M.epoch d room)
    (hok : X.process_commit d room_id commit_b64 = .ok d') : M.epoch d' room = M.epoch d room := by
  rw [M.load_group] at hload
  obtain ⟨e, he⟩ := Option.isSome_iff_exists.mp hload
  by_cases hcommit : M.commitEpoch room_id commit_b64 = some e
  · obtain ⟨d₁, hd₁, hepoch⟩ := M.commit_applies d room_id commit_b64 e he hcommit
    obtain rfl : d₁ = d' := Except.ok.inj (hd₁.symm.trans hok)
    have hne : room ≠ room_id := by
      rintro rfl
      exact hother rfl (hcommit.trans he.symm)
    rw [hepoch, if_neg hne]
  · obtain ⟨reason, herr⟩ := M.commit_refused d room_id commit_b64 (by rw [he]; exact hcommit)
    cases herr.symm.trans hok

theorem message_keeps {d d' : D} {room_id ct : String} {text : Option String}
    (hload : X.load_group d room_id = true) (hok : X.decrypt d room_id ct = .ok (d', text)) :
    M.epoch d' room = M.epoch d room := by
  rw [M.load_group] at hload
  obtain ⟨e, he⟩ := Option.isSome_iff_exists.mp hload
  by_cases hmessage : M.messageEpoch room_id ct = some e
  · obtain ⟨d₁, hd₁, hepoch⟩ := M.message_reads d room_id ct e he hmessage
    cases hd₁.symm.trans hok
    exact hepoch room
  · obtain ⟨reason, herr⟩ := M.message_refused d room_id ct (by rw [he]; exact hmessage)
    cases herr.symm.trans hok

theorem engine_keeps {β : Type} {c : Client D}
    {f : D → Option KeyMap → Except CoreError β × D × Option KeyMap}
    (hf : ∀ d, c.e2ee = some d → M.epoch (f d c.key_store).2.1 room = M.epoch d room) :
    (c.onEngine f).2.epochOf M.epoch room = c.epochOf M.epoch room := by
  unfold Client.onEngine
  cases hd : c.e2ee with
  | none => rfl
  | some d =>
    have hepoch := hf d hd
    simp only [Client.epochOf, hd]
    exact hepoch

theorem store_keeps {β : Type} (fault : Fault) (c : Client D)
    (f : Store → Except StoreError (β × Store)) :
    (c.onStore fault f).2.epochOf M.epoch room = c.epochOf M.epoch room := by
  obtain ⟨r, c', hr⟩ : ∃ r c', c.onStore fault f = (r, c') := ⟨_, _, rfl⟩
  rw [hr]
  rcases Client.onStore_cases hr with ⟨e, -, rfl⟩ | ⟨b, st, -, -, rfl⟩ <;> rfl

/-- Of the calls of a pass, only a commit of the epoch that the copy is at moves it on. -/
theorem pass_call_keeps {op : Op} {r : op.Res} {c c' : Client D} (hop : op.ofPass = true)
    (hother : ∀ commit_b64, op = .process_commit room commit_b64 →
      M.commitEpoch room commit_b64 ≠ c.epochOf M.epoch room)
    (hx : Client.Exec X op c r c') : c'.epochOf M.epoch room = c.epochOf M.epoch room := by
  obtain ⟨choice, hx⟩ := hx
  rw [show c' = (Client.perform X op choice c).2 by rw [hx]]
  cases op with
  | e2ee | session => rfl
  | pending_mls | has_pending_send | set_decrypted | set_decrypt_failed | set_commit_processed =>
    exact M.store_keeps choice c _
  | has_group room_id => exact M.engine_keeps (fun d _ => rfl)
  | process_commit room_id commit_b64 =>
    apply M.engine_keeps
    intro d hd
    apply onGroup_device (P := fun d' => M.epoch d' room = M.epoch d room) rfl
    intro hload d' u hok
    refine M.commit_keeps hload ?_ (device_of_map hok)
    rintro rfl
    have hcommit := hother commit_b64 rfl
    unfold Client.epochOf at hcommit
    rwa [hd] at hcommit
  | decrypt room_id ct =>
    apply M.engine_keeps
    intro d hd
    have hgroup : M.epoch (E2ee.onGroup X d c.key_store choice room_id
        (X.decrypt d room_id ct)).2.1 room = M.epoch d room := by
      apply onGroup_device (P := fun d' => M.epoch d' room = M.epoch d room) rfl
      exact fun hload d' text hok => M.message_keeps hload hok
    unfold E2ee.decrypt
    generalize E2ee.onGroup X d c.key_store choice room_id (X.decrypt d room_id ct) = out
      at hgroup ⊢
    obtain ⟨_ | _ | _, d', ks'⟩ := out <;> exact hgroup
  | _ => cases hop

end EpochModel

/-! ## The commits of a pass -/

/-- A program that marks each commit that it applies. -/
def Marks {α : Type} : Code α → Prop
  | .done _ => True
  | .call op k => (op.appliesCommit = true → ∃ m, Applies m (.call op k)) ∧ ∀ r, Marks (k r)

theorem marks_call {α : Type} {op : Op} {k : op.Res → Code α} (hop : op.appliesCommit = false)
    (hk : ∀ r, Marks (k r)) : Marks (.call op k) := by
  refine ⟨?_, hk⟩
  intro h
  rw [hop] at h
  cases h

theorem marks_of_none {α : Type} {p : Code α} (h : p.All (fun op => op.appliesCommit = false)) :
    Marks p := by
  induction p with
  | done a => trivial
  | call op k ih => exact marks_call h.1 (fun r => ih r (h.2 r))

theorem Marks.bind {α β : Type} {p : Code α} {f : α → Code β} (hp : Marks p)
    (hf : ∀ a, Marks (f a)) : Marks (p.bind f) := by
  induction p with
  | done a => exact hf a
  | call op k ih =>
    refine ⟨?_, fun r => ih r (hp.2 r)⟩
    intro hop
    obtain ⟨m, k', hk, hmark⟩ := hp.1 hop
    cases hk
    refine ⟨m, _, rfl, fun r => ?_⟩
    obtain ⟨k'', hk''⟩ := hmark r
    exact ⟨_, by rw [hk'']; rfl⟩

theorem marks_runs {α : Type} {others : Client D → Client D → Prop} {p p' : Code α}
    {c c' : Client D} {es : List (Prog.Event (Client D) Op Op.Res)}
    (hr : Prog.Runs (Client.Exec X) others p c es p' c') (hp : Marks p) : Marks p' := by
  induction hr with
  | refl p s => exact hp
  | call _ _ _ ih => exact ih (hp.2 _)

theorem mark_processed_marks (event_id : String) : Marks (mark_processed event_id) := by
  apply marks_of_none
  refine ⟨rfl, fun r => ?_⟩
  cases r <;> trivial

theorem process_one_marks (self_user : String) (item : PendingMls) :
    Marks (process_one self_user item) := by
  cases item with
  | Message m => exact marks_of_none (message_applies_none self_user m)
  | Commit commit =>
    apply marks_call rfl
    intro r
    rcases r with e | _ | _
    · trivial
    · trivial
    · simp only
      split
      · exact ⟨fun _ => ⟨commit, _, rfl, fun _ => ⟨_, rfl⟩⟩,
          fun _ => mark_processed_marks commit.event_id⟩
      · exact mark_processed_marks commit.event_id

theorem process_each_marks (self_user : String) (items : List PendingMls) (changed : Bool) :
    Marks (process_each self_user items changed) := by
  induction items generalizing changed with
  | nil => trivial
  | cons item rest ih =>
    apply (process_one_marks self_user item).bind
    intro r
    cases r with
    | error e => trivial
    | ok changed' => exact ih (changed || changed')

theorem pass_marks : Marks process_inbound_mls := by
  apply marks_call rfl
  intro available
  cases available with
  | false => trivial
  | true =>
    refine marks_call rfl (fun session => marks_call rfl (fun r => ?_))
    cases r with
    | error e => trivial
    | ok items => exact process_each_marks session.user_id items false

/-! ## A message that waits -/

/-- What the other tasks do leaves the copy of the group at its epoch. -/
def Sparing (S : Server) (M : EpochModel X) (room : String) (c c' : Client D) : Prop :=
  Beside S c c' ∧ c'.epochOf M.epoch room = c.epochOf M.epoch room

/-- Wherever the pass applies a commit of the room, it has held back no event of the room, and no
message before the commit came in after it had read its list. -/
def TurnsKept (S : Server) (M : EpochModel X) (room : String) (c : Client D)
    (es : List (Prog.Event (Client D) Op Op.Res)) (p' : Code (Except CoreError Bool))
    (c' : Client D) : Prop :=
  ∀ es₁ es₂ p₁ c₁ m, es = es₁ ++ es₂ → es₂ ≠ [] →
    Prog.Runs (Client.Exec X) (Sparing S M room) process_inbound_mls c es₁ p₁ c₁ →
    Prog.Runs (Client.Exec X) (Sparing S M room) p₁ c₁ es₂ p' c' →
    Applies m p₁ → m.room_id = room → HeldNone room es₁ ∧ NoneLate m es₁ c₁.store

/-- A message of the room that waits, and the commits of its epoch stand behind it. -/
structure StillWaits (M : EpochModel X) (room ct : String) (e : Nat) (st st' : Store)
    (r : EventRow) : Prop where
  there : r ∈ st.events.rows
  room_id : r.room_id = room
  type : r.type = "p.room.encrypted"
  ciphertext : ((r.payload.index "content").index "ciphertext").as_str = some ct
  epoch : M.messageEpoch room ct = some e
  waits : ∃ r', st'.events.find r.event_id = some r' ∧ r'.decrypt_state = 0
  behind : ∀ rc ∈ st'.events.rows, ∀ commit, Store.pendingOf rc = .ok (some (.Commit commit)) →
    commit.room_id = room → M.commitEpoch room commit.commit_b64 = some e → r.position < rc.position

section

variable {M : EpochModel X} {room ct : String} {e : Nat} {c c₁ c' : Client D} {r : EventRow}
  {es es₁ es₂ : List (Prog.Event (Client D) Op Op.Res)}
  {p₁ p' : Code (Except CoreError Bool)} {m : PendingCommit}

theorem Sparing.runs {p : Code (Except CoreError Bool)}
    (hr : Prog.Runs (Client.Exec X) (Sparing S M room) p c es p' c') :
    Prog.Runs (Client.Exec X) (Beside S) p c es p' c' := hr.mono (fun _ _ h => h.1)

/-- A commit that the pass applies is not of the epoch of the message. -/
theorem applied_is_not_of_its_epoch (hst : Sound c.store)
    (hwaits : StillWaits M room ct e c.store c'.store r)
    (hpast : Prog.Runs (Client.Exec X) (Sparing S M room) process_inbound_mls c es₁ p₁ c₁)
    (hrest : Prog.Runs (Client.Exec X) (Sparing S M room) p₁ c₁ es₂ p' c')
    (happly : Applies m p₁) (hroom : m.room_id = room) (hheld : HeldNone room es₁)
    (hlate : NoneLate m es₁ c₁.store) : M.commitEpoch room m.commit_b64 ≠ some e := by
  intro hepoch
  have hsteps₁ := pass_runs_steps (Sparing.runs hpast) pass_calls
  have hst₁ := hsteps₁.sound hst
  have hsteps := pass_runs_steps (Sparing.runs hrest) ((Sparing.runs hpast).all pass_calls).2
  obtain ⟨hturn, hcommit, rc, commit, hrc, hof, hsame⟩ :=
    applied_in_turn X S hst (Sparing.runs hpast) happly (hroom ▸ hheld) hlate
  -- the rows of the two, then and now
  have hremote := waiting_remote hst hwaits.there (by rw [hwaits.type]; decide)
  obtain ⟨r₁, hr₁, hlasts₁⟩ := hsteps₁.lasts hst hremote (Table.mem_rows_iff.mp hwaits.there)
  obtain ⟨rc', hrc', hlastsc⟩ := hsteps.lasts hst₁ hcommit hrc
  have hbehind := hwaits.behind rc' (Table.find_some_iff.mp hrc').1 commit
    ((pendingOf_lasts hlastsc).trans hof) (hsame.room_id.trans hroom) (hsame.commit_b64 ▸ hepoch)
  have hprecedes : Precedes c₁.store m r₁ := by
    refine ⟨(Table.find_some_iff.mp hr₁).1, ?_, ?_, ?_, rc, hrc, ?_⟩
    · rw [hlasts₁.room_id, hwaits.room_id, hroom]
    · rw [hlasts₁.type, hwaits.type]
    · exact ⟨ct, by rw [hlasts₁.payload]; exact hwaits.ciphertext⟩
    · rw [hlasts₁.position, ← hlastsc.position]
      exact hbehind
  obtain ⟨r', hr', hlasts'⟩ := hsteps.lasts hst₁ hremote hr₁
  obtain ⟨r'', hr'', hstate⟩ := hwaits.waits
  cases hr'.symm.trans hr''
  exact hlasts'.processed (hturn r₁ hprecedes) hstate

/-- The group stays at the epoch of a message that waits. -/
theorem epoch_stays (hst : Sound c.store) (hwaits : StillWaits M room ct e c.store c'.store r)
    (hturns : TurnsKept S M room c es p' c')
    (hpast : Prog.Runs (Client.Exec X) (Sparing S M room) process_inbound_mls c es₁ p₁ c₁)
    (hrest : Prog.Runs (Client.Exec X) (Sparing S M room) p₁ c₁ es₂ p' c') (hes : es = es₁ ++ es₂)
    (hepoch : c₁.epochOf M.epoch room = some e) : c'.epochOf M.epoch room = some e := by
  induction hrest generalizing es₁ with
  | refl p c₁ => exact hepoch
  | @call op k c₁ c₂ c₃ c' answer es₂ p' hc ho hrun ih =>
    have hpass : op.ofPass = true := ((Sparing.runs hpast).all pass_calls).2.1
    have hother : ∀ commit_b64, op = .process_commit room commit_b64 →
        M.commitEpoch room commit_b64 ≠ c₁.epochOf M.epoch room := by
      rintro commit_b64 rfl
      obtain ⟨m, happly⟩ := (marks_runs hpast pass_marks).1 rfl
      have hm : m.room_id = room ∧ m.commit_b64 = commit_b64 := by
        obtain ⟨k', hk, -⟩ := happly
        cases hk
        exact ⟨rfl, rfl⟩
      obtain ⟨hheld, hlate⟩ := hturns es₁ _ _ c₁ m hes (List.cons_ne_nil _ _) hpast
        (.call hc ho hrun) happly hm.1
      rw [hepoch, ← hm.2]
      exact applied_is_not_of_its_epoch hst hwaits hpast (.call hc ho hrun) happly hm.1 hheld hlate
    have hkept := (ho.2.trans (M.pass_call_keeps hpass hother hc)).trans hepoch
    refine ih hwaits hturns (hpast.trans (.call hc ho (.refl _ _))) ?_ hkept
    rw [hes, List.append_assoc]
    rfl

/-- In every run of a pass, among tasks that leave the group alone: a message that the pass holds
back, or does not come to, can be decrypted after it as before, where each commit of the room that
the pass applies has its turn. The commits of its own epoch stand behind it. -/
theorem a_held_message_can_still_be_decrypted (hst : c.store.Reachable S)
    (hwaits : StillWaits M room ct e c.store c'.store r)
    (hrun : Prog.Runs (Client.Exec X) (Sparing S M room) process_inbound_mls c es p' c')
    (hturns : TurnsKept S M room c es p' c') (hepoch : c.epochOf M.epoch room = some e) :
    ∃ d d', c'.e2ee = some d ∧ X.decrypt d room ct = .ok (d', some (M.plaintext room ct)) := by
  have hafter := epoch_stays hst.sound hwaits hturns (.refl _ _) hrun rfl hepoch
  unfold Client.epochOf at hafter
  obtain ⟨d, hd, hdepoch⟩ := Option.bind_eq_some_iff.mp hafter
  obtain ⟨d', hread, -⟩ := M.message_reads d room ct e hdepoch hwaits.epoch
  exact ⟨d, d', hd, hread⟩

/-- A pass that applies no commit keeps them. -/
theorem turnsKept_of_none (h : ∀ e ∈ es, e.op.appliesCommit = false) :
    TurnsKept S M room c es p' c' := by
  rintro es₁ es₂ p₁ c₁ m rfl hne - hrest ⟨k, rfl, -⟩ -
  rcases hrest.call_inv with ⟨rfl, -⟩ | ⟨answer, c₂, c₃, es₃, -, -, rfl, -⟩
  · exact absurd rfl hne
  · cases h _ (List.mem_append_right _ List.mem_cons_self)

end

/-- Ann's phone has the message of her tablet, and one of its own to send. -/
def readStore : Store :=
  storeAfter Store.init ((Store.init.apply_events [tabletMessage]).map Prod.snd)

def heldStore : Store :=
  storeAfter readStore ((readStore.queue_send "!room" "@ann:pigeon.example" "hi"
    (next_send_ids 7 0) 7).map Prod.snd)

def heldPhone : Client Copies := { memberClient with store := heldStore }

theorem heldStore_reachable : heldStore.Reachable tabletServer := by
  have hbatch : ∀ j ∈ [tabletMessage], tabletServer.sends j :=
    fun j hj => Or.inl (List.mem_singleton.mp hj)
  have hread : readStore.Reachable tabletServer := Relation.ReflTransGen.single
    (@StoreStep.apply_events tabletServer Store.init readStore _ 1 hbatch rfl)
  exact hread.tail (@StoreStep.queue_send tabletServer readStore heldStore "!room"
    "@ann:pigeon.example" "hi" "m7-0" 7 7 0 rfl rfl)

/-- The pass holds it back, and it can be decrypted still. -/
theorem a_held_message_can_still_be_decrypted_tablet : ∃ d d',
    (process_inbound_mls.run (Client.local_ epochCrypto) heldPhone).2.e2ee = some d ∧
      epochCrypto.decrypt d "!room" (epochText 0 "hello") =
        .ok (d', some (epochModel.plaintext "!room" (epochText 0 "hello"))) := by
  have hrun : Prog.Runs (Client.Exec epochCrypto) (Sparing tabletServer epochModel "!room")
      process_inbound_mls heldPhone _ _ _ :=
    Prog.runs_among (f := Client.local_ epochCrypto)
      (fun op c => ⟨_, ⟨Client.calm op, rfl⟩, Relation.ReflTransGen.refl, rfl⟩) _ _
  refine a_held_message_can_still_be_decrypted heldStore_reachable (r := tabletRow) ?_ hrun
    (turnsKept_of_none ?_) rfl
  · refine ⟨List.mem_cons_self, rfl, rfl, rfl, rfl, ⟨tabletRow, rfl, rfl⟩, ?_⟩
    refine List.forall_mem_cons.mpr ⟨?_, List.forall_mem_cons.mpr ⟨?_, ?_⟩⟩
    · intro commit hof
      cases hof
    · intro commit hof
      cases hof
    · exact fun rc hrc => absurd hrc List.not_mem_nil
  · exact List.forall_mem_cons.mpr ⟨rfl, List.forall_mem_cons.mpr ⟨rfl, List.forall_mem_cons.mpr
      ⟨rfl, List.forall_mem_cons.mpr ⟨rfl, List.forall_mem_cons.mpr ⟨rfl, fun e he =>
        absurd he List.not_mem_nil⟩⟩⟩⟩⟩

end PigeonMobile
