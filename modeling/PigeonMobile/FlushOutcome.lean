-- What one flush makes of the queue (`flush_pending` in `rooms.rs`), whatever the server answers to
-- each event: it tries the messages in their order, passes over those that are held back, and stops
-- at the first that fails for now. So a network that fails for no message leaves only those that
-- are held back.
import PigeonMobile.CommitOrder
import PigeonMobile.OutboxSends
import PigeonMobile.QueueOrder
import PigeonMobile.StoreRuns

namespace PigeonMobile

/-! ## The surroundings of a flush -/

variable {D : Type} {X : PigeonCrypto D}

/-! ## What a flush attempts -/

/-- The room and the transaction of an attempt to send. -/
def Op.attempts : Op → Option (String × String)
  | .api_send_event room_id _ txn_id _ => some (room_id, txn_id)
  | _ => none

/-- Among the calls is an attempt at the message, and its answer leaves the message queued. -/
def FailedForNow (es : List (Prog.Event (Client D) Op Op.Res)) (send : PendingSend) : Prop :=
  ∃ c event_type content err, err.is_transient = true ∧
    ⟨c, .api_send_event send.room_id event_type send.txn_id content, .error err⟩ ∈ es

/-- What the calls attempt is one of the messages. -/
def OnlyTries (es : List (Prog.Event (Client D) Op Op.Res)) (sends : List PendingSend) : Prop :=
  ∀ e ∈ es, ∀ x, e.op.attempts = some x → ∃ send ∈ sends, x = (send.room_id, send.txn_id)

section Attempts

variable {es es' : List (Prog.Event (Client D) Op Op.Res)} {send : PendingSend}
  {sends sends' : List PendingSend}

theorem failedForNow_append :
    FailedForNow (es ++ es') send ↔ FailedForNow es send ∨ FailedForNow es' send := by
  unfold FailedForNow
  constructor
  · rintro ⟨c, event_type, content, err, herr, he⟩
    rcases List.mem_append.mp he with he | he
    · exact Or.inl ⟨c, event_type, content, err, herr, he⟩
    · exact Or.inr ⟨c, event_type, content, err, herr, he⟩
  · rintro (⟨c, event_type, content, err, herr, he⟩ | ⟨c, event_type, content, err, herr, he⟩)
    · exact ⟨c, event_type, content, err, herr, List.mem_append_left _ he⟩
    · exact ⟨c, event_type, content, err, herr, List.mem_append_right _ he⟩

theorem OnlyTries.append (h : OnlyTries es sends) (h' : OnlyTries es' sends') :
    OnlyTries (es ++ es') (sends ++ sends') := by
  intro e he x hx
  rcases List.mem_append.mp he with he | he
  · obtain ⟨send, hmem, hsend⟩ := h e he x hx
    exact ⟨send, List.mem_append_left _ hmem, hsend⟩
  · obtain ⟨send, hmem, hsend⟩ := h' e he x hx
    exact ⟨send, List.mem_append_right _ hmem, hsend⟩

theorem OnlyTries.mono (h : OnlyTries es sends) (hsub : sends ⊆ sends') : OnlyTries es sends' := by
  intro e he x hx
  obtain ⟨send, hmem, hsend⟩ := h e he x hx
  exact ⟨send, hsub hmem, hsend⟩

/-- Calls that do not attempt a message do not fail it. -/
theorem OnlyTries.spares (h : OnlyTries es sends)
    (hother : send.txn_id ∉ sends.map PendingSend.txn_id) : ¬ FailedForNow es send := by
  rintro ⟨c, event_type, content, err, -, he⟩
  obtain ⟨send', hmem, hsend⟩ := h _ he _ rfl
  rw [(Prod.mk.inj hsend).2] at hother
  exact hother (List.mem_map_of_mem hmem)

end Attempts

/-- The room is marked as encrypted, and its group is not held. -/
def isHeldBack (X : PigeonCrypto D) (c : Client D) (send : PendingSend) : Bool :=
  c.store.is_room_encrypted send.room_id && !c.e2ee.any (fun d => X.load_group d send.room_id)

/-- No state row names the echo of a queued message, so its acknowledgement cannot fail. -/
def Acknowledgeable (st : Store) : Prop := ∀ txn_id p,
  st.pending_sends.find txn_id = some p → st.referenced p.event_id = false

/-- What a flush leaves as it is. -/
structure Aside (X : PigeonCrypto D) (c c' : Client D) : Prop where
  state : c'.store.room_state = c.store.room_state
  groups : ∀ room, c'.e2ee.any (fun d => X.load_group d room) =
    c.e2ee.any (fun d => X.load_group d room)

namespace Aside

variable {c c' c'' : Client D}

theorem refl (c : Client D) : Aside X c c := ⟨rfl, fun _ => rfl⟩

theorem trans (h : Aside X c c') (h' : Aside X c' c'') : Aside X c c'' :=
  ⟨h'.state.trans h.state, fun room => (h'.groups room).trans (h.groups room)⟩

theorem heldBack_eq (h : Aside X c c') (send : PendingSend) :
    isHeldBack X c' send = isHeldBack X c send := by
  unfold isHeldBack Store.is_room_encrypted
  rw [h.state, h.groups]

end Aside

theorem Acknowledgeable.erased {st st' : Store} {gone : String} (h : Acknowledgeable st)
    (hstate : st'.room_state = st.room_state)
    (hqueue : st'.pending_sends = st.pending_sends.erase gone) : Acknowledgeable st' := by
  intro txn_id p hp
  unfold Store.referenced
  rw [hstate]
  rw [hqueue, Table.find_erase] at hp
  split at hp
  · cases hp
  · exact h txn_id p hp

/-! ## One message -/

/-- What becomes of one message, and the calls that it takes. -/
inductive FlushedAs (X : PigeonCrypto D) (send : PendingSend)
    (es : List (Prog.Event (Client D) Op Op.Res)) (c c' : Client D) :
    Except CoreError Flushed → Prop
  | held : isHeldBack X c send = true → ¬ FailedForNow es send →
      c'.store.pending_sends = c.store.pending_sends → FlushedAs X send es c c' (.ok .held)
  | stop : isHeldBack X c send = false → FailedForNow es send →
      c'.store.pending_sends = c.store.pending_sends → FlushedAs X send es c c' (.ok .stop)
  | settled : isHeldBack X c send = false → ¬ FailedForNow es send →
      c'.store.pending_sends = c.store.pending_sends.erase send.txn_id →
      FlushedAs X send es c c' (.ok .settled)

/-- Calls before it that attempt nothing do not change that. -/
theorem FlushedAs.after {send : PendingSend} {es es' : List (Prog.Event (Client D) Op Op.Res)}
    {c c' : Client D} {r : Except CoreError Flushed} (h : FlushedAs X send es c c' r)
    (hes : OnlyTries es' []) : FlushedAs X send (es' ++ es) c c' r := by
  have hspared : ¬ FailedForNow es' send := hes.spares List.not_mem_nil
  have hsame : FailedForNow (es' ++ es) send ↔ FailedForNow es send := by
    rw [failedForNow_append]
    exact or_iff_right hspared
  cases h with
  | held hheld hfails hqueue => exact .held hheld (hsame.not.mpr hfails) hqueue
  | stop hheld hfails hqueue => exact .stop hheld (hsame.mpr hfails) hqueue
  | settled hheld hfails hqueue => exact .settled hheld (hsame.not.mpr hfails) hqueue

/-- The message is none of `tried` that was not held back. -/
def stays (X : PigeonCrypto D) (c : Client D) (tried : List PendingSend) : PendingSend → Bool :=
  fun send => tried.all (fun t => isHeldBack X c t || decide (send.txn_id ≠ t.txn_id))

/-- The calls of a pass that tries `tried` and does not come to what is behind the first of `rest`:
none of `tried` failed for now, and the pass ends with the list or at a message that did. -/
structure StopsAt (X : PigeonCrypto D) (es : List (Prog.Event (Client D) Op Op.Res)) (c : Client D)
    (tried rest : List PendingSend) : Prop where
  attempts : OnlyTries es (tried ++ rest.take 1)
  tried : ∀ send ∈ tried, ¬ FailedForNow es send
  stops : ∀ send more, rest = send :: more → isHeldBack X c send = false ∧ FailedForNow es send

/-- A pass goes on after a message that did not fail for now. -/
theorem StopsAt.cons {es es' : List (Prog.Event (Client D) Op Op.Res)} {c c₁ : Client D}
    {send : PendingSend} {tried rest : List PendingSend} (h : StopsAt X es' c₁ tried rest)
    (haside : Aside X c c₁) (hes : OnlyTries es [send]) (hsend : ¬ FailedForNow es send)
    (hnodup : ((send :: (tried ++ rest)).map PendingSend.txn_id).Nodup) :
    StopsAt X (es ++ es') c (send :: tried) rest := by
  rw [List.map_cons, List.nodup_cons] at hnodup
  have hlater : ∀ t ∈ tried ++ rest, t.txn_id ≠ send.txn_id := by
    intro t ht he
    exact hnodup.1 (he ▸ List.mem_map_of_mem ht)
  have hsub : tried ++ rest.take 1 ⊆ tried ++ rest :=
    List.append_subset.mpr ⟨List.subset_append_left _ _,
      List.Subset.trans (List.take_subset 1 rest) (List.subset_append_right _ _)⟩
  refine ⟨hes.append h.attempts, ?_, ?_⟩
  · intro t ht
    rw [failedForNow_append, not_or]
    rcases List.mem_cons.mp ht with rfl | ht
    · refine ⟨hsend, h.attempts.spares ?_⟩
      intro hmem
      obtain ⟨t', ht', he⟩ := List.mem_map.mp hmem
      exact hlater t' (hsub ht') he
    · refine ⟨hes.spares ?_, h.tried t ht⟩
      intro hmem
      exact hlater t (List.mem_append_left _ ht) (List.mem_singleton.mp hmem)
  · intro next more hrest
    obtain ⟨hheld, hfails⟩ := h.stops next more hrest
    exact ⟨by rw [← haside.heldBack_eq]; exact hheld, failedForNow_append.mpr (Or.inr hfails)⟩

/-- Calls around them that attempt nothing do not matter. -/
theorem StopsAt.within {es before after : List (Prog.Event (Client D) Op Op.Res)} {c : Client D}
    {tried rest : List PendingSend} (h : StopsAt X es c tried rest) (hbefore : OnlyTries before [])
    (hafter : OnlyTries after []) : StopsAt X (before ++ (es ++ after)) c tried rest := by
  have hsame : ∀ send, FailedForNow (before ++ (es ++ after)) send ↔ FailedForNow es send := by
    intro send
    rw [failedForNow_append, failedForNow_append]
    constructor
    · rintro (hfails | hfails | hfails)
      · exact absurd hfails (hbefore.spares List.not_mem_nil)
      · exact hfails
      · exact absurd hfails (hafter.spares List.not_mem_nil)
    · exact fun hfails => Or.inr (Or.inl hfails)
  refine ⟨?_, ?_, ?_⟩
  · apply (hbefore.append (h.attempts.append hafter)).mono
    simp
  · intro send hsend
    rw [hsame]
    exact h.tried send hsend
  · intro send more hrest
    rw [hsame]
    exact h.stops send more hrest

end PigeonMobile
