-- Passes that race. `process_inbound_mls` takes no lock, so two passes may walk over the same
-- events, each over its own snapshot. The keys of the device are then not those of one walk,
-- but they stay between two: not behind where a pass has got to, and not past where one ends.
import PigeonMobile.RatchetPass
import PigeonMobile.Threads
import PigeonMobile.Timeline
import PigeonMobile.StoreRuns

namespace PigeonMobile

variable {D : Type} {X : PigeonCrypto D}

/-! ## Racing passes -/

/-- A call of a pass. -/
def PassCall {ι : Type} (X : PigeonCrypto D) (_ : ι) (op : Op) (c : Client D) (r : op.Res)
    (c' : Client D) : Prop := Client.local_ X op c = (r, c')

/-- `n + 1` passes, none of which has made a call. -/
def racing (n : Nat) (c : Client D) :
    Crew (Fin (n + 1)) (Client D) Op Op.Res (Except CoreError Bool) :=
  ⟨c, fun _ => process_inbound_mls⟩

/-- What the timeline renders of a row. -/
def rendered (from_str : String → Option Json) (r : EventRow) : Except StoreError TimelineEvent :=
  (Store.parse_stored_payload r).map (TimelineEvent.of from_str)

/-- The keys of a client. -/
def RatchetModel.keysOf (M : RatchetModel X) (c : Client D) : Keys :=
  match c.e2ee with
  | some d => M.keys d
  | none => ⟨fun _ => none, fun _ _ => false⟩

/-- `c'` is at the epochs of `single`, and it caches and renders each message of `items` that
is decrypted there. -/
structure LosesNothing (M : RatchetModel X) (from_str : String → Option Json)
    (items : List PendingMls) (single c' : Client D) : Prop where
  epochs : ∀ room, (M.keysOf c').epoch room = (M.keysOf single).epoch room
  messages : ∀ m, .Message m ∈ items → ∀ r, single.store.events.find m.event_id = some r →
    r.decrypt_state = DECRYPT_OK → ∃ r', c'.store.events.find m.event_id = some r' ∧
      r'.decrypted = r.decrypted ∧ rendered from_str r' = rendered from_str r

/-! ## The order of the events -/

namespace RatchetModel

/-- A copy that takes this event at the epoch of the message cannot read the message after. -/
def Spoils (M : RatchetModel X) (m : PendingDecrypt) : PendingMls → Prop
  | .Commit c => c.room_id = m.room_id ∧
    M.commitEpoch c.room_id c.commit_b64 = M.messageEpoch m.room_id m.ciphertext_b64
  | .Message m' => m'.room_id = m.room_id ∧ m'.ciphertext_b64 = m.ciphertext_b64

/-- A walk from `k` over `items` reads the message after `pre`. -/
def ReadsAfter (M : RatchetModel X) (k : Keys) (items pre : List PendingMls) (m : PendingDecrypt) :
    Prop := (∃ post, items = pre ++ .Message m :: post) ∧ M.Reads (M.walk k pre) m

end RatchetModel

/-- A plaintext that renders a body: an image has a caption. -/
def Captioned (from_str : String → Option Json) (plaintext : String) : Prop :=
  ∀ v, from_str plaintext = some v → isImage v = true →
    ((v.get "body").bind Json.as_str).isSome

/-- No commit is of the epoch at which a single pass ends. No message that it reads comes after
an event that spoils it, and each of them renders a body. -/
structure OrderedStream (M : RatchetModel X) (from_str : String → Option Json) (k : Keys)
    (items : List PendingMls) : Prop where
  commits : ∀ c, .Commit c ∈ items → ¬ M.Moves (M.walk k items) c
  messages : ∀ pre m, M.ReadsAfter k items pre m → ∀ x ∈ pre, ¬ M.Spoils m x
  captions : ∀ pre m, M.ReadsAfter k items pre m →
    Captioned from_str (M.plaintext m.room_id m.ciphertext_b64)

/-! ## The keys of racing passes -/

/-- Two places in one list. -/
theorem place_cases {α : Type} {pre pre' post post' : List α} {x y : α}
    (h : pre ++ x :: post = pre' ++ y :: post') : x ∈ pre' ∨ y ∈ pre ∨ (pre = pre' ∧ x = y) := by
  induction pre generalizing pre' with
  | nil =>
    cases pre' with
    | nil =>
      cases h
      exact Or.inr (Or.inr ⟨rfl, rfl⟩)
    | cons a pre' =>
      cases h
      exact Or.inl List.mem_cons_self
  | cons a pre ih =>
    cases pre' with
    | nil =>
      cases h
      exact Or.inr (Or.inl List.mem_cons_self)
    | cons b pre' =>
      simp only [List.cons_append, List.cons.injEq] at h
      rcases ih h.2 with hx | hy | ⟨hpre, hxy⟩
      · exact Or.inl (List.mem_cons_of_mem _ hx)
      · exact Or.inr (Or.inl (List.mem_cons_of_mem _ hy))
      · exact Or.inr (Or.inr ⟨by rw [h.1, hpre], hxy⟩)

section Keys

variable (M : RatchetModel X) (k₀ : Keys) (items : List PendingMls)

/-- The keys have got as far as a single pass has after the event. -/
def Passed (k : Keys) (x : PendingMls) : Prop :=
  ∀ pre post, items = pre ++ x :: post → (M.walk k₀ (pre ++ [x])).Le k

/-- What holds of the keys while the passes race. -/
structure Steady (k : Keys) : Prop where
  start : k₀.Le k
  /-- no epoch is past the one that a single pass ends at -/
  bound : ∀ room e last, k.epoch room = some e → (M.walk k₀ items).epoch room = some last → e ≤ last
  /-- a message that a single pass reads is read before its epoch is left -/
  kept : ∀ pre m, M.ReadsAfter k₀ items pre m → ∀ e f, k.epoch m.room_id = some e →
    M.messageEpoch m.room_id m.ciphertext_b64 = some f → f < e →
    k.spent m.room_id m.ciphertext_b64 = true

variable {M k₀ items} {k : Keys}

theorem Passed.mono {k' : Keys} {x : PendingMls} (h : Passed M k₀ items k x) (hle : k.Le k') :
    Passed M k₀ items k' x := fun pre post heq => (h pre post heq).trans hle

/-- Keys that have passed each event of a prefix have got as far as a single pass after it. -/
theorem le_of_passed {pre post : List PendingMls} (hstart : k₀.Le k) (h : items = pre ++ post)
    (hpassed : ∀ x ∈ pre, Passed M k₀ items k x) : (M.walk k₀ pre).Le k := by
  rcases List.eq_nil_or_concat' pre with rfl | ⟨before, x, rfl⟩
  · exact hstart
  · rw [List.append_assoc] at h
    exact hpassed x (List.mem_append_right _ List.mem_cons_self) before post h

/-- A message that a single pass reads is read by keys that have passed it. -/
theorem spent_of_passed {pre : List PendingMls} {m : PendingDecrypt}
    (hread : M.ReadsAfter k₀ items pre m) (h : Passed M k₀ items k (.Message m)) :
    k.spent m.room_id m.ciphertext_b64 = true := by
  obtain ⟨⟨post, heq⟩, hreads⟩ := hread
  apply (h pre post heq).spent
  rw [RatchetModel.walk_snoc]
  simp only [RatchetModel.next, hreads, if_true]
  exact Keys.spent_spend _ _ _

/-- An event takes keys that have got as far as a single pass to where that one is after it. -/
theorem Steady.le_next (hs : Steady M k₀ items k) {pre post : List PendingMls} {x : PendingMls}
    (heq : items = pre ++ x :: post) (hle : (M.walk k₀ pre).Le k) :
    (M.walk k₀ (pre ++ [x])).Le (M.next k x) := by
  have hnext := RatchetModel.le_next (M := M) k x
  rw [RatchetModel.walk_snoc]
  cases x with
  | Commit c =>
    by_cases hmoves : M.Moves (M.walk k₀ pre) c
    · obtain ⟨f, hf⟩ := Option.isSome_iff_exists.mp hmoves.1
      have hcommit := hmoves.2.trans hf
      obtain ⟨e, he, hfe⟩ := hle.at hf
      have hsingle : M.next (M.walk k₀ pre) (.Commit c) = (M.walk k₀ pre).advance c.room_id := by
        simp only [RatchetModel.next, hmoves, if_true]
      rw [hsingle]
      refine ⟨?_, ?_, ?_⟩
      · intro room
        rw [(hle.trans hnext).held, ((M.walk k₀ pre).le_advance c.room_id).held]
      · intro room a b ha hb
        by_cases hroom : room = c.room_id
        · subst hroom
          have ha : f + 1 = a := by simpa [Keys.advance, hf] using ha
          by_cases hsame : f = e
          · -- the racing copy is at the same epoch, so the commit moves it as well
            have hboth : M.Moves k c := ⟨by rw [he]; rfl, by rw [hcommit, he, hsame]⟩
            have hb : e + 1 = b := by
              simpa [RatchetModel.next, hboth, Keys.advance, he] using hb
            omega
          · obtain ⟨b', hb', heb⟩ := hnext.at he
            rw [hb] at hb'
            cases hb'
            omega
        · have ha : (M.walk k₀ pre).epoch room = some a := by
            simpa [Keys.advance, hroom] using ha
          exact (hle.trans hnext).epoch room a b ha hb
      · exact (hle.trans hnext).spent
    · have hsingle : M.next (M.walk k₀ pre) (.Commit c) = M.walk k₀ pre := by
        simp only [RatchetModel.next, hmoves, if_false]
      rw [hsingle]
      exact hle.trans hnext
  | Message m =>
    by_cases hreads : M.Reads (M.walk k₀ pre) m
    · obtain ⟨f, hf⟩ := Option.isSome_iff_exists.mp hreads.1
      have hmessage := hreads.2.1.trans hf
      obtain ⟨e, he, hfe⟩ := hle.at hf
      have hsingle : M.next (M.walk k₀ pre) (.Message m) =
          (M.walk k₀ pre).spend m.room_id m.ciphertext_b64 := by
        simp only [RatchetModel.next, hreads, if_true]
      have hspent : (M.next k (.Message m)).spent m.room_id m.ciphertext_b64 = true := by
        by_cases hold : k.spent m.room_id m.ciphertext_b64 = true
        · exact hnext.spent _ _ hold
        · -- it is not left behind, so the racing copy is at its epoch and reads it
          have hsame : f = e := by
            by_contra hne
            exact hold (hs.kept pre m ⟨⟨post, heq⟩, hreads⟩ e f he hmessage (by omega))
          have hboth : M.Reads k m :=
            ⟨by rw [he]; rfl, by rw [hmessage, he, hsame], by simpa using hold⟩
          simp only [RatchetModel.next, hboth, if_true]
          exact Keys.spent_spend _ _ _
      rw [hsingle]
      refine ⟨(hle.trans hnext).held, (hle.trans hnext).epoch, ?_⟩
      intro room ct h
      by_cases hkey : room = m.room_id ∧ ct = m.ciphertext_b64
      · obtain ⟨rfl, rfl⟩ := hkey
        exact hspent
      · have h : (M.walk k₀ pre).spent room ct = true := by simpa [Keys.spend, hkey] using h
        exact (hle.trans hnext).spent room ct h
    · have hsingle : M.next (M.walk k₀ pre) (.Message m) = M.walk k₀ pre := by
        simp only [RatchetModel.next, hreads, if_false]
      rw [hsingle]
      exact hle.trans hnext

/-- An event keeps the keys steady, for a pass that is through with those before it. -/
theorem Steady.next {from_str : String → Option Json} (horder : OrderedStream M from_str k₀ items)
    (hs : Steady M k₀ items k) {pre post : List PendingMls} {x : PendingMls}
    (heq : items = pre ++ x :: post) (hpassed : ∀ y ∈ pre, Passed M k₀ items k y) :
    Steady M k₀ items (M.next k x) := by
  have hnext := RatchetModel.le_next (M := M) k x
  cases x with
  | Message m =>
    have hepoch : (M.next k (.Message m)).epoch = k.epoch := by
      simp only [RatchetModel.next]
      split <;> rfl
    refine ⟨hs.start.trans hnext, ?_, ?_⟩
    · rw [hepoch]
      exact hs.bound
    · intro pre' m' hread e f he hf hlt
      rw [hepoch] at he
      exact hnext.spent _ _ (hs.kept pre' m' hread e f he hf hlt)
  | Commit c =>
    by_cases hmoves : M.Moves k c
    · obtain ⟨e, he⟩ := Option.isSome_iff_exists.mp hmoves.1
      have hcommit := hmoves.2.trans he
      have hadvance : M.next k (.Commit c) = k.advance c.room_id := by
        simp only [RatchetModel.next, hmoves, if_true]
      rw [hadvance] at hnext ⊢
      refine ⟨hs.start.trans hnext, ?_, ?_⟩
      · intro room a last ha hlast
        by_cases hroom : room = c.room_id
        · subst hroom
          have ha : e + 1 = a := by simpa [Keys.advance, he] using ha
          have hle := hs.bound c.room_id e last he hlast
          have hne : e ≠ last := by
            rintro rfl
            refine horder.commits c ?_ ⟨by rw [hlast]; rfl, by rw [hcommit, hlast]⟩
            rw [heq]
            exact List.mem_append_right _ List.mem_cons_self
          omega
        · have ha : k.epoch room = some a := by simpa [Keys.advance, hroom] using ha
          exact hs.bound room a last ha hlast
      · intro pre' m hread a f ha hf hlt
        by_cases hroom : m.room_id = c.room_id
        · have ha : e + 1 = a := by simpa [Keys.advance, hroom, he] using ha
          by_cases hsame : f = e
          · -- the message is of the epoch that the commit ends
            have hspoils : M.Spoils m (.Commit c) := ⟨hroom.symm, by rw [hcommit, hf, hsame]⟩
            obtain ⟨post', heq'⟩ := hread.1
            rcases place_cases (heq.symm.trans heq') with hin | hin | ⟨-, hxy⟩
            · exact absurd hspoils (horder.messages pre' m hread _ hin)
            · have hspent := spent_of_passed hread (hpassed _ hin)
              exact hspent
            · cases hxy
          · rw [← hroom] at he
            exact hs.kept pre' m hread e f he hf (by omega)
        · have ha : k.epoch m.room_id = some a := by simpa [Keys.advance, hroom] using ha
          exact hs.kept pre' m hread a f ha hf hlt
    · have hstill : M.next k (.Commit c) = k := by
        simp only [RatchetModel.next, hmoves, if_false]
      rw [hstill]
      exact hs

/-- A message of the key that a pass has just used is the message of that pass. -/
theorem reader_is_own {from_str : String → Option Json} (horder : OrderedStream M from_str k₀ items)
    {pre post pre' : List PendingMls} {y m : PendingDecrypt}
    (heq : items = pre ++ .Message y :: post)
    (hpassed : ∀ x ∈ pre, Passed M k₀ items k x) (hreads : M.Reads k y)
    (hread : M.ReadsAfter k₀ items pre' m) (hroom : m.room_id = y.room_id)
    (hct : m.ciphertext_b64 = y.ciphertext_b64) : m = y := by
  obtain ⟨post', heq'⟩ := hread.1
  rcases place_cases (heq.symm.trans heq') with hin | hin | ⟨-, hxy⟩
  · exact absurd ⟨hroom.symm, hct.symm⟩ (horder.messages pre' m hread _ hin)
  · have hspent := spent_of_passed hread (hpassed _ hin)
    rw [hroom, hct, hreads.2.2] at hspent
    cases hspent
  · cases hxy
    rfl

end Keys

end PigeonMobile
