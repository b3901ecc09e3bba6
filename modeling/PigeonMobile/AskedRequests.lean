-- What leaves the phone was asked for. A text waits in the queue over kills and relaunches, and any
-- flush of any loop sends it; a picture, its upload and its event take several calls; an invite
-- claims keys and sends Welcomes. Every one of these requests is for something that the user asked,
-- in the room that it was asked for.
import PigeonMobile.ClientConduct
import PigeonMobile.EpochGroup
import PigeonMobile.QueueOrder
import PigeonMobile.SentContents

namespace PigeonMobile

/-! ## The queue -/

/-- The queue has no row that it did not have. -/
def Subqueue (st' st : Store) : Prop := ∀ txn_id row,
  st'.pending_sends.find txn_id = some row → st.pending_sends.find txn_id = some row

/-- Every row of the queue is good. -/
def QueueAll (good : PendingRow → Prop) (st : Store) : Prop :=
  ∀ txn_id row, st.pending_sends.find txn_id = some row → good row

/-- A row that the call adds is good. -/
def QueuesGood (good : PendingRow → Prop) : (op : Op) → op.Res → Prop
  | .queue_send room_id _ body, .ok txn_id => ∀ event_id created_ts,
    good ⟨txn_id, room_id, body, event_id, created_ts⟩
  | _, _ => True

theorem Subqueue.of_eq {st st' : Store} (h : st'.pending_sends = st.pending_sends) :
    Subqueue st' st := by
  intro txn_id row hrow
  rwa [h] at hrow

theorem Subqueue.of_erase {st st' : Store} {gone : String}
    (h : st'.pending_sends = st.pending_sends.erase gone) : Subqueue st' st := by
  intro txn_id row hrow
  rw [h, Table.find_erase] at hrow
  split at hrow
  · cases hrow
  · exact hrow

namespace QueueAll

variable {good : PendingRow → Prop}

theorem sub {st st' : Store} (h : QueueAll good st) (hsub : Subqueue st' st) : QueueAll good st' :=
  fun txn_id row hrow => h txn_id row (hsub txn_id row hrow)

theorem empty {st : Store} (h : st.pending_sends.rows = []) : QueueAll good st := by
  intro txn_id row hrow
  have hmem := (Table.find_some_iff.mp hrow).1
  rw [h] at hmem
  cases hmem

/-- What is read of the queue is of its rows. -/
theorem listed {st : Store} (h : QueueAll good st) {send : PendingSend}
    (hsend : send ∈ st.pending_sends_list) :
    ∃ row, good row ∧ send = ⟨row.txn_id, row.room_id, row.body⟩ := by
  obtain ⟨row, hrow, rfl⟩ := st.mem_pending_sends_list.mp hsend
  exact ⟨row, h row.txn_id row (Table.find_some_iff.mpr ⟨hrow, rfl⟩), rfl⟩

/-- A send that is queued adds a row; no other call does. -/
theorem call {D : Type} {X : PigeonCrypto D} {op : Op} {c c' : Client D} {r : op.Res}
    (h : QueueAll good c.store) (hgood : QueuesGood good op r) (hc : Client.Exec X op c r c') :
    QueueAll good c'.store := by
  obtain ⟨choice, hc⟩ := hc
  by_cases hwrites : Client.writesStore op = false
  · have hstore := Client.perform_store hwrites choice c (X := X)
    rw [hc] at hstore
    rw [hstore]
    exact h
  -- the methods that cannot fail
  have hwrite : ∀ {fault : Fault} {f : Store → Store} {r : Except CoreError Unit},
      c.onStore fault (fun st => .ok ((), f st)) = (r, c') → Subqueue (f c.store) c.store →
      QueueAll good c'.store := by
    intro fault f r hc hsub
    rcases Client.onStore_cases hc with ⟨e, -, rfl⟩ | ⟨b, st, hst, -, rfl⟩
    · exact h
    · cases hst
      exact h.sub hsub
  cases op with
  | queue_send room_id sender body =>
    obtain ⟨fault, ids, now⟩ := choice
    rcases Client.onStore_cases (show c.onStore fault (fun st => st.queue_send room_id sender body
      ids now) = (r, c') from hc) with ⟨e, -, rfl⟩ | ⟨txn, st, hok, rfl, rfl⟩
    · exact h
    · obtain ⟨htxn, -⟩ := c.store.queue_send_ok hok
      obtain ⟨-, -, -, -, -, -, hfind⟩ := c.store.find_queue_send hok
      intro txn_id row hrow
      simp only [hfind] at hrow
      split at hrow
      · cases hrow
        rw [← htxn]
        exact hgood _ _
      · exact h txn_id row hrow
  | apply_events events =>
    rcases Client.onStore_cases (show c.onStore choice (fun st => st.apply_events events) = (r, c')
      from hc) with ⟨e, -, rfl⟩ | ⟨n, st, hok, -, rfl⟩
    · exact h
    · obtain ⟨evs, -, happ⟩ := c.store.apply_events_ok hok
      have hqueue := c.store.apply_parsed_pending_sends evs
      rw [happ] at hqueue
      exact h.sub (Subqueue.of_eq hqueue)
  | resolve_send txn_id id =>
    rcases Client.onStore_cases (show c.onStore choice (fun st => (st.resolve_send txn_id id).map
      ((), ·)) = (r, c') from hc) with ⟨e, -, rfl⟩ | ⟨u, st, hok, -, rfl⟩
    · exact h
    · cases hres : c.store.resolve_send txn_id id with
      | error e =>
        rw [hres] at hok
        cases hok
      | ok st₁ =>
        rw [hres] at hok
        cases hok
        exact h.sub (Subqueue.of_erase (Store.resolve_send_queue hres))
  | fail_send txn_id =>
    exact hwrite (f := fun st => st.fail_send txn_id) hc
      (Subqueue.of_erase (c.store.fail_send_queue txn_id))
  | save_sync_token token =>
    exact hwrite (f := fun st => st.save_sync_token token) hc (Subqueue.of_eq rfl)
  | set_decrypted event_id text =>
    exact hwrite (f := fun st => st.set_decrypted event_id text) hc (Subqueue.of_eq rfl)
  | set_decrypt_failed event_id =>
    exact hwrite (f := fun st => st.set_decrypt_failed event_id) hc (Subqueue.of_eq rfl)
  | set_commit_processed event_id =>
    exact hwrite (f := fun st => st.set_commit_processed event_id) hc (Subqueue.of_eq rfl)
  | _ => exact absurd rfl hwrites

end QueueAll

/-! ## What is asked, and what goes out -/

/-- What the user asks of the client. -/
structure Asked where
  text : (room_id body : String) → Prop
  image : String → Picture → Prop
  invite : (room_id user_id : String) → Prop

section

variable {D : Type} (X : PigeonCrypto D) (decrypt_media : String → Bytes → Except CoreError Bytes)
  (asked : Asked)

/-- An event that the user asked for: a text or a picture of the room, in the clear or sealed, or
the commit of an invite. -/
inductive PostOf (room_id : String) : String → Json → Prop
  | text {body : String} : asked.text room_id body →
      PostOf room_id "p.room.message" (textContent body)
  | sealed_text {body ct : String} : asked.text room_id body → SealedAs X room_id body ct →
      PostOf room_id "p.room.encrypted" (encryptedContent ct)
  | image {image : Picture} {uri : String} : asked.image room_id image →
      PostOf room_id "p.room.message" (image.plain uri)
  | sealed_image {image : Picture} {uri key ct : String} : asked.image room_id image →
      SealedAs X room_id (image.hidden uri key).to_string ct →
      PostOf room_id "p.room.encrypted" (encryptedContent ct)
  | commit {user_id commit : String} : asked.invite room_id user_id →
      PostOf room_id "p.mls.commit" (commitContent commit)

/-- A request that the user asked for. The other calls carry nothing of the user's. -/
def RequestOf : Op → Prop
  | .api_send_event room_id event_type _ content => PostOf X asked room_id event_type content
  | .api_upload_media bytes _ => ∃ room_id image, asked.image room_id image ∧
      (bytes = image.bytes ∨ ∃ key, decrypt_media key bytes = .ok image.bytes)
  | .api_invite room_id user_id => asked.invite room_id user_id
  | .api_query_keys user_id => ∃ room_id, asked.invite room_id user_id
  | .api_claim_keys user_id _ => ∃ room_id, asked.invite room_id user_id
  | .api_send_to_device event_type _ messages => ∃ room_id user_id device_id welcome,
      asked.invite room_id user_id ∧ event_type = "p.mls.welcome" ∧
      messages = welcomeMessages user_id device_id room_id welcome
  | .queue_send room_id _ body => asked.text room_id body
  | _ => True

/-- The text of the row was asked for. -/
def TextAsked (row : PendingRow) : Prop := asked.text row.room_id row.body

/-- What the calls answer: the queue has what was asked, and the engine seals and hides what it is
given. -/
def AskedAnswers : (op : Op) → op.Res → Prop
  | .pending_sends, .ok sends => ∀ send ∈ sends, asked.text send.room_id send.body
  | .encrypt room_id text, .ok ct => SealedAs X room_id text ct
  | .encrypt_media bytes, .ok (key, blob) => decrypt_media key blob = .ok bytes
  | _, _ => True

/-- What was encrypted is decrypted under its key. -/
def MediaOpens : (op : Op) → op.Res → Prop
  | .encrypt_media bytes, .ok (key, blob) => decrypt_media key blob = .ok bytes
  | _, _ => True

/-- The calls that carry nothing of the user's. -/
def Op.impersonal : Op → Bool
  | .api_send_event _ _ _ _ => false
  | .api_upload_media _ _ => false
  | .api_invite _ _ => false
  | .api_query_keys _ => false
  | .api_claim_keys _ _ => false
  | .api_send_to_device _ _ _ => false
  | .queue_send _ _ _ => false
  | _ => true

/-- Everything the client does, any number of times at once: the texts, pictures and invites that
were asked for, and the code that runs of itself. A relaunch or a wipe may empty the queue. -/
def handset : Threaded Nat (Client D) Op Op.Res where
  call _ op c r c' := Client.Exec X op c r c' ∧ MediaOpens decrypt_media op r
  start _ _ p :=
    (∃ room_id body, asked.text room_id body ∧ p = (send_message room_id body).forget) ∨
    (∃ room_id image, asked.image room_id image ∧ p = (send_image room_id image.bytes image.mimetype
      image.width image.height image.caption).forget) ∨
    (∃ room_id user_id, asked.invite room_id user_id ∧ p = (invite room_id user_id).forget) ∨
    (∃ rounds backoff, p = (run_sync rounds backoff).forget) ∨ p = flush_pending.forget ∨
    (∃ room_id limit, p = (fetch_messages room_id limit).forget) ∨
    p.All (fun op => op.impersonal = true)
  drop _ c c' := c' = c
  env c c' := Subqueue c'.store c.store
  restart c c' := Subqueue c'.store c.store

variable {X decrypt_media asked}

/-- A text that is queued is one that was asked for. -/
theorem asked_queued {op : Op} {r : op.Res} (hop : RequestOf X decrypt_media asked op) :
    QueuesGood (TextAsked asked) op r := by
  cases op with
  | queue_send room_id sender body =>
    cases r with
    | error e => trivial
    | ok txn_id => exact fun _ _ => hop
  | _ => trivial

/-- What is read of the queue was asked for, and a ciphertext is of its text. -/
theorem asked_answers {op : Op} {c c' : Client D} {r : op.Res}
    (h : QueueAll (TextAsked asked) c.store)
    (hc : Client.Exec X op c r c') (hmedia : MediaOpens decrypt_media op r) :
    AskedAnswers X decrypt_media asked op r := by
  cases op with
  | pending_sends =>
    obtain ⟨fault, hc⟩ := hc
    obtain ⟨-, ⟨e, rfl⟩ | rfl⟩ := Client.exec_read (show c.onStore fault
      (fun st => .ok (st.pending_sends_list, st)) = (r, c') from hc)
    · trivial
    · intro send hsend
      obtain ⟨row, hrow, rfl⟩ := h.listed hsend
      exact hrow
  | encrypt room_id text =>
    cases r with
    | error e => trivial
    | ok ct => exact sealedAs_exec hc
  | encrypt_media bytes =>
    rcases r with e | ⟨key, blob⟩
    · trivial
    · exact hmedia
  | _ => trivial

/-! ## The programs -/

theorem impersonal_request {op : Op} (h : op.impersonal = true) :
    RequestOf X decrypt_media asked op := by
  cases op <;> first | exact absurd h Bool.false_ne_true | trivial

theorem asked_flush : FlushRule (AskedAnswers X decrypt_media asked)
    (RequestOf X decrypt_media asked) (fun send => asked.text send.room_id send.body) where
  asks op hop := by
    cases op <;> first | exact absurd hop Bool.false_ne_true | trivial
  queued _ h := h
  plain _ h := .text h
  sealed _ _ h hct := .sealed_text h hct
  resolves _ _ _ _ _ _ := trivial

theorem asks_pass {op : Op} (h : op.ofPass = true) : RequestOf X decrypt_media asked op := by
  cases op <;> first | exact absurd h Bool.false_ne_true | trivial

theorem asks_round {op : Op} (h : op.ofRound = true) : RequestOf X decrypt_media asked op := by
  cases op <;> first | exact absurd h Bool.false_ne_true | trivial

theorem asked_image {room_id : String} {image : Picture} (himage : asked.image room_id image) :
    ImageRule (AskedAnswers X decrypt_media asked) (RequestOf X decrypt_media asked) room_id
      image.bytes image.mimetype image.width image.height image.caption where
  asks op hop := by
    cases op <;> first | exact absurd hop Bool.false_ne_true | trivial
  uploads := ⟨room_id, image, himage, Or.inl rfl⟩
  hides key _ hblob := ⟨room_id, image, himage, Or.inr ⟨key, hblob⟩⟩
  posts _ _ _ := .image himage
  seals _ _ _ _ hct _ := .sealed_image himage hct

theorem asked_invite {room_id user_id : String} (hinvite : asked.invite room_id user_id) :
    InviteRule (AskedAnswers X decrypt_media asked) (RequestOf X decrypt_media asked)
      room_id user_id where
  asks op hop := by
    cases op <;> first | exact absurd hop Bool.false_ne_true | trivial
  invites := hinvite
  queries := ⟨room_id, hinvite⟩
  claims _ := ⟨room_id, hinvite⟩
  welcomes device_id welcome _ _ := ⟨room_id, user_id, device_id, welcome, hinvite, rfl, rfl⟩
  commits _ _ _ := .commit hinvite

/-! ## Every run -/

theorem handset_conducts {c : Client D} (hc : QueueAll (TextAsked asked) c.store)
    {p : Pool Nat (Client D) Op Op.Res}
    (hr : (handset X decrypt_media asked).Reaches (Threaded.idle c) p) :
    Threaded.Conducts (AskedAnswers X decrypt_media asked) (RequestOf X decrypt_media asked)
      (fun c => QueueAll (TextAsked asked) c.store) p := by
  apply Threaded.conduct (I := fun c : Client D => QueueAll (TextAsked asked) c.store)
    _ _ _ _ _ hc hr
  · intro i c p hp
    rcases hp with ⟨room_id, body, htext, rfl⟩ | ⟨room_id, image, himage, rfl⟩ |
      ⟨room_id, user_id, hinvite, rfl⟩ | ⟨rounds, backoff, rfl⟩ | rfl |
      ⟨room_id, limit, rfl⟩ | hother
    · exact (asked_flush.send_message trivial (fun _ => htext)).forget
    · exact (asked_image himage).send_image.forget
    · exact (asked_invite hinvite).invite.forget
    · exact (asked_flush.run_sync (fun _ => asks_round) rounds backoff).forget
    · exact asked_flush.flush_pending.forget
    · exact (fetch_messages_follows trivial (fun _ => asks_pass) (fun _ _ => trivial)).forget
    · exact Prog.All.follows (hother.mono (fun _ => impersonal_request))
  · intro i op c r c' hop hinv hcall
    exact ⟨asked_answers hinv hcall.1 hcall.2, hinv.call (asked_queued hop) hcall.1⟩
  · rintro i c c' hinv rfl
    exact hinv
  · exact fun c c' hinv hsub => hinv.sub hsub
  · exact fun c c' hinv hsub => hinv.sub hsub

end

/-- In every state that a phone with an empty queue can come to, whatever runs at once and wherever
it was killed, each request that is about to be made is one the user asked for: a text goes to the
room it was typed for, as it was typed or sealed for that room; a picture, its bytes or their
ciphertext goes up and is posted where it was picked for; and keys are claimed, and Welcomes sent,
for the users that were invited. -/
theorem requests_are_asked_for {D : Type} (X : PigeonCrypto D)
    (decrypt_media : String → Bytes → Except CoreError Bytes) (asked : Asked) {c : Client D}
    (hc : c.store.pending_sends.rows = []) {p : Pool Nat (Client D) Op Op.Res}
    (hr : (handset X decrypt_media asked).Reaches (Threaded.idle c) p) {i : Nat} {op : Op}
    {k : op.Res → Prog Op Op.Res Unit} (hi : p.threads i = some (.call op k)) :
    RequestOf X decrypt_media asked op := by
  exact ((handset_conducts (QueueAll.empty hc) hr).follows i _ hi).1

/-- One text was typed. -/
def askedHi : Asked where
  text room_id body := room_id = "!room" ∧ body = "hi"
  image _ _ := False
  invite _ _ := False

def hiPhone : Threaded Nat (Client Copies) Op Op.Res :=
  handset epochCrypto (fun _ _ => .error (.Crypto "")) askedHi

/-- It is queued, and about to go out. -/
theorem hi_goes_out : ∃ p : Pool Nat (Client Copies) Op Op.Res,
    hiPhone.Reaches (Threaded.idle freshClient) p ∧ ∃ k, p.threads 0 =
      some (.call (.api_send_event "!room" "p.room.message" "m0-0" (textContent "hi")) k) := by
  have h0 : hiPhone.Reaches (Threaded.idle freshClient) (Threaded.idle freshClient) :=
    Relation.ReflTransGen.refl
  have h1 := h0.start 0 (send_message "!room" "hi").forget (Or.inl ⟨"!room", "hi", ⟨rfl, rfl⟩, rfl⟩)
  have h2 := h1.call freshClient (r := freshClient.session) ⟨⟨.none, rfl⟩, trivial⟩
  have h3 := h2.call _ (r := .ok "m0-0") ⟨⟨(.none, next_send_ids 0 0, 0), rfl⟩, trivial⟩
  have h4 := h3.call _ (r := ()) ⟨⟨.none, rfl⟩, trivial⟩
  have h5 := h4.call _ (r := .ok [⟨"m0-0", "!room", "hi"⟩]) ⟨⟨.none, rfl⟩, trivial⟩
  have h6 := h5.call _ (r := true) ⟨⟨.none, rfl⟩, trivial⟩
  have h7 := h6.call _ (r := .ok false) ⟨⟨.none, rfl⟩, trivial⟩
  have h8 := h7.call _ (r := .ok false) ⟨⟨.none, rfl⟩, trivial⟩
  exact ⟨_, h8, _, Threaded.solo_threads _⟩

theorem requests_are_asked_for_hi : ∃ p : Pool Nat (Client Copies) Op Op.Res,
    hiPhone.Reaches (Threaded.idle freshClient) p ∧ ∃ k, p.threads 0 =
      some (.call (.api_send_event "!room" "p.room.message" "m0-0" (textContent "hi")) k) ∧
    PostOf epochCrypto askedHi "!room" "p.room.message" (textContent "hi") := by
  obtain ⟨p, hp, k, hi⟩ := hi_goes_out
  exact ⟨p, hp, k, hi, requests_are_asked_for epochCrypto _ askedHi rfl hp hi⟩

end PigeonMobile
