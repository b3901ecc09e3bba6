-- No plaintext downgrade. An operation that sends reads a few facts and then
-- transmits: the last of these reads is where it chooses what goes out. The queue
-- chooses on the encryption marker of the room. `send_image` chooses on the MLS
-- group alone, so an image goes out in the clear where the marker came first.
import PigeonMobile.EpochGroup
import PigeonMobile.Rooms

namespace PigeonMobile

/-! ## What an operation transmits -/

/-- The operations that send a message. -/
inductive Outgoing where
  | flush_pending
  | send_message (room_id body : String)
  | send_image (room_id : String) (bytes : Bytes) (mimetype : String) (width height : Nat)
      (caption : String)

namespace Outgoing

def code : Outgoing → Code Unit
  | .flush_pending => PigeonMobile.flush_pending.forget
  | .send_message room_id body => (PigeonMobile.send_message room_id body).forget
  | .send_image room_id bytes mimetype width height caption =>
    (PigeonMobile.send_image room_id bytes mimetype width height caption).forget

/-- The room that the media of the operation is for. -/
def mediaRoom : Outgoing → Option String
  | .send_image room_id _ _ _ _ _ => some room_id
  | _ => none

end Outgoing

/-- A call that the client made. -/
abbrev Call (D : Type) := Prog.Event (Client D) Op Op.Res

/-- The reads that decide between plaintext and ciphertext. -/
def Op.chooses : Op → Bool
  | .e2ee => true
  | .has_group _ => true
  | .is_room_encrypted _ => true
  | _ => false

/-- The requests that carry a message or its media. -/
def Op.transmits : Op → Bool
  | .api_send_event _ _ _ _ => true
  | .api_upload_media _ _ => true
  | _ => false

variable {D : Type}

/-- The client as the last choice found it; the newest call comes first. -/
def lastChoice : List (Call D) → Option (Client D)
  | [] => none
  | e :: past => if e.op.chooses then some e.before else lastChoice past

/-- The bytes that a call gave as the ciphertext of a file. -/
def sealedBytes : Call D → Option Bytes
  | ⟨_, .encrypt_media _, .ok (_, ciphertext)⟩ => some ciphertext
  | _ => none

/-- A request that carries plaintext to the room: a plaintext message, or bytes of
media that no call before it has encrypted. -/
def PlainTo (o : Outgoing) (room : String) (past : List (Call D)) : Op → Prop
  | .api_send_event room_id event_type _ _ => room_id = room ∧ event_type = "p.room.message"
  | .api_upload_media bytes _ => o.mediaRoom = some room ∧ ∀ e ∈ past, sealedBytes e ≠ some bytes
  | _ => False

/-- In the run `es`, plaintext goes to a room that was encrypted when the operation
chose what to transmit. -/
def Downgrades (o : Outgoing) (room : String) (es : List (Call D)) : Prop :=
  ∃ es₁ e es₂ c, es = es₁ ++ e :: es₂ ∧ PlainTo o room es₁.reverse e.op ∧
    lastChoice es₁.reverse = some c ∧ c.store.is_room_encrypted room = true

variable (X : PigeonCrypto D)

/-- The room is encrypted, and there is no engine or it holds no group for it. -/
def Unprotected (room : String) (c : Client D) : Prop :=
  c.store.is_room_encrypted room = true ∧ ∀ d, c.e2ee = some d → X.load_group d room = false

/-- A request goes out after a choice made in a state that is `Unprotected`, and the
operation sends an image to the room. -/
def SendsUnprotected (o : Outgoing) (room : String) (es : List (Call D)) : Prop :=
  ∃ es₁ e es₂ c, es = es₁ ++ e :: es₂ ∧ e.op.transmits = true ∧
    lastChoice es₁.reverse = some c ∧ o.mediaRoom = some room ∧ Unprotected X room c

/-! ## Call by call -/

/-- One call: it carries plaintext against the marker just where it is a request for
an image that was chosen unprotected. -/
def AsChosen (o : Outgoing) (room : String) (past : List (Call D)) (e : Call D) : Prop :=
  ∀ c, lastChoice past = some c →
    (PlainTo o room past e.op ∧ c.store.is_room_encrypted room = true ↔
      e.op.transmits = true ∧ o.mediaRoom = some room ∧ Unprotected X room c)

variable {X} {o : Outgoing} {room : String}

theorem asChosen_silent {past : List (Call D)} {e : Call D} (h : e.op.transmits = false) :
    AsChosen X o room past e := by
  intro c _
  obtain ⟨s, op, r⟩ := e
  cases op <;> simp_all [Op.transmits, PlainTo]

/-- The programs whose calls all are `AsChosen`. -/
abbrev Chosen {α : Type} (X : PigeonCrypto D) (o : Outgoing) (room : String)
    (past : List (Call D)) (p : Code α) : Prop :=
  p.Along (Client.Exec X) (AsChosen X o room) (fun _ _ => True) past

/-- A call that sends nothing: the rest of the program counts. -/
theorem chosen_silent {α : Type} {past : List (Call D)} {op : Op} {k : op.Res → Code α}
    (hop : op.transmits = false)
    (hk : ∀ s r s', Client.Exec X op s r s' → Chosen X o room (⟨s, op, r⟩ :: past) (k r)) :
    Chosen X o room past (.call op k) :=
  fun s r s' hx => ⟨asChosen_silent hop, hk s r s' hx⟩

theorem chosen_andThen {α β : Type} {past : List (Call D)} {p : Code (Except CoreError α)}
    {f : α → Code (Except CoreError β)} (hp : Chosen X o room past p)
    (hf : ∀ past' a, Chosen X o room past' (f a)) : Chosen X o room past (p.andThen f) := by
  apply Prog.Along.bind
  refine Prog.Along.mono ?_ hp
  intro past' r _
  cases r with
  | error e => trivial
  | ok a => exact hf past' a

theorem chosen_forget {α : Type} {past : List (Call D)} {p : Code α}
    (hp : Chosen X o room past p) : Chosen X o room past p.forget := by
  apply Prog.Along.bind
  exact Prog.Along.mono (fun _ _ _ => trivial) hp

/-! ## The queue -/

section Queue

variable (ho : o.mediaRoom = none)
include ho

/-- A queued send goes out as ciphertext, or to a room that its choice found plain. -/
theorem chosen_transmit {past : List (Call D)} {send : PendingSend} {event_type : String}
    {content : Json} (h : event_type = "p.room.encrypted" ∨
      ∀ c, lastChoice past = some c → c.store.is_room_encrypted send.room_id = false) :
    Chosen X o room past (transmit send event_type content) := by
  intro s r s' _
  refine ⟨?_, ?_⟩
  · intro c hc
    refine iff_of_false ?_ ?_
    · rintro ⟨⟨hroom, htype⟩, henc⟩
      rcases h with h | h
      · rw [h] at htype
        exact absurd htype (by decide)
      · rw [← hroom, h c hc] at henc
        cases henc
    · rintro ⟨_, hmedia, _⟩
      rw [ho] at hmedia
      cases hmedia
  · rcases r with err | event_id
    · dsimp only
      split
      · trivial
      · apply chosen_silent rfl
        intro _ r _ _
        cases r <;> trivial
    · apply chosen_silent rfl
      intro _ r _ _
      cases r <;> trivial

omit ho in
theorem chosen_encrypt_for_send {past : List (Call D)} (room_id body : String) :
    Chosen X o room past (encrypt_for_send room_id body) := by
  apply chosen_silent rfl
  intro _ engine _ _
  rcases engine with _ | _
  · trivial
  apply chosen_silent rfl
  intro _ held _ _
  rcases held with e | _ | _
  · trivial
  · trivial
  apply chosen_silent rfl
  intro _ ciphertext _ _
  cases ciphertext <;> trivial

theorem chosen_flush_one {past : List (Call D)} (send : PendingSend) :
    Chosen X o room past (flush_one send) := by
  apply Prog.Along.bind
  refine Prog.Along.mono ?_ (chosen_encrypt_for_send send.room_id send.body)
  intro past' r _
  rcases r with e | ciphertext
  · apply chosen_silent rfl
    intro _ r _ _
    cases r <;> trivial
  rcases ciphertext with _ | ciphertext
  · -- no group: the marker decides
    apply chosen_silent rfl
    intro s r s' hx
    rcases r with e | _ | _
    · trivial
    · apply chosen_transmit ho
      right
      intro c hc
      obtain rfl : s = c := Option.some.inj hc
      obtain ⟨-, ⟨e, he⟩ | he⟩ := Client.exec_is_room_encrypted hx
      · cases he
      · exact (Except.ok.inj he).symm
    · trivial
  · exact chosen_transmit ho (Or.inl rfl)

theorem chosen_flush_sends {past : List (Call D)} (sends : List PendingSend) (changed : Bool) :
    Chosen X o room past (flush_sends sends changed) := by
  induction sends generalizing past changed with
  | nil => trivial
  | cons send rest ih =>
    apply chosen_andThen (chosen_flush_one ho send)
    intro past' flushed
    cases flushed with
    | held => exact ih changed
    | stop => trivial
    | settled => exact ih true

theorem chosen_flush_pending {past : List (Call D)} :
    Chosen X o room past PigeonMobile.flush_pending := by
  apply chosen_silent rfl
  intro _ _ _ _
  apply chosen_silent rfl
  intro _ r _ _
  rcases r with e | sends
  · exact chosen_silent rfl (fun _ _ _ _ => trivial)
  · apply Prog.Along.bind
    refine Prog.Along.mono ?_ (chosen_flush_sends ho sends false)
    intro past' r _
    exact chosen_silent rfl (fun _ _ _ _ => trivial)

theorem chosen_send_message {past : List (Call D)} (room_id body : String) :
    Chosen X o room past (PigeonMobile.send_message room_id body) := by
  apply chosen_silent rfl
  intro _ session _ _
  apply chosen_silent rfl
  intro _ r _ _
  rcases r with e | txn
  · trivial
  · exact chosen_andThen (chosen_flush_pending ho) (fun _ _ => trivial)

end Queue

/-! ## Images -/

section Image

variable {room_id : String} (ho : o.mediaRoom = some room_id)
include ho

/-- A request is right where the state it was chosen in is `Unprotected` just when
the request carries plaintext against the marker. -/
theorem chosen_request {past : List (Call D)} {e : Call D} {c : Client D}
    (hc : lastChoice past = some c) (he : e.op.transmits = true)
    (hp : room_id = room → c.store.is_room_encrypted room = true →
      (PlainTo o room past e.op ↔ Unprotected X room c))
    (hr : PlainTo o room past e.op → room_id = room) : AsChosen X o room past e := by
  intro c' hc'
  obtain rfl : c = c' := by
    rw [hc] at hc'
    exact Option.some.inj hc'
  constructor
  · rintro ⟨hplain, henc⟩
    have hroom := hr hplain
    exact ⟨he, by rw [ho, hroom], (hp hroom henc).mp hplain⟩
  · rintro ⟨_, hmedia, hun⟩
    rw [ho] at hmedia
    exact ⟨(hp (Option.some.inj hmedia) hun.1).mpr hun, hun.1⟩

theorem chosen_send_event {past : List (Call D)} {event_type : String} {content : Json}
    {c : Client D} (hc : lastChoice past = some c)
    (hp : room_id = room → c.store.is_room_encrypted room = true →
      (event_type = "p.room.message" ↔ Unprotected X room c)) :
    Chosen X o room past (send_event room_id event_type content) := by
  apply chosen_silent rfl
  intro s txn_id s' _ s₁ r s₂ _
  refine ⟨?_, ?_⟩
  · refine chosen_request ho (by exact hc) rfl ?_ (fun h => h.1)
    intro hroom henc
    rw [← hp hroom henc]
    exact ⟨fun h => h.2, fun h => ⟨hroom, h⟩⟩
  · cases r <;> trivial

/-- An upload is plaintext where no call before it encrypted its bytes. -/
theorem chosen_upload_media {past : List (Call D)} {bytes : Bytes} {content_type : String}
    {c : Client D} (hc : lastChoice past = some c)
    (hp : room_id = room → c.store.is_room_encrypted room = true →
      ((∀ e ∈ past, sealedBytes e ≠ some bytes) ↔ Unprotected X room c)) :
    (upload_media bytes content_type).Along (Client.Exec X) (AsChosen X o room)
      (fun past' _ => lastChoice past' = some c) past := by
  unfold upload_media
  split
  · exact hc
  · intro s r s' _
    refine ⟨?_, ?_⟩
    · refine chosen_request ho hc rfl ?_ ?_
      · intro hroom henc
        rw [← hp hroom henc]
        exact ⟨fun h => h.2, fun h => ⟨by rw [ho, hroom], h⟩⟩
      · intro h
        have hmedia := h.1
        rw [ho] at hmedia
        exact Option.some.inj hmedia
    · cases r <;> exact hc

/-- The plaintext branch, entered from a state that holds no group. -/
theorem chosen_send_plain_image {past : List (Call D)} {bytes : Bytes} {mimetype caption : String}
    {width height : Nat} {c : Client D} (hc : lastChoice past = some c)
    (hno : ∀ d, c.e2ee = some d → X.load_group d room_id = false)
    (hpast : ∀ e ∈ past, sealedBytes e = none) :
    Chosen X o room past (send_plain_image room_id bytes mimetype width height caption) := by
  have hun : room_id = room → c.store.is_room_encrypted room = true → Unprotected X room c := by
    rintro rfl henc
    exact ⟨henc, hno⟩
  apply Prog.Along.bind
  refine Prog.Along.mono ?_ (chosen_upload_media ho hc ?_)
  · intro past' r hc'
    rcases r with e | uri
    · trivial
    · apply chosen_send_event ho hc'
      intro hroom henc
      exact iff_of_true rfl (hun hroom henc)
  · intro hroom henc
    refine iff_of_true ?_ (hun hroom henc)
    intro e he
    rw [hpast e he]
    simp

/-- The encrypting branch, entered from a state that holds the group. -/
theorem chosen_send_encrypted_image {past : List (Call D)} {bytes : Bytes}
    {mimetype caption : String} {width height : Nat} {c : Client D} {d : D}
    (hc : lastChoice past = some c) (hd : c.e2ee = some d) (hheld : X.load_group d room_id = true) :
    Chosen X o room past (send_encrypted_image room_id bytes mimetype width height caption) := by
  have hun : room_id = room → ¬ Unprotected X room c := by
    rintro rfl ⟨_, hno⟩
    rw [hno d hd] at hheld
    cases hheld
  apply chosen_silent rfl
  intro s r s' _
  rcases r with e | ⟨key, ciphertext⟩
  · trivial
  apply Prog.Along.bind
  refine Prog.Along.mono ?_ (chosen_upload_media ho (by exact hc) ?_)
  · intro past' r hc'
    rcases r with e | uri
    · trivial
    apply chosen_silent rfl
    intro _ r _ _
    rcases r with e | ciphertext_b64
    · trivial
    apply chosen_send_event ho (by exact hc')
    intro hroom _
    exact iff_of_false (by decide) (hun hroom)
  · intro hroom _
    refine iff_of_false ?_ (hun hroom)
    intro h
    exact h _ List.mem_cons_self rfl

end Image

/-- `send_image` chooses by the group: where the engine is absent or holds none, the
image goes out in the clear. -/
theorem chosen_send_image (room_id : String) (bytes : Bytes) (mimetype : String)
    (width height : Nat) (caption : String) :
    Chosen X (.send_image room_id bytes mimetype width height caption) room []
      (PigeonMobile.send_image room_id bytes mimetype width height caption) := by
  have hsealed : ∀ (s : Client D) (r : Bool), sealedBytes ⟨s, .e2ee, r⟩ = none := fun _ _ => rfl
  apply chosen_silent rfl
  intro s engine s' hx
  obtain ⟨rfl, -⟩ := Client.exec_e2ee hx
  cases he : s.e2ee with
  | none =>
    refine chosen_send_plain_image rfl rfl ?_ ?_
    · intro d hd
      rw [he] at hd
      cases hd
    · intro e hmem
      rw [List.mem_singleton] at hmem
      rw [hmem]
      exact hsealed _ _
  | some d₀ =>
    apply chosen_silent rfl
    intro s₁ held s₂ hx
    obtain ⟨-, ⟨e, rfl⟩ | ⟨d, hd, rfl⟩⟩ := Client.exec_has_group hx
    · trivial
    cases hg : X.load_group d room_id with
    | true => exact chosen_send_encrypted_image rfl rfl hd hg
    | false =>
      refine chosen_send_plain_image rfl rfl ?_ ?_
      · intro d' hd'
        have hdd : d = d' := Option.some.inj (hd.symm.trans hd')
        rw [← hdd]
        exact hg
      · intro e hmem
        rw [List.mem_cons, List.mem_singleton] at hmem
        rcases hmem with rfl | rfl
        · rfl
        · exact hsealed _ _

theorem chosen_code (o : Outgoing) (room : String) : Chosen X o room [] o.code := by
  cases o with
  | flush_pending => exact chosen_forget (chosen_flush_pending rfl)
  | send_message room_id body => exact chosen_forget (chosen_send_message rfl room_id body)
  | send_image room_id bytes mimetype width height caption =>
    exact chosen_forget (chosen_send_image room_id bytes mimetype width height caption)

/-! ## Every run -/

/-- In a run, plaintext goes to an encrypted room just where an image was chosen in an
unprotected state. -/
theorem downgrades_iff {others : Client D → Client D → Prop} {c c' : Client D}
    {es : List (Call D)} {p' : Code Unit}
    (hr : Prog.Runs (Client.Exec X) others o.code c es p' c') :
    Downgrades o room es ↔ SendsUnprotected X o room es := by
  have hstep : ∀ es₁ e es₂, es = es₁ ++ e :: es₂ → AsChosen X o room es₁.reverse e := by
    intro es₁ e es₂ he
    have h := hr.along (chosen_code o room) he
    rwa [List.append_nil] at h
  constructor
  · rintro ⟨es₁, e, es₂, c, he, hplain, hc, henc⟩
    obtain ⟨h1, h2, h3⟩ := (hstep es₁ e es₂ he c hc).mp ⟨hplain, henc⟩
    exact ⟨es₁, e, es₂, c, he, h1, hc, h2, h3⟩
  · rintro ⟨es₁, e, es₂, c, he, h1, hc, h2, h3⟩
    obtain ⟨hplain, henc⟩ := (hstep es₁ e es₂ he c hc).mpr ⟨h1, h2, h3⟩
    exact ⟨es₁, e, es₂, c, he, hplain, hc, henc⟩

/-- From every unprotected state, an image of a size that uploads goes out so. -/
theorem unprotected_image_downgrades {c : Client D} {bytes : Bytes} (mimetype caption : String)
    (width height : Nat) (hc : Unprotected X room c) (hsize : bytes.length ≤ MAX_UPLOAD_BYTES) :
    ∃ es p' c', Prog.Runs (Client.Exec X) Eq
        (Outgoing.send_image room bytes mimetype width height caption).code c es p' c' ∧
      Downgrades (.send_image room bytes mimetype width height caption) room es := by
  obtain ⟨k, hup, hk⟩ : ∃ k : Except ApiError String → Code (Except CoreError String),
      upload_media bytes mimetype = .call (.api_upload_media bytes mimetype) k ∧
        k (.ok "pigeon://media") = .done (.ok "pigeon://media") := ⟨_, if_neg (by omega), rfl⟩
  have hupload : Prog.Runs (Client.Exec X) Eq (upload_media bytes mimetype) c
      [⟨c, .api_upload_media bytes mimetype, .ok "pigeon://media"⟩]
      (.done (.ok "pigeon://media")) c := by
    rw [hup, ← hk]
    exact Prog.Runs.call ⟨.ok "pigeon://media", rfl⟩ rfl (Prog.Runs.refl _ _)
  obtain ⟨p, hplain⟩ : ∃ p, Prog.Runs (Client.Exec X) Eq
      (send_plain_image room bytes mimetype width height caption) c
      [⟨c, .api_upload_media bytes mimetype, .ok "pigeon://media"⟩] p c := ⟨_, hupload.bind _⟩
  cases he : c.e2ee with
  | none =>
    have hengine : Client.Exec X .e2ee c false c := ⟨Fault.none, by simp [Client.perform, he]⟩
    refine ⟨_, _, c, (Prog.Runs.call hengine rfl hplain).bind _, ?_⟩
    refine ⟨[_], _, [], c, rfl, ⟨rfl, ?_⟩, rfl, hc.1⟩
    intro e hmem
    rw [List.reverse_singleton, List.mem_singleton] at hmem
    rw [hmem]
    simp [sealedBytes]
  | some d =>
    have hengine : Client.Exec X .e2ee c true c := ⟨Fault.none, by simp [Client.perform, he]⟩
    have hgroup : Client.Exec X (.has_group room) c (.ok false) c := by
      refine ⟨Fault.none, ?_⟩
      simp only [Client.perform, Client.onEngine, he, E2ee.has_group, hc.2 d he]
      rw [← he]
    refine ⟨_, _, c, (Prog.Runs.call hengine rfl (Prog.Runs.call hgroup rfl hplain)).bind _, ?_⟩
    refine ⟨[_, _], _, [], c, rfl, ⟨rfl, ?_⟩, rfl, hc.1⟩
    intro e hmem
    simp only [List.reverse_cons, List.reverse_nil, List.nil_append, List.cons_append,
      List.mem_cons, List.not_mem_nil, or_false] at hmem
    rcases hmem with rfl | rfl <;> simp [sealedBytes]

/-- No operation downgrades, in any run with any interference, but one: an image to a
room that was flagged as encrypted, with no engine or no group for it, when the image
was chosen to go out plain. In such a state an image that may be uploaded does. -/
theorem only_an_unprotected_image_is_downgraded (X : PigeonCrypto D) (room : String) :
    (∀ (others : Client D → Client D → Prop) (o : Outgoing) (c c' : Client D) (es : List (Call D))
      (p' : Code Unit), Prog.Runs (Client.Exec X) others o.code c es p' c' →
      (¬ Downgrades o room es ↔ ¬ SendsUnprotected X o room es)) ∧
    ∀ (c : Client D) (bytes : Bytes) (mimetype caption : String) (width height : Nat),
      Unprotected X room c → bytes.length ≤ MAX_UPLOAD_BYTES →
      ∃ es p' c', Prog.Runs (Client.Exec X) Eq
          (Outgoing.send_image room bytes mimetype width height caption).code c es p' c' ∧
        Downgrades (.send_image room bytes mimetype width height caption) room es := by
  refine ⟨?_, ?_⟩
  · intro others o c c' es p' hr
    exact not_congr (downgrades_iff hr)
  · intro c bytes mimetype caption width height hc hsize
    exact unprotected_image_downgrades mimetype caption width height hc hsize

/-! ## A room whose Welcome has not come -/

/-- The encryption marker of a room, as the server delivers it. -/
def encryptionMarker : Json :=
  .obj [("event_id", .str "$marker"), ("room_id", .str "!room"),
    ("sender", .str "@bob:pigeon.example"),
    ("type", .str "p.room.encryption"), ("state_key", .str ""), ("origin_server_ts", .num 1),
    ("depth", .num 1), ("content", .obj [("algorithm", .str "p.mls.1")])]

/-- The client that has synced the marker. -/
def markedClient : Client Copies :=
  (Client.local_ epochCrypto (.apply_events [encryptionMarker]) freshClient).2

theorem markedClient_unprotected : Unprotected epochCrypto "!room" markedClient := by
  refine ⟨by decide, ?_⟩
  intro d hd
  cases hd
  rfl

theorem only_an_unprotected_image_is_downgraded_marked :
    (¬ Downgrades .flush_pending "!room" [⟨markedClient, .lock_send, ()⟩] ↔
      ¬ SendsUnprotected epochCrypto .flush_pending "!room" [⟨markedClient, .lock_send, ()⟩]) ∧
    ∃ es p' c', Prog.Runs (Client.Exec epochCrypto) Eq
        (Outgoing.send_image "!room" [137, 80] "image/png" 1 1 "").code markedClient es p' c' ∧
      Downgrades (.send_image "!room" [137, 80] "image/png" 1 1 "") "!room" es :=
  ⟨(only_an_unprotected_image_is_downgraded epochCrypto "!room").1 Eq .flush_pending markedClient
      markedClient _ _ (Prog.Runs.call ⟨Fault.none, rfl⟩ rfl (Prog.Runs.refl _ _)),
    (only_an_unprotected_image_is_downgraded epochCrypto "!room").2 markedClient [137, 80]
      "image/png" "" 1 1 markedClient_unprotected (by decide)⟩

/-- The marked client sends an image, and its bytes go out as they are. -/
theorem an_image_goes_out_in_the_clear :
    ¬ ∀ (o : Outgoing) (es : List (Call Copies)) (p' : Code Unit) (c' : Client Copies),
      Prog.Runs (Client.Exec epochCrypto) Eq o.code markedClient es p' c' →
      ¬ Downgrades o "!room" es := by
  intro h
  have hsize : ([137, 80] : Bytes).length ≤ MAX_UPLOAD_BYTES := by decide
  obtain ⟨es, p', c', hr, hd⟩ :=
    unprotected_image_downgrades "image/png" "" 1 1 markedClient_unprotected hsize
  exact h _ es p' c' hr hd

end PigeonMobile
