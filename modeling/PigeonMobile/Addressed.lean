-- Where the requests of a run go. What the core makes itself, its event types and transaction ids,
-- a URL parser takes as it stands, and of the calls that a run makes no other has an id in its path
-- but of a room. So it is only the room id that can lead one astray, whatever runs at once, and
-- only a header that can keep it back.
import PigeonMobile.AskedRequests
import PigeonMobile.DecimalOrder
import PigeonMobile.Endpoints
import PigeonMobile.TxnIds

namespace PigeonMobile

/-! ## The ids that the core makes -/

/-- A transaction id of one of the two generators. -/
inductive IssuedId : String → Prop
  | one_shot (clock : Int) (n : Nat) : IssuedId (next_txn_id clock n)
  | queued (ts : Int) (n : Nat) : IssuedId (next_send_ids ts n).txn_id

/-- The event types that the core sends. -/
def EVENT_TYPES : List String :=
  ["p.room.message", "p.room.encrypted", "p.mls.commit", "p.mls.welcome"]

def isTidy (c : Char) : Bool :=
  decide ('0' ≤ c ∧ c ≤ '9') || decide ('a' ≤ c ∧ c ≤ 'z') || c = '-'

/-- Small letters, digits and dashes. -/
def Tidy (s : String) : Prop := ∀ c ∈ s.toList, isTidy c = true

/-- What a URL parser takes as it stands, at the end of a path too. -/
structure Takes (s : String) : Prop where
  plain : '/' ∉ s.toList ∧ UrlPath.Plain s.toList
  ends : UrlPath.EndsVisible s.toList

theorem tidy_of_all {s : String} (h : s.toList.all isTidy = true) : Tidy s := List.all_eq_true.mp h

theorem Tidy.not_mem {s : String} (h : Tidy s) {c : Char} (hc : isTidy c = false) :
    c ∉ s.toList := by
  intro hin
  rw [h c hin] at hc
  cases hc

theorem Tidy.takes {s : String} (h : Tidy s) : Takes s := by
  have hdot : '.' ∉ s.toList := h.not_mem (by decide)
  refine ⟨⟨h.not_mem (by decide), ?_⟩, ?_⟩
  · refine ⟨?_, ?_, h.not_mem (by decide), h.not_mem (by decide), h.not_mem (by decide),
      h.not_mem (by decide), h.not_mem (by decide), h.not_mem (by decide), ?_⟩
    · intro he
      simp [he] at hdot
    · intro he
      simp [he] at hdot
    · exact fun he => absurd he.percent_mem (h.not_mem (by decide))
  · intro c hc
    have htidy := h c (List.mem_of_getLast? hc)
    have hspace : ' ' < c := by
      unfold isTidy at htidy
      rw [Bool.or_eq_true, Bool.or_eq_true, decide_eq_true_eq, decide_eq_true_eq,
        decide_eq_true_eq] at htidy
      rcases htidy with (⟨hlow, -⟩ | ⟨hlow, -⟩) | rfl
      · exact lt_of_lt_of_le (by decide) hlow
      · exact lt_of_lt_of_le (by decide) hlow
      · decide
    exact decide_eq_false (not_le_of_gt hspace)

theorem Tidy.append {s t : String} (hs : Tidy s) (ht : Tidy t) : Tidy (s ++ t) := by
  intro c hc
  rw [String.toList_append, List.mem_append] at hc
  rcases hc with hc | hc
  · exact hs c hc
  · exact ht c hc

theorem tidy_nat (n : Nat) : Tidy (toString n) := by
  intro c hc
  have hdigits : (toString n).toList = DecimalOrder.digits n := by
    simp [toString, Nat.repr, DecimalOrder.digits]
  rw [hdigits] at hc
  simp [isTidy, DecimalOrder.digits_all n c hc]

theorem tidy_int (i : Int) : Tidy (toString i) := by
  cases i with
  | ofNat n => exact tidy_nat n
  | negSucc n =>
    have hdash : Tidy "-" := tidy_of_all (by decide)
    exact hdash.append (tidy_nat (n + 1))

theorem IssuedId.tidy {txn_id : String} (h : IssuedId txn_id) : Tidy txn_id := by
  have hdash : Tidy "-" := tidy_of_all (by decide)
  cases h with
  | one_shot clock n =>
    have hstart : Tidy "mob-td-" := tidy_of_all (by decide)
    exact ((hstart.append (tidy_nat _)).append hdash).append (tidy_nat n)
  | queued ts n =>
    have hstart : Tidy "m" := tidy_of_all (by decide)
    exact ((hstart.append (tidy_int ts)).append hdash).append (tidy_nat n)

theorem event_types_take {event_type : String} (h : event_type ∈ EVENT_TYPES) :
    '/' ∉ event_type.toList ∧ UrlPath.Plain event_type.toList := by
  have hpercent : ∀ event_type ∈ EVENT_TYPES, '%' ∉ event_type.toList := by decide
  refine ⟨?_, ?_, ?_, ?_, ?_, ?_, ?_, ?_, ?_, fun he => hpercent event_type h he.percent_mem⟩ <;>
    revert event_type <;> decide

/-! ## The requests of the core -/

/-- The request of a call of a run: of a sync, a text, an image, an invite, a backfill, an upload of
keys or a logout. -/
def Op.call : Op → Option ApiCall
  | .api_logout => some .logout
  | .api_sync since => some (.sync since SYNC_TIMEOUT_MS SYNC_LIMIT)
  | .api_messages room_id limit => some (.messages room_id limit)
  | .api_invite room_id user_id => some (.invite room_id user_id)
  | .api_query_keys user_id => some (.query_keys user_id)
  | .api_claim_keys user_id device_id => some (.claim_keys user_id device_id)
  | .api_upload_keys device_id public_key_b64 kps last_resort =>
    some (.upload_keys device_id public_key_b64 kps last_resort)
  | .api_send_to_device event_type txn_id content =>
    some (.send_to_device event_type txn_id content)
  | .api_send_event room_id event_type txn_id content =>
    some (.send_event room_id event_type txn_id content)
  | .api_upload_media bytes content_type => some (.upload_media bytes content_type)
  | _ => none

/-- The room in the path of the request. -/
def Op.room : Op → Option String
  | .api_messages room_id _ => some room_id
  | .api_invite room_id _ => some room_id
  | .api_send_event room_id _ _ _ => some room_id
  | _ => none

/-- The content type of an upload. -/
def Op.content_type : Op → Option String
  | .api_upload_media _ content_type => some content_type
  | _ => none

/-- The room id is taken as it stands, and so is the content type. -/
structure Op.Passes (op : Op) : Prop where
  room : ∀ room_id, op.room = some room_id → '/' ∉ room_id.toList ∧ UrlPath.Plain room_id.toList
  header : ∀ text, op.content_type = some text → HeaderText text

/-- The type and the transaction id of the request are ones that the core makes. -/
def Op.Addressed : Op → Prop
  | .api_send_event _ event_type txn_id _ => event_type ∈ EVENT_TYPES ∧ IssuedId txn_id
  | .api_send_to_device event_type txn_id _ => event_type ∈ EVENT_TYPES ∧ IssuedId txn_id
  | _ => True

theorem Op.call_content_type {op : Op} {c : ApiCall} (hcall : op.call = some c) :
    c.content_type = op.content_type := by
  cases op <;> first | (cases hcall; rfl) | cases hcall

/-- The request fits just where its room and its content type do. -/
theorem Op.Addressed.fits_iff {op : Op} {c : ApiCall} (h : op.Addressed)
    (hcall : op.call = some c) : c.Fits ↔ op.Passes := by
  have hheader := op.call_content_type hcall
  -- the ids of the path that are not of the room
  have hids : (∀ id, Part.id id ∈ c.endpoint → op.room = some id ∨ '/' ∉ id.toList ∧
        UrlPath.Plain id.toList) ∧
      (∀ room_id, op.room = some room_id → Part.id room_id ∈ c.endpoint) ∧
      ∀ id, c.endpoint.getLast? = some (.id id) → UrlPath.EndsVisible id.toList := by
    cases op with
    | api_send_event room_id event_type txn_id content =>
      cases hcall
      have htxn := h.2.tidy.takes
      refine ⟨?_, ?_, ?_⟩
      · intro id hid
        simp [ApiCall.endpoint, ApiCall.endpoint.client] at hid
        rcases hid with rfl | rfl | rfl
        · exact Or.inl rfl
        · exact Or.inr (event_types_take h.1)
        · exact Or.inr htxn.plain
      · rintro room ⟨⟩
        simp [ApiCall.endpoint, ApiCall.endpoint.client]
      · intro id hid
        simp [ApiCall.endpoint, ApiCall.endpoint.client] at hid
        rw [← hid]
        exact htxn.ends
    | api_send_to_device event_type txn_id content =>
      cases hcall
      have htxn := h.2.tidy.takes
      refine ⟨?_, ?_, ?_⟩
      · intro id hid
        simp [ApiCall.endpoint, ApiCall.endpoint.client] at hid
        rcases hid with rfl | rfl
        · exact Or.inr (event_types_take h.1)
        · exact Or.inr htxn.plain
      · intro room_id he
        cases he
      · intro id hid
        simp [ApiCall.endpoint, ApiCall.endpoint.client] at hid
        rw [← hid]
        exact htxn.ends
    | api_messages room_id limit | api_invite room_id user_id =>
      cases hcall
      refine ⟨?_, ?_, ?_⟩
      · intro id hid
        simp [ApiCall.endpoint, ApiCall.endpoint.client] at hid
        exact Or.inl (congrArg some hid.symm)
      · rintro room ⟨⟩
        simp [ApiCall.endpoint, ApiCall.endpoint.client]
      · intro id hid
        simp [ApiCall.endpoint, ApiCall.endpoint.client] at hid
    | api_logout | api_sync | api_query_keys | api_claim_keys | api_upload_keys |
        api_upload_media =>
      cases hcall
      simp [ApiCall.endpoint, ApiCall.endpoint.client, ApiCall.endpoint.media, Op.room]
    | _ => cases hcall
  obtain ⟨hothers, hroom, hends⟩ := hids
  constructor
  · intro hfits
    refine ⟨fun room_id he => hfits.plain room_id (hroom room_id he), ?_⟩
    rw [← hheader]
    exact hfits.header
  · intro hpasses
    refine ⟨?_, hends, ?_⟩
    · intro id hid
      rcases hothers id hid with he | hplain
      · exact hpasses.room id he
      · exact hplain
    · rw [hheader]
      exact hpasses.header

/-! ## Every run -/

/-- The generators give the ids. -/
def Generated : (op : Op) → op.Res → Prop
  | .next_txn_id, txn_id => IssuedId txn_id
  | .queue_send _ _ _, .ok txn_id => IssuedId txn_id
  | _, _ => True

/-- And the queue keeps them. -/
def IdAnswers : (op : Op) → op.Res → Prop
  | .next_txn_id, txn_id => IssuedId txn_id
  | .pending_sends, .ok sends => ∀ send ∈ sends, IssuedId send.txn_id
  | _, _ => True

theorem addressed_flush : FlushRule IdAnswers Op.Addressed (fun send => IssuedId send.txn_id) where
  asks op hop := by
    cases op <;> first | exact absurd hop Bool.false_ne_true | trivial
  queued _ h := h
  plain _ h := ⟨by decide, h⟩
  sealed _ _ h _ := ⟨by decide, h⟩
  resolves _ _ _ _ _ _ := trivial

theorem addressed_image (room_id : String) (image : Picture) :
    ImageRule IdAnswers Op.Addressed room_id image.bytes image.mimetype image.width image.height
      image.caption where
  asks op hop := by
    cases op <;> first | exact absurd hop Bool.false_ne_true | trivial
  uploads := trivial
  hides _ _ _ := trivial
  posts _ _ htxn := ⟨by decide, htxn⟩
  seals _ _ _ _ _ htxn := ⟨by decide, htxn⟩

theorem addressed_invite (room_id user_id : String) :
    InviteRule IdAnswers Op.Addressed room_id user_id where
  asks op hop := by
    cases op <;> first | exact absurd hop Bool.false_ne_true | trivial
  invites := trivial
  queries := trivial
  claims _ := trivial
  welcomes _ _ _ htxn := ⟨by decide, htxn⟩
  commits _ _ htxn := ⟨by decide, htxn⟩

section

variable {D : Type} (X : PigeonCrypto D) (decrypt_media : String → Bytes → Except CoreError Bytes)
  (asked : Asked)

/-- A phone whose ids are those of the generators. -/
def issuing : Threaded Nat (Client D) Op Op.Res :=
  { handset X decrypt_media asked with
    call := fun i op c r c' => (handset X decrypt_media asked).call i op c r c' ∧ Generated op r }

variable {X decrypt_media asked}

theorem issuing_conducts {c : Client D} (hc : QueueAll (fun row => IssuedId row.txn_id) c.store)
    {p : Pool Nat (Client D) Op Op.Res}
    (hr : (issuing X decrypt_media asked).Reaches (Threaded.idle c) p) :
    Threaded.Conducts IdAnswers Op.Addressed
      (fun c : Client D => QueueAll (fun row => IssuedId row.txn_id) c.store) p := by
  have hround : ∀ op : Op, op.ofRound = true → op.Addressed := by
    intro op hop
    cases op <;> first | exact absurd hop Bool.false_ne_true | trivial
  have hpass : ∀ op : Op, op.ofPass = true → op.Addressed := by
    intro op hop
    cases op <;> first | exact absurd hop Bool.false_ne_true | trivial
  apply Threaded.conduct
    (I := fun c : Client D => QueueAll (fun row => IssuedId row.txn_id) c.store) _ _ _ _ _ hc hr
  · intro i c p hp
    rcases hp with ⟨room_id, body, -, rfl⟩ | ⟨room_id, image, -, rfl⟩ | ⟨room_id, user_id, -, rfl⟩ |
      ⟨rounds, backoff, rfl⟩ | rfl | ⟨room_id, limit, rfl⟩ | hother
    · exact (addressed_flush.send_message trivial (fun _ => trivial)).forget
    · exact (addressed_image room_id image).send_image.forget
    · exact (addressed_invite room_id user_id).invite.forget
    · exact (addressed_flush.run_sync hround rounds backoff).forget
    · exact addressed_flush.flush_pending.forget
    · exact (fetch_messages_follows trivial hpass (fun _ _ => trivial)).forget
    · refine Prog.All.follows (hother.mono ?_)
      intro op hop
      cases op <;> first | exact absurd hop Bool.false_ne_true | trivial
  · rintro i op c r c' - hinv ⟨⟨hcall, -⟩, hids⟩
    refine ⟨?_, hinv.call ?_ hcall⟩
    · cases op with
      | next_txn_id => exact hids
      | pending_sends =>
        obtain ⟨fault, hcall⟩ := hcall
        obtain ⟨-, ⟨e, rfl⟩ | rfl⟩ := Client.exec_read (show c.onStore fault
          (fun st => .ok (st.pending_sends_list, st)) = (r, c') from hcall)
        · trivial
        · intro send hsend
          obtain ⟨row, hrow, rfl⟩ := hinv.listed hsend
          exact hrow
      | _ => trivial
    · cases op with
      | queue_send room_id sender body =>
        cases r with
        | error e => trivial
        | ok txn_id => exact fun _ _ => hids
      | _ => trivial
  · rintro i c c' hinv rfl
    exact hinv
  · exact fun c c' hinv hsub => hinv.sub hsub
  · exact fun c c' hinv hsub => hinv.sub hsub

end

/-- In every state that a phone with an empty queue can come to, whatever runs at once and wherever
it was killed: a request that a run is about to make reaches its endpoint, with all that it carries,
just where its room id has no slash and nothing that a URL parser takes for something else, and the
token and the content type of an upload can stand in a header. -/
theorem only_a_room_id_leads_astray {D : Type} (X : PigeonCrypto D)
    (decrypt_media : String → Bytes → Except CoreError Bytes) (asked : Asked)
    (content_hash : Json → Except String Bytes) {parse : String → Option UrlPath.Target}
    {base : String}
    (hparse : ReadsPaths parse (normalize_base base)) (token : Option String) {c : Client D}
    (hc : c.store.pending_sends.rows = []) {p : Pool Nat (Client D) Op Op.Res}
    (hr : (issuing X decrypt_media asked).Reaches (Threaded.idle c) p) {i : Nat} {op : Op}
    {k : op.Res → Prog Op Op.Res Unit} (hi : p.threads i = some (.call op k)) {call : ApiCall}
    (hcall : op.call = some call) :
    (Api.new base token).received parse (call.request content_hash) =
        some (call.meant content_hash token) ↔ op.Passes ∧ Carried token := by
  have haddressed : op.Addressed := ((issuing_conducts (QueueAll.empty hc) hr).follows i _ hi).1
  rw [ApiCall.received_iff content_hash hparse token call, haddressed.fits_iff hcall]

/-- The text of `hiPhone`, on a phone with the generators. -/
theorem hi_is_issued : ∃ p : Pool Nat (Client Copies) Op Op.Res,
    (issuing epochCrypto (fun _ _ => .error (.Crypto "")) askedHi).Reaches
        (Threaded.idle freshClient) p ∧ ∃ k, p.threads 0 =
      some (.call (.api_send_event "!room" "p.room.message" "m0-0" (textContent "hi")) k) := by
  have h0 : (issuing epochCrypto (fun _ _ => .error (.Crypto "")) askedHi).Reaches
      (Threaded.idle freshClient) (Threaded.idle freshClient) := Relation.ReflTransGen.refl
  have h1 := h0.start 0 (send_message "!room" "hi").forget (Or.inl ⟨"!room", "hi", ⟨rfl, rfl⟩, rfl⟩)
  have h2 := h1.call freshClient (r := freshClient.session) ⟨⟨⟨.none, rfl⟩, trivial⟩, trivial⟩
  have hid : Generated (.queue_send "!room" freshClient.session.user_id "hi") (.ok "m0-0") :=
    IssuedId.queued 0 0
  have h3 := h2.call _ (r := .ok "m0-0") ⟨⟨⟨(.none, next_send_ids 0 0, 0), rfl⟩, trivial⟩, hid⟩
  have h4 := h3.call _ (r := ()) ⟨⟨⟨.none, rfl⟩, trivial⟩, trivial⟩
  have h5 := h4.call _ (r := .ok [⟨"m0-0", "!room", "hi"⟩]) ⟨⟨⟨.none, rfl⟩, trivial⟩, trivial⟩
  have h6 := h5.call _ (r := true) ⟨⟨⟨.none, rfl⟩, trivial⟩, trivial⟩
  have h7 := h6.call _ (r := .ok false) ⟨⟨⟨.none, rfl⟩, trivial⟩, trivial⟩
  have h8 := h7.call _ (r := .ok false) ⟨⟨⟨.none, rfl⟩, trivial⟩, trivial⟩
  exact ⟨_, h8, _, Threaded.solo_threads _⟩

theorem only_a_room_id_leads_astray_hi :
    (Api.new "https://pigeon.example/" (some "token")).received exampleParse
        ((ApiCall.send_event "!room" "p.room.message" "m0-0" (textContent "hi")).request
          (fun _ => .error "")) =
      some ((ApiCall.send_event "!room" "p.room.message" "m0-0" (textContent "hi")).meant
        (fun _ => .error "") (some "token")) := by
  obtain ⟨p, hp, k, hi⟩ := hi_is_issued
  have htoken : Carried (some "token") := by
    rintro t ⟨⟩
    have hchars : (bearer_auth "token").toList = "Bearer token".toList := by
      rw [bearer_auth, String.toList_append]
      rfl
    refine ⟨?_, ?_, ?_⟩ <;> rw [hchars]
    · exact List.all_eq_true.mp rfl
    · rintro c ⟨⟩
      rfl
    · rintro c ⟨⟩
      rfl
  apply (only_a_room_id_leads_astray epochCrypto _ askedHi (fun _ => .error "") exampleParse_reads
    (some "token") rfl hp hi rfl).mpr
  refine ⟨⟨?_, ?_⟩, htoken⟩
  · rintro room_id ⟨⟩
    refine ⟨by decide, ?_⟩
    constructor
    case noEscape => exact fun he => absurd he.percent_mem (by decide)
    all_goals decide
  · intro text he
    cases he

end PigeonMobile
