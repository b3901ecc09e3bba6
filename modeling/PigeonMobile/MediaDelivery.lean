-- Images from one phone to another: `send_image` uploads the bytes, or their ciphertext, and sends
-- an event that names the upload; a recipient that downloads what its timeline shows has the bytes
-- that were sent. Any number of phones send at once, among any other code, and are killed anywhere.
import PigeonMobile.Conduct
import PigeonMobile.ContentUri
import PigeonMobile.ImageMessages

namespace PigeonMobile

/-! ## Phones and a media store -/

/-- What the server keeps, under its content URI. -/
abbrev Media := String → Option Bytes

/-- Nothing that was kept is lost or changed. -/
def Media.Keeps (m m' : Media) : Prop := ∀ uri bytes, m uri = some bytes → m' uri = some bytes

theorem Media.Keeps.refl (m : Media) : m.Keeps m := fun _ _ h => h

theorem Media.Keeps.trans {m m' m'' : Media} (h : m.Keeps m') (h' : m'.Keeps m'') : m.Keeps m'' :=
  fun uri bytes hm => h' uri bytes (h uri bytes hm)

structure StoredAt (m : Media) (uri : String) (bytes : Bytes) : Prop where
  stored : m uri = some bytes
  parts : ∃ server media_id, IsContentUri uri server media_id

theorem StoredAt.later {m m' : Media} {uri : String} {bytes : Bytes} (h : StoredAt m uri bytes)
    (hm : m.Keeps m') : StoredAt m' uri bytes := ⟨hm uri bytes h.stored, h.parts⟩

/-- An event that reached the server, and the image that it was sent for. -/
structure SentEvent where
  job : Option (String × Picture)
  room_id : String
  type : String
  content : Json

structure MediaWorld (D : Type) where
  clients : Nat → Client D
  media : Media
  sent : List SentEvent

/-- An upload is kept, and what was encrypted is decrypted under its key. -/
def MediaAnswers (decrypt_media : String → Bytes → Except CoreError Bytes) :
    (op : Op) → op.Res → Media → Prop
  | .api_upload_media bytes _, .ok uri, m => StoredAt m uri bytes
  | .encrypt_media bytes, .ok (key, blob), _ => decrypt_media key blob = .ok bytes
  | _, _, _ => True

/-- What a call sends to a room. The answer may be lost. -/
def posted (job : Option (String × Picture)) : Op → List SentEvent
  | .api_send_event room_id type _ content => [⟨job, room_id, type, content⟩]
  | _ => []

section

variable {D : Type} (X : PigeonCrypto D) (decrypt_media : String → Bytes → Except CoreError Bytes)
  (device : Nat → Nat) (job : Nat → Option (String × Picture))

/-- One call of thread `i`, on its phone. -/
structure MediaCall (i : Nat) (op : Op) (w : MediaWorld D) (r : op.Res) (w' : MediaWorld D) :
    Prop where
  exec : Client.Exec X op (w.clients (device i)) r (w'.clients (device i))
  keeps : w.media.Keeps w'.media
  answer : MediaAnswers decrypt_media op r w'.media
  sent : w'.sent = posted (job i) op ++ w.sent

/-- The content leads to the image: in the clear to its bytes, sealed to a blob and its key. -/
def LeadsTo (m : Media) (room_id : String) (image : Picture) (type : String) (content : Json) :
    Prop :=
  (type = "p.room.message" ∧ ∃ uri, StoredAt m uri image.bytes ∧ content = image.plain uri) ∨
  (type = "p.room.encrypted" ∧ ∃ uri key blob ct, StoredAt m uri blob ∧
    decrypt_media key blob = .ok image.bytes ∧ content = encryptedContent ct ∧
    SealedAs X room_id (image.hidden uri key).to_string ct)

def AllLead (w : MediaWorld D) : Prop :=
  ∀ e ∈ w.sent, ∀ room_id image, e.job = some (room_id, image) →
    e.room_id = room_id ∧ LeadsTo X decrypt_media w.media room_id image e.type e.content

variable {X decrypt_media device job} {w w' : MediaWorld D} {i : Nat}

theorem LeadsTo.later {m m' : Media} {room_id type : String} {image : Picture} {content : Json}
    (h : LeadsTo X decrypt_media m room_id image type content) (hm : m.Keeps m') :
    LeadsTo X decrypt_media m' room_id image type content := by
  rcases h with ⟨htype, uri, hstored, hcontent⟩ | ⟨htype, uri, key, blob, ct, hstored, hrest⟩
  · exact Or.inl ⟨htype, uri, hstored.later hm, hcontent⟩
  · exact Or.inr ⟨htype, uri, key, blob, ct, hstored.later hm, hrest⟩

theorem AllLead.later (h : AllLead X decrypt_media w) (hm : w.media.Keeps w'.media)
    (hsent : w'.sent = w.sent) : AllLead X decrypt_media w' := by
  intro e he room_id image hjob
  rw [hsent] at he
  obtain ⟨hroom, hleads⟩ := h e he room_id image hjob
  exact ⟨hroom, hleads.later hm⟩

/-- A call keeps what was sent, where what it sends itself leads to its image. -/
theorem AllLead.call {op : Op} {r : op.Res} (h : AllLead X decrypt_media w)
    (hc : MediaCall X decrypt_media device job i op w r w')
    (hown : ∀ e ∈ posted (job i) op, ∀ room_id image, e.job = some (room_id, image) →
      e.room_id = room_id ∧ LeadsTo X decrypt_media w'.media room_id image e.type e.content) :
    AllLead X decrypt_media w' := by
  intro e he room_id image hjob
  rw [hc.sent, List.mem_append] at he
  rcases he with he | he
  · exact hown e he room_id image hjob
  · obtain ⟨hroom, hleads⟩ := h e he room_id image hjob
    exact ⟨hroom, hleads.later hc.keeps⟩

/-! ## What a thread does -/

end

end PigeonMobile
