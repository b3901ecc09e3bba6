-- The encrypted key backup (`backup` and `restore_backup` in `session.rs`): one slot on the server
-- for all devices of the account, under a key that only the screen shows. Backups and restores of
-- any number of devices run at once, a request may be stored and its answer lost, and one that
-- nobody waits for may still arrive.
import PigeonMobile.Threads
import PigeonMobile.DeviceKeys
import PigeonMobile.EngineAgreement
import PigeonMobile.Http
import PigeonMobile.MlsPass

namespace PigeonMobile

/-! ## The crate and the server -/

/-- `create_backup` and `restore_from_backup` of `pigeon_crypto::Device`, in base64. The number
is the randomness of the recovery key. -/
structure BackupCrypto (D : Type) where
  create_backup : D → Nat → Except String (String × String)
  restore_from_backup : String → String → Except String D

/-- A backup opens under its recovery key, and fails cleanly under any other. -/
structure BackupCrypto.Opens {D : Type} (B : BackupCrypto D) : Prop where
  own : ∀ d n recovery_key blob, B.create_backup d n = .ok (recovery_key, blob) →
    B.restore_from_backup recovery_key blob = .ok d
  wrong : ∀ d n recovery_key blob other, B.create_backup d n = .ok (recovery_key, blob) →
    other ≠ recovery_key → ∃ e, B.restore_from_backup other blob = .error e

namespace Api

/-- The body that a `PUT` stores, and a `GET` gives back. -/
def roomKey (blob_b64 : String) : Json := .obj [("blob", .str blob_b64)]

def put_room_key (o : HttpOutcome) : Except ApiError Unit :=
  match send o with
  | .ok _ => .ok ()
  | .error err => .error err

/-- A `P_NOT_FOUND` is no backup, and so is a response without a blob. -/
def get_room_key (o : HttpOutcome) : Except ApiError (Option String) :=
  match send o with
  | .ok resp => .ok (resp.index "blob").as_str
  | .error (.Server _ .NotFound _) => .ok none
  | .error err => .error err

end Api

/-- Whether a `PUT` reaches the slot: at once, after its sender stopped waiting, or not. -/
inductive Arrival where
  | now
  | late
  | never

/-- The status says that the request went through. -/
def HttpOutcome.succeeds : HttpOutcome → Bool
  | .failed _ => false
  | .response status _ => is_success status

/-- The exchange gives no JSON of a success. -/
def HttpOutcome.fails : HttpOutcome → Bool
  | .failed _ => true
  | .response status (.json _) => !is_success status
  | .response _ _ => true

/-- What the server answers a `GET` of the slot. -/
def slotAnswer : Option Json → HttpOutcome
  | some body => .response 200 (.json body)
  | none => .response 404 (.json (.obj [("errcode", .str "P_NOT_FOUND")]))

/-! ## The calls -/

/-- The calls of a backup and of a restore. Both name the slot `("!e2ee-backup",
"mls-device-state")`. The last one is the dialog of the room list. -/
inductive BackupOp where
  | create_backup
  | put_room_key (blob_b64 : String)
  | get_room_key
  | restore_from_backup (recovery_key blob_b64 : String)
  | publish_device_keys
  | show_recovery_key (recovery_key : String)

namespace BackupOp

@[reducible] def Res : BackupOp → Type
  | .create_backup => Except CoreError (String × String)
  | .put_room_key _ => Except ApiError Unit
  | .get_room_key => Except ApiError (Option String)
  | .restore_from_backup _ _ => Except CoreError Unit
  | .publish_device_keys => Unit
  | .show_recovery_key _ => Unit

/-- What the surroundings choose: the randomness, the exchange, what fails. A `GET` with no
choice is answered from the slot. -/
@[reducible] def Choice : BackupOp → Type
  | .create_backup => Nat
  | .put_room_key _ => Arrival × HttpOutcome
  | .get_room_key => Option HttpOutcome
  | .restore_from_backup _ _ => Fault
  | .publish_device_keys => (op : Op) → op.Choice
  | .show_recovery_key _ => Unit

/-- A success means that the server has the blob, and a `GET` never makes one up. -/
def Allowed : (op : BackupOp) → op.Choice → Prop
  | .put_room_key _, (arrival, o) => o.succeeds = true → arrival = .now
  | .get_room_key, some o => o.fails = true
  | _, _ => True

/-- The choice where nothing fails. -/
def calm : (op : BackupOp) → op.Choice
  | .create_backup => (0 : Nat)
  | .put_room_key _ => (Arrival.now, HttpOutcome.response 200 (.json (.obj [])))
  | .get_room_key => (none : Option HttpOutcome)
  | .restore_from_backup _ _ => Fault.none
  | .publish_device_keys => Client.calm
  | .show_recovery_key _ => ()

end BackupOp

abbrev BackupCode (α : Type) := Prog BackupOp BackupOp.Res α

def backup : BackupCode (Except CoreError String) :=
  .call .create_backup fun
  | .error e => .done (.error e)
  | .ok (recovery_key, blob) => .call (.put_room_key blob) fun
    | .error err => .done (.error err.toCore)
    | .ok () => .done (.ok recovery_key)

def restore_backup (recovery_key : String) : BackupCode (Except CoreError Unit) :=
  .call .get_room_key fun
  | .error err => .done (.error err.toCore)
  | .ok none => .done (.error (.Crypto "no encryption-key backup found on the server"))
  | .ok (some blob) => .call (.restore_from_backup recovery_key blob) fun
    | .error e => .done (.error e)
    | .ok () => .call .publish_device_keys fun _ => .done (.ok ())

/-- `backup` of the view model: the key goes on the screen. -/
def show_backup : BackupCode Unit :=
  backup.bind fun
  | .error _ => .done ()
  | .ok recovery_key => .call (.show_recovery_key recovery_key) fun _ => .done ()

/-! ## The devices and the slot -/

/-- What `create_backup` gave, and of which device. -/
structure Backup (D : Type) where
  recovery_key : String
  blob : String
  device : D

/-- A call of `restore_from_backup`: the key that was typed, what it returned, and the engine of the
device before and after. -/
structure Restoring (D : Type) where
  recovery_key : String
  result : Except CoreError Unit
  before : Option D
  after : Option D

/-- The call failed and left the engine, or the engine is the device of a backup of the key. -/
def Restoring.Sound {D : Type} (made : List (Backup D)) (x : Restoring D) : Prop :=
  (x.after = x.before ∧ ∃ e, x.result = .error e) ∨
    ∃ b ∈ made, b.recovery_key = x.recovery_key ∧ x.after = some b.device

/-- The devices of an account and the slot that they share. The rest is history: the backups
that were made, what was stored (the newest first), what may still arrive, the keys that were
shown, and the calls that restored. -/
structure Vault (ι D : Type) where
  clients : ι → Client D
  slot : Option Json
  made : List (Backup D)
  stored : List Json
  late : List Json
  shown : List String
  restored : List (Restoring D)

namespace Vault

variable {ι D : Type}

/-- Nothing was backed up yet. -/
def fresh (clients : ι → Client D) : Vault ι D := ⟨clients, none, [], [], [], [], []⟩

/-- A `PUT` takes the place of what is in the slot. -/
def store (w : Vault ι D) (body : Json) : Vault ι D :=
  { w with slot := some body, stored := body :: w.stored }

def receive (w : Vault ι D) (body : Json) : Arrival → Vault ι D
  | .now => w.store body
  | .late => { w with late := body :: w.late }
  | .never => w

variable [DecidableEq ι] (B : BackupCrypto D) (X : PigeonCrypto D)

def setClient (w : Vault ι D) (i : ι) (c : Client D) : Vault ι D :=
  { w with clients := Function.update w.clients i c }

def create_backup (w : Vault ι D) (i : ι) (n : Nat) :
    Except CoreError (String × String) × Vault ι D :=
  match (w.clients i).e2ee with
  | none => (.error (.Crypto "E2EE is not available for this session"), w)
  | some d =>
    match B.create_backup d n with
    | .error reason => (.error (.Crypto reason), w)
    | .ok (recovery_key, blob) =>
      (.ok (recovery_key, blob), { w with made := ⟨recovery_key, blob, d⟩ :: w.made })

/-- The device in memory is replaced where the blob opens, and written then. -/
def restore_from_backup (w : Vault ι D) (i : ι) (fault : Fault) (recovery_key blob : String) :
    Except CoreError Unit × Vault ι D :=
  let (r, c) := (w.clients i).onEngine (fun d ks =>
    E2ee.restore_from_backup X B.restore_from_backup d ks fault recovery_key blob)
  (r, { w.setClient i c with
    restored := ⟨recovery_key, r, (w.clients i).e2ee, c.e2ee⟩ :: w.restored })

/-- One call of the device `i`. -/
def perform (i : ι) : (op : BackupOp) → op.Choice → Vault ι D → op.Res × Vault ι D
  | .create_backup, n, w => w.create_backup B i n
  | .put_room_key blob, (arrival, o), w =>
    (Api.put_room_key o, w.receive (Api.roomKey blob) arrival)
  | .get_room_key, o, w => (Api.get_room_key (o.getD (slotAnswer w.slot)), w)
  | .restore_from_backup recovery_key blob, fault, w =>
    w.restore_from_backup B X i fault recovery_key blob
  | .publish_device_keys, choose, w => ((), w.setClient i (published X choose (w.clients i)))
  | .show_recovery_key recovery_key, _, w => ((), { w with shown := recovery_key :: w.shown })

/-- A call as a step. -/
def Call (i : ι) (op : BackupOp) (w : Vault ι D) (r : op.Res) (w' : Vault ι D) : Prop :=
  ∃ choice, op.Allowed choice ∧ w.perform B X i op choice = (r, w')

/-- The world where nothing fails, for the device `i`. -/
def calmly (i : ι) (op : BackupOp) (w : Vault ι D) : op.Res × Vault ι D :=
  w.perform B X i op op.calm

end Vault

/-- Any number of backups and restores on each device, any of them given up at any call. A late
request arrives, and whatever else a device does changes its client. -/
def vaults {ι D : Type} [DecidableEq ι] (B : BackupCrypto D) (X : PigeonCrypto D) :
    Threaded (ι × Nat) (Vault ι D) BackupOp BackupOp.Res where
  call t := Vault.Call B X t.1
  start _ _ p := p = show_backup ∨ ∃ recovery_key, p = (restore_backup recovery_key).forget
  drop _ w w' := w' = w
  env w w' := (∃ i c, w' = w.setClient i c) ∨
    ∃ body before after, w.late = before ++ body :: after ∧
      w' = { w with late := before ++ after }.store body
  restart w w' := w' = w

/-! ## What every run keeps -/

section Runs

variable {ι D : Type} {B : BackupCrypto D}

/-- What is in the slot was stored last. What was stored or is on its way was made by a device,
a key on a screen is that of a backup that was stored, and each restore that did not fail gave the
device of a backup under its own key. -/
structure Vaulted (B : BackupCrypto D) (w : Vault ι D) : Prop where
  slot : w.slot = w.stored.head?
  stored : ∀ body ∈ w.stored, ∃ b ∈ w.made, body = Api.roomKey b.blob
  late : ∀ body ∈ w.late, ∃ b ∈ w.made, body = Api.roomKey b.blob
  made : ∀ b ∈ w.made, ∃ n, B.create_backup b.device n = .ok (b.recovery_key, b.blob)
  shown : ∀ key ∈ w.shown, ∃ b ∈ w.made, b.recovery_key = key ∧ Api.roomKey b.blob ∈ w.stored
  restored : ∀ x ∈ w.restored, x.Sound w.made

/-- No backup is unmade, and nothing that was stored was not. -/
structure Growing (w w' : Vault ι D) : Prop where
  made : ∀ b ∈ w.made, b ∈ w'.made
  stored : ∀ body ∈ w.stored, body ∈ w'.stored

theorem Growing.refl (w : Vault ι D) : Growing w w := ⟨fun _ h => h, fun _ h => h⟩

theorem Growing.trans {w₁ w₂ w₃ : Vault ι D} (h : Growing w₁ w₂) (h' : Growing w₂ w₃) :
    Growing w₁ w₃ :=
  ⟨fun b hb => h'.made b (h.made b hb), fun body hb => h'.stored body (h.stored body hb)⟩

/-- Threads only add to the history. -/
def vaulting (B : BackupCrypto D) : Contract (ι × Nat) (Vault ι D) where
  inv := Vaulted B
  rely _ := Growing
  give _ := Growing
  refl _ := Growing.refl
  trans _ _ _ _ := Growing.trans
  frame _ _ _ _ _ h := h

theorem Vaulted.fresh (clients : ι → Client D) : Vaulted B (Vault.fresh clients) where
  slot := rfl
  stored _ h := nomatch h
  late _ h := nomatch h
  made _ h := nomatch h
  shown _ h := nomatch h
  restored _ h := nomatch h

variable {w : Vault ι D}

theorem Vault.growing_store (body : Json) : Growing w (w.store body) :=
  ⟨fun _ h => h, fun _ h => List.mem_cons_of_mem _ h⟩

/-- A blob that was made is stored. -/
theorem Vaulted.store (h : Vaulted B w) {body : Json}
    (hb : ∃ b ∈ w.made, body = Api.roomKey b.blob) :
    Vaulted B (w.store body) where
  slot := rfl
  stored := List.forall_mem_cons.mpr ⟨hb, h.stored⟩
  late := h.late
  made := h.made
  shown key hkey := by
    obtain ⟨b, hmade, hbkey, hstored⟩ := h.shown key hkey
    exact ⟨b, hmade, hbkey, List.mem_cons_of_mem _ hstored⟩
  restored := h.restored

theorem Vaulted.receive (h : Vaulted B w) {body : Json}
    (hb : ∃ b ∈ w.made, body = Api.roomKey b.blob) (arrival : Arrival) :
    Vaulted B (w.receive body arrival) ∧ Growing w (w.receive body arrival) := by
  cases arrival with
  | now => exact ⟨h.store hb, Vault.growing_store body⟩
  | late =>
    exact ⟨⟨h.slot, h.stored, List.forall_mem_cons.mpr ⟨hb, h.late⟩, h.made, h.shown, h.restored⟩,
      fun _ h => h, fun _ h => h⟩
  | never => exact ⟨h, Growing.refl w⟩

/-- A new backup is made of a device. -/
theorem Vaulted.make (h : Vaulted B w) {b : Backup D} {n : Nat}
    (hb : B.create_backup b.device n = .ok (b.recovery_key, b.blob)) :
    Vaulted B { w with made := b :: w.made } := by
  have hmade : ∀ {P : Backup D → Prop}, (∃ b ∈ w.made, P b) → ∃ b' ∈ b :: w.made, P b' := by
    rintro P ⟨b', hb', hP⟩
    exact ⟨b', List.mem_cons_of_mem _ hb', hP⟩
  exact ⟨h.slot, fun body hbody => hmade (h.stored body hbody),
    fun body hbody => hmade (h.late body hbody),
    List.forall_mem_cons.mpr ⟨⟨n, hb⟩, h.made⟩, fun key hkey => hmade (h.shown key hkey),
    fun x hx => (h.restored x hx).imp_right hmade⟩

variable [DecidableEq ι]

/-- The slot has no part in what a device does with its own client. -/
theorem Vaulted.setClient (h : Vaulted B w) (i : ι) (c : Client D) : Vaulted B (w.setClient i c) :=
  ⟨h.slot, h.stored, h.late, h.made, h.shown, h.restored⟩

/-! ## Call by call -/

variable {X : PigeonCrypto D} {i : ι} {w' : Vault ι D}

theorem create_backup_call {r : Except CoreError (String × String)} (h : Vaulted B w)
    (hc : Vault.Call B X i .create_backup w r w') : Vaulted B w' ∧ Growing w w' ∧
      ∀ key blob, r = .ok (key, blob) → ∃ b ∈ w'.made, b.recovery_key = key ∧ b.blob = blob := by
  obtain ⟨n, -, hc⟩ := hc
  replace hc : w.create_backup B i n = (r, w') := hc
  unfold Vault.create_backup at hc
  split at hc
  · cases hc
    exact ⟨h, Growing.refl w, fun _ _ he => nomatch he⟩
  · next d _ =>
    split at hc
    · cases hc
      exact ⟨h, Growing.refl w, fun _ _ he => nomatch he⟩
    · next key blob hmade =>
      cases hc
      refine ⟨h.make (n := n) hmade, ⟨fun _ hb => List.mem_cons_of_mem _ hb, fun _ hb => hb⟩, ?_⟩
      intro key' blob' he
      cases he
      exact ⟨_, List.mem_cons_self, rfl, rfl⟩

/-- A `PUT` that is answered well has stored its blob. -/
theorem put_room_key_call {blob : String} {r : Except ApiError Unit} (h : Vaulted B w)
    (hb : ∃ b ∈ w.made, b.blob = blob) (hc : Vault.Call B X i (.put_room_key blob) w r w') :
    Vaulted B w' ∧ Growing w w' ∧ (r = .ok () → Api.roomKey blob ∈ w'.stored) := by
  obtain ⟨⟨arrival, o⟩, hallowed, hc⟩ := hc
  cases hc
  obtain ⟨b, hmade, rfl⟩ := hb
  obtain ⟨hinv, hgrows⟩ := h.receive ⟨b, hmade, rfl⟩ arrival
  refine ⟨hinv, hgrows, ?_⟩
  intro hok
  have hsucceeds : o.succeeds = true := by
    unfold Api.put_room_key Api.send at hok
    unfold HttpOutcome.succeeds
    cases o with
    | failed reason => cases hok
    | response status body =>
      simp only at hok ⊢
      by_contra hstatus
      rw [if_neg hstatus] at hok
      cases hok
  rw [hallowed hsucceeds]
  exact List.mem_cons_self

/-- An exchange that fails gives no blob. -/
theorem get_room_key_fails {o : HttpOutcome} (h : o.fails = true) (blob : String) :
    Api.get_room_key o ≠ .ok (some blob) := by
  intro hok
  unfold Api.get_room_key at hok
  split at hok
  · next resp hsend =>
    unfold Api.send at hsend
    cases o with
    | failed reason => cases hsend
    | response status body =>
      simp only at hsend
      split at hsend
      · next hsuccess =>
        cases hsend
        cases body with
        | json value => simp [HttpOutcome.fails, hsuccess] at h
        | garbled => cases hok
        | cut => cases hok
      · cases hsend
  · cases hok
  · cases hok

/-- A `GET` gives a blob that a device made. -/
theorem get_room_key_call {r : Except ApiError (Option String)} (h : Vaulted B w)
    (hc : Vault.Call B X i .get_room_key w r w') :
    w' = w ∧ ∀ blob, r = .ok (some blob) → ∃ b ∈ w.made, b.blob = blob := by
  obtain ⟨o, hallowed, hc⟩ := hc
  cases hc
  refine ⟨rfl, ?_⟩
  intro blob hok
  cases o with
  | some o => exact absurd hok (get_room_key_fails hallowed blob)
  | none =>
    cases hslot : w.slot with
    | none =>
      simp only [hslot, Option.getD_none] at hok
      cases hok
    | some body =>
      have hmem : body ∈ w.stored := by
        rw [h.slot] at hslot
        exact List.mem_of_mem_head? hslot
      obtain ⟨b, hmade, rfl⟩ := h.stored body hmem
      simp only [hslot, Option.getD_none] at hok
      exact ⟨b, hmade, Option.some.inj (Except.ok.inj hok)⟩

theorem restore_from_backup_call {key blob : String} {r : Except CoreError Unit} (hopens : B.Opens)
    (h : Vaulted B w) (hb : ∃ b ∈ w.made, b.blob = blob)
    (hc : Vault.Call B X i (.restore_from_backup key blob) w r w') :
    Vaulted B w' ∧ Growing w w' := by
  obtain ⟨fault, -, hc⟩ := hc
  replace hc : w.restore_from_backup B X i fault key blob = (r, w') := hc
  unfold Vault.restore_from_backup at hc
  generalize hcall : (w.clients i).onEngine (fun d ks =>
    E2ee.restore_from_backup X B.restore_from_backup d ks fault key blob) = out at hc
  obtain ⟨r', c⟩ := out
  cases hc
  refine ⟨⟨h.slot, h.stored, h.late, h.made, h.shown, ?_⟩, fun _ h => h, fun _ h => h⟩
  refine List.forall_mem_cons.mpr ⟨?_, h.restored⟩
  rcases restore_from_backup_cases hcall with ⟨rfl, hr⟩ | ⟨d', hopen, rfl⟩
  · exact Or.inl ⟨rfl, hr⟩
  · obtain ⟨b, hmade, rfl⟩ := hb
    obtain ⟨n, hn⟩ := h.made b hmade
    -- any other key would have failed
    have hkey : key = b.recovery_key := by
      by_contra hne
      obtain ⟨e, he⟩ := hopens.wrong _ n _ _ key hn hne
      rw [hopen] at he
      cases he
    have hown := hopens.own _ n _ _ hn
    rw [← hkey, hopen] at hown
    cases hown
    exact Or.inr ⟨b, hmade, hkey.symm, rfl⟩

theorem publish_device_keys_call {r : Unit} (h : Vaulted B w)
    (hc : Vault.Call B X i .publish_device_keys w r w') : Vaulted B w' ∧ Growing w w' := by
  obtain ⟨choose, -, hc⟩ := hc
  cases hc
  exact ⟨h.setClient i _, fun _ h => h, fun _ h => h⟩

theorem show_recovery_key_call {key : String} {r : Unit} (h : Vaulted B w)
    (hkey : ∃ b ∈ w.made, b.recovery_key = key ∧ Api.roomKey b.blob ∈ w.stored)
    (hc : Vault.Call B X i (.show_recovery_key key) w r w') : Vaulted B w' ∧ Growing w w' := by
  obtain ⟨choice, -, hc⟩ := hc
  cases hc
  exact ⟨⟨h.slot, h.stored, h.late, h.made, List.forall_mem_cons.mpr ⟨hkey, h.shown⟩, h.restored⟩,
    fun _ h => h, fun _ h => h⟩

/-! ## The programs -/

/-- A key reaches the screen after its blob reached the slot. -/
theorem show_backup_safe (t : ι × Nat) (w : Vault ι D) :
    Safe (vaulting B) (fun t => Vault.Call B X t.1) t (fun _ _ => True) show_backup w := by
  intro w₁ _ hinv r w₂ hcall
  obtain ⟨hinv₂, hgrows, hmade⟩ := create_backup_call hinv hcall
  refine ⟨hinv₂, hgrows, ?_⟩
  rcases r with e | ⟨key, blob⟩
  · trivial
  obtain ⟨b, hb, hkey, hblob⟩ := hmade key blob rfl
  intro w₃ hrely hinv₃ r w₄ hcall
  have hb₃ := hrely.made b hb
  obtain ⟨hinv₄, hgrows₄, hstored⟩ := put_room_key_call hinv₃ ⟨b, hb₃, hblob⟩ hcall
  refine ⟨hinv₄, hgrows₄, ?_⟩
  rcases r with err | ⟨⟩
  · trivial
  intro w₅ hrely₅ hinv₅ r w₆ hcall
  have hstored₅ := hrely₅.stored _ (hstored rfl)
  rw [← hblob] at hstored₅
  obtain ⟨hinv₆, hgrows₆⟩ := show_recovery_key_call hinv₅
    ⟨b, hrely₅.made b (hgrows₄.made b hb₃), hkey, hstored₅⟩ hcall
  exact ⟨hinv₆, hgrows₆, trivial⟩

theorem restore_backup_safe (hopens : B.Opens) (t : ι × Nat) (key : String) (w : Vault ι D) :
    Safe (vaulting B) (fun t => Vault.Call B X t.1) t (fun _ _ => True)
      (restore_backup key).forget w := by
  intro w₁ _ hinv r w₂ hcall
  obtain ⟨rfl, hmade⟩ := get_room_key_call hinv hcall
  refine ⟨hinv, Growing.refl w₂, ?_⟩
  rcases r with err | _ | blob
  · trivial
  · trivial
  obtain ⟨b, hb, hblob⟩ := hmade blob rfl
  intro w₃ hrely hinv₃ r w₄ hcall
  obtain ⟨hinv₄, hgrows₄⟩ := restore_from_backup_call hopens hinv₃ ⟨b, hrely.made b hb, hblob⟩ hcall
  refine ⟨hinv₄, hgrows₄, ?_⟩
  rcases r with e | ⟨⟩
  · trivial
  intro w₅ _ hinv₅ r w₆ hcall
  obtain ⟨hinv₆, hgrows₆⟩ := publish_device_keys_call hinv₅ hcall
  exact ⟨hinv₆, hgrows₆, trivial⟩

theorem vaults_keep (hopens : B.Opens) : (vaults (ι := ι) B X).Keeps (vaulting B) where
  start t w p _ hstart := by
    rcases hstart with rfl | ⟨key, rfl⟩
    · exact show_backup_safe t w
    · exact restore_backup_safe hopens t key w
  drop t w w' hinv hdrop := by
    cases hdrop
    exact ⟨hinv, Growing.refl w⟩
  env w w' hinv henv := by
    rcases henv with ⟨i, c, rfl⟩ | ⟨body, before, after, hlate, rfl⟩
    · exact ⟨hinv.setClient i c, fun _ => ⟨fun _ h => h, fun _ h => h⟩⟩
    · have hmade : ∀ body' ∈ before ++ body :: after, ∃ b ∈ w.made, body' = Api.roomKey b.blob := by
        rw [← hlate]
        exact hinv.late
      have hrest : ∀ body' ∈ before ++ after, ∃ b ∈ w.made, body' = Api.roomKey b.blob := by
        intro body' hbody'
        apply hmade body'
        simp only [List.mem_append, List.mem_cons] at hbody' ⊢
        tauto
      have hw : Vaulted B { w with late := before ++ after } :=
        ⟨hinv.slot, hinv.stored, hrest, hinv.made, hinv.shown, hinv.restored⟩
      exact ⟨hw.store (hmade body (by simp)), fun _ =>
        ⟨fun _ h => h, fun _ h => List.mem_cons_of_mem _ h⟩⟩
  restart w w' hinv hrestart := by
    cases hrestart
    exact hinv

/-! ## What a key is worth -/

variable (X) {clients : ι → Client D} {p : Pool (ι × Nat) (Vault ι D) BackupOp BackupOp.Res}

theorem vaulted (hopens : B.Opens)
    (hr : (vaults B X).Reaches (Threaded.idle (Vault.fresh clients)) p) : Vaulted B p.state :=
  (vaults B X).invariant (vaults_keep hopens) (Vaulted.fresh clients) hr

/-- Each restore, in any run, failed and left the engine as it was, or put in place the device that
a backup was made of, and the key that was typed is the key of that backup. -/
theorem restores_are_of_backups (hopens : B.Opens)
    (hr : (vaults B X).Reaches (Threaded.idle (Vault.fresh clients)) p) (x : Restoring D)
    (hx : x ∈ p.state.restored) : (x.after = x.before ∧ ∃ e, x.result = .error e) ∨
      ∃ b ∈ p.state.made, b.recovery_key = x.recovery_key ∧ x.after = some b.device :=
  (vaulted X hopens hr).restored x hx

end Runs

/-! ## A lost answer -/

/-- A recovery key is a row of `k`, and a blob says its key up to a colon. -/
def spelled : BackupCrypto String where
  create_backup d n :=
    .ok (String.ofList (List.replicate n 'k'),
      String.ofList (List.replicate n 'k' ++ ':' :: d.toList))
  restore_from_backup key blob :=
    if blob.toList.takeWhile (· ≠ ':') = key.toList then
      .ok (String.ofList (blob.toList.drop (key.toList.length + 1)))
    else .error "aead"

theorem spelled_key (n : Nat) (rest : List Char) :
    (List.replicate n 'k' ++ ':' :: rest).takeWhile (fun c => decide (c ≠ ':')) =
      List.replicate n 'k' := by
  cases n <;> simp [List.replicate_succ]

theorem spelled_opens : spelled.Opens where
  own := by
    intro d n key blob hmade
    cases hmade
    unfold spelled
    simp only [String.toList_ofList, spelled_key, if_true, List.length_replicate]
    rw [List.drop_append, List.length_replicate, List.drop_replicate,
      Nat.sub_eq_zero_of_le (Nat.le_succ n)]
    simp
  wrong := by
    intro d n key blob other hmade hother
    cases hmade
    refine ⟨"aead", ?_⟩
    unfold spelled
    simp only [String.toList_ofList, spelled_key]
    rw [if_neg]
    intro he
    exact hother (by rw [he, String.ofList_toList])

/-- One phone, with the device `dev`. -/
def onePhone (_ : Unit) : Client String :=
  { api := ⟨"https://pigeon.example", some "token"⟩
    session := ⟨"@ann:pigeon.example", "ANN1", "pigeon.example"⟩
    store := Store.init
    e2ee := some "dev"
    key_store := some Table.empty }

/-- The phone after its first backup. -/
def backedUp : Vault Unit String :=
  { (Vault.fresh onePhone).store (Api.roomKey "k:dev") with
    made := [⟨"k", "k:dev", "dev"⟩], shown := ["k"] }

theorem backs_up : (vaults spelled tally).Reaches (Threaded.idle (Vault.fresh onePhone))
    (Threaded.idle backedUp) := by
  have h0 : (vaults spelled tally).Reaches (Threaded.idle (Vault.fresh onePhone))
    (Threaded.idle (Vault.fresh onePhone)) := Relation.ReflTransGen.refl
  have h1 := h0.start ((), 0) show_backup (Or.inl rfl)
  have h2 := h1.call _ (r := .ok ("k", "k:dev")) ⟨(1 : Nat), trivial, rfl⟩
  have h3 := h2.call _ (r := .ok ())
    ⟨(Arrival.now, HttpOutcome.response 200 (.json (.obj []))), fun _ => rfl, rfl⟩
  have h4 := h3.call _ ⟨(), trivial, rfl⟩
  exact h4.finish

/-- A restore of what is stored gives the device back. -/
theorem restored_device : ∃ p : Pool (Unit × Nat) (Vault Unit String) BackupOp BackupOp.Res,
    (vaults spelled tally).Reaches (Threaded.idle (Vault.fresh onePhone)) p ∧
      ⟨"k", .ok (), some "dev", some "dev"⟩ ∈ p.state.restored := by
  have h1 := backs_up.start ((), 0) (restore_backup "k").forget (Or.inr ⟨"k", rfl⟩)
  have h2 := h1.call _ (r := .ok (some "k:dev")) ⟨(none : Option HttpOutcome), trivial, rfl⟩
  have h3 := h2.call _ (r := .ok ()) ⟨Fault.none, trivial, rfl⟩
  exact ⟨_, h3, List.mem_cons_self⟩

theorem restores_are_of_backups_device : ∃ w : Vault Unit String,
    ∃ b ∈ w.made, b.recovery_key = "k" ∧ some "dev" = some b.device := by
  obtain ⟨p, hp, hrestored⟩ := restored_device
  rcases restores_are_of_backups tally spelled_opens hp _ hrestored with ⟨-, e, he⟩ | hbackup
  · cases he
  · exact ⟨p.state, hbackup⟩

end PigeonMobile
