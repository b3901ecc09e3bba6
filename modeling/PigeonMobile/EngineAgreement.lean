-- The MLS device in memory and the one in the host key store (`e2ee.rs`). An operation changes
-- the device first and writes it then, so a write that fails leaves the two apart. A text that
-- is no UTF-8 is an error of a device that has changed.
import PigeonMobile.EngineSteps

namespace PigeonMobile

variable {D : Type}

/-- The operations of the engine that change the device. -/
inductive EngineOp where
  | create
  | key_packages (count : Nat)
  | last_resort_key_package
  | create_group (room_id : String)
  | add_member (room_id key_package_b64 : String)
  | process_commit (room_id commit_b64 : String)
  | join_from_welcome (welcome_b64 : String)
  | encrypt (room_id plaintext : String)
  | decrypt (room_id ciphertext_b64 : String)
  | restore_from_backup (recovery_key_b64 blob_b64 : String)

/-- The engine of a session, and the key store that is installed. -/
structure Engine (D : Type) where
  device : Option D
  keys : KeyMap

/-! ## One operation -/

section Operations

variable (X : PigeonCrypto D) (openBackup : String → String → Except String D) (user_id : String)

namespace Engine

/-- A method of the engine that is there: whether it returns a value, and what it leaves. -/
def on {β : Type} (s : Engine D) (f : D → Option KeyMap → Except CoreError β × D × Option KeyMap) :
    Bool × Engine D :=
  match s.device with
  | none => (false, s)
  | some d =>
    let (r, d', ks) := f d (some s.keys)
    (r.toBool, ⟨some d', ks.getD s.keys⟩)

/-- `create` gives a new engine, or none where its first write fails. -/
def create (s : Engine D) (fault : Fault) : Bool × Engine D :=
  match E2ee.create X user_id (some s.keys) fault with
  | (.ok d, ks) => (true, ⟨some d, ks.getD s.keys⟩)
  | (.error _, ks) => (false, ⟨s.device, ks.getD s.keys⟩)

def perform (s : Engine D) (fault : Fault) : EngineOp → Bool × Engine D
  | .create => s.create X user_id fault
  | .key_packages n => s.on (fun d ks => E2ee.key_packages X d ks fault n)
  | .last_resort_key_package => s.on (fun d ks => E2ee.last_resort_key_package X d ks fault)
  | .create_group room => s.on (fun d ks => E2ee.create_group X d ks fault room)
  | .add_member room kp => s.on (fun d ks => E2ee.add_member X d ks fault room kp)
  | .process_commit room commit => s.on (fun d ks => E2ee.process_commit X d ks fault room commit)
  | .join_from_welcome welcome => s.on (fun d ks => E2ee.join_from_welcome X d ks fault welcome)
  | .encrypt room text => s.on (fun d ks => E2ee.encrypt X d ks fault room text)
  | .decrypt room ct => s.on (fun d ks => E2ee.decrypt X d ks fault room ct)
  | .restore_from_backup key blob =>
    s.on (fun d ks => E2ee.restore_from_backup X openBackup d ks fault key blob)

/-- What the next launch would load is the device in memory. -/
def Agrees (s : Engine D) : Prop := E2ee.restore X user_id (some s.keys) .none = .ok s.device

/-- Neither the device in memory nor the one that a launch would load is another. -/
def Unchanged (s s' : Engine D) : Prop :=
  s'.device = s.device ∧
    E2ee.restore X user_id (some s'.keys) .none = E2ee.restore X user_id (some s.keys) .none

end Engine

namespace EngineOp

/-- The device after a call of `pigeon-crypto` that goes through. -/
def grown {β : Type} : Except String (D × β) → Option (D × Bool)
  | .ok (d, _) => some (d, true)
  | .error _ => none

/-- The same in a group, which is read before. -/
def inGroup (fault : Fault) (d : D) (room_id : String) (grown : Option (D × Bool)) :
    Option (D × Bool) :=
  match fault with
  | .load_group _ => none
  | _ => if X.load_group d room_id then grown else none

/-- What an operation makes of the device, and whether its result can be returned: a plaintext
that is no UTF-8 cannot. None where the call of `pigeon-crypto` fails. -/
def advance (fault : Fault) (d : D) : EngineOp → Option (D × Bool)
  | .create => none
  | .key_packages n => grown (X.new_key_packages d n)
  | .last_resort_key_package => grown (X.new_last_resort_key_package d)
  | .create_group room => (X.create_group d room).toOption.map (·, true)
  | .add_member room kp => inGroup X fault d room (grown (X.add_member d room kp))
  | .process_commit room commit =>
    inGroup X fault d room ((X.process_commit d room commit).toOption.map (·, true))
  | .join_from_welcome welcome => (X.join_from_welcome d welcome).toOption.map (·, true)
  | .encrypt room text => inGroup X fault d room (grown (X.encrypt d room text))
  | .decrypt room ct => inGroup X fault d room
      ((X.decrypt d room ct).toOption.map (fun r => (r.1, r.2.isSome)))
  | .restore_from_backup key blob => (openBackup key blob).toOption.map (·, true)

def isBackup : EngineOp → Bool
  | .restore_from_backup _ _ => true
  | _ => false

/-- An operation that changes the device in memory can write it, what it read is a text, and a
backup is one of this user. -/
def Safe (s : Engine D) (fault : Fault) (op : EngineOp) : Prop :=
  ∀ d d' readable, s.device = some d → op.advance X openBackup fault d = some (d', readable) →
    d' ≠ d → fault.onPersist = false ∧ readable = true ∧
      (op.isBackup = true → X.OfUser user_id d')

end EngineOp

/-! ## What an operation can do -/

/-- What is left of an operation: nothing has changed, where its call fails. Else the device is
another one, and it is written or not. -/
def settled (s : Engine D) (fault : Fault) : Option (D × Bool) → Bool × Engine D
  | none => (false, s)
  | some (d', readable) =>
    if fault.onPersist then (false, ⟨some d', s.keys⟩)
    else (readable, ⟨some d', s.keys.put MLS_STATE_KEY (E2ee.stateBlob X d')⟩)

variable {X openBackup user_id} {s : Engine D} {fault : Fault} {d : D}

/-- A call that goes through, and the write after it. -/
theorem on_mutate {β : Type} (hd : s.device = some d) (r : D → Except String (D × β)) :
    s.on (fun d ks => E2ee.mutate X d ks fault (r d)) =
      settled X s fault (EngineOp.grown (r d)) := by
  obtain ⟨device, keys⟩ := s
  obtain rfl : device = some d := hd
  simp only [Engine.on, E2ee.mutate]
  cases r d with
  | error e => rfl
  | ok out => cases fault <;> rfl

theorem on_onGroup {β : Type} (hd : s.device = some d) (room_id : String)
    (r : D → Except String (D × β)) :
    s.on (fun d ks => E2ee.onGroup X d ks fault room_id (r d)) =
      settled X s fault (EngineOp.inGroup X fault d room_id (EngineOp.grown (r d))) := by
  have hmutate := @on_mutate D X s fault d β hd r
  obtain ⟨device, keys⟩ := s
  obtain rfl : device = some d := hd
  cases hload : X.load_group d room_id with
  | false =>
    cases fault <;> simp [Engine.on, E2ee.onGroup, EngineOp.inGroup, hload, settled, Except.toBool]
  | true =>
    cases fault with
    | load_group reason => rfl
    | none | db | key_store | export_storage =>
      simpa [Engine.on, E2ee.onGroup, EngineOp.inGroup, hload] using hmutate

theorem grown_map (r : Except String D) :
    EngineOp.grown (r.map (·, ())) = r.toOption.map (·, true) := by
  cases r <;> rfl

theorem grown_add (r : Except String (D × String × String)) :
    EngineOp.grown (r.map (fun r => (r.1, (⟨r.2.1, r.2.2⟩ : AddOutcome)))) = EngineOp.grown r := by
  cases r <;> rfl

/-- A decryption: the device is written before the plaintext is checked. -/
theorem on_decrypt (hd : s.device = some d) (room_id ct : String) :
    s.on (fun d ks => E2ee.decrypt X d ks fault room_id ct) =
      settled X s fault (EngineOp.inGroup X fault d room_id
        ((X.decrypt d room_id ct).toOption.map (fun r => (r.1, r.2.isSome)))) := by
  obtain ⟨device, keys⟩ := s
  obtain rfl : device = some d := hd
  cases hload : X.load_group d room_id with
  | false =>
    cases fault <;>
      simp [Engine.on, E2ee.decrypt, E2ee.onGroup, EngineOp.inGroup, hload, settled, Except.toBool]
  | true =>
    cases hr : X.decrypt d room_id ct with
    | error e =>
      cases fault <;>
        simp [Engine.on, E2ee.decrypt, E2ee.onGroup, E2ee.mutate, EngineOp.inGroup, hload, hr,
          settled, Except.toBool, Except.toOption]
    | ok out =>
      obtain ⟨d', plaintext⟩ := out
      cases fault <;> cases plaintext <;>
        simp [Engine.on, E2ee.decrypt, E2ee.onGroup, E2ee.mutate, E2ee.persist, ks_put,
          EngineOp.inGroup, hload, hr, settled, Fault.onPersist, Fault.onKeys, Except.toBool,
          Except.toOption]

/-- What an operation on a device does. -/
theorem perform_eq {op : EngineOp} (hop : op ≠ .create) (hd : s.device = some d) :
    s.perform X openBackup user_id fault op =
      settled X s fault (op.advance X openBackup fault d) := by
  cases op with
  | create => exact absurd rfl hop
  | key_packages n => exact on_mutate hd (fun d => X.new_key_packages d n)
  | last_resort_key_package => exact on_mutate hd X.new_last_resort_key_package
  | create_group room =>
    have h := @on_mutate D X s fault d Unit hd (fun d => (X.create_group d room).map (·, ()))
    rwa [grown_map] at h
  | add_member room kp =>
    have h := @on_onGroup D X s fault d AddOutcome hd room (fun d =>
      (X.add_member d room kp).map (fun r => (r.1, (⟨r.2.1, r.2.2⟩ : AddOutcome))))
    rwa [grown_add] at h
  | process_commit room commit =>
    have h := @on_onGroup D X s fault d Unit hd room
      (fun d => (X.process_commit d room commit).map (·, ()))
    rwa [grown_map] at h
  | join_from_welcome welcome =>
    have h := @on_mutate D X s fault d Unit hd
      (fun d => (X.join_from_welcome d welcome).map (·, ()))
    rwa [grown_map] at h
  | encrypt room text => exact on_onGroup hd room (fun d => X.encrypt d room text)
  | decrypt room ct => exact on_decrypt hd room ct
  | restore_from_backup key blob =>
    have h := @on_mutate D X s fault d Unit hd (fun _ => (openBackup key blob).map (·, ()))
    rwa [grown_map] at h

/-- Without a device only `create` does anything. -/
theorem perform_absent {op : EngineOp} (hop : op ≠ .create) (hd : s.device = none) :
    s.perform X openBackup user_id fault op = (false, s) := by
  obtain ⟨device, keys⟩ := s
  obtain rfl : device = none := hd
  cases op with
  | create => exact absurd rfl hop
  | key_packages | last_resort_key_package | create_group | add_member | process_commit
  | join_from_welcome | encrypt | decrypt | restore_from_backup => rfl

/-! ## What a launch would load -/

section Laws

/-- The device that was written last. -/
theorem restore_put (hrestore : X.Restores) (keys : KeyMap) {d : D} (hown : X.OfUser user_id d) :
    E2ee.restore X user_id (some (keys.put MLS_STATE_KEY (E2ee.stateBlob X d))) .none =
      .ok (some d) := by
  apply restore_stateBlob (hrestore user_id d hown)
  simp only [ks_get, KeyMap.find_put, if_true, Option.map_some]

/-- What an operation makes of a device is of the same user, but for a backup. -/
theorem advance_moves {op : EngineOp} {d' : D} {readable : Bool} (hop : op.isBackup = false)
    (h : op.advance X openBackup fault d = some (d', readable)) : X.Moves d d' := by
  have hgroup : ∀ {room : String} {out : Option (D × Bool)},
      EngineOp.inGroup X fault d room out = some (d', readable) → out = some (d', readable) := by
    intro room out hin
    unfold EngineOp.inGroup at hin
    split at hin
    · cases hin
    · split at hin
      · exact hin
      · cases hin
  have hgrown : ∀ {β : Type} {r : Except String (D × β)},
      EngineOp.grown r = some (d', readable) → ∃ b, r = .ok (d', b) := by
    intro β r hr
    cases r with
    | error reason => cases hr
    | ok out =>
      cases hr
      exact ⟨out.2, rfl⟩
  have hmapped : ∀ {β : Type} {r : Except String β} {f : β → D × Bool},
      r.toOption.map f = some (d', readable) → ∃ b, r = .ok b ∧ (f b).1 = d' := by
    intro β r f hr
    cases r with
    | error reason => cases hr
    | ok b => exact ⟨b, rfl, congrArg Prod.fst (Option.some.inj hr)⟩
  cases op with
  | create => cases h
  | restore_from_backup key blob => cases hop
  | key_packages n =>
    obtain ⟨kps, hr⟩ := hgrown h
    exact .key_packages n hr
  | last_resort_key_package =>
    obtain ⟨kp, hr⟩ := hgrown h
    exact .last_resort hr
  | create_group room =>
    obtain ⟨_, hr, rfl⟩ := hmapped h
    exact .create_group room hr
  | add_member room kp =>
    obtain ⟨o, hr⟩ := hgrown (hgroup h)
    exact .add_member room kp hr
  | process_commit room commit =>
    obtain ⟨_, hr, rfl⟩ := hmapped (hgroup h)
    exact .process_commit room commit hr
  | join_from_welcome welcome =>
    obtain ⟨_, hr, rfl⟩ := hmapped h
    exact .join_from_welcome welcome hr
  | encrypt room text =>
    obtain ⟨ct, hr⟩ := hgrown (hgroup h)
    exact .encrypt room text hr
  | decrypt room ct =>
    obtain ⟨⟨_, text⟩, hr, rfl⟩ := hmapped (hgroup h)
    exact .decrypt room ct hr

/-- The device in memory and the stored one agree after an operation, and one that fails has
changed neither. -/
def StepAgrees (X : PigeonCrypto D) (user_id : String) (s : Engine D) (out : Bool × Engine D) :
    Prop :=
  out.2.Agrees X user_id ∧ (out.1 = false → s.Unchanged X user_id out.2)

/-- An operation keeps the two together just where it is safe. -/
theorem stepAgrees_iff (hrestore : X.Restores) (hs : s.Agrees X user_id) (op : EngineOp) :
    StepAgrees X user_id s (s.perform X openBackup user_id fault op) ↔
      op.Safe X openBackup user_id s fault := by
  have hsame : StepAgrees X user_id s (false, s) := ⟨hs, fun _ => ⟨rfl, rfl⟩⟩
  by_cases hop : op = .create
  · subst hop
    have hsafe : EngineOp.Safe X openBackup user_id s fault .create := by
      intro d d' readable _ hnone
      cases hnone
    refine iff_of_true ?_ hsafe
    -- the engine that was there stays where the first write fails
    obtain ⟨device, keys⟩ := s
    simp only [Engine.perform, Engine.create, E2ee.create]
    cases hnew : X.new user_id with
    | error e => exact hsame
    | ok d =>
      have hagrees : StepAgrees X user_id ⟨device, keys⟩
          (true, ⟨some d, keys.put MLS_STATE_KEY (E2ee.stateBlob X d)⟩) :=
        ⟨restore_put hrestore keys (.new hnew), fun h => by cases h⟩
      cases fault with
      | key_store | export_storage => exact hsame
      | none | db | load_group => exact hagrees
  · cases hd : s.device with
    | none =>
      rw [perform_absent hop hd]
      refine iff_of_true hsame ?_
      intro d d' readable hd'
      rw [hd] at hd'
      cases hd'
    | some d =>
      rw [perform_eq hop hd]
      unfold EngineOp.Safe
      cases hadv : op.advance X openBackup fault d with
      | none =>
        refine iff_of_true hsame ?_
        intro d₁ d' readable hd₁ hsome
        rw [hd] at hd₁
        cases hd₁
        rw [hadv] at hsome
        cases hsome
      | some out =>
        obtain ⟨d', readable⟩ := out
        have hsafe : (∀ d₁ d₂ r, s.device = some d₁ →
            op.advance X openBackup fault d₁ = some (d₂, r) → d₂ ≠ d₁ →
              fault.onPersist = false ∧ r = true ∧
              (op.isBackup = true → X.OfUser user_id d₂)) ↔
            (d' ≠ d → fault.onPersist = false ∧ readable = true ∧
              (op.isBackup = true → X.OfUser user_id d')) := by
          constructor
          · intro h
            exact h d d' readable hd hadv
          · intro h d₁ d₂ r hd₁ hadv₁
            rw [hd] at hd₁
            cases hd₁
            rw [hadv] at hadv₁
            cases hadv₁
            exact h
        rw [hsafe]
        have hmemory : E2ee.restore X user_id (some s.keys) .none = .ok (some d) := by
          unfold Engine.Agrees at hs
          rw [hs, hd]
        by_cases hfault : fault.onPersist = true
        · have hsettled : settled X s fault (some (d', readable)) = (false, ⟨some d', s.keys⟩) :=
            if_pos hfault
          rw [hsettled]
          constructor
          · rintro ⟨hagrees, -⟩ hne
            -- the write failed: a launch would still load the old device
            have hold : (Except.ok (some d) : Except CoreError (Option D)) = .ok (some d') :=
              hmemory.symm.trans hagrees
            cases hold
            exact absurd rfl hne
          · intro h
            by_cases he : d' = d
            · subst he
              exact ⟨hmemory, fun _ => ⟨hd.symm, rfl⟩⟩
            · rw [(h he).1] at hfault
              cases hfault
        · have hsettled : settled X s fault (some (d', readable)) =
              (readable, ⟨some d', s.keys.put MLS_STATE_KEY (E2ee.stateBlob X d')⟩) :=
            if_neg hfault
          rw [hsettled]
          constructor
          · rintro ⟨hagrees, hunchanged⟩ hne
            refine ⟨by simpa using hfault, ?_, fun _ => restore_ofUser hagrees⟩
            cases readable with
            | true => rfl
            | false =>
              have hsame := (hunchanged rfl).1
              rw [hd] at hsame
              cases hsame
              exact absurd rfl hne
          · intro h
            have hput : E2ee.restore X user_id
                (some (s.keys.put MLS_STATE_KEY (E2ee.stateBlob X d'))) .none = .ok (some d') := by
              apply restore_put hrestore
              by_cases he : d' = d
              · subst he
                exact restore_ofUser hmemory
              · cases hbackup : op.isBackup with
                | true => exact (h he).2.2 hbackup
                | false => exact .moves (restore_ofUser hmemory) (advance_moves hbackup hadv)
            refine ⟨hput, ?_⟩
            rintro (rfl : readable = false)
            by_cases he : d' = d
            · subst he
              exact ⟨hd.symm, hput.trans hmemory.symm⟩
            · cases (h he).2.1

end Laws

/-! ## Every sequence of operations -/

section Runs

variable (X openBackup user_id)

/-- After each operation of a sequence the two agree, and one that failed has changed neither. -/
def AgreesThroughout : Engine D → List (EngineOp × Fault) → Prop
  | _, [] => True
  | s, (op, fault) :: rest =>
    StepAgrees X user_id s (s.perform X openBackup user_id fault op) ∧
      AgreesThroughout (s.perform X openBackup user_id fault op).2 rest

/-- Each operation of a sequence is safe where it is called. -/
def SafeThroughout : Engine D → List (EngineOp × Fault) → Prop
  | _, [] => True
  | s, (op, fault) :: rest =>
    op.Safe X openBackup user_id s fault ∧
      SafeThroughout (s.perform X openBackup user_id fault op).2 rest

end Runs

end Operations

/-- In every sequence of operations, with every pattern of writes that fail, the device in memory
and the one that a launch would load agree after each operation, and an operation that fails
has changed neither, just where no operation that changes the device fails to write it, reads a
plaintext that is no UTF-8 or restores a backup of another user. -/
theorem memory_is_what_is_stored_iff (X : PigeonCrypto D)
    (openBackup : String → String → Except String D) (user_id : String) (hrestore : X.Restores)
    (s : Engine D) (hs : s.Agrees X user_id) (ops : List (EngineOp × Fault)) :
    AgreesThroughout X openBackup user_id s ops ↔ SafeThroughout X openBackup user_id s ops := by
  induction ops generalizing s with
  | nil => exact Iff.rfl
  | cons o rest ih =>
    obtain ⟨op, fault⟩ := o
    have hstep := @stepAgrees_iff D X openBackup user_id s fault hrestore hs op
    constructor
    · rintro ⟨hagrees, hrest⟩
      exact ⟨hstep.mp hagrees, (ih _ hagrees.1).mp hrest⟩
    · rintro ⟨hsafe, hrest⟩
      have hagrees := hstep.mpr hsafe
      exact ⟨hagrees, (ih _ hagrees.1).mpr hrest⟩

/-! ## A device that counts -/

/-- A device that remembers how often it was used. -/
def tally : PigeonCrypto String where
  new _ := .ok ""
  load_group _ _ := true
  create_group d _ := .ok (d ++ "g")
  add_member d _ _ := .ok (d ++ "a", "welcome", "commit")
  process_commit d _ _ := .ok (d ++ "c")
  join_from_welcome d _ := .ok (d ++ "j")
  encrypt d _ plaintext := .ok (d ++ "e", plaintext)
  decrypt d _ ciphertext := .ok (d ++ "d", some ciphertext)
  new_key_packages d n := .ok (d ++ "k", List.replicate n "key-package")
  new_last_resort_key_package d := .ok (d ++ "l", "key-package")
  signature_public_key _ := "key"
  export_storage d := d
  restore _ _ blob := .ok blob

def noBackup (_ _ : String) : Except String String := .error "no backup"

/-- A session before its login. -/
def blankEngine : Engine String := ⟨none, Table.empty⟩

theorem memory_is_what_is_stored_iff_tally :
    AgreesThroughout tally noBackup "@ann:pigeon.example" blankEngine
        [(.create, .none), (.encrypt "!room" "hi", .none)] ↔
      SafeThroughout tally noBackup "@ann:pigeon.example" blankEngine
        [(.create, .none), (.encrypt "!room" "hi", .none)] :=
  memory_is_what_is_stored_iff tally noBackup "@ann:pigeon.example" (fun _ _ _ => rfl) blankEngine
    rfl _

/-- A message is encrypted while the key store is full: the ratchet is ahead of what is stored. -/
theorem a_failed_write_leaves_memory_ahead : ¬ ∀ (X : PigeonCrypto String)
    (openBackup : String → String → Except String String) (user_id : String) (s : Engine String)
    (ops : List (EngineOp × Fault)),
    X.Restores → s.Agrees X user_id → AgreesThroughout X openBackup user_id s ops := by
  intro h
  obtain ⟨-, ⟨hagrees, -⟩, -⟩ := h tally noBackup "@ann:pigeon.example" blankEngine
    [(.create, .none), (.encrypt "!room" "hi", .key_store "full")] (fun _ _ _ => rfl) rfl
  have hdevice : (Except.ok (some "") : Except CoreError (Option String)) =
      .ok (some ("" ++ "e")) :=
    hagrees
  exact absurd (Option.some.inj (Except.ok.inj hdevice)) (by decide)

end PigeonMobile
