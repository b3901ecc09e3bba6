-- The device keys over a login and a launch: `publish_device_keys` offers the identity of the
-- engine to the key directory, after a login, and after a launch that minted an identity
-- online. What each of them writes into the key store is said once here.
import PigeonMobile.Accounts

namespace PigeonMobile

def KEY_PACKAGE_COUNT : Nat := 5

/-- Best-effort: nothing that fails here fails the caller. -/
def publish_device_keys : Code Unit :=
  .call .e2ee fun available =>
    if available then
      .call (.key_packages KEY_PACKAGE_COUNT) fun
      | .error _ => .done ()
      | .ok kps => .call .last_resort_key_package fun last_resort =>
        .call .signature_public_key_b64 fun pubkey => .call .session fun session =>
          .call (.api_upload_keys session.device_id pubkey kps last_resort.toOption) fun _ =>
            .done ()
    else .done ()

/-- The identity key that a request offers to the directory. -/
def Op.offers : Op → Option String
  | .api_upload_keys _ public_key_b64 _ _ => some public_key_b64
  | _ => none

/-! ## Login and launch, with the upload -/

/-- What a launch gives: its value, the host it leaves, the identity it minted, and the
identity keys it offered to the directory. -/
structure Launched (D : Type) where
  value : Except CoreError (Option (Client D))
  host : Host
  minted : Option D
  offered : List String

section

variable {D : Type} (X : PigeonCrypto D)

/-- The identity keys that the upload after a login or a mint offers. -/
def offered_keys (choose : (op : Op) → op.Choice) (c : Client D) : List String :=
  (publish_device_keys.trace (Client.under X choose) c).filterMap (fun e => e.op.offers)

/-- The client after the upload. -/
def published (choose : (op : Op) → op.Choice) (c : Client D) : Client D :=
  (publish_device_keys.run (Client.under X choose) c).2

/-- `login` and `register`, with the upload. `choose` is what the calls of the upload are
answered. -/
def sign_in (server : String) (answer : Except ApiError Json) (f : SessionFaults)
    (choose : (op : Op) → op.Choice) (h : Host) : Except CoreError (Client D) × Host :=
  match login X server answer f h with
  | (.error e, h') => (.error e, h')
  | (.ok c, _) => (.ok (published X choose c), (published X choose c).host)

/-- The engine that `restore_or_mint_e2ee` minted, where its flag says so. -/
def minted_e2ee (user_id : String) (ks : Option KeyMap) (f : SessionFaults) : Option D :=
  match E2ee.restore X user_id ks f.mls_get with
  | .ok (some _) => none
  | .ok none => (mint_e2ee X user_id ks f.mls_put).1
  | .error _ => (mint_e2ee X user_id ks f.mls_put).1

/-- A launch on the stored session. Only the online branch uploads what it minted. -/
def launch_with (online : Bool) (session : Session) (token : String) (f : SessionFaults)
    (choose : (op : Op) → op.Choice) (h : Host) : Launched D :=
  let minted := minted_e2ee X session.user_id h.key_store f
  match resume X session token f h with
  | (.error e, h') => ⟨.error e, h', minted, []⟩
  | (.ok none, h') => ⟨.ok none, h', minted, []⟩
  | (.ok (some c), h') =>
    if online && minted.isSome then
      ⟨.ok (some (published X choose c)), (published X choose c).host, minted,
        offered_keys X choose c⟩
    else ⟨.ok (some c), h', minted, []⟩

/-- `restore_session`, with the upload. -/
def launch (whoami : Except ApiError Unit) (f : SessionFaults) (choose : (op : Op) → op.Choice)
    (h : Host) : Launched D :=
  match ks_get h.key_store SESSION_KEY f.session with
  | .error e => ⟨.error e, h, none, []⟩
  | .ok none => ⟨.ok none, h, none, []⟩
  | .ok (some bytes) =>
    match decode_session bytes with
    | .error e => ⟨.error e, h, none, []⟩
    | .ok (session, token) =>
      match whoami with
      | .ok () => launch_with X true session token f choose h
      | .error (.Network _) => launch_with X false session token f choose h
      | .error (.Server _ .UnknownToken _) =>
        ⟨(drop_session f.session_delete h).1,
          (drop_session (D := D) f.session_delete h).2, none, []⟩
      | .error (.Server _ .MissingToken _) =>
        ⟨(drop_session f.session_delete h).1,
          (drop_session (D := D) f.session_delete h).2, none, []⟩
      | .error other => ⟨.error other.toCore, h, none, []⟩

end

/-! ## What the key store holds -/

theorem open_store_cases (file : Store) (fault : Fault) :
    (∃ reason, fault = .db reason ∧ ∃ e, open_store file fault = .error e) ∨
      open_store file fault = .ok file := by
  unfold open_store
  cases fault with
  | db reason => exact Or.inl ⟨reason, rfl, _, rfl⟩
  | none | load_group | key_store | export_storage => exact Or.inr rfl

theorem ks_get_calm (ks : Option KeyMap) (key : String) {fault : Fault} (h : fault.onKeys = false) :
    ks_get ks key fault = ks_get ks key .none := by
  cases ks with
  | none => rfl
  | some m =>
    cases fault with
    | key_store reason => cases h
    | none | db | load_group | export_storage => rfl

theorem ks_get_fails {ks : Option KeyMap} {key : String} {fault : Fault} {value : Json}
    (h : fault.onKeys = true) (hks : ks_get ks key .none = .ok (some value)) :
    ∃ e, ks_get ks key fault = .error e := by
  cases ks with
  | none => cases hks
  | some m =>
    cases fault with
    | key_store reason => exact ⟨_, rfl⟩
    | none | db | load_group | export_storage => cases h

/-- A read gives what is stored, or the store fails it. -/
theorem ks_get_reads {ks : Option KeyMap} {key : String} {fault : Fault} {found : Option Json}
    (h : ks_get ks key fault = .ok found) : ks_get ks key .none = .ok found := by
  cases ks with
  | none => exact h
  | some m =>
    cases fault with
    | key_store reason => cases h
    | none | db | load_group | export_storage => exact h

/-- A put fails and writes nothing, or it writes its own entry. -/
theorem ks_put_cases (ks : Option KeyMap) (key : String) (value : Json) (fault : Fault) :
    (fault.onKeys = true ∧ ∃ e, ks_put ks key value fault = (.error e, ks)) ∨
    ∃ b ks', ks_put ks key value fault = (.ok b, ks') ∧
      (∀ k, k ≠ key → ks_get ks' k .none = ks_get ks k .none) ∧
      (ks.isSome = true → fault.onKeys = false ∧ ks_get ks' key .none = .ok (some value)) ∧
      ks'.isSome = ks.isSome := by
  cases ks with
  | none =>
    right
    refine ⟨false, none, rfl, fun _ _ => rfl, ?_, rfl⟩
    intro h
    cases h
  | some m =>
    have hothers : ∀ k, k ≠ key →
        ks_get (some (m.put key value)) k .none = ks_get (some m) k .none := by
      intro k hk
      rw [ks_get_put, if_neg (Ne.symm hk)]
    have hown : ks_get (some (m.put key value)) key .none = .ok (some value) := by
      rw [ks_get_put, if_pos rfl]
    cases fault with
    | key_store reason => exact Or.inl ⟨rfl, _, rfl⟩
    | none | db | load_group | export_storage =>
      exact Or.inr ⟨true, _, rfl, hothers, fun _ => ⟨rfl, hown⟩, rfl⟩

/-- A delete fails and changes nothing, or its entry is gone. -/
theorem ks_delete_cases (ks : Option KeyMap) (key : String) (fault : Fault) :
    (ks.isSome = true ∧ fault.onKeys = true ∧ ∃ e, ks_delete ks key fault = (.error e, ks)) ∨
    (ks.isSome = true → fault.onKeys = false) ∧ ∃ ks', ks_delete ks key fault = (.ok (), ks') ∧
      ∀ k, ks_get ks' k .none = if k = key then .ok none else ks_get ks k .none := by
  cases ks with
  | none =>
    right
    refine ⟨fun h => (by cases h), none, rfl, ?_⟩
    intro k
    split <;> rfl
  | some m =>
    cases fault with
    | key_store reason => exact Or.inl ⟨rfl, rfl, _, rfl⟩
    | none | db | load_group | export_storage =>
      exact Or.inr ⟨fun _ => rfl, _, rfl, ks_get_erase m key⟩

section

variable {D : Type} {X : PigeonCrypto D}

/-- What changed in the key store is the MLS entry at most, and it holds a state of the
identity `pubkey`. -/
structure WritesOwn (X : PigeonCrypto D) (pubkey : String) (ks ks' : Option KeyMap) : Prop where
  installed : ks'.isSome = ks.isSome
  others : ∀ k, k ≠ MLS_STATE_KEY → ks_get ks' k .none = ks_get ks k .none
  own : ks_get ks' MLS_STATE_KEY .none = ks_get ks MLS_STATE_KEY .none ∨
    ∃ d, X.signature_public_key d = pubkey ∧
      ks_get ks' MLS_STATE_KEY .none = .ok (some (E2ee.stateBlob X d))

theorem WritesOwn.refl (pubkey : String) (ks : Option KeyMap) : WritesOwn X pubkey ks ks :=
  ⟨rfl, fun _ _ => rfl, Or.inl rfl⟩

theorem WritesOwn.trans {pubkey : String} {ks ks' ks'' : Option KeyMap}
    (h : WritesOwn X pubkey ks ks') (h' : WritesOwn X pubkey ks' ks'') :
    WritesOwn X pubkey ks ks'' := by
  refine ⟨h'.installed.trans h.installed, fun k hk => (h'.others k hk).trans (h.others k hk), ?_⟩
  rcases h'.own with hsame | hwritten
  · rw [hsame]
    exact h.own
  · exact Or.inr hwritten

/-- An identity outlasts what is done with it: a restored device is the one of the key it is
restored for, and key packages leave the key alone. -/
structure KeepsKey (X : PigeonCrypto D) : Prop where
  restore : ∀ user pubkey blob d, X.restore user pubkey blob = .ok d →
    X.signature_public_key d = pubkey
  key_packages : ∀ d n d' kps, X.new_key_packages d n = .ok (d', kps) →
    X.signature_public_key d' = X.signature_public_key d
  last_resort : ∀ d d' kp, X.new_last_resort_key_package d = .ok (d', kp) →
    X.signature_public_key d' = X.signature_public_key d

/-! ## The writes of the engine -/

/-- A write that does not fail is in the key store, where one is installed. -/
theorem persist_cases (d : D) (ks : Option KeyMap) (fault : Fault) :
    (fault.onPersist = true ∧ ∃ e, E2ee.persist X d ks fault = (.error e, ks)) ∨
    ∃ ks', E2ee.persist X d ks fault = (.ok (), ks') ∧
      WritesOwn X (X.signature_public_key d) ks ks' ∧
      (ks.isSome = true → fault.onPersist = false ∧
        ks_get ks' MLS_STATE_KEY .none = .ok (some (E2ee.stateBlob X d))) := by
  by_cases hexport : ∃ reason, fault = .export_storage reason
  · obtain ⟨reason, rfl⟩ := hexport
    exact Or.inl ⟨rfl, _, rfl⟩
  have hkeys : fault.onPersist = fault.onKeys := by
    cases fault with
    | export_storage reason => exact absurd ⟨reason, rfl⟩ hexport
    | none | db | load_group | key_store => rfl
  rw [hkeys, E2ee.persist_exported X d ks (fun reason h => hexport ⟨reason, h⟩)]
  rcases ks_put_cases ks MLS_STATE_KEY (E2ee.stateBlob X d) fault with
    ⟨hfault, e, hput⟩ | ⟨b, ks', hput, hothers, hown, hinstalled⟩
  · rw [hput]
    exact Or.inl ⟨hfault, e, rfl⟩
  · rw [hput]
    refine Or.inr ⟨ks', rfl, ⟨hinstalled, hothers, ?_⟩, hown⟩
    cases ks with
    | none =>
      obtain rfl : ks' = none :=
        Option.isSome_eq_false_iff.mp hinstalled |> Option.isNone_iff_eq_none.mp
      exact Or.inl rfl
    | some m => exact Or.inr ⟨d, rfl, (hown rfl).2⟩

/-- A device call that keeps the identity writes it, or nothing. -/
theorem mutate_writes {β : Type} {d : D} (ks : Option KeyMap) (fault : Fault)
    {r : Except String (D × β)}
    (hr : ∀ d' b, r = .ok (d', b) → X.signature_public_key d' = X.signature_public_key d) :
    X.signature_public_key (E2ee.mutate X d ks fault r).2.1 = X.signature_public_key d ∧
      WritesOwn X (X.signature_public_key d) ks (E2ee.mutate X d ks fault r).2.2 := by
  unfold E2ee.mutate
  rcases r with reason | ⟨d', b⟩
  · exact ⟨rfl, WritesOwn.refl _ _⟩
  · have hkey := hr d' b rfl
    rw [← hkey]
    rcases persist_cases (X := X) d' ks fault with ⟨-, e, hp⟩ | ⟨ks', hp, hwrites, -⟩
    · simp only [hp]
      exact ⟨trivial, WritesOwn.refl _ _⟩
    · simp only [hp]
      exact ⟨trivial, hwrites⟩

/-- A mint gives no engine and writes nothing, or it writes the engine that it gives. -/
theorem mint_cases (user_id : String) (ks : Option KeyMap) (fault : Fault) :
    (mint_e2ee X user_id ks fault = (none, ks) ∧
      ((∃ reason, X.new user_id = .error reason) ∨ fault.onPersist = true)) ∨
    ∃ d ks', X.new user_id = .ok d ∧ mint_e2ee X user_id ks fault = (some d, ks') ∧
      WritesOwn X (X.signature_public_key d) ks ks' ∧
      (ks.isSome = true → fault.onPersist = false ∧
        ks_get ks' MLS_STATE_KEY .none = .ok (some (E2ee.stateBlob X d))) := by
  unfold mint_e2ee E2ee.create
  cases hnew : X.new user_id with
  | error reason => exact Or.inl ⟨rfl, Or.inl ⟨reason, rfl⟩⟩
  | ok d =>
    rcases persist_cases (X := X) d ks fault with ⟨hfault, e, hp⟩ | ⟨ks', hp, hwrites, hown⟩
    · simp only [hp]
      exact Or.inl ⟨trivial, Or.inr hfault⟩
    · simp only [hp]
      exact Or.inr ⟨d, ks', rfl, rfl, hwrites, hown⟩

/-- The state is restored and left alone, or a mint takes its place. -/
theorem restore_or_mint_cases (user_id : String) (ks : Option KeyMap) (f : SessionFaults) :
    (∃ d, E2ee.restore X user_id ks f.mls_get = .ok (some d) ∧
      restore_or_mint_e2ee X user_id ks f = (some d, ks) ∧ minted_e2ee X user_id ks f = none) ∨
    ((∀ d, E2ee.restore X user_id ks f.mls_get ≠ .ok (some d)) ∧
      restore_or_mint_e2ee X user_id ks f = mint_e2ee X user_id ks f.mls_put ∧
      minted_e2ee X user_id ks f = (mint_e2ee X user_id ks f.mls_put).1) := by
  unfold restore_or_mint_e2ee minted_e2ee
  rcases E2ee.restore X user_id ks f.mls_get with e | _ | d
  · refine Or.inr ⟨?_, rfl, rfl⟩
    intro d h
    cases h
  · refine Or.inr ⟨?_, rfl, rfl⟩
    intro d h
    cases h
  · exact Or.inl ⟨d, rfl, rfl, rfl⟩

/-! ## The upload -/

variable (choose : (op : Op) → op.Choice)

/-- With no engine there is nothing to upload. -/
theorem published_none {c : Client D} (hd : c.e2ee = none) : published X choose c = c := by
  obtain ⟨api, session, store, e2ee, ks⟩ := c
  cases hd
  rfl

/-- The upload goes on with an engine of the same identity, and writes its state at most. Where
the key packages are made, the identity is offered. -/
theorem published_spec (keeps : KeepsKey X) {c : Client D} {d : D} (hd : c.e2ee = some d) :
    (published X choose c).session = c.session ∧
      (∃ d', (published X choose c).e2ee = some d' ∧
        X.signature_public_key d' = X.signature_public_key d) ∧
      WritesOwn X (X.signature_public_key d) c.key_store (published X choose c).key_store ∧
      ((∃ kps, (E2ee.key_packages X d c.key_store (choose (.key_packages KEY_PACKAGE_COUNT))
          KEY_PACKAGE_COUNT).1 = .ok kps) →
        X.signature_public_key d ∈ offered_keys X choose c) := by
  obtain ⟨api, session, store, e2ee, ks⟩ := c
  cases hd
  obtain ⟨hkey₁, hwrites₁⟩ := mutate_writes ks (choose (.key_packages KEY_PACKAGE_COUNT))
    (keeps.key_packages d KEY_PACKAGE_COUNT)
  unfold published offered_keys publish_device_keys
  simp only [Prog.run_call, Prog.trace, Client.under, Client.perform, Client.onEngine,
    Option.isSome_some, if_true, E2ee.key_packages]
  generalize E2ee.mutate X d ks (choose (.key_packages KEY_PACKAGE_COUNT))
    (X.new_key_packages d KEY_PACKAGE_COUNT) = out₁ at hkey₁ hwrites₁ ⊢
  obtain ⟨r₁, d₁, ks₁⟩ := out₁
  cases r₁ with
  | error e => exact ⟨rfl, ⟨d₁, rfl, hkey₁⟩, hwrites₁, fun ⟨kps, h⟩ => by cases h⟩
  | ok kps =>
    obtain ⟨hkey₂, hwrites₂⟩ := mutate_writes ks₁ (choose .last_resort_key_package)
      (keeps.last_resort d₁)
    simp only [Prog.run_call, Prog.trace, Client.under, Client.perform, Client.onEngine,
      E2ee.last_resort_key_package]
    generalize E2ee.mutate X d₁ ks₁ (choose .last_resort_key_package)
      (X.new_last_resort_key_package d₁) = out₂ at hkey₂ hwrites₂ ⊢
    obtain ⟨r₂, d₂, ks₂⟩ := out₂
    have hkey : X.signature_public_key d₂ = X.signature_public_key d := hkey₂.trans hkey₁
    refine ⟨rfl, ⟨d₂, rfl, hkey⟩, ?_, ?_⟩
    · have hkey₁ : X.signature_public_key d₁ = X.signature_public_key d := hkey₁
      rw [hkey₁] at hwrites₂
      exact hwrites₁.trans hwrites₂
    · intro _
      simp [Op.offers, hkey]

/-! ## What a launch does -/

/-- A launch that goes on with the session: `true` where the server said so, `false` where it
was not reached. -/
inductive Resumes : Except ApiError Unit → Bool → Prop
  | accepted : Resumes (.ok ()) true
  | offline (reason : String) : Resumes (.error (.Network reason)) false

/-- The server says that the token is dead. -/
def revoked : Except ApiError Unit → Bool
  | .error (.Server _ .UnknownToken _) => true
  | .error (.Server _ .MissingToken _) => true
  | _ => false

theorem Resumes.not_revoked {whoami : Except ApiError Unit} {online : Bool}
    (h : Resumes whoami online) : revoked whoami = false := by
  cases h with
  | accepted => rfl
  | offline reason => rfl

theorem drop_session_keys (fault : Fault) (h : Host) :
    (drop_session (D := D) fault h).2.key_store = (ks_delete h.key_store SESSION_KEY fault).2 := by
  unfold drop_session
  generalize ks_delete h.key_store SESSION_KEY fault = out
  obtain ⟨_ | _, ks⟩ := out <;> rfl

/-- A launch ends before it reaches the session, goes on with it, drops it, or fails. -/
theorem launch_cases (whoami : Except ApiError Unit) (f : SessionFaults) (h : Host) :
    (((∀ bytes, ks_get h.key_store SESSION_KEY f.session = .ok (some bytes) →
        ∀ stored, decode_session bytes ≠ .ok stored) ∨
        ((∀ online, ¬ Resumes whoami online) ∧ revoked whoami = false)) ∧
      (launch X whoami f choose h).host = h ∧ (launch X whoami f choose h).minted = none ∧
        ∀ c, (launch X whoami f choose h).value ≠ .ok (some c)) ∨
    ∃ bytes session token, ks_get h.key_store SESSION_KEY f.session = .ok (some bytes) ∧
      decode_session bytes = .ok (session, token) ∧
      ((∃ online, Resumes whoami online ∧
          launch X whoami f choose h = launch_with X online session token f choose h) ∨
        (revoked whoami = true ∧
          (launch X whoami f choose h).host = (drop_session (D := D) f.session_delete h).2 ∧
          (launch X whoami f choose h).minted = none ∧
          ∀ c, (launch X whoami f choose h).value ≠ .ok (some c))) := by
  unfold launch
  cases hsession : ks_get h.key_store SESSION_KEY f.session with
  | error e =>
    left
    refine ⟨Or.inl ?_, rfl, rfl, ?_⟩
    · intro bytes hbytes
      cases hbytes
    · intro c hc
      cases hc
  | ok found =>
    cases found with
    | none =>
      left
      refine ⟨Or.inl ?_, rfl, rfl, ?_⟩
      · intro bytes hbytes
        cases hbytes
      · intro c hc
        cases hc
    | some bytes =>
      cases hdecode : decode_session bytes with
      | error e =>
        left
        refine ⟨Or.inl ?_, ?_, ?_, ?_⟩
        · intro bytes' hbytes stored hstored
          cases hbytes
          rw [hdecode] at hstored
          cases hstored
        · simp only [hdecode]
        · simp only [hdecode]
        · simp only [hdecode]
          intro c hc
          cases hc
      | ok stored =>
        obtain ⟨session, token⟩ := stored
        simp only [hdecode]
        rcases whoami with (⟨status, code, message⟩ | reason | reason) | u
        · cases code with
          | UnknownToken | MissingToken =>
            right
            exact ⟨bytes, session, token, rfl, hdecode,
              Or.inr ⟨rfl, rfl, rfl, fun c => drop_session_gives_none⟩⟩
          | Forbidden | BadJson | NotJson | NotFound | LimitExceeded | BadSignature | Unrecognized
          | UserInUse | InvalidUsername | Unknown | Other =>
            left
            refine ⟨Or.inr ⟨?_, rfl⟩, rfl, rfl, ?_⟩
            · intro online hlive
              cases hlive
            · intro c hc
              cases hc
        · right
          exact ⟨bytes, session, token, rfl, hdecode, Or.inl ⟨false, Resumes.offline reason, rfl⟩⟩
        · left
          refine ⟨Or.inr ⟨?_, rfl⟩, rfl, rfl, ?_⟩
          · intro online hlive
            cases hlive
          · intro c hc
            cases hc
        · right
          exact ⟨bytes, session, token, rfl, hdecode, Or.inl ⟨true, Resumes.accepted, rfl⟩⟩

/-- A launch that goes on with the session leaves the key store alone, or it mints. The mint is
offered where the launch is online, the store opens and the key packages are made. -/
theorem launch_with_cases (keeps : KeepsKey X) (online : Bool) (session : Session) (token : String)
    (f : SessionFaults) (h : Host) :
    ((launch_with X online session token f choose h).minted = none ∧
      (launch_with X online session token f choose h).host.key_store = h.key_store ∧
      ((∃ d, E2ee.restore X session.user_id h.key_store f.mls_get = .ok (some d)) ∨
        (∃ reason, X.new session.user_id = .error reason) ∨ f.mls_put.onPersist = true)) ∨
    ∃ d, (launch_with X online session token f choose h).minted = some d ∧
      (∀ d', E2ee.restore X session.user_id h.key_store f.mls_get ≠ .ok (some d')) ∧
      X.new session.user_id = .ok d ∧
      WritesOwn X (X.signature_public_key d) h.key_store
        (launch_with X online session token f choose h).host.key_store ∧
      (h.key_store.isSome = true → f.mls_put.onPersist = false ∧ ∃ d',
        X.signature_public_key d' = X.signature_public_key d ∧
          ks_get (launch_with X online session token f choose h).host.key_store
            MLS_STATE_KEY .none = .ok (some (E2ee.stateBlob X d'))) := by
  unfold launch_with resume
  simp only
  rcases restore_or_mint_cases (X := X) session.user_id h.key_store f with
    ⟨d, hrestore, hrun, hminted⟩ | ⟨hrestore, hrun, hminted⟩
  · left
    rw [hrun, hminted]
    refine ⟨?_, ?_, Or.inl ⟨d, hrestore⟩⟩
    · cases open_store h.file f.store with
      | error e => rfl
      | ok store => simp
    · cases open_store h.file f.store with
      | error e => rfl
      | ok store => simp
  · rw [hrun, hminted]
    rcases mint_cases (X := X) session.user_id h.key_store f.mls_put with
      ⟨hmint, hwhy⟩ | ⟨d, ks', hnew, hmint, hwrites, hown⟩
    · left
      rw [hmint]
      refine ⟨?_, ?_, Or.inr hwhy⟩
      · cases open_store h.file f.store with
        | error e => rfl
        | ok store => simp
      · cases open_store h.file f.store with
        | error e => rfl
        | ok store => simp
    · right
      rw [hmint]
      refine ⟨d, ?_, hrestore, hnew, ?_⟩
      · cases open_store h.file f.store with
        | error e => rfl
        | ok store => cases online <;> simp
      · -- what the launch writes after the mint is of the same identity
        have hafter : ∀ ks'', WritesOwn X (X.signature_public_key d) ks' ks'' →
            WritesOwn X (X.signature_public_key d) h.key_store ks'' ∧
            (h.key_store.isSome = true → f.mls_put.onPersist = false ∧ ∃ d',
              X.signature_public_key d' = X.signature_public_key d ∧
                ks_get ks'' MLS_STATE_KEY .none = .ok (some (E2ee.stateBlob X d'))) := by
          intro ks'' hlater
          refine ⟨hwrites.trans hlater, ?_⟩
          intro hks
          obtain ⟨hput, hstate⟩ := hown hks
          refine ⟨hput, ?_⟩
          rcases hlater.own with hsame | hnew'
          · exact ⟨d, rfl, hsame.trans hstate⟩
          · exact hnew'
        cases open_store h.file f.store with
        | error e => exact hafter ks' (WritesOwn.refl _ _)
        | ok store =>
          cases online with
          | false => exact hafter ks' (WritesOwn.refl _ _)
          | true =>
            exact hafter _ (published_spec choose keeps
              (c := ⟨Api.new session.server (some token), session, store, some d, ks'⟩) rfl).2.2.1

/-- A launch offers what it mints, where it is online, the store opens and the key packages are
made and written. -/
theorem launch_with_offers (keeps : KeepsKey X) {session : Session} {token : String}
    {f : SessionFaults} {h : Host} {d : D}
    (hminted : (launch_with X true session token f choose h).minted = some d)
    (hstore : ∀ reason, f.store ≠ .db reason)
    (hpackages : ∃ made, X.new_key_packages d KEY_PACKAGE_COUNT = .ok made)
    (hput : (choose (.key_packages KEY_PACKAGE_COUNT)).onPersist = false) :
    X.signature_public_key d ∈ (launch_with X true session token f choose h).offered := by
  obtain ⟨⟨d', kps⟩, hmade⟩ := hpackages
  have hkps : ∀ ks, (E2ee.key_packages X d ks (choose (.key_packages KEY_PACKAGE_COUNT))
      KEY_PACKAGE_COUNT).1 = .ok kps := by
    intro ks
    unfold E2ee.key_packages E2ee.mutate
    rcases persist_cases (X := X) d' ks (choose (.key_packages KEY_PACKAGE_COUNT)) with
      ⟨hfault, -⟩ | ⟨ks', hp, -, -⟩
    · rw [hput] at hfault
      cases hfault
    · simp only [hmade, hp]
  have hopen : open_store h.file f.store = .ok h.file := by
    rcases open_store_cases h.file f.store with ⟨reason, hf, -⟩ | hopen
    · exact absurd hf (hstore reason)
    · exact hopen
  unfold launch_with resume at hminted ⊢
  simp only [hopen] at hminted ⊢
  rcases restore_or_mint_cases (X := X) session.user_id h.key_store f with
    ⟨d₀, -, hrun, hnone⟩ | ⟨-, hrun, hmint⟩
  · rw [hnone] at hminted
    simp at hminted
  · rcases mint_cases (X := X) session.user_id h.key_store f.mls_put with
      ⟨hfails, -⟩ | ⟨d₀, ks', -, hmints, -, -⟩
    · rw [hmint, hfails] at hminted
      simp at hminted
    · rw [hmint, hrun, hmints] at hminted ⊢
      simp only [Option.isSome_some, Bool.and_self, if_true] at hminted ⊢
      cases hminted
      exact (published_spec choose keeps rfl).2.2.2 ⟨kps, hkps _⟩

end

end PigeonMobile
