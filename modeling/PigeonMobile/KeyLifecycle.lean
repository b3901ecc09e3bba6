-- The two entries of the key store over whole runs of `register`, `login`, `restore_session` and
-- `logout`: the MLS state should have a session beside it, of the user it was made for. Only
-- `logout` deletes both entries. A launch with a dead token deletes the session alone.
import PigeonMobile.LaunchKeys

namespace PigeonMobile

/-- The user of the stored session. -/
def stored_user (ks : Option KeyMap) : Option String :=
  match ks_get ks SESSION_KEY .none with
  | .ok (some bytes) => (decode_session bytes).toOption.map (·.1.user_id)
  | _ => none

theorem stored_user_same {ks ks' : Option KeyMap}
    (h : ks_get ks' SESSION_KEY .none = ks_get ks SESSION_KEY .none) :
    stored_user ks' = stored_user ks := by
  unfold stored_user
  rw [h]

theorem stored_user_of {ks : Option KeyMap} {bytes : Json} {session : Session} {token : String}
    (hget : ks_get ks SESSION_KEY .none = .ok (some bytes))
    (hdecode : decode_session bytes = .ok (session, token)) :
    stored_user ks = some session.user_id := by
  unfold stored_user
  rw [hget]
  simp [hdecode, Except.toOption]

/-! ## The calls -/

/-- The host, with the identities made so far, each with the user it was made for. -/
structure KeyHistory where
  host : Host
  made : Set (String × String)

/-- One call of the app, with all that it meets. -/
inductive SessionCall (D : Type) where
  /-- `register` or `login` -/
  | sign_in (server : String) (answer : Except ApiError Json) (f : SessionFaults)
      (calls : (op : Op) → op.Choice) (new : String → Except String D)
  /-- `restore_session` -/
  | launch (l : LaunchInput D)
  /-- `logout`, on a handle -/
  | logout (c : Client D) (calls : (op : Op) → op.Choice)

section

variable {D : Type} (X : PigeonCrypto D)

/-- `Device::new` that answers for one user alone. -/
def answersFor (user : String) (new : String → Except String D) : String → Except String D :=
  fun user_id => if user_id = user then new user_id else .error ""

/-- The users and keys of the identities that a call makes: it comes to `engine` where `Device::new`
answers for that user alone, and to none where it answers for nobody. -/
def made_by (engine : (String → Except String D) → Option D) (new : String → Except String D) :
    Set (String × String) :=
  {p | engine (fun _ => .error "") = none ∧
    ∃ d, engine (answersFor p.1 new) = some d ∧ X.signature_public_key d = p.2}

/-- A logout on the host of the history. -/
def logout_on (s : KeyHistory) (c : Client D) (calls : (op : Op) → op.Choice) :
    Except CoreError Unit × Client D :=
  logout.run (Client.under X calls) { c with key_store := s.host.key_store, store := s.host.file }

/-- Whether a call returned `Ok`, and what it leaves. -/
def KeyHistory.next (s : KeyHistory) : SessionCall D → Bool × KeyHistory
  | .sign_in server answer f calls new =>
    let out := fun new => sign_in { X with new } server answer f calls s.host
    ((out new).1.isOk,
      ⟨(out new).2, made_by X (fun new => (out new).1.toOption.bind (·.e2ee)) new ∪ s.made⟩)
  | .launch l =>
    let out := fun new => LaunchInput.run X { l with new } s.host
    ((out l.new).value.isOk,
      ⟨(out l.new).host, made_by X (fun new => (out new).minted) l.new ∪ s.made⟩)
  | .logout c calls =>
    let out := logout_on X s c calls
    (out.1.isOk, ⟨out.2.host, s.made⟩)

/-- The history after some calls on a host. -/
def KeyHistory.after (h : Host) (calls : List (SessionCall D)) : KeyHistory :=
  calls.foldl (fun s call => (s.next X call).2) ⟨h, ∅⟩

end

/-! ## The invariant -/

/-- The MLS state has a session beside it, and its identity was made for the user of that
session. -/
def Owned (made : Set (String × String)) (ks : Option KeyMap) : Prop :=
  ∀ stored, ks_get ks MLS_STATE_KEY .none = .ok (some stored) → ∃ user pubkey,
    stored_user ks = some user ∧ E2ee.decode_field stored "pubkey" = .ok pubkey ∧
      (user, pubkey) ∈ made

/-- There is no MLS state. -/
def Keyless (ks : Option KeyMap) : Prop :=
  ∀ stored, ks_get ks MLS_STATE_KEY .none ≠ .ok (some stored)

section

variable {made made' : Set (String × String)} {ks ks' : Option KeyMap}

theorem Keyless.owned (h : Keyless ks) : Owned made ks :=
  fun stored hstored => absurd hstored (h stored)

theorem Keyless.same (h : Keyless ks)
    (hmls : ks_get ks' MLS_STATE_KEY .none = ks_get ks MLS_STATE_KEY .none) : Keyless ks' := by
  intro stored hstored
  exact h stored (hmls.symm.trans hstored)

/-- The state is as it was, beside a session of the same user. -/
theorem Owned.same (h : Owned made ks) (hmade : made ⊆ made')
    (hmls : ks_get ks' MLS_STATE_KEY .none = ks_get ks MLS_STATE_KEY .none)
    (huser : stored_user ks' = stored_user ks) : Owned made' ks' := by
  intro stored hstored
  obtain ⟨user, pubkey, hold, hkey, hmem⟩ := h stored (hmls.symm.trans hstored)
  exact ⟨user, pubkey, huser.trans hold, hkey, hmade hmem⟩

variable {D : Type} {X : PigeonCrypto D}

/-- The state is of an identity that was made for the user of the session. -/
theorem Owned.of_state {d : D} {user : String} (huser : stored_user ks = some user)
    (hstate : ks_get ks MLS_STATE_KEY .none = .ok (some (E2ee.stateBlob X d)))
    (hmade : (user, X.signature_public_key d) ∈ made) : Owned made ks := by
  intro stored hstored
  obtain rfl : E2ee.stateBlob X d = stored :=
    Option.some.inj (Except.ok.inj (hstate.symm.trans hstored))
  exact ⟨user, _, huser, rfl, hmade⟩

/-- An engine that writes an identity of the user of the session. -/
theorem Owned.written {pubkey user : String} (h : Owned made ks) (hmade : made ⊆ made')
    (hwrites : WritesOwn X pubkey ks ks') (huser : stored_user ks = some user)
    (hmem : (user, pubkey) ∈ made') : Owned made' ks' := by
  have hsession := stored_user_same (hwrites.others SESSION_KEY (by decide))
  rcases hwrites.own with hsame | ⟨d, rfl, hstate⟩
  · exact h.same hmade hsame hsession
  · exact Owned.of_state (hsession.trans huser) hstate hmem

end

/-! ## What each call does -/

section

variable {D : Type} {X : PigeonCrypto D}

/-- A sign-in keeps the state of the last user out: it does not write its session, there is no
state or it is of the same user, or the store opens and a new identity is made and written. -/
def SignInClean (s : KeyHistory) (answer : Except ApiError Json) (f : SessionFaults)
    (new : String → Except String D) : Prop :=
  ∀ auth, answer.bind parse_auth = .ok auth → f.session.onKeys = true ∨
    Keyless s.host.key_store ∨ stored_user s.host.key_store = some auth.user_id ∨
    ((∀ reason, f.store ≠ .db reason) ∧ (∃ d, new auth.user_id = .ok d) ∧
      f.mls_put.onPersist = false)

/-- A launch that finds the token dead cannot read or delete the session, or there is no state. -/
def LaunchClean (s : KeyHistory) (l : LaunchInput D) : Prop :=
  revoked l.whoami = true → l.faults.session.onKeys = true ∨
    l.faults.session_delete.onKeys = true ∨ Keyless s.host.key_store

/-- A logout that deletes the session deletes the state, or there is none. -/
def LogoutClean (s : KeyHistory) (calls : (op : Op) → op.Choice) : Prop :=
  (calls (.ks_delete SESSION_KEY)).onKeys = true ∨
    (calls (.ks_delete MLS_STATE_KEY)).onKeys = false ∨ Keyless s.host.key_store

theorem keyless_none (h : ks.isSome = false) : Keyless ks := by
  intro stored hstored
  cases ks with
  | none => cases hstored
  | some m => cases h

/-- A login that the server granted ends before it has a client, or gives one of the new user:
with no engine, beside a key store that is in order, or with an engine that it wrote. -/
theorem finish_login_owned (server : String) (api : Api) {auth : AuthResponse}
    {f : SessionFaults} {h : Host} {made : Set (String × String)} (howned : Owned made h.key_store)
    (hclean : f.session.onKeys = true ∨ Keyless h.key_store ∨
      stored_user h.key_store = some auth.user_id ∨ ((∀ reason, f.store ≠ .db reason) ∧
        (∃ d, X.new auth.user_id = .ok d) ∧ f.mls_put.onPersist = false)) :
    (∃ e, (finish_login X server api auth f h).1 = .error e ∧
      Owned made (finish_login X server api auth f h).2.key_store) ∨
    ∃ c, (finish_login X server api auth f h).1 = .ok c ∧
      (c.key_store.isSome = true → stored_user c.key_store = some auth.user_id) ∧
      ((c.e2ee = none ∧ Owned made c.key_store) ∨ ∃ d, c.e2ee = some d ∧
        Owned (insert (auth.user_id, X.signature_public_key d) made) c.key_store) := by
  unfold finish_login
  rcases ks_put_cases h.key_store SESSION_KEY (encode_session ⟨auth.user_id, auth.device_id, server⟩
      auth.access_token) f.session with ⟨-, e, hput⟩ | ⟨b, ks₁, hput, hothers, hown, hinstalled⟩
  · simp only [hput]
    exact Or.inl ⟨e, rfl, howned⟩
  · simp only [hput]
    have hmls : ks_get ks₁ MLS_STATE_KEY .none = ks_get h.key_store MLS_STATE_KEY .none :=
      hothers MLS_STATE_KEY (by decide)
    have huser : ks₁.isSome = true → stored_user ks₁ = some auth.user_id := by
      intro hks
      exact stored_user_of (hown (hinstalled.symm.trans hks)).2 (decode_encode_session _ _)
    -- with no mint the state is the one that was there
    have hunminted : ((∃ reason, f.store = .db reason) ∨
        (∃ reason, X.new auth.user_id = .error reason) ∨
        f.mls_put.onPersist = true) → Owned made ks₁ := by
      intro hno
      rcases hclean with hfault | hkeyless | hsame | ⟨hopens, ⟨d, hd⟩, hcalm⟩
      · cases hks : h.key_store.isSome with
        | false => exact (keyless_none (hinstalled.trans hks)).owned
        | true =>
          have hcalm := (hown hks).1
          rw [hfault] at hcalm
          cases hcalm
      · exact (hkeyless.same hmls).owned
      · cases hks : ks₁.isSome with
        | false => exact (keyless_none hks).owned
        | true => exact howned.same subset_rfl hmls ((huser hks).trans hsame.symm)
      · rcases hno with ⟨reason, hstore⟩ | ⟨reason, hnew⟩ | hfault
        · exact absurd hstore (hopens reason)
        · rw [hd] at hnew
          cases hnew
        · rw [hcalm] at hfault
          cases hfault
    rcases open_store_cases h.file f.store with ⟨reason, hstore, e, hopen⟩ | hopen
    · simp only [hopen]
      exact Or.inl ⟨e, rfl, hunminted (Or.inl ⟨reason, hstore⟩)⟩
    · simp only [hopen]
      right
      rcases mint_cases (X := X) auth.user_id ks₁ f.mls_put with
        ⟨hmint, hwhy⟩ | ⟨d, ks', -, hmint, hwrites, hstate⟩
      · simp only [hmint]
        exact ⟨_, rfl, huser, Or.inl ⟨rfl, hunminted (Or.inr hwhy)⟩⟩
      · simp only [hmint]
        have hsession := stored_user_same (hwrites.others SESSION_KEY (by decide))
        refine ⟨_, rfl, ?_, Or.inr ⟨d, rfl, ?_⟩⟩
        · intro hks
          exact hsession.trans (huser (hwrites.installed.symm.trans hks))
        · cases hks : ks₁.isSome with
          | false => exact (keyless_none (hwrites.installed.trans hks)).owned
          | true =>
            exact Owned.of_state (hsession.trans (huser hks)) (hstate hks).2 (Set.mem_insert _ _)

/-- An identity that a call comes to by asking for one user is made for that user. -/
theorem mem_made_by {engine : (String → Except String D) → Option D}
    {new : String → Except String D} {user : String} {d : D}
    (hasks : ∀ n n' : String → Except String D, n user = n' user → engine n = engine n')
    (hnone : engine (fun _ => .error "") = none) (hd : engine new = some d) :
    (user, X.signature_public_key d) ∈ made_by X engine new :=
  ⟨hnone, d, (hasks _ _ (if_pos rfl)).trans hd, rfl⟩

variable {n n' : String → Except String D}

theorem mint_asks {user_id : String} (h : n user_id = n' user_id) (ks : Option KeyMap)
    (fault : Fault) : mint_e2ee { X with new := n } user_id ks fault =
      mint_e2ee { X with new := n' } user_id ks fault := by
  simp only [mint_e2ee, E2ee.create, h]
  rfl

/-- A sign-in asks for an identity of the user that the server named. -/
theorem sign_in_asks {server : String} {answer : Except ApiError Json} {auth : AuthResponse}
    (hauth : answer.bind parse_auth = .ok auth) (h : n auth.user_id = n' auth.user_id)
    (f : SessionFaults) (calls : (op : Op) → op.Choice) (host : Host) :
    sign_in { X with new := n } server answer f calls host =
      sign_in { X with new := n' } server answer f calls host := by
  simp only [sign_in, login, hauth, finish_login, mint_asks h]
  rfl

/-- It has no engine where none is made. -/
theorem sign_in_unmade {server : String} {answer : Except ApiError Json} {f : SessionFaults}
    {calls : (op : Op) → op.Choice} {host : Host} (hnew : ∀ user_id, ∃ e, n user_id = .error e) :
    (sign_in { X with new := n } server answer f calls host).1.toOption.bind (·.e2ee) = none := by
  unfold sign_in login
  cases answer.bind parse_auth with
  | error err => rfl
  | ok auth =>
    simp only [finish_login]
    obtain ⟨e, he⟩ := hnew auth.user_id
    split
    · next hlogin =>
      rfl
    · next c h' hlogin =>
      have hnone : c.e2ee = none := by
        split at hlogin
        · cases hlogin
        · split at hlogin
          · cases hlogin
          · simp only [mint_e2ee, E2ee.create, he] at hlogin
            cases hlogin
            rfl
      rw [published_none calls hnone]
      exact hnone

theorem launch_with_minted (online : Bool) (session : Session) (token : String)
    (f : SessionFaults) (calls : (op : Op) → op.Choice) (host : Host) :
    (launch_with X online session token f calls host).minted =
      minted_e2ee X session.user_id host.key_store f := by
  unfold launch_with
  simp only
  split
  · rfl
  · rfl
  · split <;> rfl

/-- What a launch makes that goes on with the stored session. -/
theorem launch_minted {host : Host} {f : SessionFaults} {bytes : Json} {session : Session}
    {token : String} (hget : ks_get host.key_store SESSION_KEY f.session = .ok (some bytes))
    (hdecode : decode_session bytes = .ok (session, token)) {whoami : Except ApiError Unit}
    {online : Bool} (honline : Resumes whoami online) (calls : (op : Op) → op.Choice) :
    (launch X whoami f calls host).minted = minted_e2ee X session.user_id host.key_store f := by
  unfold launch
  cases honline <;> simp only [hget, hdecode, launch_with_minted]

/-- It asks for an identity of the user of that session. -/
theorem minted_asks {user_id : String} (h : n user_id = n' user_id) (ks : Option KeyMap)
    (f : SessionFaults) : minted_e2ee { X with new := n } user_id ks f =
      minted_e2ee { X with new := n' } user_id ks f := by
  simp only [minted_e2ee, mint_asks h]
  rfl

/-- And makes none where it gets none. -/
theorem minted_unmade {user_id : String} {e : String} (hnew : n user_id = .error e)
    (ks : Option KeyMap) (f : SessionFaults) :
    minted_e2ee { X with new := n } user_id ks f = none := by
  have hmint : (mint_e2ee { X with new := n } user_id ks f.mls_put).1 = none := by
    simp only [mint_e2ee, E2ee.create, hnew]
  unfold minted_e2ee
  split
  · rfl
  · exact hmint
  · exact hmint

/-- A sign-in keeps the two entries in order. -/
theorem sign_in_owned (keeps : KeepsKey X) {server : String} {answer : Except ApiError Json}
    {f : SessionFaults} {calls : (op : Op) → op.Choice} {new : String → Except String D}
    {s : KeyHistory} (howned : Owned s.made s.host.key_store)
    (hclean : SignInClean s answer f new) :
    Owned (s.next X (.sign_in server answer f calls new)).2.made
      (s.next X (.sign_in server answer f calls new)).2.host.key_store := by
  have hkeeps := keeps.drawing new
  have hmore : ∀ more : Set (String × String), s.made ⊆ more ∪ s.made :=
    fun more => Set.subset_union_right
  cases hauth : answer.bind parse_auth with
  | error err =>
    simp only [KeyHistory.next, sign_in, login, hauth]
    exact howned.same (hmore _) rfl rfl
  | ok auth =>
    have hlogin : login { X with new := new } server answer f s.host =
        finish_login { X with new := new } server (Api.new server none) auth f s.host := by
      simp only [login, hauth]
    rcases finish_login_owned (X := { X with new := new }) server (Api.new server none) howned
        (hclean auth hauth) with
      ⟨e, herr, hafter⟩ | ⟨c, hc, huser, hengine⟩
    · generalize finish_login { X with new := new } server (Api.new server none) auth f s.host =
        out at hlogin herr hafter
      obtain ⟨r, h'⟩ := out
      cases herr
      have hrun : sign_in { X with new := new } server answer f calls s.host = (.error e, h') := by
        simp only [sign_in, hlogin]
      simp only [KeyHistory.next, hrun]
      exact hafter.same (hmore _) rfl rfl
    · generalize finish_login { X with new := new } server (Api.new server none) auth f s.host =
        out at hlogin hc
      obtain ⟨r, h'⟩ := out
      cases hc
      have hrun : sign_in { X with new := new } server answer f calls s.host =
          (.ok (published { X with new := new } calls c),
            (published { X with new := new } calls c).host) := by
        simp only [sign_in, hlogin]
      have hhost : (s.next X (.sign_in server answer f calls new)).2.host =
          (published { X with new := new } calls c).host := by
        simp only [KeyHistory.next, hrun]
      rw [hhost]
      rcases hengine with ⟨hnone, hafter⟩ | ⟨d, hd, hafter⟩
      · rw [published_none calls hnone]
        exact hafter.same (hmore _) rfl rfl
      · obtain ⟨-, ⟨d', hd', hkey⟩, hwrites, -⟩ := published_spec calls hkeeps hd
        -- the engine is there because the identity of this user was made
        have hmade : (auth.user_id, X.signature_public_key d) ∈
            (s.next X (.sign_in server answer f calls new)).2.made := by
          left
          have hkey : X.signature_public_key d' = X.signature_public_key d := hkey
          rw [← hkey]
          apply mem_made_by
          · intro n n' hn
            simp only [sign_in_asks (X := X) hauth hn]
          · exact sign_in_unmade (fun user_id => ⟨_, rfl⟩)
          · simp only [hrun]
            exact hd'
        cases hks : c.key_store.isSome with
        | false => exact (keyless_none (hwrites.installed.trans hks)).owned
        | true =>
          have hsub : insert (auth.user_id, X.signature_public_key d) s.made ⊆
              (s.next X (.sign_in server answer f calls new)).2.made :=
            Set.insert_subset hmade (hmore _)
          exact hafter.written hsub hwrites (huser hks) hmade

/-- A launch keeps them in order. -/
theorem launch_owned (keeps : KeepsKey X) {l : LaunchInput D} {s : KeyHistory}
    (howned : Owned s.made s.host.key_store) (hclean : LaunchClean s l) :
    Owned (s.next X (.launch l)).2.made (s.next X (.launch l)).2.host.key_store := by
  have hkeeps := keeps.drawing l.new
  have hmore : s.made ⊆ (s.next X (.launch l)).2.made := Set.subset_union_right
  have hhost : (s.next X (.launch l)).2.host =
      (launch { X with new := l.new } l.whoami l.faults l.calls s.host).host := rfl
  rw [hhost]
  rcases launch_cases (X := { X with new := l.new }) l.calls l.whoami l.faults s.host with
    ⟨-, hhost, -⟩ | ⟨bytes, session, token, hget, hdecode, hgoes⟩
  · rw [hhost]
    exact howned.same hmore rfl rfl
  · have huser := stored_user_of (ks_get_reads hget) hdecode
    rcases hgoes with ⟨online, honline, hrun⟩ | ⟨hdead, hhost, -⟩
    · rw [hrun]
      rcases launch_with_cases l.calls hkeeps online session token l.faults s.host with
        ⟨-, hsame, -⟩ | ⟨d, hminted, -, -, hwrites, -⟩
      · rw [hsame]
        exact howned.same hmore rfl rfl
      · refine howned.written hmore hwrites huser ?_
        left
        apply mem_made_by
        · intro n n' hn
          simp only [LaunchInput.run, launch_minted hget hdecode honline, minted_asks hn]
        · simp only [LaunchInput.run, launch_minted hget hdecode honline]
          exact minted_unmade rfl s.host.key_store l.faults
        · exact (congrArg Launched.minted hrun).trans hminted
    · rw [hhost, drop_session_keys]
      rcases ks_delete_cases s.host.key_store SESSION_KEY l.faults.session_delete with
        ⟨-, -, e, hdel⟩ | ⟨hcalm, ks', hdel, hget'⟩
      · rw [hdel]
        exact howned.same hmore rfl rfl
      · rw [hdel]
        have hmls : ks_get ks' MLS_STATE_KEY .none =
            ks_get s.host.key_store MLS_STATE_KEY .none := by
          rw [hget', if_neg (by decide)]
        rcases hclean hdead with hfault | hfault | hkeyless
        · obtain ⟨e, he⟩ := ks_get_fails hfault (ks_get_reads hget)
          rw [he] at hget
          cases hget
        · cases hks : s.host.key_store.isSome with
          | false => exact ((keyless_none hks).same hmls).owned
          | true =>
            rw [hcalm hks] at hfault
            cases hfault
        · exact (hkeyless.same hmls).owned

/-- A logout keeps them in order. -/
theorem logout_owned {c : Client D} {calls : (op : Op) → op.Choice} {s : KeyHistory}
    (howned : Owned s.made s.host.key_store) (hclean : LogoutClean s calls) :
    Owned (s.next X (.logout c calls)).2.made (s.next X (.logout c calls)).2.host.key_store := by
  simp only [KeyHistory.next, logout_on, logout, Prog.run_call, Client.under, Client.perform]
  rcases ks_delete_cases s.host.key_store SESSION_KEY (calls (.ks_delete SESSION_KEY)) with
    ⟨-, -, e, hdel⟩ | ⟨hcalm, ks₁, hdel, hget₁⟩
  · simp only [hdel]
    exact howned
  · simp only [hdel, Prog.run_call, Client.under, Client.perform]
    rcases ks_delete_cases ks₁ MLS_STATE_KEY (calls (.ks_delete MLS_STATE_KEY)) with
      ⟨hks, hfault, e, hdel'⟩ | ⟨-, ks₂, hdel', hget₂⟩
    · simp only [hdel']
      have hmls : ks_get ks₁ MLS_STATE_KEY .none = ks_get s.host.key_store MLS_STATE_KEY .none := by
        rw [hget₁, if_neg (by decide)]
      rcases hclean with hfails | hcalm' | hkeyless
      · cases hsome : s.host.key_store.isSome with
        | false => exact ((keyless_none hsome).same hmls).owned
        | true =>
          rw [hcalm hsome] at hfails
          cases hfails
      · rw [hcalm'] at hfault
        cases hfault
      · exact (hkeyless.same hmls).owned
    · simp only [hdel']
      apply Keyless.owned
      intro stored hstored
      have hgone : ks_get ks₂ MLS_STATE_KEY .none = .ok none := by
        rw [hget₂, if_pos rfl]
      cases hgone.symm.trans hstored

/-- A call that keeps the two entries in order. -/
def CallClean (s : KeyHistory) : SessionCall D → Prop
  | .sign_in _ answer f _ new => SignInClean s answer f new
  | .launch l => LaunchClean s l
  | .logout _ calls => LogoutClean s calls

theorem KeyHistory.next_owned (keeps : KeepsKey X) {s : KeyHistory} {call : SessionCall D}
    (howned : Owned s.made s.host.key_store) (hclean : CallClean s call) :
    Owned (s.next X call).2.made (s.next X call).2.host.key_store := by
  cases call with
  | sign_in server answer f calls new => exact sign_in_owned keeps howned hclean
  | launch l => exact launch_owned keeps howned hclean
  | logout c calls => exact logout_owned howned hclean

theorem KeyHistory.after_snoc (h : Host) (calls : List (SessionCall D)) (call : SessionCall D) :
    KeyHistory.after X h (calls ++ [call]) = ((KeyHistory.after X h calls).next X call).2 := by
  unfold KeyHistory.after
  rw [List.foldl_append]
  rfl

end

/-- In every run from a key store without an MLS state, if no launch drops a dead session beside
the state, no logout deletes the session alone, and no sign-in ends with its session beside
the state of another user, then in every state, after each call, the MLS state has a session beside
it, of the user that its identity was made for. -/
theorem keys_belong_to_the_session {D : Type} (X : PigeonCrypto D) (keeps : KeepsKey X) (h : Host)
    (hstart : Keyless h.key_store) (calls : List (SessionCall D))
    (hclean : ∀ before call rest, calls = before ++ call :: rest →
      CallClean (KeyHistory.after X h before) call) (before rest : List (SessionCall D))
    (hsplit : calls = before ++ rest) :
    Owned (KeyHistory.after X h before).made (KeyHistory.after X h before).host.key_store := by
  induction before using List.reverseRecOn generalizing rest with
  | nil => exact hstart.owned
  | append_singleton before call ih =>
    rw [List.append_assoc, List.singleton_append] at hsplit
    rw [KeyHistory.after_snoc]
    exact KeyHistory.next_owned keeps (ih (call :: rest) hsplit) (hclean before call rest hsplit)

/-! ## A revoked token -/

/-- A host with an empty key store. -/
def freshHost : Host := ⟨some .empty, Store.init⟩

/-- A login of `carol` where nothing fails. -/
def carolSignsIn : SessionCall String :=
  .sign_in "https://pigeon.example" (.ok (.obj [("user_id", .str "@carol:pigeon.example"),
    ("device_id", .str "phone"), ("access_token", .str "token")])) calmly Client.calm
    (fun _ => .ok "second")

/-- The server knows the token no more. -/
def deadToken : SessionCall String :=
  .launch (calmLaunch (.error (.Server 401 .UnknownToken "")))

/-- The launch returns `Ok` and leaves the keys of a session that is gone. -/
theorem a_dead_token_leaves_the_keys : ¬ ∀ (h : Host), Keyless h.key_store →
    ∀ (calls : List (SessionCall String)) before call rest, calls = before ++ call :: rest →
      ((KeyHistory.after labelCrypto h before).next labelCrypto call).1 = true →
      Owned ((KeyHistory.after labelCrypto h before).next labelCrypto call).2.made
        ((KeyHistory.after labelCrypto h before).next labelCrypto call).2.host.key_store := by
  intro h
  have hkeyless : Keyless freshHost.key_store := by
    intro stored hstored
    cases hstored
  have howned := h freshHost hkeyless [carolSignsIn, deadToken] [carolSignsIn] deadToken [] rfl rfl
  obtain ⟨user, -, huser, -⟩ := howned (E2ee.stateBlob labelCrypto "second") rfl
  cases huser

/-- After one login the keys are those of the session. -/
theorem keys_belong_to_the_session_carol :
    Owned (KeyHistory.after labelCrypto freshHost [carolSignsIn]).made
      (KeyHistory.after labelCrypto freshHost [carolSignsIn]).host.key_store := by
  refine keys_belong_to_the_session labelCrypto (labelCrypto_keeps labelCrypto.new) freshHost
    ?_ [carolSignsIn] ?_ [carolSignsIn] [] rfl
  · intro stored hstored
    cases hstored
  · intro before call rest hsplit
    cases before with
    | nil =>
      cases hsplit
      intro auth _
      right
      left
      intro stored hstored
      cases hstored
    | cons call' before =>
      have hlen := congrArg List.length hsplit
      simp at hlen

end PigeonMobile
