-- What a launch does to the MLS identity (`restore_session`). A state that cannot be read right
-- now is taken for one that is not there: the mint writes over it. And the flag that an
-- identity is still to be published lasts one launch, while the identity itself is stored.
import PigeonMobile.DeviceKeys
import PigeonMobile.KilledPass
import Mathlib.Data.List.Induction

namespace PigeonMobile

section

variable {D : Type} {X : PigeonCrypto D}

theorem restore_same {ks ks' : Option KeyMap} (user_id : String)
    (h : ks_get ks' MLS_STATE_KEY .none = ks_get ks MLS_STATE_KEY .none) :
    E2ee.restore X user_id ks' .none = E2ee.restore X user_id ks .none := by
  unfold E2ee.restore
  rw [h]

/-- An engine that is restored from a written state is of the identity that wrote it. -/
theorem restore_of_state (keeps : KeepsKey X) {user_id : String} {ks : Option KeyMap} {d d' : D}
    (hstate : ks_get ks MLS_STATE_KEY .none = .ok (some (E2ee.stateBlob X d)))
    (h : E2ee.restore X user_id ks .none = .ok (some d')) :
    X.signature_public_key d' = X.signature_public_key d := by
  obtain ⟨stored, pubkey, blob, hget, hkey, hrestore⟩ := restore_stored h
  rw [hstate] at hget
  cases hget
  have hpubkey : E2ee.decode_field (E2ee.stateBlob X d) "pubkey" =
      .ok (X.signature_public_key d) := rfl
  rw [hpubkey] at hkey
  cases hkey
  exact keeps.restore _ _ _ _ hrestore

/-! ## The stored state over a launch -/

/-- The key store still holds a state that restores the identity and the groups of `d`. -/
def KeepsState (X : PigeonCrypto D) (user_id : String) (d : D) (ks : Option KeyMap) : Prop :=
  ∃ d', E2ee.restore X user_id ks .none = .ok (some d') ∧
    X.signature_public_key d' = X.signature_public_key d ∧
    ∀ room_id, X.load_group d' room_id = X.load_group d room_id

theorem KeepsState.of_same {user_id : String} {d : D} {ks ks' : Option KeyMap}
    (hstate : E2ee.restore X user_id ks .none = .ok (some d))
    (h : ks_get ks' MLS_STATE_KEY .none = ks_get ks MLS_STATE_KEY .none) :
    KeepsState X user_id d ks' :=
  ⟨d, (restore_same user_id h).trans hstate, rfl, fun _ => rfl⟩

/-- The launch goes on with the session, cannot read the MLS entry, and can make a new device
and write it. -/
structure Overwrites (X : PigeonCrypto D) (user_id : String) (whoami : Except ApiError Unit)
    (f : SessionFaults) : Prop where
  session : f.session.onKeys = false
  live : ∃ online, Resumes whoami online
  unread : f.mls_get.onKeys = true
  fresh : ∃ d, X.new user_id = .ok d
  written : f.mls_put.onPersist = false

/-- A launch keeps a usable MLS state if and only if it does not go on with the session after a
failed read of the MLS entry, with a new device that it can make and write. -/
theorem launch_keeps_state_iff (keeps : KeepsKey X) (whoami : Except ApiError Unit)
    (f : SessionFaults) (choose : (op : Op) → op.Choice) (h : Host) {bytes : Json}
    {session : Session} {token : String} {d : D}
    (hsession : ks_get h.key_store SESSION_KEY .none = .ok (some bytes))
    (hdecode : decode_session bytes = .ok (session, token))
    (hstate : E2ee.restore X session.user_id h.key_store .none = .ok (some d))
    (hfresh : ∀ d', X.new session.user_id = .ok d' →
      X.signature_public_key d' ≠ X.signature_public_key d) :
    KeepsState X session.user_id d (launch X whoami f choose h).host.key_store ↔
      ¬ Overwrites X session.user_id whoami f := by
  obtain ⟨stored, pubkey, blob, hentry, -, -⟩ := restore_stored hstate
  have hks : h.key_store.isSome = true := by
    cases hnone : h.key_store with
    | none =>
      rw [hnone] at hentry
      cases hentry
    | some m => rfl
  rcases launch_cases (X := X) choose whoami f h with
    ⟨hends, hhost, -⟩ | ⟨bytes', session', token', hget, hdec, hgoes⟩
  · -- the launch ends before it reaches the MLS state
    rw [hhost]
    refine iff_of_true (KeepsState.of_same hstate rfl) ?_
    intro hover
    rcases hends with hnone | ⟨hdead, -⟩
    · rw [ks_get_calm _ _ hover.session] at hnone
      exact hnone bytes hsession _ hdecode
    · obtain ⟨online, hlive⟩ := hover.live
      exact hdead online hlive
  · -- it reads the session that is stored
    obtain rfl : bytes' = bytes :=
      Option.some.inj (Except.ok.inj ((ks_get_reads hget).symm.trans hsession))
    obtain ⟨rfl, rfl⟩ : session' = session ∧ token' = token :=
      Prod.mk.inj (Except.ok.inj (hdec.symm.trans hdecode))
    rcases hgoes with ⟨online, hlive, hrun⟩ | ⟨hdead, hhost, -⟩
    · rw [hrun]
      rcases launch_with_cases choose keeps online session' token' f h with
        ⟨-, hsame, hwhy⟩ | ⟨d₀, -, hunread, hnew, -, hwritten⟩
      · refine iff_of_true ?_ ?_
        · rw [hsame]
          exact KeepsState.of_same hstate rfl
        · intro hover
          rcases hwhy with ⟨d', hd'⟩ | ⟨reason, hnone⟩ | hput
          · obtain ⟨e, he⟩ := ks_get_fails hover.unread hentry
            obtain ⟨_, _, _, hread, -, -⟩ := restore_stored hd'
            rw [he] at hread
            cases hread
          · obtain ⟨d', hnew⟩ := hover.fresh
            rw [hnone] at hnew
            cases hnew
          · rw [hover.written] at hput
            cases hput
      · -- the mint is stored, and it is another identity
        obtain ⟨hput, d₁, hkey, hown⟩ := hwritten hks
        refine iff_of_false ?_ ?_
        · rintro ⟨d', hrestore, hsame, -⟩
          have hd' := restore_of_state keeps hown hrestore
          exact hfresh d₀ hnew (hkey.symm.trans (hd'.symm.trans hsame))
        · intro hnot
          apply hnot
          refine ⟨?_, ⟨online, hlive⟩, ?_, ⟨d₀, hnew⟩, hput⟩
          · by_contra hfault
            rw [Bool.not_eq_false] at hfault
            obtain ⟨e, he⟩ := ks_get_fails hfault hsession
            rw [he] at hget
            cases hget
          · by_contra hcalm
            rw [Bool.not_eq_true] at hcalm
            refine hunread d ?_
            rw [← hstate]
            unfold E2ee.restore
            rw [ks_get_calm _ _ hcalm]
    · refine iff_of_true ?_ ?_
      · apply KeepsState.of_same hstate
        rw [hhost, drop_session_keys]
        rcases ks_delete_cases h.key_store SESSION_KEY f.session_delete with
          ⟨-, -, e, hdel⟩ | ⟨-, ks', hdel, hget'⟩
        · rw [hdel]
        · rw [hdel, hget', if_neg (by decide)]
      · intro hover
        obtain ⟨online, hlive⟩ := hover.live
        rw [hlive.not_revoked] at hdead
        cases hdead

end

/-! ## An unreadable entry -/

/-- A device that is known by its name. The first one holds every group, any other none. -/
def labelCrypto : PigeonCrypto String where
  new _ := .ok "second"
  load_group d _ := decide (d = "first")
  create_group d _ := .ok d
  add_member d _ _ := .ok (d, "welcome", "commit")
  process_commit _ _ _ := .error "not the next commit"
  join_from_welcome d _ := .ok d
  encrypt d _ plaintext := .ok (d, plaintext)
  decrypt _ _ _ := .error "the key is gone"
  new_key_packages d n := .ok (d, List.replicate n "key-package")
  new_last_resort_key_package d := .ok (d, "key-package")
  signature_public_key d := d
  export_storage d := d
  restore _ pubkey blob := if blob = pubkey then .ok blob else .error "no signer for the key"

theorem labelCrypto_keeps (new : String → Except String String) :
    KeepsKey { labelCrypto with new } := by
  constructor
  · intro user pubkey blob d h
    simp only [labelCrypto] at h ⊢
    split at h
    · next heq =>
      cases h
      exact heq
    · cases h
  · intro d n d' kps h
    cases h
    rfl
  · intro d d' kp h
    cases h
    rfl

def carolSession : Session := ⟨"@carol:pigeon.example", "phone", "https://pigeon.example"⟩

/-- The key store of `carol`, whose device is the first one. -/
def carolKeys : KeyMap :=
  (KeyMap.put .empty SESSION_KEY (encode_session carolSession "token")).put MLS_STATE_KEY
    (E2ee.stateBlob labelCrypto "first")

/-- The key store fails one read, that of the MLS entry. -/
def unreadable : SessionFaults := ⟨.none, .none, .none, .key_store "busy", .none⟩

/-- One failed read costs the identity and its groups. -/
theorem an_unreadable_state_is_overwritten : ¬ ∀ (whoami : Except ApiError Unit) (f : SessionFaults)
    (choose : (op : Op) → op.Choice) (h : Host) (bytes : Json) (session : Session) (token : String)
    (d : String), ks_get h.key_store SESSION_KEY .none = .ok (some bytes) →
    decode_session bytes = .ok (session, token) →
    E2ee.restore labelCrypto session.user_id h.key_store .none = .ok (some d) →
    revoked whoami = false →
    KeepsState labelCrypto session.user_id d
      (launch labelCrypto whoami f choose h).host.key_store := by
  intro h
  obtain ⟨d', hrestore, hkey, -⟩ := h (.error (.Network "offline")) unreadable Client.calm
    ⟨some carolKeys, Store.init⟩ (encode_session carolSession "token") carolSession "token" "first"
    rfl rfl rfl rfl
  cases hrestore
  exact absurd hkey (by decide)

/-- With every read answered the first device stays. -/
theorem launch_keeps_state_iff_carol :
    KeepsState labelCrypto "@carol:pigeon.example" "first"
      (launch labelCrypto (.ok ()) calmly Client.calm
        ⟨some carolKeys, Store.init⟩).host.key_store := by
  have hsession : ks_get (some carolKeys) SESSION_KEY .none =
      .ok (some (encode_session carolSession "token")) := rfl
  have hstate : E2ee.restore labelCrypto "@carol:pigeon.example" (some carolKeys) .none =
      .ok (some "first") := rfl
  refine (launch_keeps_state_iff (labelCrypto_keeps labelCrypto.new) (.ok ()) calmly Client.calm
    ⟨some carolKeys, Store.init⟩ hsession (decode_encode_session carolSession "token") hstate
      ?_).mpr ?_
  · intro d' hnew
    cases hnew
    decide
  · intro hover
    cases hover.unread

/-! ## Launch after launch -/

/-- What one launch meets. A new device draws its keys at random, so each launch has its own. -/
structure LaunchInput (D : Type) where
  whoami : Except ApiError Unit
  faults : SessionFaults
  calls : (op : Op) → op.Choice
  new : String → Except String D

/-- The host, with the identity keys that the launches so far minted and offered. -/
structure KeyLog where
  host : Host
  minted : List String
  offered : List String

section

variable {D : Type} (X : PigeonCrypto D)

/-- A launch on the host of the log. -/
def LaunchInput.run (l : LaunchInput D) (h : Host) : Launched D :=
  launch { X with new := l.new } l.whoami l.faults l.calls h

def KeyLog.next (s : KeyLog) (l : LaunchInput D) : KeyLog where
  host := (l.run X s.host).host
  minted := ((l.run X s.host).minted.map X.signature_public_key).toList ++ s.minted
  offered := (l.run X s.host).offered ++ s.offered

/-- The log after some launches from a host. -/
def KeyLog.after (h : Host) (ls : List (LaunchInput D)) : KeyLog :=
  ls.foldl (KeyLog.next X) ⟨h, [], []⟩

/-- A client of the online branch with an identity that a launch minted: it has been offered. -/
def OffersMinted (s : KeyLog) (l : LaunchInput D) : Prop :=
  ∀ c d, l.whoami = .ok () → (l.run X s.host).value = .ok (some c) → c.e2ee = some d →
    X.signature_public_key d ∈ (s.next X l).minted → X.signature_public_key d ∈ (s.next X l).offered

/-- The launch goes on with the session, the MLS entry does not restore, and a new device can
be made and written. -/
structure Mints (l : LaunchInput D) (h : Host) (d : D) : Prop where
  resumes : ∃ online, Resumes l.whoami online
  session : ∃ bytes session token,
    ks_get h.key_store SESSION_KEY l.faults.session = .ok (some bytes) ∧
    decode_session bytes = .ok (session, token) ∧ l.new session.user_id = .ok d ∧
    ∀ d', E2ee.restore X session.user_id h.key_store l.faults.mls_get ≠ .ok (some d')
  written : h.key_store.isSome = true → l.faults.mls_put.onPersist = false

/-- The launch is online, the store opens, and the key packages are made and written. -/
structure Publishes (l : LaunchInput D) (d : D) : Prop where
  online : l.whoami = .ok ()
  opens : ∀ reason, l.faults.store ≠ .db reason
  packages : ∃ made, X.new_key_packages d KEY_PACKAGE_COUNT = .ok made
  written : (l.calls (.key_packages KEY_PACKAGE_COUNT)).onPersist = false

variable {X}

theorem KeepsKey.drawing (keeps : KeepsKey X) (new : String → Except String D) :
    KeepsKey { X with new } := ⟨keeps.restore, keeps.key_packages, keeps.last_resort⟩

/-- What a launch minted, it minted for the stored session, and it offers it where it can. -/
theorem run_mints (keeps : KeepsKey X) {l : LaunchInput D} {h : Host} {d : D}
    (hd : (l.run X h).minted = some d) : Mints X l h d ∧
      (Publishes X l d → X.signature_public_key d ∈ (l.run X h).offered) := by
  have hkeeps := keeps.drawing l.new
  unfold LaunchInput.run at hd ⊢
  rcases launch_cases (X := { X with new := l.new }) l.calls l.whoami l.faults h with
    ⟨-, -, hnone, -⟩ | ⟨bytes, session, token, hget, hdec, hgoes⟩
  · rw [hnone] at hd
    cases hd
  · rcases hgoes with ⟨online, hresumes, hrun⟩ | ⟨-, -, hnone, -⟩
    · rw [hrun] at hd ⊢
      rcases launch_with_cases l.calls hkeeps online session token l.faults h with
        ⟨hnone, -⟩ | ⟨d', hminted, hunread, hnew, -, hwritten⟩
      · rw [hnone] at hd
        cases hd
      · obtain rfl : d' = d := Option.some.inj (hminted.symm.trans hd)
        refine ⟨⟨⟨online, hresumes⟩, ⟨bytes, session, token, hget, hdec, hnew, ?_⟩,
          fun hks => (hwritten hks).1⟩, ?_⟩
        · exact hunread
        · intro hpub
          have honline : online = true := by
            rw [hpub.online] at hresumes
            cases hresumes
            rfl
          subst honline
          exact launch_with_offers l.calls hkeeps hd hpub.opens hpub.packages hpub.written
    · rw [hnone] at hd
      cases hd

/-- A launch that publishes what it mints leaves nothing minted that is not offered. -/
theorem KeyLog.next_offered (keeps : KeepsKey X) {s : KeyLog} {l : LaunchInput D}
    (hl : ∀ d, Mints X l s.host d → Publishes X l d) (hs : s.minted ⊆ s.offered) :
    (s.next X l).minted ⊆ (s.next X l).offered := by
  intro pubkey hpubkey
  unfold KeyLog.next at hpubkey ⊢
  simp only [List.mem_append, Option.mem_toList, Option.map_eq_some_iff] at hpubkey ⊢
  rcases hpubkey with ⟨d, hd, rfl⟩ | hold
  · obtain ⟨hmints, hoffers⟩ := run_mints keeps hd
    exact Or.inl (hoffers (hl d hmints))
  · exact Or.inr (hs hold)

/-- Each launch of a run meets `P`, with the log before it. -/
def EachLaunch (X : PigeonCrypto D) (h : Host) (ls : List (LaunchInput D))
    (P : KeyLog → LaunchInput D → Prop) : Prop :=
  ∀ before l rest, ls = before ++ l :: rest → P (KeyLog.after X h before) l

theorem KeyLog.after_snoc (h : Host) (ls : List (LaunchInput D)) (l : LaunchInput D) :
    KeyLog.after X h (ls ++ [l]) = (KeyLog.after X h ls).next X l := by
  unfold KeyLog.after
  rw [List.foldl_append]
  rfl

/-- Nothing minted is left unoffered after any launches that publish what they mint. -/
theorem KeyLog.after_offered (keeps : KeepsKey X) {h : Host} (before rest : List (LaunchInput D))
    (hls : EachLaunch X h (before ++ rest) (fun s l => ∀ d, Mints X l s.host d → Publishes X l d)) :
    (KeyLog.after X h before).minted ⊆ (KeyLog.after X h before).offered := by
  induction before using List.reverseRecOn generalizing rest with
  | nil => exact List.nil_subset _
  | append_singleton before l ih =>
    rw [List.append_assoc, List.singleton_append] at hls
    rw [KeyLog.after_snoc]
    exact KeyLog.next_offered keeps (hls before l rest rfl) (ih (l :: rest) hls)

end

/-- In every run of launches, if each launch that mints is online, opens the store and makes
and writes its key packages, then what was minted has been offered whenever a client comes
from the online branch. -/
theorem minted_keys_are_offered {D : Type} (X : PigeonCrypto D) (keeps : KeepsKey X) (h : Host)
    (ls : List (LaunchInput D))
    (hls : EachLaunch X h ls (fun s l => ∀ d, Mints X l s.host d → Publishes X l d)) :
    EachLaunch X h ls (OffersMinted X) := by
  intro before l rest hsplit c d _ _ _ hminted
  rw [hsplit] at hls
  have hbefore := KeyLog.after_offered keeps before (l :: rest) hls
  exact KeyLog.next_offered keeps (hls before l rest rfl) hbefore hminted

/-! ## A mint in a tunnel -/

/-- The key store of `carol` from before her device had keys. -/
def keylessCarol : Host :=
  ⟨some (KeyMap.put .empty SESSION_KEY (encode_session carolSession "token")), Store.init⟩

/-- A launch where nothing local fails. -/
def calmLaunch (whoami : Except ApiError Unit) : LaunchInput String :=
  ⟨whoami, calmly, Client.calm, fun _ => .ok "second"⟩

/-- One launch offline, the next online: the identity of the first is never offered. -/
theorem an_offline_mint_is_not_offered : ¬ ∀ (h : Host) (ls : List (LaunchInput String)),
    EachLaunch labelCrypto h ls (OffersMinted labelCrypto) := by
  intro h
  have hoffered := h keylessCarol [calmLaunch (.error (.Network "offline")), calmLaunch (.ok ())]
    [calmLaunch (.error (.Network "offline"))] (calmLaunch (.ok ())) [] rfl
  have hnever := hoffered _ "second" rfl rfl rfl (by decide)
  exact absurd hnever (by decide)

/-- One launch online offers the identity that it mints. -/
theorem minted_keys_are_offered_carol :
    EachLaunch labelCrypto keylessCarol [calmLaunch (.ok ())] (OffersMinted labelCrypto) := by
  refine minted_keys_are_offered labelCrypto (labelCrypto_keeps labelCrypto.new) keylessCarol
    [calmLaunch (.ok ())] ?_
  intro before l rest hsplit d _
  cases before with
  | nil =>
    cases hsplit
    refine ⟨rfl, ?_, ⟨_, rfl⟩, rfl⟩
    intro reason hopens
    cases hopens
  | cons l' before =>
    have hlen := congrArg List.length hsplit
    simp at hlen

end PigeonMobile
