-- The key stores of the two phones (`KeychainKeyStore.swift`, `AndroidKeyStore.kt`), called from
-- any number of threads at once: the core only holds a read lock on them. Each call takes place
-- whole, at one moment while it runs, or fails and changes nothing; so what the core sees is its
-- own map.
import PigeonMobile.Atomic
import PigeonMobile.Client

namespace PigeonMobile

/-! ## What the core asks of a host -/

/-- A call of the `KeyStore` trait. -/
inductive KeyCall where
  | put (key : String) (value : Bytes)
  | get (key : String)
  | delete (key : String)

/-- What it gives: the value that `get` reads, or the reason of the backend. -/
abbrev KeyAnswer := Except String (Option Bytes)

/-- The call on a map, whole or not at all. -/
inductive KeyCall.At :
    KeyCall → (String → Option Bytes) → KeyAnswer → (String → Option Bytes) → Prop
  | put {key : String} {value : Bytes} {m : String → Option Bytes} :
      At (.put key value) m (.ok none) (Function.update m key (some value))
  | get {key : String} {m : String → Option Bytes} : At (.get key) m (.ok (m key)) m
  | delete {key : String} {m : String → Option Bytes} :
      At (.delete key) m (.ok none) (Function.update m key none)
  | fails {call : KeyCall} {m : String → Option Bytes} {reason : String} :
      At call m (.error reason) m

/-- A key store of a host: its code over the platform, each call of which takes place at once. -/
structure HostKeyStore where
  Op : Type
  Res : Op → Type
  State : Type
  platform : (op : Op) → State → Res op → State → Prop
  view : State → String → Option Bytes
  code : KeyCall → Prog Op Res KeyAnswer
  atomic : ∀ call, (code call).Acts platform view (KeyCall.At call)

/-! ## iOS -/

inductive OSStatus where
  | errSecSuccess
  | errSecItemNotFound
  | other (code : Int)

/-- `kSecAttrAccessible`. -/
inductive Accessible where
  | afterFirstUnlockThisDeviceOnly
  | other (name : String)

structure KeychainItem where
  data : Bytes
  accessible : Accessible

/-- The generic passwords of the app, by service and account. -/
abbrev Keychain := String × String → Option KeychainItem

inductive SecItem where
  | SecItemUpdate (service account : String) (item : KeychainItem)
  | SecItemAdd (service account : String) (item : KeychainItem)
  | SecItemCopyMatching (service account : String)
  | SecItemDelete (service account : String)

@[reducible] def SecItem.Res : SecItem → Type
  | .SecItemCopyMatching _ _ => OSStatus × Option Bytes
  | _ => OSStatus

/-- What is documented of the Security framework: a success does what it says, and every other
status leaves the items alone. -/
structure Documented (sec : (op : SecItem) → Keychain → op.Res → Keychain → Prop) : Prop where
  updated : ∀ service account item k k',
    sec (.SecItemUpdate service account item) k .errSecSuccess k' →
    k' = Function.update k (service, account) (some item)
  not_updated : ∀ service account item k status k', status ≠ .errSecSuccess →
    sec (.SecItemUpdate service account item) k status k' → k' = k
  added : ∀ service account item k k', sec (.SecItemAdd service account item) k .errSecSuccess k' →
    k' = Function.update k (service, account) (some item)
  not_added : ∀ service account item k status k', status ≠ .errSecSuccess →
    sec (.SecItemAdd service account item) k status k' → k' = k
  copied : ∀ service account k data k',
    sec (.SecItemCopyMatching service account) k (.errSecSuccess, data) k' →
    data = (k (service, account)).map (·.data)
  none_copied : ∀ service account k data k',
    sec (.SecItemCopyMatching service account) k (.errSecItemNotFound, data) k' →
    k (service, account) = none
  copies : ∀ service account k r k', sec (.SecItemCopyMatching service account) k r k' → k' = k
  deleted : ∀ service account k k', sec (.SecItemDelete service account) k .errSecSuccess k' →
    k' = Function.update k (service, account) none
  none_deleted : ∀ service account k k',
    sec (.SecItemDelete service account) k .errSecItemNotFound k' →
      k' = k ∧ k (service, account) = none
  not_deleted : ∀ service account k code k',
    sec (.SecItemDelete service account) k (.other code) k' → k' = k

namespace KeychainKeyStore

variable (service : String) (message : OSStatus → String)

abbrev Calls (α : Type) := Prog SecItem SecItem.Res α

/-- The attributes that are written. -/
def attrs (value : Bytes) : KeychainItem := ⟨value, .afterFirstUnlockThisDeviceOnly⟩

/-- An item is updated, and added where there is none. -/
def put (key : String) (value : Bytes) : Calls (Except String Unit) :=
  .call (.SecItemUpdate service key (attrs value)) fun
  | .errSecSuccess => .done (.ok ())
  | .errSecItemNotFound => .call (.SecItemAdd service key (attrs value)) fun
    | .errSecSuccess => .done (.ok ())
    | addStatus => .done (.error ("put failed: " ++ message addStatus))
  | updateStatus => .done (.error ("put failed: " ++ message updateStatus))

def get (key : String) : Calls (Except String (Option Bytes)) :=
  .call (.SecItemCopyMatching service key) fun
  | (.errSecSuccess, result) => .done (.ok result)
  | (.errSecItemNotFound, _) => .done (.ok none)
  | (status, _) => .done (.error ("get failed: " ++ message status))

def delete (key : String) : Calls (Except String Unit) :=
  .call (.SecItemDelete service key) fun
  | .errSecSuccess => .done (.ok ())
  | .errSecItemNotFound => .done (.ok ())
  | status => .done (.error ("delete failed: " ++ message status))

def code : KeyCall → Calls KeyAnswer
  | .put key value => (put service message key value).bind (fun r => .done (r.map (fun _ => none)))
  | .get key => get service message key
  | .delete key => (delete service message key).bind (fun r => .done (r.map (fun _ => none)))

/-- The call on the items: those of another service stay, and what is written is for this device
only. -/
inductive At : KeyCall → Keychain → KeyAnswer → Keychain → Prop
  | put {key : String} {value : Bytes} {k : Keychain} :
      At (.put key value) k (.ok none) (Function.update k (service, key) (some (attrs value)))
  | get {key : String} {k : Keychain} : At (.get key) k (.ok ((k (service, key)).map (·.data))) k
  | delete {key : String} {k : Keychain} :
      At (.delete key) k (.ok none) (Function.update k (service, key) none)
  | fails {call : KeyCall} {k : Keychain} {reason : String} : At call k (.error reason) k

variable {sec : (op : SecItem) → Keychain → op.Res → Keychain → Prop}

/-- An update that finds no item leaves the items alone, and what another thread adds before the
add makes that fail. -/
theorem acts (hsec : Documented sec) (call : KeyCall) :
    (code service message call).Acts sec id (At service call) := by
  cases call with
  | put key value =>
    intro k status k' hcall
    cases status with
    | errSecSuccess =>
      obtain rfl := hsec.updated _ _ _ _ _ hcall
      exact Or.inr ⟨_, .put, rfl⟩
    | errSecItemNotFound =>
      obtain rfl := hsec.not_updated _ _ _ _ .errSecItemNotFound _ nofun hcall
      refine Or.inl ⟨rfl, ?_⟩
      intro k₁ status k₂ hcall₁
      cases status with
      | errSecSuccess =>
        obtain rfl := hsec.added _ _ _ _ _ hcall₁
        exact Or.inr ⟨_, .put, rfl⟩
      | errSecItemNotFound =>
        obtain rfl := hsec.not_added _ _ _ _ .errSecItemNotFound _ nofun hcall₁
        exact Or.inr ⟨_, .fails, rfl⟩
      | other code =>
        obtain rfl := hsec.not_added _ _ _ _ (.other code) _ nofun hcall₁
        exact Or.inr ⟨_, .fails, rfl⟩
    | other code =>
      obtain rfl := hsec.not_updated _ _ _ _ (.other code) _ nofun hcall
      exact Or.inr ⟨_, .fails, rfl⟩
  | get key =>
    rintro k ⟨status, result⟩ k' hcall
    obtain rfl := hsec.copies _ _ _ _ _ hcall
    cases status with
    | errSecSuccess =>
      obtain rfl := hsec.copied _ _ _ _ _ hcall
      exact Or.inr ⟨_, .get, rfl⟩
    | errSecItemNotFound =>
      have hnone := hsec.none_copied _ _ _ _ _ hcall
      refine Or.inr ⟨.ok ((k' (service, key)).map (·.data)), .get, ?_⟩
      rw [hnone]
      rfl
    | other code => exact Or.inr ⟨_, .fails, rfl⟩
  | delete key =>
    intro k status k' hcall
    cases status with
    | errSecSuccess =>
      obtain rfl := hsec.deleted _ _ _ _ hcall
      exact Or.inr ⟨_, .delete, rfl⟩
    | errSecItemNotFound =>
      obtain ⟨rfl, hnone⟩ := hsec.none_deleted _ _ _ _ hcall
      have hdelete : At service (.delete key) k' (.ok none)
          (Function.update k' (service, key) none) :=
        .delete
      rw [← hnone, Function.update_eq_self] at hdelete
      exact Or.inr ⟨_, hdelete, rfl⟩
    | other code =>
      obtain rfl := hsec.not_deleted _ _ _ _ _ hcall
      exact Or.inr ⟨_, .fails, rfl⟩

/-- The values under the accounts of the service. -/
def values (k : Keychain) (key : String) : Option Bytes := (k (service, key)).map (·.data)

theorem values_update (k : Keychain) (key : String) (item : Option KeychainItem) :
    values service (Function.update k (service, key) item) =
      Function.update (values service k) key (item.map (·.data)) := by
  funext key'
  unfold values
  by_cases he : key' = key
  · subst he
    simp
  · have hne : (service, key') ≠ (service, key) := by simp [he]
    simp [Function.update_of_ne he, Function.update_of_ne hne]

theorem at_values {call : KeyCall} {k k' : Keychain} {a : KeyAnswer} (h : At service call k a k') :
    call.At (values service k) a (values service k') := by
  cases h with
  | put =>
    rw [values_update]
    exact .put
  | get => exact .get
  | delete =>
    rw [values_update]
    exact .delete
  | fails => exact .fails

end KeychainKeyStore

/-- The key store of iOS. -/
def Ios.keyStore (service : String) (message : OSStatus → String)
    {sec : (op : SecItem) → Keychain → op.Res → Keychain → Prop} (hsec : Documented sec) :
    HostKeyStore where
  Op := SecItem
  Res := SecItem.Res
  State := Keychain
  platform := sec
  view := KeychainKeyStore.values service
  code := KeychainKeyStore.code service message
  atomic call := (KeychainKeyStore.acts service message hsec call).through
    (KeychainKeyStore.values service) (fun _ _ _ => KeychainKeyStore.at_values service)

/-! ## Android -/

/-- The calls on `EncryptedSharedPreferences`. Each may throw, with the message of the exception. -/
inductive PrefsOp where
  | putString (key text : String)
  | getString (key : String)
  | remove (key : String)

@[reducible] def PrefsOp.Res : PrefsOp → Type
  | .getString _ => Except String (Option String)
  | _ => Except String Unit

abbrev Prefs := String → Option String

/-- What is documented of the preferences: an edit that is applied is seen at once, and one that
throws has done nothing. -/
structure Edited (prefs : (op : PrefsOp) → Prefs → op.Res → Prefs → Prop) : Prop where
  put : ∀ key text p p', prefs (.putString key text) p (.ok ()) p' →
    p' = Function.update p key (some text)
  not_put : ∀ key text p message p', prefs (.putString key text) p (.error message) p' → p' = p
  read : ∀ key p text p', prefs (.getString key) p (.ok text) p' → text = p key
  reads : ∀ key p r p', prefs (.getString key) p r p' → p' = p
  removed : ∀ key p p', prefs (.remove key) p (.ok ()) p' → p' = Function.update p key none
  not_removed : ∀ key p message p', prefs (.remove key) p (.error message) p' → p' = p

/-- `android.util.Base64`. -/
structure Base64 where
  encodeToString : Bytes → String
  decode : String → Except String Bytes
  decode_encode : ∀ value, decode (encodeToString value) = .ok value

namespace AndroidKeyStore

variable (B : Base64)

abbrev Calls (α : Type) := Prog PrefsOp PrefsOp.Res α

def put (key : String) (value : Bytes) : Calls (Except String Unit) :=
  .call (.putString key (B.encodeToString value)) fun
  | .ok _ => .done (.ok ())
  | .error message => .done (.error ("put failed: " ++ message))

def get (key : String) : Calls (Except String (Option Bytes)) :=
  .call (.getString key) fun
  | .ok none => .done (.ok none)
  | .ok (some text) =>
    match B.decode text with
    | .ok value => .done (.ok (some value))
    | .error message => .done (.error ("get failed: " ++ message))
  | .error message => .done (.error ("get failed: " ++ message))

def delete (key : String) : Calls (Except String Unit) :=
  .call (.remove key) fun
  | .ok _ => .done (.ok ())
  | .error message => .done (.error ("delete failed: " ++ message))

def code : KeyCall → Calls KeyAnswer
  | .put key value => (put B key value).bind (fun r => .done (r.map (fun _ => none)))
  | .get key => get B key
  | .delete key => (delete key).bind (fun r => .done (r.map (fun _ => none)))

/-- The values that the texts stand for. -/
def values (p : Prefs) (key : String) : Option Bytes :=
  (p key).bind (fun text => (B.decode text).toOption)

theorem values_update (p : Prefs) (key : String) (text : Option String) :
    values B (Function.update p key text) =
      Function.update (values B p) key (text.bind (fun text => (B.decode text).toOption)) := by
  funext key'
  unfold values
  by_cases he : key' = key
  · subst he
    simp
  · simp [he]

variable {prefs : (op : PrefsOp) → Prefs → op.Res → Prefs → Prop}

/-- A text that is no Base64 is read as a failure. -/
theorem acts (hprefs : Edited prefs) (call : KeyCall) :
    (code B call).Acts prefs (values B) call.At := by
  cases call with
  | put key value =>
    intro p r p' hcall
    right
    cases r with
    | ok u =>
      obtain rfl := hprefs.put _ _ _ _ hcall
      refine ⟨_, ?_, rfl⟩
      simp only [values_update, Option.bind_some, B.decode_encode]
      exact .put
    | error message =>
      obtain rfl := hprefs.not_put _ _ _ _ _ hcall
      exact ⟨_, .fails, rfl⟩
  | get key =>
    intro p r p' hcall
    obtain rfl := hprefs.reads _ _ _ _ hcall
    right
    cases r with
    | ok text =>
      obtain rfl := hprefs.read _ _ _ _ hcall
      have hget : (KeyCall.get key).At (values B p') (.ok (values B p' key)) (values B p') := .get
      simp only [values] at hget ⊢
      cases htext : p' key with
      | none =>
        rw [htext] at hget
        exact ⟨_, hget, rfl⟩
      | some text =>
        simp only [htext, Option.bind_some] at hget
        cases hvalue : B.decode text with
        | ok value =>
          simp only [hvalue] at hget ⊢
          exact ⟨_, hget, rfl⟩
        | error message =>
          simp only [hvalue]
          exact ⟨_, .fails, rfl⟩
    | error message => exact ⟨_, .fails, rfl⟩
  | delete key =>
    intro p r p' hcall
    right
    cases r with
    | ok u =>
      obtain rfl := hprefs.removed _ _ _ hcall
      refine ⟨_, ?_, rfl⟩
      simp only [values_update, Option.bind_none]
      exact .delete
    | error message =>
      obtain rfl := hprefs.not_removed _ _ _ _ hcall
      exact ⟨_, .fails, rfl⟩

end AndroidKeyStore

/-- The key store of Android. -/
def Android.keyStore (B : Base64) {prefs : (op : PrefsOp) → Prefs → op.Res → Prefs → Prop}
    (hprefs : Edited prefs) : HostKeyStore where
  Op := PrefsOp
  Res := PrefsOp.Res
  State := Prefs
  platform := prefs
  view := AndroidKeyStore.values B
  code := AndroidKeyStore.code B
  atomic := AndroidKeyStore.acts B hprefs

/-! ## What the core sees -/

/-- `From<KeyStoreError> for CoreError`, and the core's reading of a value. -/
def KeyAnswer.toCore (read : Bytes → Json) (a : KeyAnswer) : Except CoreError (Option Json) :=
  (a.map (·.map read)).mapError .Storage

/-- The core's own function for each call. -/
def KeyCall.ks (read : Bytes → Json) (ks : Option KeyMap) (fault : Fault) :
    KeyCall → Except CoreError (Option Json) × Option KeyMap
  | .put key value =>
    ((ks_put ks key (read value) fault).1.map (fun _ => none), (ks_put ks key (read value) fault).2)
  | .get key => (ks_get ks key fault, ks)
  | .delete key => ((ks_delete ks key fault).1.map (fun _ => none), (ks_delete ks key fault).2)

/-- The core's function, with a fault of its choice, gives this answer. -/
def KeyCall.AtCore (read : Bytes → Json) (call : KeyCall) (ks : Option KeyMap) (a : KeyAnswer)
    (ks' : Option KeyMap) : Prop := ∃ fault, call.ks read ks fault = (KeyAnswer.toCore read a, ks')

/-- The core's map has the host's entries. -/
def HostEntries (read : Bytes → Json) (m : String → Option Bytes) (ks : Option KeyMap) : Prop :=
  ∃ t, ks = some t ∧ ∀ key, (t.find key).map (·.2) = (m key).map read

theorem KeyCall.At.core {read : Bytes → Json} {call : KeyCall} {m m' : String → Option Bytes}
    {a : KeyAnswer} {ks : Option KeyMap} (h : call.At m a m') (hks : HostEntries read m ks) :
    ∃ ks', call.AtCore read ks a ks' ∧ HostEntries read m' ks' := by
  obtain ⟨t, rfl, ht⟩ := hks
  cases h with
  | @put key value =>
    refine ⟨_, ⟨.none, rfl⟩, _, rfl, ?_⟩
    intro key'
    rw [KeyMap.find_put]
    by_cases he : key = key'
    · subst he
      simp
    · simp [he, Function.update_of_ne (Ne.symm he), ht key']
  | @get key =>
    refine ⟨_, ⟨.none, ?_⟩, t, rfl, ht⟩
    simp only [KeyCall.ks, ks_get, ht key]
    rfl
  | @delete key =>
    refine ⟨_, ⟨.none, rfl⟩, _, rfl, ?_⟩
    intro key'
    rw [Table.find_erase]
    by_cases he : key' = key
    · subst he
      simp
    · simp [he, ht key']
  | @fails call m reason =>
    refine ⟨_, ⟨.key_store reason, ?_⟩, t, rfl, ht⟩
    cases call <;> rfl

/-! ## Calls at once -/

/-- A keychain where every call succeeds that can. An add of an item that is there is refused. -/
def Keychain.call : (op : SecItem) → Keychain → op.Res → Keychain → Prop
  | .SecItemUpdate service account item, k, status, k' =>
    match k (service, account) with
    | some _ => status = .errSecSuccess ∧ k' = Function.update k (service, account) (some item)
    | none => status = .errSecItemNotFound ∧ k' = k
  | .SecItemAdd service account item, k, status, k' =>
    match k (service, account) with
    | some _ => status = .other (-25299) ∧ k' = k
    | none => status = .errSecSuccess ∧ k' = Function.update k (service, account) (some item)
  | .SecItemCopyMatching service account, k, r, k' =>
    k' = k ∧ match k (service, account) with
    | some item => r = (.errSecSuccess, some item.data)
    | none => r = (.errSecItemNotFound, none)
  | .SecItemDelete service account, k, status, k' =>
    match k (service, account) with
    | some _ => status = .errSecSuccess ∧ k' = Function.update k (service, account) none
    | none => status = .errSecItemNotFound ∧ k' = k

theorem Keychain.documented : Documented Keychain.call := by
  constructor <;> intro service account <;> simp only [Keychain.call] <;> intros <;> grind

theorem Keychain.duplicate {k : Keychain} {service account : String} {old item : KeychainItem}
    (h : k (service, account) = some old) :
    Keychain.call (.SecItemAdd service account item) k (.other (-25299)) k := by
  simp [Keychain.call, h]

/-- Two first puts of one key. -/
def racingPuts (i : Bool) : KeyCall := .put SESSION_KEY [cond i 1 0]

/-- Where both updates find no item, the first add stores its value and the other put fails. -/
theorem racing_puts_run (service : String) (message : OSStatus → String) :
    ∃ p, Crew.Reaches (fun _ => Keychain.call)
        ⟨fun _ => none, fun i => KeychainKeyStore.code service message (racingPuts i)⟩ p ∧
      p.left true = .done (.ok none) ∧
      p.left false = .done (.error ("put failed: " ++ message (.other (-25299)))) := by
  have h₁ := Relation.ReflTransGen.refl (r := Crew.Step (fun (_ : Bool) => Keychain.call))
    (a := ⟨fun _ => none, fun i => KeychainKeyStore.code service message (racingPuts i)⟩)
  have h₂ := h₁.tail (.call (i := true) (r := .errSecItemNotFound) rfl ⟨rfl, rfl⟩)
  have h₃ := h₂.tail (.call (i := false) (r := .errSecItemNotFound) rfl ⟨rfl, rfl⟩)
  have h₄ := h₃.tail (.call (i := true) (r := .errSecSuccess) rfl ⟨rfl, rfl⟩)
  have h₅ := h₄.tail (.call (i := false) (r := .other (-25299)) rfl
    (Keychain.duplicate (Function.update_self _ _ _)))
  exact ⟨_, h₅, rfl, rfl⟩

section Calls

variable {ι : Type} [DecidableEq ι] (calls : ι → KeyCall)

/-- Any number of calls at once, on either phone: what has answered by `p` and by `q` is what the
core's own functions answer one after another, each call once and none before it began. -/
theorem key_stores_are_one_map (H : HostKeyStore) {read : Bytes → Json} {ks : Option KeyMap}
    {s : H.State} {p q : Crew ι H.State H.Op H.Res KeyAnswer} (hks : HostEntries read (H.view s) ks)
    (hp : Crew.Reaches (fun _ => H.platform) ⟨s, fun i => H.code (calls i)⟩ p)
    (hq : Crew.Reaches (fun _ => H.platform) p q) :
    ∃ log more ks₁ ks₂, Performs (fun i => (calls i).AtCore read) ks log ks₁ ∧
      Performs (fun i => (calls i).AtCore read) ks₁ more ks₂ ∧
      HostEntries read (H.view p.state) ks₁ ∧ HostEntries read (H.view q.state) ks₂ ∧
      ((log ++ more).map Prod.fst).Nodup ∧ (∀ i a, p.left i = .done a → (i, a) ∈ log) ∧
      (∀ i a, q.left i = .done a → (i, a) ∈ log ++ more) ∧
      ∀ i, p.left i = H.code (calls i) → i ∉ log.map Prod.fst := by
  have hstart : Crew.Linear (fun _ => H.platform) H.view (fun i => (calls i).At)
      (fun i => H.code (calls i)) [] ⟨s, fun i => H.code (calls i)⟩ :=
    Crew.Linear.start s (fun i => H.atomic (calls i))
  obtain ⟨log, hlog, hlinear⟩ := hstart.reaches hp
  obtain ⟨more, hmore, hlast⟩ := hlinear.reaches hq
  have hcore : ∀ i m a m' ks, (calls i).At m a m' → HostEntries read m ks →
      ∃ ks', (calls i).AtCore read ks a ks' ∧ HostEntries read m' ks' :=
    fun i m a m' ks hat hks => hat.core hks
  obtain ⟨ks₁, hlog₁, hks₁⟩ := hlog.follow hcore hks
  obtain ⟨ks₂, hmore₂, hks₂⟩ := hmore.follow hcore hks₁
  simp only [List.nil_append] at hlinear hlast
  exact ⟨log, more, ks₁, ks₂, hlog₁, hmore₂, hks₁, hks₂, hlast.once,
    fun i a hi => hlinear.ended hi, fun i a hi => hlast.ended hi, fun i hi => hlinear.not_begun hi⟩

/-- The loser of a race is in the log with its failure, and the map keeps the value of the other. -/
theorem key_stores_are_one_map_race : ∃ log ks,
    Performs (fun i => (racingPuts i).AtCore (fun _ => .null)) (some Table.empty) log ks ∧
      (true, .ok none) ∈ log ∧ (false, .error "put failed: -25299") ∈ log := by
  obtain ⟨p, hp, htrue, hfalse⟩ := racing_puts_run "com.pigeon.mobile.keystore" (fun _ => "-25299")
  obtain ⟨log, more, ks₁, ks₂, hlog, -, -, -, -, hended, -⟩ :=
    key_stores_are_one_map racingPuts (Ios.keyStore "com.pigeon.mobile.keystore" (fun _ => "-25299")
      Keychain.documented) ⟨Table.empty, rfl, fun _ => rfl⟩ hp Relation.ReflTransGen.refl
  exact ⟨log, ks₁, hlog, hended true _ htrue, hended false _ hfalse⟩

end Calls

end PigeonMobile
