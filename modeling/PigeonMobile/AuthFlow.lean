-- The sign-in flow of the two apps (`AuthViewModel`, `AuthScreen`, `AuthView`) over the session
-- calls of the core. A call of the core is a coroutine that lands later, on the main thread. The
-- key store it writes is the one that the next launch reads.
import PigeonMobile.EngineSteps
import PigeonMobile.Http
import PigeonMobile.KeyLifecycle
import PigeonMobile.RunPrefixes

namespace PigeonMobile

open RunPrefixes

/-- What an app shows. `C` is the handle of a client. -/
inductive AuthState (C : Type) where
  | Restoring
  | SignedOut (error : Option String)
  | Submitting
  | SignedIn (session : Session) (client : C) (signingOut : Bool) (error : Option String)

/-- What stands in the three fields of the form. -/
structure AuthForm where
  server : String
  username : String
  password : String

/-- The two buttons of the form. -/
inductive AuthButton where
  | login
  | register

/-- A call of the core that is under way, with what its coroutine captured. -/
inductive SessionTask (C : Type) where
  | restore
  /-- The core's `login` or `register`, and what it is called with. -/
  | submit (button : AuthButton) (form : AuthForm)
  /-- `c` logs out. `shown` is the handle that is shown again where that fails. -/
  | logout (session : Session) (shown c : C)

structure AuthViewModel (C : Type) where
  state : AuthState C
  client : Option C
  tasks : List (SessionTask C)

inductive Platform where
  | Android
  | Ios

/-- `AuthError.kt` -/
def Android.authErrorMessage : CoreError → String
  | .Api code _ =>
    match code with
    | .UserInUse => "That username is already taken."
    | .Forbidden => "Incorrect username or password."
    | .InvalidUsername => "Usernames may use only a–z, 0–9, and . _ -"
    | .UnknownToken | .MissingToken => "Your session has expired. Please sign in again."
    | .LimitExceeded => "Too many attempts. Please wait a moment and try again."
    | .BadJson | .NotJson => "The server rejected the request."
    | .NotFound => "Not found on this server."
    | _ => "The server reported an error."
  | .Network _ => "Can't reach the server. Check the address and your connection."
  | .Protocol _ => "Unexpected response from the server."
  | .Storage _ => "Couldn't access secure storage on this device."
  | .Crypto _ => "A security error occurred."

/-- `AuthError.swift`. An error that is no `CoreError` does not come out of the core. -/
def Ios.authErrorMessage : CoreError → String
  | .Api code _ =>
    match code with
    | .UserInUse => "That username is already taken."
    | .Forbidden => "Incorrect username or password."
    | .InvalidUsername => "Usernames may use only a–z, 0–9, and . _ -"
    | .UnknownToken | .MissingToken => "Your session has expired. Please sign in again."
    | .LimitExceeded => "Too many attempts. Please wait a moment and try again."
    | .BadJson | .NotJson => "The server rejected the request."
    | .NotFound => "Not found on this server."
    | .BadSignature | .Unrecognized | .Unknown | .Other _ => "The server reported an error."
  | .Network _ => "Can't reach the server. Check the address and your connection."
  | .Protocol _ => "Unexpected response from the server."
  | .Storage _ => "Couldn't access secure storage on this device."
  | .Crypto _ => "A security error occurred."

namespace Platform

variable {C : Type}

def authErrorMessage : Platform → CoreError → String
  | .Android => Android.authErrorMessage
  | .Ios => Ios.authErrorMessage

/-- The form is there and not locked. Android locks it while a submit is under way, the view of iOS
while a restore is under way too: the view-model of iOS would let that submit through. -/
def formEnabled (p : Platform) : AuthState C → Bool
  | .Restoring =>
    match p with
    | .Android => true
    | .Ios => false
  | .SignedOut _ => true
  | .Submitting => false
  | .SignedIn _ _ _ _ => false

end Platform

/-! ## The form -/

/-- What the string library of a platform takes for white space. -/
abbrev White := Platform → Char → Bool

def isNotBlank (white : Char → Bool) (s : String) : Bool := s.toList.any fun c => !white c

def AuthForm.trimmed (white : Char → Bool) (form : AuthForm) : AuthForm :=
  ⟨PigeonMobile.trimmed white form.server, PigeonMobile.trimmed white form.username, form.password⟩

namespace Platform

variable {C : Type} (white : White)

/-- The fields that the buttons want filled in: a password of blanks will do on iOS. -/
def filledIn (p : Platform) (form : AuthForm) : Bool :=
  match p with
  | .Android => isNotBlank (white p) form.server && isNotBlank (white p) form.username &&
      isNotBlank (white p) form.password
  | .Ios => !(trimmed (white p) form.server).isEmpty &&
      !(trimmed (white p) form.username).isEmpty && !form.password.isEmpty

def canSubmit (p : Platform) (state : AuthState C) (form : AuthForm) : Bool :=
  p.formEnabled state && p.filledIn white form

/-- The handle of the state that a logout goes through: Android copies the state, iOS builds it
from the handle that it holds. -/
def carried (p : Platform) (shown held : C) : C :=
  match p with
  | .Android => shown
  | .Ios => held

end Platform

namespace AuthViewModel

variable {C : Type} (p : Platform)

/-- A view-model begins with a restore. -/
def init : AuthViewModel C := ⟨.Restoring, none, [.restore]⟩

/-- `login` and `register`. -/
def submit (white : White) (button : AuthButton) (form : AuthForm) (vm : AuthViewModel C) :
    AuthViewModel C :=
  match vm.state with
  | .Submitting => vm
  | _ => { vm with
      state := .Submitting
      tasks := vm.tasks ++ [.submit button (form.trimmed (white p))] }

def logout (vm : AuthViewModel C) : AuthViewModel C :=
  match vm.state, vm.client with
  | .SignedIn session shown false _, some c =>
    { vm with
      state := .SignedIn session (p.carried shown c) true none
      tasks := vm.tasks ++ [.logout session (p.carried shown c) c] }
  | _, _ => vm

/-- `restoreSession` has returned. -/
def restored (session : C → Session) (r : Except CoreError (Option C)) (vm : AuthViewModel C) :
    AuthViewModel C :=
  match r with
  | .ok (some c) => { vm with state := .SignedIn (session c) c false none, client := some c }
  | .ok none => { vm with state := .SignedOut none }
  | .error e => { vm with state := .SignedOut (some (p.authErrorMessage e)) }

/-- `login` or `register` of the core has returned. -/
def submitted (session : C → Session) (r : Except CoreError C) (vm : AuthViewModel C) :
    AuthViewModel C :=
  match r with
  | .ok c => { vm with state := .SignedIn (session c) c false none, client := some c }
  | .error e => { vm with state := .SignedOut (some (p.authErrorMessage e)) }

/-- `logout` of the core has returned. -/
def loggedOut (session : Session) (shown : C) (r : Except CoreError Unit) (vm : AuthViewModel C) :
    AuthViewModel C :=
  match r with
  | .ok () => { vm with state := .SignedOut none, client := none }
  | .error e => { vm with state := .SignedIn session shown false (some (p.authErrorMessage e)) }

end AuthViewModel

/-! ## The app on a host -/

/-- What of a client does not change: the core keeps the rest behind the handle. -/
structure Handle where
  api : Api
  session : Session

def Client.handle {D : Type} (c : Client D) : Handle := ⟨c.api, c.session⟩

/-- The client behind a handle, with the engine that it has come to. -/
def Handle.on {D : Type} (c : Handle) (e2ee : Option D) (h : Host) : Client D :=
  ⟨c.api, c.session, h.file, e2ee, h.key_store⟩

structure AuthWorld where
  vm : AuthViewModel Handle
  host : Host

inductive AuthAct (D : Type) where
  /-- a button of the form is pressed -/
  | submit (button : AuthButton) (form : AuthForm)
  | signOut
  -- a call under way lands, with all that it met
  | restored (i : Nat) (l : LaunchInput D)
  | submitted (i : Nat) (answer : Except ApiError Json) (f : SessionFaults)
      (calls : (op : Op) → op.Choice) (new : String → Except String D)
  | loggedOut (i : Nat) (e2ee : Option D) (calls : (op : Op) → op.Choice)
  /-- another call of a client, of the last session or one before it -/
  | call (c : Handle) (e2ee : Option D) (op : Op) (choice : op.Choice)
  /-- The process or the view-model goes away, in the middle of what it did to the host. -/
  | killed (h : Host)

namespace AuthWorld

variable {D : Type} (X : PigeonCrypto D) (white : White) (p : Platform)

def start (h : Host) : AuthWorld := ⟨AuthViewModel.init, h⟩

/-- The call that lands is under way no more. -/
def without (w : AuthWorld) (i : Nat) : AuthViewModel Handle :=
  { w.vm with tasks := w.vm.tasks.eraseIdx i }

def step (w : AuthWorld) : AuthAct D → AuthWorld
  | .submit button form =>
    if p.canSubmit white w.vm.state form then { w with vm := w.vm.submit p white button form }
    else w
  | .signOut => { w with vm := w.vm.logout p }
  | .restored i l =>
    match w.vm.tasks[i]? with
    | some .restore =>
      let out := l.run X w.host
      ⟨(w.without i).restored p Handle.session (out.value.map (·.map Client.handle)), out.host⟩
    | _ => w
  | .submitted i answer f calls new =>
    match w.vm.tasks[i]? with
    | some (.submit _ form) =>
      let out := sign_in { X with new } form.server answer f calls w.host
      ⟨(w.without i).submitted p Handle.session (out.1.map Client.handle), out.2⟩
    | _ => w
  | .loggedOut i e2ee calls =>
    match w.vm.tasks[i]? with
    | some (.logout session shown c) =>
      let out := PigeonMobile.logout.run (Client.under X calls) (c.on e2ee w.host)
      ⟨(w.without i).loggedOut p session shown out.1, out.2.host⟩
    | _ => w
  | .call c e2ee op choice =>
    if op.deletesKey then w
    else { w with host := (Client.perform X op choice (c.on e2ee w.host)).2.host }
  | .killed h => start h

/-- The app after some acts on a host. -/
def run (h : Host) (acts : List (AuthAct D)) : AuthWorld := acts.foldl (step X white p) (start h)

end AuthWorld

/-! ## What is under way -/

/-- The two apps have one text for each error. -/
theorem authErrorMessage_same (p p' : Platform) : p.authErrorMessage = p'.authErrorMessage := by
  have h : Android.authErrorMessage = Ios.authErrorMessage := by
    funext e
    cases e with
    | Api code reason => cases code <;> rfl
    | Crypto | Network | Protocol | Storage => rfl
  cases p <;> cases p' <;> first | rfl | exact h | exact h.symm

/-- The state shown says what is under way, and which handle is held. -/
inductive Telling {C : Type} (session : C → Session) : AuthViewModel C → Prop
  | restoring : Telling session ⟨.Restoring, none, [.restore]⟩
  | signedOut (error : Option String) : Telling session ⟨.SignedOut error, none, []⟩
  | submitting (button : AuthButton) (form : AuthForm) :
      Telling session ⟨.Submitting, none, [.submit button form]⟩
  | signedIn (c : C) (error : Option String) :
      Telling session ⟨.SignedIn (session c) c false error, some c, []⟩
  | signingOut (c : C) :
      Telling session ⟨.SignedIn (session c) c true none, some c, [.logout (session c) c c]⟩

theorem Telling.one {C : Type} {session : C → Session} {vm : AuthViewModel C}
    (h : Telling session vm) : vm.tasks.length ≤ 1 := by
  cases h <;> simp

/-- A submit that comes before the restore has landed. -/
def Hurried {D : Type} (white : White) (p : Platform) (w : AuthWorld) : AuthAct D → Prop
  | .submit _ form => w.vm.state = .Restoring ∧ p.canSubmit white w.vm.state form = true
  | _ => False

/-- The buttons do not do the same for a form: one app submits it and the other does not, or they
trim it to different texts. -/
def Parts {D : Type} (white : White) (w : AuthWorld) : AuthAct D → Prop
  | .submit _ form =>
    match w.vm.state with
    | .Restoring => Platform.Android.filledIn white form = true
    | .SignedOut _ => Platform.Android.filledIn white form ≠ Platform.Ios.filledIn white form ∨
        (Platform.Android.filledIn white form = true ∧
          form.trimmed (white .Android) ≠ form.trimmed (white .Ios))
    | _ => False
  | _ => False

/-- What is trimmed away entirely is blank. -/
theorem trimmed_isEmpty (white : Char → Bool) (s : String) :
    (trimmed white s).isEmpty = !isNotBlank white s := by
  have hblank : (trimmed white s).isEmpty = true ↔ ∀ c ∈ s.toList, white c = true := by
    unfold trimmed
    rw [String.isEmpty_iff, ← String.toList_inj, String.toList_ofList, String.toList_empty,
      List.rdropWhile_eq_nil_iff]
    constructor
    · intro h
      by_contra hsome
      -- what is left begins with a character that is not blank
      have hne : s.toList.dropWhile white ≠ [] := fun hnil =>
        hsome (List.dropWhile_eq_nil_iff.mp hnil)
      have hfirst := List.head_dropWhile_not white hne
      rw [h _ (List.head_mem hne)] at hfirst
      cases hfirst
    · intro h c hc
      exact h c ((List.dropWhile_sublist white).subset hc)
  have hfull : isNotBlank white s = false ↔ ∀ c ∈ s.toList, white c = true := by
    simp [isNotBlank]
  rw [Bool.eq_iff_iff, hblank, ← hfull]
  simp

/-- Where both take the same for white space, they part over a form on the screen just where its
password is all blanks and the rest is filled in. -/
theorem parts_over_a_blank_password {D : Type} {white : White} {w : AuthWorld}
    {error : Option String} (hwhite : white .Android = white .Ios)
    (hstate : w.vm.state = .SignedOut error) (button : AuthButton) (form : AuthForm) :
    Parts white w (.submit button form : AuthAct D) ↔
      isNotBlank (white .Ios) form.server = true ∧ isNotBlank (white .Ios) form.username = true ∧
        form.password ≠ "" ∧ isNotBlank (white .Ios) form.password = false := by
  simp only [Parts, hstate, hwhite, ne_eq, not_true_eq_false, and_false, or_false,
    Platform.filledIn, trimmed_isEmpty, Bool.not_not]
  have hempty : form.password = "" → isNotBlank (white .Ios) form.password = false := by
    intro h
    rw [h]
    rfl
  by_cases hpassword : form.password = ""
  · rw [hpassword] at hempty ⊢
    simp [hempty rfl]
  · have hfull : form.password.isEmpty = false := by simpa using hpassword
    simp only [hpassword, hfull]
    cases isNotBlank (white .Ios) form.server <;> cases isNotBlank (white .Ios) form.username <;>
      simp

namespace AuthWorld

variable {D : Type} {X : PigeonCrypto D} {white : White} {p : Platform} {w : AuthWorld}

theorem tells_step (h : Telling Handle.session w.vm) (act : AuthAct D)
    (hact : ¬ Hurried white p w act) : Telling Handle.session (w.step X white p act).vm := by
  obtain ⟨vm, host⟩ := w
  cases act with
  | submit button form =>
    simp only [step]
    split
    · next hcan =>
      cases h with
      | restoring => exact absurd ⟨rfl, hcan⟩ hact
      | signedOut error => exact .submitting button (form.trimmed (white p))
      | submitting button' form' => exact .submitting button' form'
      | signedIn | signingOut => cases hcan
    · exact h
  | signOut =>
    cases h with
    | restoring => exact .restoring
    | signedOut error => exact .signedOut error
    | submitting button form => exact .submitting button form
    | signedIn c error => cases p <;> exact .signingOut c
    | signingOut c => exact .signingOut c
  | restored i l =>
    cases h with
    | restoring =>
      cases i with
      | zero =>
        simp only [step, without, List.getElem?_cons_zero, List.eraseIdx_zero, List.tail_cons]
        rcases (l.run X host).value with e | _ | c
        · exact .signedOut _
        · exact .signedOut none
        · exact .signedIn c.handle none
      | succ i => exact .restoring
    | signedOut error => exact .signedOut error
    | submitting button form => cases i <;> exact .submitting button form
    | signedIn c error => exact .signedIn c error
    | signingOut c => cases i <;> exact .signingOut c
  | submitted i answer f calls new =>
    cases h with
    | restoring => cases i <;> exact .restoring
    | signedOut error => exact .signedOut error
    | submitting button form =>
      cases i with
      | zero =>
        simp only [step, without, List.getElem?_cons_zero, List.eraseIdx_zero, List.tail_cons]
        rcases (sign_in { X with new } form.server answer f calls host).1 with e | c
        · exact .signedOut _
        · exact .signedIn c.handle none
      | succ i => exact .submitting button form
    | signedIn c error => exact .signedIn c error
    | signingOut c => cases i <;> exact .signingOut c
  | loggedOut i e2ee calls =>
    cases h with
    | restoring => cases i <;> exact .restoring
    | signedOut error => exact .signedOut error
    | submitting button form => cases i <;> exact .submitting button form
    | signedIn c error => exact .signedIn c error
    | signingOut c =>
      cases i with
      | zero =>
        simp only [step, without, List.getElem?_cons_zero, List.eraseIdx_zero, List.tail_cons]
        rcases (PigeonMobile.logout.run (Client.under X calls) (c.on e2ee host)).1 with e | u
        · exact .signedIn c _
        · exact .signedOut none
      | succ i => exact .signingOut c
  | call c e2ee op choice =>
    simp only [step]
    split <;> exact h
  | killed host' => exact .restoring

/-- A submit that goes through before the restore has landed. -/
theorem hurried_breaks (h : Telling Handle.session w.vm) {act : AuthAct D}
    (hact : Hurried white p w act) : ∃ button form, act = .submit button form ∧
      w.step X white p act = ⟨⟨.Submitting, none,
        [.restore, .submit button (form.trimmed (white p))]⟩, w.host⟩ := by
  obtain ⟨vm, host⟩ := w
  cases act with
  | submit button form =>
    obtain ⟨hstate, hcan⟩ := hact
    refine ⟨button, form, rfl, ?_⟩
    cases h with
    | restoring =>
      simp only [step, hcan, if_true]
      rfl
    | signedOut | submitting | signedIn | signingOut => cases hstate
  | signOut | restored | submitted | loggedOut | call | killed => exact absurd hact id

/-- The view of iOS is locked while a restore is under way. -/
theorem Ios_never_hurries (act : AuthAct D) : ¬ Hurried white .Ios w act := by
  cases act with
  | submit button form =>
    rintro ⟨hstate, hcan⟩
    rw [hstate] at hcan
    cases hcan
  | signOut | restored | submitted | loggedOut | call | killed => exact id

theorem Ios_run_never_hurries (h : Host) (acts : List (AuthAct D)) :
    ¬ Somewhere (step X white .Ios) (Hurried white .Ios) (start h) acts := by
  rintro ⟨pre, act, -, hact⟩
  exact Ios_never_hurries act hact

theorem submit_same {form : AuthForm} (h : Telling Handle.session w.vm) (button : AuthButton)
    (hform : ¬ Parts white w (.submit button form : AuthAct D)) :
    w.step X white .Android (.submit button form) = w.step X white .Ios (.submit button form) := by
  obtain ⟨vm, host⟩ := w
  cases h with
  | restoring =>
    have hunfilled := Bool.eq_false_iff.mpr hform
    simp [step, Platform.canSubmit, Platform.formEnabled, hunfilled]
  | signedOut error =>
    obtain ⟨hfilled, htexts⟩ := not_or.mp hform
    have hfilled := of_not_not hfilled
    simp only [step, Platform.canSubmit, Platform.formEnabled, hfilled, Bool.true_and]
    split
    · next hios =>
      have htexts : form.trimmed (white .Android) = form.trimmed (white .Ios) := by
        by_contra hne
        exact htexts ⟨hfilled.trans hios, hne⟩
      simp only [AuthViewModel.submit, htexts]
    · rfl
  | submitting | signedIn | signingOut => rfl

/-- The two apps do the same in the same state, unless their buttons part over a form. -/
theorem same_step (h : Telling Handle.session w.vm) (act : AuthAct D)
    (hact : ¬ Parts white w act) : w.step X white .Android act = w.step X white .Ios act := by
  cases act with
  | submit button form => exact submit_same h button hact
  | signOut =>
    obtain ⟨vm, host⟩ := w
    cases h <;> rfl
  | restored i l =>
    simp only [step, AuthViewModel.restored, authErrorMessage_same .Android .Ios]
  | submitted i answer f calls new =>
    simp only [step, AuthViewModel.submitted, authErrorMessage_same .Android .Ios]
  | loggedOut i e2ee calls =>
    simp only [step, AuthViewModel.loggedOut, authErrorMessage_same .Android .Ios]
  | call c e2ee op choice => rfl
  | killed host' => rfl

/-- Where they part over it, they do different things. -/
theorem parts_breaks (h : Telling Handle.session w.vm) {act : AuthAct D}
    (hact : Parts white w act) : w.step X white .Android act ≠ w.step X white .Ios act := by
  obtain ⟨vm, host⟩ := w
  cases act with
  | submit button form =>
    cases h with
    | restoring =>
      have hfilled : Platform.Android.filledIn white form = true := hact
      simp [step, Platform.canSubmit, Platform.formEnabled, hfilled, AuthViewModel.submit]
    | signedOut error =>
      have hact : Platform.Android.filledIn white form ≠ Platform.Ios.filledIn white form ∨
        (Platform.Android.filledIn white form = true ∧
          form.trimmed (white .Android) ≠ form.trimmed (white .Ios)) := hact
      simp only [step, Platform.canSubmit, Platform.formEnabled, Bool.true_and]
      cases hfilled : Platform.Android.filledIn white form <;>
        cases hfilled' : Platform.Ios.filledIn white form <;>
        simp_all [AuthViewModel.submit]
    | submitting | signedIn | signingOut => exact absurd hact id
  | signOut | restored | submitted | loggedOut | call | killed => exact absurd hact id

variable (X white) in
/-- Both apps, side by side. -/
def both (w : AuthWorld × AuthWorld) (act : AuthAct D) : AuthWorld × AuthWorld :=
  (w.1.step X white .Android act, w.2.step X white .Ios act)

end AuthWorld

/-- On either phone there is one session call under way at most, at each moment of a run, just
where no submit of the run comes before the restore has landed. On iOS none does. -/
theorem one_session_call_at_a_time {D : Type} (X : PigeonCrypto D) (white : White) (h : Host)
    (acts : List (AuthAct D)) :
    (∀ p, Throughout (AuthWorld.step X white p) (fun w => w.vm.tasks.length ≤ 1) (.start h) acts ↔
      ¬ Somewhere (AuthWorld.step X white p) (Hurried white p) (.start h) acts) ∧
    ¬ Somewhere (AuthWorld.step X white .Ios) (Hurried white .Ios) (.start h) acts := by
  refine ⟨?_, AuthWorld.Ios_run_never_hurries h acts⟩
  intro p
  apply throughout_iff (I := fun w => Telling Handle.session w.vm) Telling.restoring
  · exact fun w act hw hact => AuthWorld.tells_step hw act hact
  · exact fun w hw => hw.one
  · intro w act hw hact htwo
    obtain ⟨button, form, -, hafter⟩ := AuthWorld.hurried_breaks (X := X) hw hact
    rw [hafter] at htwo
    exact absurd htwo (Nat.not_succ_le_self 1)

/-- A submit of Android that is hurried is one that the apps part over. -/
theorem Hurried.parts {D : Type} {white : White} {w : AuthWorld} {act : AuthAct D}
    (h : Hurried white .Android w act) : Parts white w act := by
  cases act with
  | submit button form =>
    obtain ⟨hstate, hcan⟩ := h
    simp only [Parts, hstate]
    rw [hstate] at hcan
    exact hcan
  | signOut | restored | submitted | loggedOut | call | killed => exact h

/-- The same acts bring both apps to the same state at each moment, what they show and what they
leave on the host, just where their buttons part over no form: before the restore has landed none
is filled in as Android wants it, and of a form on the screen both want the same and both trim it
to the same texts. -/
theorem the_apps_keep_step {D : Type} (X : PigeonCrypto D) (white : White) (h : Host)
    (acts : List (AuthAct D)) :
    Throughout (AuthWorld.both X white) (fun w => w.1 = w.2) (.start h, .start h) acts ↔
      ¬ Somewhere (AuthWorld.both X white) (fun w => Parts white w.1)
        (.start h, .start h) acts := by
  apply throughout_iff (I := fun w => Telling Handle.session w.1.vm ∧ w.1 = w.2)
    ⟨Telling.restoring, rfl⟩
  · rintro ⟨w, w'⟩ act ⟨hw, hsame⟩ hact
    obtain rfl : w = w' := hsame
    exact ⟨AuthWorld.tells_step hw act (fun hh => hact hh.parts), AuthWorld.same_step hw act hact⟩
  · exact fun w hw => hw.2
  · rintro ⟨w, w'⟩ act ⟨hw, hsame⟩ hact
    obtain rfl : w = w' := hsame
    exact AuthWorld.parts_breaks hw hact

/-! ## What the key store keeps of a session -/

section

variable {D : Type} {X : PigeonCrypto D}

/-- A call that keeps the handle and the session entry. -/
structure KeepsSession (c c' : Client D) : Prop where
  handle : c'.handle = c.handle
  installed : c'.key_store.isSome = c.key_store.isSome
  entry : ks_get c'.key_store SESSION_KEY .none = ks_get c.key_store SESSION_KEY .none

theorem KeepsSession.refl (c : Client D) : KeepsSession c c := ⟨rfl, rfl, rfl⟩

theorem KeepsSession.trans {c c' c'' : Client D} (h : KeepsSession c c')
    (h' : KeepsSession c' c'') : KeepsSession c c'' :=
  ⟨h'.handle.trans h.handle, h'.installed.trans h.installed, h'.entry.trans h.entry⟩

/-- Only the logout and a launch with a dead token touch the session entry: no other call of a
client does. -/
theorem perform_keeps {op : Op} (hop : op.deletesKey = false) (choice : op.Choice) (c : Client D) :
    KeepsSession c (Client.perform X op choice c).2 := by
  obtain ⟨hapi, hsession⟩ := perform_session (X := X) op choice c
  obtain ⟨hinstalled, hentry⟩ := (perform_step (X := X) hop choice c).entry
  refine ⟨?_, hinstalled, hentry⟩
  unfold Client.handle
  rw [hapi, hsession]

theorem run_keeps {α : Type} {p : Code α} (hp : p.All (fun op => op.deletesKey = false))
    (choose : (op : Op) → op.Choice) (c : Client D) :
    KeepsSession c (p.run (Client.under X choose) c).2 := by
  induction p generalizing c with
  | done a => exact KeepsSession.refl c
  | call op k ih => exact (perform_keeps hp.1 (choose op) c).trans (ih _ (hp.2 _) _)

theorem publish_deletes_nothing : publish_device_keys.All (fun op => op.deletesKey = false) := by
  refine ⟨rfl, ?_⟩
  rintro (_ | _)
  · trivial
  · refine ⟨rfl, ?_⟩
    rintro (e | kps)
    · trivial
    · exact ⟨rfl, fun _ => ⟨rfl, fun _ => ⟨rfl, fun _ => ⟨rfl, fun _ => trivial⟩⟩⟩⟩

theorem published_keeps (choose : (op : Op) → op.Choice) (c : Client D) :
    KeepsSession c (published X choose c) :=
  run_keeps publish_deletes_nothing choose c

/-- The session entry is the one of the client. -/
def SessionEntry (ks : Option KeyMap) (c : Handle) : Prop :=
  ∃ bytes token, ks_get ks SESSION_KEY .none = .ok (some bytes) ∧
    decode_session bytes = .ok (c.session, token) ∧ c.api = Api.new c.session.server (some token)

theorem SessionEntry.keeps {c c' : Client D} (h : SessionEntry c.key_store c.handle)
    (hc : KeepsSession c c') : SessionEntry c'.key_store c'.handle := by
  obtain ⟨bytes, token, hget, hdecode, hapi⟩ := h
  rw [hc.handle]
  exact ⟨bytes, token, hc.entry.trans hget, hdecode, hapi⟩

/-- A session that is resumed is the one of the entry. -/
theorem resume_entry {session : Session} {token : String} {f : SessionFaults} {h h' : Host}
    {r : Option (Client D)} {bytes : Json}
    (hget : ks_get h.key_store SESSION_KEY .none = .ok (some bytes))
    (hdecode : decode_session bytes = .ok (session, token))
    (hr : resume X session token f h = (.ok r, h')) :
    ∃ c, r = some c ∧ h' = c.host ∧ c.handle = ⟨Api.new session.server (some token), session⟩ ∧
      SessionEntry c.key_store c.handle := by
  have hentry := restore_or_mint_entry (X := X) session.user_id h.key_store f
  unfold resume at hr
  generalize restore_or_mint_e2ee X session.user_id h.key_store f = out at hr hentry
  obtain ⟨e2ee, ks⟩ := out
  rcases open_store_cases h.file f.store with ⟨reason, -, e, hopen⟩ | hopen
  · simp only [hopen] at hr
    cases hr
  · simp only [hopen] at hr
    cases hr
    exact ⟨_, rfl, rfl, rfl, bytes, token, hentry.trans hget, hdecode, rfl⟩

/-- A dead session is dropped where that gives no error. -/
theorem drop_session_entry {fault : Fault} {h h' : Host} {r : Option (Client D)}
    (hr : drop_session fault h = (.ok r, h')) :
    r = none ∧ ks_get h'.key_store SESSION_KEY .none = .ok none := by
  unfold drop_session at hr
  rcases ks_delete_cases h.key_store SESSION_KEY fault with
    ⟨-, -, e, hdelete⟩ | ⟨-, ks', hdelete, hget⟩
  · simp only [hdelete] at hr
    cases hr
  · simp only [hdelete] at hr
    cases hr
    exact ⟨rfl, (hget SESSION_KEY).trans (if_pos rfl)⟩

/-- A launch that goes on with the session shows the client of the entry. -/
theorem launch_with_entry {online : Bool} {session : Session} {token : String} {f : SessionFaults}
    {choose : (op : Op) → op.Choice} {h : Host} {r : Option (Client D)} {bytes : Json}
    (hget : ks_get h.key_store SESSION_KEY .none = .ok (some bytes))
    (hdecode : decode_session bytes = .ok (session, token))
    (hr : (launch_with X online session token f choose h).value = .ok r) :
    ∃ c, r = some c ∧ (launch_with X online session token f choose h).host = c.host ∧
      c.handle = ⟨Api.new session.server (some token), session⟩ ∧
        SessionEntry c.key_store c.handle := by
  unfold launch_with at hr ⊢
  obtain ⟨out, h', hresume⟩ : ∃ out h', resume X session token f h = (out, h') := ⟨_, _, rfl⟩
  simp only [hresume] at hr ⊢
  cases out with
  | error e => cases hr
  | ok r' =>
    obtain ⟨c, rfl, rfl, hhandle, hentry⟩ := resume_entry hget hdecode hresume
    simp only at hr ⊢
    split at hr
    · next honline =>
      rw [if_pos honline]
      cases hr
      have hkeeps := published_keeps (X := X) choose c
      exact ⟨_, rfl, rfl, hkeeps.handle.trans hhandle, hentry.keeps hkeeps⟩
    · next honline =>
      rw [if_neg honline]
      cases hr
      exact ⟨c, rfl, rfl, hhandle, hentry⟩

/-- What a launch shows is what it leaves in the key store. -/
theorem launch_entry (whoami : Except ApiError Unit) (f : SessionFaults)
    (choose : (op : Op) → op.Choice) (h : Host) {r : Option (Client D)}
    (hr : (launch X whoami f choose h).value = .ok r) :
    (r = none ∧ ks_get (launch X whoami f choose h).host.key_store SESSION_KEY .none = .ok none) ∨
      ∃ c, r = some c ∧ (launch X whoami f choose h).host = c.host ∧
        SessionEntry c.key_store c.handle := by
  have hdropped : ∀ hd : (drop_session f.session_delete h).1 = .ok r,
      r = none ∧ ks_get (drop_session (D := D) f.session_delete h).2.key_store SESSION_KEY .none =
        .ok none := fun hd => drop_session_entry (Prod.ext hd rfl)
  unfold launch at hr ⊢
  cases hsession : ks_get h.key_store SESSION_KEY f.session with
  | error e =>
    rw [hsession] at hr
    cases hr
  | ok found =>
    have hget := ks_get_reads hsession
    cases found with
    | none =>
      rw [hsession] at hr
      cases hr
      exact Or.inl ⟨rfl, hget⟩
    | some bytes =>
      cases hdecode : decode_session bytes with
      | error e =>
        simp only [hsession, hdecode] at hr
        cases hr
      | ok stored =>
        obtain ⟨session, token⟩ := stored
        simp only [hsession, hdecode] at hr ⊢
        have hresumed : ∀ online, (launch_with X online session token f choose h).value = .ok r →
            ∃ c, r = some c ∧ (launch_with X online session token f choose h).host = c.host ∧
              SessionEntry c.key_store c.handle := by
          intro online hon
          obtain ⟨c, hr, hhost, -, hentry⟩ := launch_with_entry hget hdecode hon
          exact ⟨c, hr, hhost, hentry⟩
        rcases whoami with (⟨status, code, message⟩ | reason | reason) | u
        · cases code with
          | UnknownToken | MissingToken => exact Or.inl (hdropped hr)
          | Forbidden | BadJson | NotJson | NotFound | LimitExceeded | BadSignature | Unrecognized
          | UserInUse | InvalidUsername | Unknown | Other => cases hr
        · exact Or.inr (hresumed false hr)
        · cases hr
        · exact Or.inr (hresumed true hr)

/-- A sign-in that gives a client leaves its entry. -/
theorem sign_in_entry {server : String} {answer : Except ApiError Json} {f : SessionFaults}
    {choose : (op : Op) → op.Choice} {h h' : Host} {c : Client D}
    (hr : sign_in X server answer f choose h = (.ok c, h')) :
    h' = c.host ∧ (c.key_store.isSome = true → SessionEntry c.key_store c.handle) := by
  unfold sign_in login at hr
  cases hauth : answer.bind parse_auth with
  | error err =>
    rw [hauth] at hr
    cases hr
  | ok auth =>
    simp only [hauth, finish_login] at hr
    rcases ks_put_cases h.key_store SESSION_KEY
      (encode_session ⟨auth.user_id, auth.device_id, server⟩ auth.access_token) f.session with
      ⟨-, e, hput⟩ | ⟨b, ks₁, hput, -, hown, hinstalled⟩
    · simp only [hput] at hr
      cases hr
    · simp only [hput] at hr
      rcases open_store_cases h.file f.store with ⟨reason, -, e, hopen⟩ | hopen
      · simp only [hopen] at hr
        cases hr
      · simp only [hopen] at hr
        obtain ⟨hminted, hentry⟩ := mint_entry (X := X) auth.user_id ks₁ f.mls_put
        generalize mint_e2ee X auth.user_id ks₁ f.mls_put = out at hr hminted hentry
        obtain ⟨e2ee, ks₂⟩ := out
        cases hr
        refine ⟨rfl, ?_⟩
        intro hsome
        have hkeeps := published_keeps (X := X) choose ⟨(Api.new server none).set_token
          (some auth.access_token), ⟨auth.user_id, auth.device_id, server⟩, h.file, e2ee, ks₂⟩
        have hstarted : h.key_store.isSome = true := by
          rw [← hinstalled, ← hminted]
          exact hkeeps.installed.symm.trans hsome
        refine SessionEntry.keeps ⟨_, auth.access_token, hentry.trans (hown hstarted).2, ?_, rfl⟩
          hkeeps
        exact decode_encode_session _ _

/-- A logout with no error leaves no entry. -/
theorem logout_entry {choose : (op : Op) → op.Choice} {c c' : Client D}
    (hr : logout.run (Client.under X choose) c = (.ok (), c')) :
    ks_get c'.key_store SESSION_KEY .none = .ok none := by
  simp only [logout, Prog.run_call, Client.under, Client.perform] at hr
  rcases ks_delete_cases c.key_store SESSION_KEY (choose (.ks_delete SESSION_KEY)) with
    ⟨-, -, e, hdelete⟩ | ⟨-, ks₁, hdelete, hget₁⟩
  · simp only [hdelete] at hr
    cases hr
  · simp only [hdelete, Prog.run_call, Client.under, Client.perform] at hr
    rcases ks_delete_cases ks₁ MLS_STATE_KEY (choose (.ks_delete MLS_STATE_KEY)) with
      ⟨-, -, e, hdelete'⟩ | ⟨-, ks₂, hdelete', hget₂⟩
    · simp only [hdelete'] at hr
      cases hr
    · simp only [hdelete'] at hr
      cases hr
      rw [hget₂, if_neg (by decide), hget₁, if_pos rfl]

/-- A launch that goes on with the entry gives its client. -/
theorem launch_of_entry (choose : (op : Op) → op.Choice) {whoami : Except ApiError Unit}
    {online : Bool} {f : SessionFaults} {h : Host} {c : Handle}
    (hentry : SessionEntry h.key_store c)
    (hcalm : f.session.onKeys = false) (hopens : ∀ reason, f.store ≠ .db reason)
    (hlive : Resumes whoami online) :
    ∃ c', (launch X whoami f choose h).value = .ok (some c') ∧ c'.handle = c := by
  obtain ⟨bytes, token, hget, hdecode, hapi⟩ := hentry
  have hsession : ks_get h.key_store SESSION_KEY f.session = .ok (some bytes) :=
    (ks_get_calm _ _ hcalm).trans hget
  have hlaunch : launch X whoami f choose h = launch_with X online c.session token f choose h := by
    unfold launch
    simp only [hsession, hdecode]
    cases hlive <;> rfl
  have hvalue : ∃ r, (launch_with X online c.session token f choose h).value = .ok r := by
    unfold launch_with resume
    rcases open_store_cases h.file f.store with ⟨reason, hstore, -⟩ | hopen
    · exact absurd hstore (hopens reason)
    · simp only [hopen]
      split <;> exact ⟨_, rfl⟩
  obtain ⟨r, hr⟩ := hvalue
  obtain ⟨c', rfl, -, hhandle, -⟩ := launch_with_entry hget hdecode hr
  refine ⟨c', by rw [hlaunch, hr], hhandle.trans ?_⟩
  rw [← hapi]

end

/-- Nothing is under way, and nothing has failed. -/
def AuthState.Quiet {C : Type} : AuthState C → Prop
  | .SignedOut none => True
  | .SignedIn _ _ false none => True
  | _ => False

namespace AuthWorld

variable {D : Type} (X : PigeonCrypto D) (white : White) (p : Platform)

/-- A form with no error has no entry behind it, a session with no error has its own. -/
def Kept (w : AuthWorld) : Prop :=
  match w.vm.state with
  | .SignedOut none => ks_get w.host.key_store SESSION_KEY .none = .ok none
  | .SignedIn _ c false none => w.host.key_store.isSome = true → SessionEntry w.host.key_store c
  | _ => True

/-- The process is killed, and the next launch lands. -/
def relaunched (l : LaunchInput D) (w : AuthWorld) : AuthWorld :=
  (w.step X white p (.killed w.host)).step X white p (.restored 0 l)

variable {X white p} {w : AuthWorld}

theorem kept_step (htells : Telling Handle.session w.vm) (h : Kept w) (act : AuthAct D)
    (hact : ¬ Hurried white p w act) : Kept (w.step X white p act) := by
  obtain ⟨vm, host⟩ := w
  cases act with
  | submit button form =>
    simp only [step]
    split
    · next hcan =>
      cases htells with
      | restoring => exact absurd ⟨rfl, hcan⟩ hact
      | signedOut error => trivial
      | submitting | signedIn | signingOut => cases hcan
    · exact h
  | signOut =>
    cases htells with
    | signedIn c error => trivial
    | restoring | signedOut | submitting | signingOut => exact h
  | restored i l =>
    cases htells with
    | restoring =>
      cases i with
      | zero =>
        have hland := fun r =>
          launch_entry (X := { X with new := l.new }) (r := r) l.whoami l.faults l.calls host
        simp only [step, without, List.getElem?_cons_zero, LaunchInput.run]
        generalize launch { X with new := l.new } l.whoami l.faults l.calls host = out at hland ⊢
        obtain ⟨value, host', minted, offered⟩ := out
        cases value with
        | error e => trivial
        | ok r =>
          rcases hland r rfl with ⟨rfl, hnone⟩ | ⟨c, rfl, hhost, hentry⟩
          · exact hnone
          · obtain rfl : host' = c.host := hhost
            exact fun _ => hentry
      | succ i => exact h
    | signedOut | signedIn => exact h
    | submitting | signingOut => cases i <;> exact h
  | submitted i answer f calls new =>
    cases htells with
    | submitting button form =>
      cases i with
      | zero =>
        obtain ⟨r, host', hout⟩ : ∃ r host',
            sign_in { X with new } form.server answer f calls host = (r, host') := ⟨_, _, rfl⟩
        simp only [step, without, List.getElem?_cons_zero, hout]
        cases r with
        | error e => trivial
        | ok c =>
          obtain ⟨rfl, hentry⟩ := sign_in_entry hout
          exact hentry
      | succ i => exact h
    | signedOut | signedIn => exact h
    | restoring | signingOut => cases i <;> exact h
  | loggedOut i e2ee calls =>
    cases htells with
    | signingOut c =>
      cases i with
      | zero =>
        obtain ⟨r, c', hout⟩ : ∃ r c', PigeonMobile.logout.run (Client.under X calls)
            (c.on e2ee host) = (r, c') := ⟨_, _, rfl⟩
        simp only [step, without, List.getElem?_cons_zero, hout]
        cases r with
        | error e => trivial
        | ok u => exact logout_entry hout
      | succ i => exact h
    | signedOut | signedIn => exact h
    | restoring | submitting => cases i <;> exact h
  | call c e2ee op choice =>
    simp only [step]
    split
    · exact h
    · next hop =>
      obtain ⟨-, hinstalled, hentry⟩ := perform_keeps (X := X) (Bool.eq_false_iff.mpr hop) choice
        (c.on e2ee host)
      have hsame : (c.on e2ee host).key_store = host.key_store := rfl
      rw [hsame] at hinstalled hentry
      cases htells with
      | restoring | submitting | signingOut => trivial
      | signedOut error =>
        cases error with
        | none => exact hentry.trans h
        | some e => trivial
      | signedIn c' error =>
        cases error with
        | none =>
          intro hsome
          obtain ⟨bytes, token, hget, hrest⟩ := h (hinstalled.symm.trans hsome)
          exact ⟨bytes, token, hentry.trans hget, hrest⟩
        | some e => trivial
  | killed host' => trivial

theorem kept_run {h : Host} {acts : List (AuthAct D)}
    (hacts : ¬ Somewhere (step X white p) (Hurried white p) (start h) acts) :
    Telling Handle.session (run X white p h acts).vm ∧ Kept (run X white p h acts) := by
  have hkept : Throughout (step X white p) (fun w => Telling Handle.session w.vm ∧ Kept w) (start h)
      acts :=
    throughout_of_good ⟨.restoring, trivial⟩
      (fun w act hw hact => ⟨tells_step hw.1 act hact, kept_step hw.1 hw.2 act hact⟩) hacts
  exact hkept.last

end AuthWorld

/-- Where nothing is under way and nothing has failed, what the app shows outlasts the process: a
launch that the stores and the server let through shows the same again, the form or the very same
session. -/
theorem a_relaunch_shows_the_same {D : Type} (X : PigeonCrypto D) (white : White) (p : Platform)
    (h : Host) (acts : List (AuthAct D)) (l : LaunchInput D) (online : Bool)
    (hacts : ¬ Somewhere (AuthWorld.step X white p) (Hurried white p) (.start h) acts)
    (hinstalled : (AuthWorld.run X white p h acts).host.key_store.isSome = true)
    (hquiet : (AuthWorld.run X white p h acts).vm.state.Quiet)
    (hcalm : l.faults.session.onKeys = false)
    (hopens : ∀ reason, l.faults.store ≠ .db reason) (hlive : Resumes l.whoami online) :
    ((AuthWorld.run X white p h acts).relaunched X white p l).vm =
    (AuthWorld.run X white p h acts).vm := by
  obtain ⟨htells, hkept⟩ := AuthWorld.kept_run hacts
  generalize AuthWorld.run X white p h acts = w at htells hkept hinstalled hquiet ⊢
  obtain ⟨vm, host⟩ := w
  have hvm : ∀ value, (l.run X host).value = .ok value →
      (AuthWorld.relaunched X white p l ⟨vm, host⟩).vm =
        (⟨.Restoring, none, []⟩ : AuthViewModel Handle).restored p Handle.session
          (.ok (value.map Client.handle)) := by
    intro value hvalue
    simp only [AuthWorld.relaunched, AuthWorld.step, AuthWorld.start, AuthViewModel.init,
      AuthWorld.without, List.getElem?_cons_zero, List.eraseIdx_zero, List.tail_cons, hvalue]
    rfl
  cases htells with
  | restoring | submitting | signingOut => exact absurd hquiet id
  | signedOut error =>
    cases error with
    | some e => exact absurd hquiet id
    | none =>
      have hsession := (ks_get_calm host.key_store SESSION_KEY hcalm).trans hkept
      have hvalue : (l.run X host).value = .ok none := by
        unfold LaunchInput.run launch
        rw [hsession]
      rw [hvm none hvalue]
      rfl
  | signedIn c error =>
    cases error with
    | some e => exact absurd hquiet id
    | none =>
      obtain ⟨c', hvalue, rfl⟩ := launch_of_entry (X := { X with new := l.new }) l.calls
        (hkept hinstalled) hcalm hopens hlive
      rw [hvm (some c') hvalue]
      rfl

def carolForm : AuthForm := ⟨" https://pigeon.example", "carol", "secret"⟩

/-- Carol signs in on a new phone. -/
def carolActs : List (AuthAct String) :=
  [.restored 0 (calmLaunch (.ok ())), .submit .login carolForm,
    .submitted 0 (.ok (.obj [("user_id", .str "@carol:pigeon.example"), ("device_id", .str "phone"),
      ("access_token", .str "token")])) calmly Client.calm (fun _ => .ok "second")]

/-- Both platforms trim blanks. -/
def blanks : White := fun _ c => c == ' '

theorem a_relaunch_shows_the_same_carol :
    ((AuthWorld.run labelCrypto blanks .Ios freshHost carolActs).relaunched labelCrypto blanks .Ios
      (calmLaunch (.ok ()))).vm = (AuthWorld.run labelCrypto blanks .Ios freshHost carolActs).vm :=
  a_relaunch_shows_the_same labelCrypto blanks .Ios freshHost carolActs (calmLaunch (.ok ())) true
    (AuthWorld.Ios_run_never_hurries freshHost carolActs) rfl trivial rfl (fun _ => nofun) .accepted

end PigeonMobile
