-- The `/sync` loop (`sync.rs`). One round is a program; the loop is any number of
-- rounds, each with the backoff that the round before it left.
import PigeonMobile.Rooms

namespace PigeonMobile

/-- Every joined room's timeline, in one batch. -/
def syncEvents (resp : Json) : List Json :=
  match ((resp.index "rooms").index "join").as_object with
  | some join => join.flatMap (fun room =>
      (((room.2.index "timeline").index "events").as_array).getD [])
  | none => []

def apply_sync (resp : Json) : Code (Except CoreError Bool) :=
  .call (.apply_events (syncEvents resp)) fun
  | .error e => .done (.error e)
  | .ok inserted => .done (.ok (decide (inserted > 0)))

/-- A Welcome of a to-device block: its base64, and the room it says it is for. -/
structure WelcomeEvent where
  welcome_b64 : String
  room_id : Option String

/-- The Welcome that a to-device event carries, if it is one. -/
def welcomeOf (ev : Json) : Option WelcomeEvent :=
  if (ev.index "type").as_str = some "p.mls.welcome" then
    ((ev.index "content").index "welcome").as_str.map (fun welcome_b64 =>
      ⟨welcome_b64, ((ev.index "content").index "room_id").as_str⟩)
  else none

def join_group (welcome_b64 : String) : Code Bool :=
  .call (.join_from_welcome welcome_b64) fun
  | .ok () => .done true
  | .error _ => .done false

/-- One Welcome; whether it joined a group. No error leaves it. -/
def apply_welcome (w : WelcomeEvent) : Code Bool :=
  match w.room_id with
  | none => join_group w.welcome_b64
  | some room => .call (.has_group room) fun
    | .ok true => .done false
    | .ok false => join_group w.welcome_b64
    | .error _ => .done false

def apply_welcomes : List WelcomeEvent → Bool → Code Bool
  | [], joined => .done joined
  | w :: rest, joined => (apply_welcome w).bind fun joined' =>
    apply_welcomes rest (joined || joined')

/-- The Welcomes of a response, in order. -/
def syncWelcomes (resp : Json) : List WelcomeEvent :=
  (((resp.index "to_device").index "events").as_array.getD []).filterMap welcomeOf

def apply_to_device (resp : Json) : Code Bool :=
  match ((resp.index "to_device").index "events").as_array with
  | none => .done false
  | some events => .call .e2ee fun
    | false => .done false
    | true => apply_welcomes (events.filterMap welcomeOf) false

def persist_sync_token (resp : Json) : Code (Except CoreError Unit) :=
  match (resp.index "next_batch").as_str with
  | some next => .call (.save_sync_token next) fun
    | .error e => .done (.error e)
    | .ok () => .done (.ok ())
  | none => .done (.ok ())

def BACKOFF_START : Nat := 1
def BACKOFF_MAX : Nat := 30

def notify (changed : Bool) : Code (Except CoreError Nat) :=
  .call (.on_status true) fun _ =>
  if changed then .call .on_change fun _ => .done (.ok BACKOFF_START)
  else .done (.ok BACKOFF_START)

/-- The success branch of a round. The token is saved after the Welcomes. -/
def sync_success (resp : Json) : Code (Except CoreError Nat) :=
  (apply_sync resp).andThen fun applied =>
  (apply_to_device resp).bind fun joined =>
  (persist_sync_token resp).andThen fun _ =>
  process_inbound_mls.andThen fun mls_changed =>
  flush_pending.andThen fun flushed =>
  notify (applied || joined || mls_changed || flushed)

/-- One round of the loop, and the backoff for the next one. -/
def sync_round (backoff : Nat) : Code (Except CoreError Nat) :=
  .call .load_sync_token fun
  | .error e => .done (.error e)
  | .ok since => .call (.api_sync since) fun
    | .ok resp => sync_success resp
    | .error err =>
      if err.is_transient then
        .call (.on_status false) fun _ => .call (.sleep backoff) fun _ =>
        .done (.ok (min (backoff * 2) BACKOFF_MAX))
      else .done (.error err.toCore)

/-- The loop, for as many rounds as it is given. -/
def run_sync : Nat → Nat → Code (Except CoreError Nat)
  | 0, backoff => .done (.ok backoff)
  | rounds + 1, backoff => (sync_round backoff).andThen fun backoff' => run_sync rounds backoff'

/-! ## The calls of a round -/

/-- The calls that the Welcomes of a response make. -/
def Op.ofWelcomes : Op → Bool
  | .e2ee => true
  | .has_group _ => true
  | .join_from_welcome _ => true
  | _ => false

theorem join_group_calls (welcome_b64 : String) :
    (join_group welcome_b64).All (fun op => op.ofWelcomes = true) := by
  refine ⟨rfl, fun r => ?_⟩
  cases r <;> trivial

theorem apply_welcome_calls (w : WelcomeEvent) :
    (apply_welcome w).All (fun op => op.ofWelcomes = true) := by
  obtain ⟨welcome_b64, room_id⟩ := w
  cases room_id with
  | none => exact join_group_calls welcome_b64
  | some room =>
    refine ⟨rfl, fun r => ?_⟩
    rcases r with e | _ | _
    · trivial
    · exact join_group_calls welcome_b64
    · trivial

theorem apply_welcomes_calls (ws : List WelcomeEvent) (joined : Bool) :
    (apply_welcomes ws joined).All (fun op => op.ofWelcomes = true) := by
  induction ws generalizing joined with
  | nil => trivial
  | cons w rest ih => exact Prog.All.bind (apply_welcome_calls w) (fun joined' =>
    ih (joined || joined'))

theorem apply_to_device_calls (resp : Json) :
    (apply_to_device resp).All (fun op => op.ofWelcomes = true) := by
  unfold apply_to_device
  cases ((resp.index "to_device").index "events").as_array with
  | none => trivial
  | some events =>
    refine ⟨rfl, fun r => ?_⟩
    cases r with
    | false => trivial
    | true => exact apply_welcomes_calls _ false

theorem apply_welcomes_append (ws vs : List WelcomeEvent) (joined : Bool) :
    apply_welcomes (ws ++ vs) joined =
      (apply_welcomes ws joined).bind (fun joined' => apply_welcomes vs joined') := by
  induction ws generalizing joined with
  | nil => rfl
  | cons w rest ih =>
    simp only [List.cons_append, apply_welcomes, Prog.bind_assoc]
    congr 1
    funext joined'
    exact ih (joined || joined')

/-- The calls of a round once it has its response. -/
def Op.ofSuccess : Op → Bool
  | .apply_events _ => true
  | .save_sync_token _ => true
  | .on_status _ => true
  | .on_change => true
  | op => op.ofWelcomes || op.ofPass || op.ofFlush

theorem apply_sync_calls (resp : Json) :
    (apply_sync resp).All (fun op => op = .apply_events (syncEvents resp)) := by
  refine ⟨rfl, fun r => ?_⟩
  cases r <;> trivial

theorem persist_sync_token_calls (resp : Json) :
    (persist_sync_token resp).All (fun op => op.ofSuccess = true) := by
  unfold persist_sync_token
  cases (resp.index "next_batch").as_str with
  | none => trivial
  | some next =>
    refine ⟨rfl, fun r => ?_⟩
    cases r <;> trivial

theorem notify_calls (changed : Bool) : (notify changed).All (fun op => op.ofSuccess = true) := by
  cases changed with
  | false => exact ⟨rfl, fun _ => trivial⟩
  | true => exact ⟨rfl, fun _ => ⟨rfl, fun _ => trivial⟩⟩

theorem sync_success_calls (resp : Json) :
    (sync_success resp).All (fun op => op.ofSuccess = true) := by
  have hsuccess : ∀ op : Op, op.ofWelcomes = true ∨ op.ofPass = true ∨ op.ofFlush = true →
      op.ofSuccess = true := by
    intro op hop
    cases op <;> simp_all [Op.ofSuccess, Op.ofWelcomes, Op.ofPass, Op.ofFlush]
  apply Prog.All.andThen
  · apply (apply_sync_calls resp).mono
    rintro op rfl
    rfl
  intro applied
  apply Prog.All.bind ((apply_to_device_calls resp).mono (fun op h => hsuccess op (Or.inl h)))
  intro joined
  apply Prog.All.andThen (persist_sync_token_calls resp)
  intro _
  apply Prog.All.andThen (pass_calls.mono (fun op h => hsuccess op (Or.inr (Or.inl h))))
  intro mls_changed
  apply Prog.All.andThen (flush_calls.mono (fun op h => hsuccess op (Or.inr (Or.inr h))))
  intro flushed
  exact notify_calls _

end PigeonMobile
