-- How an HTTP exchange becomes a result (`api.rs`): what a header keeps of a text, the response or
-- the lack of one, the body as far as it came, and the error that a status and a body make.
import PigeonMobile.Client
import Mathlib.Data.List.DropRight
import Mathlib.Data.List.TakeWhile

namespace PigeonMobile

/-! ## Headers -/

/-- A text without the white space at its ends: `trim()` of Kotlin, `trimmed` of Swift. -/
def trimmed (white : Char → Bool) (s : String) : String :=
  String.ofList ((s.toList.dropWhile white).rdropWhile white)

/-- Of the control characters only a tab may stand in a header. -/
def isHeaderChar (c : Char) : Bool := c = '\t' || (decide (' ' ≤ c) && c ≠ Char.ofNat 0x7f)

def isHeaderBlank (c : Char) : Bool := c = ' ' || c = '\t'

/-- The value of a header as it comes in: the blanks at its ends are no part of it. With a character
that may not stand there the request is not built. -/
def headerValue (text : String) : Option String :=
  if text.toList.all isHeaderChar then some (trimmed isHeaderBlank text) else none

/-- A text that a header keeps as it is. -/
structure HeaderText (text : String) : Prop where
  allowed : ∀ c ∈ text.toList, isHeaderChar c = true
  starts : ∀ c ∈ text.toList.head?, isHeaderBlank c = false
  ends : ∀ c ∈ text.toList.getLast?, isHeaderBlank c = false

theorem dropWhile_self_iff {p : Char → Bool} {l : List Char} :
    l.dropWhile p = l ↔ ∀ c ∈ l.head?, p c = false := by
  rw [List.dropWhile_eq_self_iff]
  cases l <;> simp

theorem rdropWhile_self_iff {p : Char → Bool} {l : List Char} :
    l.rdropWhile p = l ↔ ∀ c ∈ l.getLast?, p c = false := by
  rw [List.rdropWhile_eq_self_iff]
  constructor
  · intro h c hc
    obtain ⟨hne, rfl⟩ := List.mem_getLast?_eq_getLast hc
    exact Bool.eq_false_iff.mpr (h hne)
  · intro h hne
    exact Bool.eq_false_iff.mp (h _ (List.getLast?_eq_getLast_of_ne_nil hne))

theorem trimmed_self_iff {white : Char → Bool} {s : String} :
    trimmed white s = s ↔
      (∀ c ∈ s.toList.head?, white c = false) ∧ ∀ c ∈ s.toList.getLast?, white c = false := by
  have htext : trimmed white s = s ↔ (s.toList.dropWhile white).rdropWhile white = s.toList := by
    rw [← String.toList_inj, trimmed, String.toList_ofList]
  rw [htext, ← dropWhile_self_iff, ← rdropWhile_self_iff]
  constructor
  · intro h
    -- neither end loses anything, as both only take away
    have hstart : s.toList.dropWhile white = s.toList := by
      apply (List.dropWhile_sublist white).eq_of_length_le
      have hkept := (List.rdropWhile_prefix white (l := s.toList.dropWhile white)).length_le
      rwa [h] at hkept
    rw [hstart] at h
    exact ⟨hstart, h⟩
  · rintro ⟨hstart, hend⟩
    rw [hstart, hend]

theorem headerValue_iff (text : String) : headerValue text = some text ↔ HeaderText text := by
  unfold headerValue
  split
  · next hall =>
    rw [Option.some.injEq, trimmed_self_iff]
    exact ⟨fun h => ⟨List.all_eq_true.mp hall, h.1, h.2⟩, fun h => ⟨h.starts, h.ends⟩⟩
  · next hall =>
    constructor
    · intro h
      cases h
    · exact fun h => absurd (List.all_eq_true.mpr h.allowed) hall

/-! ## What comes back -/

/-- The body of a response. -/
inductive Body where
  | json (value : Json)
  /-- read to its end, and no JSON -/
  | garbled
  /-- the transfer fails before its end -/
  | cut

/-- `resp.json().await.unwrap_or(Value::Null)`. -/
def Body.value : Body → Json
  | .json value => value
  | .garbled => .null
  | .cut => .null

inductive HttpOutcome where
  /-- no response: DNS, TLS, connection or timeout -/
  | failed (reason : String)
  | response (status : Nat) (body : Body)

def is_success (status : Nat) : Bool := decide (200 ≤ status ∧ status < 300)

/-- The `errcode` of a body. -/
def Body.errcode (body : Body) : Option String := (body.value.index "errcode").as_str

/-- A missing or garbled body falls back to the code `Unknown`. -/
def parse_error (status : Nat) (body : Body) : ApiError :=
  .Server status ((body.errcode.map ErrorCode.from_wire).getD .Unknown)
    ((body.value.index "error").as_str.getD "(no error message)")

/-- A required string field of a body. -/
def json_string (body : Json) (key : String) : Except ApiError String :=
  match (body.index key).as_str with
  | some s => .ok s
  | none => .error (.Malformed s!"response missing string field `{key}`")

namespace Api

/-- Only the status tells success from failure. -/
def send : HttpOutcome → Except ApiError Json
  | .failed reason => .error (.Network reason)
  | .response status body =>
    if is_success status then .ok body.value else .error (parse_error status body)

def sync (o : HttpOutcome) : Except ApiError Json := send o

def whoami (o : HttpOutcome) : Except ApiError Json := send o

def send_event (o : HttpOutcome) : Except ApiError String :=
  (send o).bind (fun resp => json_string resp "event_id")

end Api

/-! ## Which failures are transient -/

/-- A code of the server: `P_*`. -/
def PigeonCode (code : String) : Prop := ∃ rest, code = "P_" ++ rest

theorem from_wire_limit {code : String} :
    ErrorCode.from_wire code = .LimitExceeded ↔ code = "P_LIMIT_EXCEEDED" := by
  unfold ErrorCode.from_wire
  constructor
  · intro h
    split at h <;> first | rfl | cases h
  · rintro rfl
    rfl

/-- Of the answers with an error status, a client waits only on a rate limit that says so. -/
theorem parse_error_transient {status : Nat} {body : Body} :
    (parse_error status body).is_transient = true ↔ body.errcode = some "P_LIMIT_EXCEEDED" := by
  unfold parse_error
  cases hcode : body.errcode with
  | none => simp [ApiError.is_transient]
  | some code =>
    have hlimit := @from_wire_limit code
    simp only [Option.map_some, Option.getD_some, Option.some.injEq]
    rw [← hlimit]
    cases ErrorCode.from_wire code <;> simp [ApiError.is_transient]

end PigeonMobile
