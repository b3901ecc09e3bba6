-- The epoch model of `pigeon-crypto`: a group copy is an epoch. It is what the
-- documentation of MLS promises of the missing crate, as laws on the parameter
-- `X`, and one engine that computes and keeps them.
import PigeonMobile.Client

namespace PigeonMobile

/-- The laws. `epoch d room` is the epoch of the copy that `d` has of the group of
`room`. A commit, a message and a Welcome each belong to one epoch. -/
structure EpochModel {D : Type} (X : PigeonCrypto D) where
  epoch : D → String → Option Nat
  commitEpoch : String → String → Option Nat
  messageEpoch : String → String → Option Nat
  plaintext : String → String → String
  load_group : ∀ d room, X.load_group d room = (epoch d room).isSome
  /-- A commit made at epoch `e` applies to a copy at `e` and moves it to `e + 1`. -/
  commit_applies : ∀ d room commit e, epoch d room = some e → commitEpoch room commit = some e →
    ∃ d', X.process_commit d room commit = .ok d' ∧
      ∀ r, epoch d' r = if r = room then some (e + 1) else epoch d r
  commit_refused : ∀ d room commit, commitEpoch room commit ≠ epoch d room →
    ∃ reason, X.process_commit d room commit = .error reason
  /-- A message sent at epoch `e` is read by a copy at `e`, and moves no epoch. -/
  message_reads : ∀ d room ct e, epoch d room = some e → messageEpoch room ct = some e →
    ∃ d', X.decrypt d room ct = .ok (d', some (plaintext room ct)) ∧ ∀ r, epoch d' r = epoch d r
  message_refused : ∀ d room ct, messageEpoch room ct ≠ epoch d room →
    ∃ reason, X.decrypt d room ct = .error reason
  /-- `add_member` at epoch `e` makes the commit of `e`, moves its author to `e + 1`,
  and the Welcome gives a device with no copy the epoch `e + 1`. -/
  add_member_moves : ∀ d room kp d' welcome commit,
    X.add_member d room kp = .ok (d', welcome, commit) → ∃ e, epoch d room = some e ∧
      commitEpoch room commit = some e ∧
      (∀ r, epoch d' r = if r = room then some (e + 1) else epoch d r) ∧
      ∀ j, epoch j room = none → ∃ j', X.join_from_welcome j welcome = .ok j' ∧
        ∀ r, epoch j' r = if r = room then some (e + 1) else epoch j r

/-! ## An engine that keeps the laws -/

/-- The group copies of a device, each with its epoch. -/
abbrev Copies := Table (Prod.fst : String × Nat → String)

namespace Copies

def epoch (d : Copies) (room : String) : Option Nat := (d.find room).map (·.2)

def set (d : Copies) (room : String) (e : Nat) : Copies := Table.upsert d (room, e) (fun _ => true)

theorem epoch_set (d : Copies) (room r : String) (e : Nat) :
    (d.set room e).epoch r = if r = room then some e else d.epoch r := by
  unfold epoch set
  rw [Table.find_upsert]
  by_cases h : room = r
  · subst h
    simp only [if_true]
    cases d.find room <;> rfl
  · simp only [h, if_false, Ne.symm h]

end Copies

/-- A payload of epoch `e`: the epoch in unary, then the text. -/
def epochText (e : Nat) (text : String) : String :=
  String.ofList (List.replicate e 'e' ++ ' ' :: text.toList)

def epochOf (s : String) : Nat := (s.toList.takeWhile (fun c => decide (c = 'e'))).length

def textOf (s : String) : String :=
  String.ofList ((s.toList.dropWhile (fun c => decide (c = 'e'))).drop 1)

theorem epochOf_epochText (e : Nat) (text : String) : epochOf (epochText e text) = e := by
  unfold epochOf epochText
  simp

theorem textOf_epochText (e : Nat) (text : String) : textOf (epochText e text) = text := by
  have h : (List.replicate e 'e' ++ ' ' :: text.toList).dropWhile (fun c => decide (c = 'e')) =
      ' ' :: text.toList := by simp
  unfold textOf epochText
  rw [String.toList_ofList, h]
  simp

/-- An engine with epochs and nothing else. A commit, a message and a Welcome are
texts of their epoch. -/
def epochCrypto : PigeonCrypto Copies where
  new _ := .ok Table.empty
  load_group d room := (d.epoch room).isSome
  create_group d room := .ok (d.set room 0)
  add_member d room _ :=
    match d.epoch room with
    | some e => .ok (d.set room (e + 1), epochText (e + 1) room, epochText e room)
    | none => .error "no group"
  process_commit d room commit :=
    if d.epoch room = some (epochOf commit) then .ok (d.set room (epochOf commit + 1))
    else .error "wrong epoch"
  join_from_welcome d welcome := .ok (d.set (textOf welcome) (epochOf welcome))
  encrypt d room plaintext :=
    match d.epoch room with
    | some e => .ok (d, epochText e plaintext)
    | none => .error "no group"
  decrypt d room ciphertext :=
    if d.epoch room = some (epochOf ciphertext) then .ok (d, some (textOf ciphertext))
    else .error "wrong epoch"
  new_key_packages d n := .ok (d, List.replicate n "key-package")
  new_last_resort_key_package d := .ok (d, "key-package")
  signature_public_key _ := "key"
  export_storage _ := ""
  restore _ _ _ := .error "not stored"

def epochModel : EpochModel epochCrypto where
  epoch := Copies.epoch
  commitEpoch _ commit := some (epochOf commit)
  messageEpoch _ ciphertext := some (epochOf ciphertext)
  plaintext _ ciphertext := textOf ciphertext
  load_group _ _ := rfl
  commit_applies d room commit e he hc := by
    obtain rfl : epochOf commit = e := by simpa using hc
    refine ⟨d.set room (epochOf commit + 1), ?_, fun r => Copies.epoch_set d room r _⟩
    simp [epochCrypto, he]
  commit_refused d room commit h := by
    refine ⟨"wrong epoch", ?_⟩
    simp [epochCrypto, Ne.symm h]
  message_reads d room ct e he hc := by
    obtain rfl : epochOf ct = e := by simpa using hc
    refine ⟨d, ?_, fun r => rfl⟩
    simp [epochCrypto, he]
  message_refused d room ct h := by
    refine ⟨"wrong epoch", ?_⟩
    simp [epochCrypto, Ne.symm h]
  add_member_moves d room kp d' welcome commit h := by
    simp only [epochCrypto] at h
    cases he : d.epoch room with
    | none => rw [he] at h; cases h
    | some e =>
      rw [he] at h
      cases h
      refine ⟨e, rfl, by rw [epochOf_epochText], fun r => Copies.epoch_set d room r _, ?_⟩
      intro j _
      refine ⟨j.set room (e + 1), ?_, fun r => Copies.epoch_set j room r _⟩
      simp only [epochCrypto, epochOf_epochText, textOf_epochText]

/-- A client after its login: an engine with no group, and an empty store. -/
def freshClient : Client Copies :=
  { api := ⟨"https://pigeon.example", some "token"⟩
    session := ⟨"@ann:pigeon.example", "ANN1", "pigeon.example"⟩
    store := Store.init
    e2ee := some Table.empty
    key_store := some Table.empty }

/-- A client that holds the group of `!room`. -/
def memberClient : Client Copies :=
  { freshClient with e2ee := some (Copies.set Table.empty "!room" 0) }

end PigeonMobile
