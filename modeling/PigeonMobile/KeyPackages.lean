-- The key packages of all phones: `publish_device_keys` puts them into the key directory, and an
-- `invite` claims one of each device and adds it to the group. Any number of phones invite and
-- publish at once, and any call may be cut off; still no one-time package is ever added twice.
import PigeonMobile.ClientConduct
import PigeonMobile.DeviceKeys
import PigeonMobile.EpochGroup
import PigeonMobile.Spending

namespace PigeonMobile

/-- The one-time packages among some; the others are last resorts. -/
def pool (oneTime : String → Bool) (packages : List String) : Multiset String :=
  Multiset.ofList (packages.filter oneTime)

theorem pool_append (oneTime : String → Bool) (as bs : List String) :
    pool oneTime (as ++ bs) = pool oneTime as + pool oneTime bs := by
  simp [pool, List.filter_append]

theorem pool_cons (oneTime : String → Bool) (a : String) (bs : List String) :
    pool oneTime (a :: bs) = pool oneTime [a] + pool oneTime bs := pool_append oneTime [a] bs

/-- An upload takes the packages that were made for it, and an `add_member` the one that was
claimed. -/
def keyEconomy (oneTime : String → Bool) : Economy Op Op.Res String where
  spends
    | .api_upload_keys _ _ kps _ => pool oneTime kps
    | .add_member _ key_package_b64 => pool oneTime [key_package_b64]
    | _ => 0
  gains
    | .key_packages _, .ok kps => pool oneTime kps
    | .api_claim_keys _ _, .ok (some key_package_b64) => pool oneTime [key_package_b64]
    | _, _ => 0

/-- The phones, and the packages: on offer in the directory or on their way to it, handed to an
`add_member`, and all that have been made. -/
structure KeyWorld (D : Type) where
  clients : Nat → Client D
  offered : Multiset String
  used : Multiset String
  made : Set String

variable {D : Type}

namespace KeyWorld

def out (w : KeyWorld D) : Multiset String := w.offered + w.used

/-- The packages beside those on offer. -/
structure Leaves (w w' : KeyWorld D) : Prop where
  used : w'.used = w.used
  made : w'.made = w.made

end KeyWorld

/-- The engine makes packages that have never been, the directory gets what is uploaded, or a part
of it, and gives a one-time package away with its claim. An answer may be lost. -/
def Traded (oneTime : String → Bool) : (op : Op) → KeyWorld D → op.Res → KeyWorld D → Prop
  | .key_packages _, w, .ok kps, w' => w'.offered = w.offered ∧ w'.used = w.used ∧
    (pool oneTime kps).Nodup ∧ (∀ kp ∈ pool oneTime kps, kp ∉ w.made) ∧
    w'.made = w.made ∪ {kp | kp ∈ pool oneTime kps}
  | .api_upload_keys _ _ kps _, w, _, w' => w.Leaves w' ∧ w'.offered ≤ w.offered + pool oneTime kps
  | .api_claim_keys _ _, w, .ok (some kp), w' =>
    w.Leaves w' ∧ w'.offered + pool oneTime [kp] ≤ w.offered
  | .api_claim_keys _ _, w, _, w' => w.Leaves w' ∧ w'.offered ≤ w.offered
  | .add_member _ kp, w, _, w' => w'.offered = w.offered ∧ w'.used = w.used + pool oneTime [kp] ∧
    w'.made = w.made
  | _, w, _, w' => w.Leaves w' ∧ w'.offered = w.offered

/-- The calls that deal in no package. -/
def Op.keepsPackages : Op → Bool
  | .key_packages _ => false
  | .api_upload_keys _ _ _ _ => false
  | .api_claim_keys _ _ => false
  | .add_member _ _ => false
  | _ => true

/-- What another client uploads, or claims. -/
structure Elsewhere (w w' : KeyWorld D) : Prop where
  used : w'.used = w.used
  made : w.made ⊆ w'.made
  offered : ∃ fresh : Multiset String, fresh.Nodup ∧ (∀ kp ∈ fresh, kp ∉ w.made ∧ kp ∈ w'.made) ∧
    w'.offered ≤ w.offered + fresh

section

variable (X : PigeonCrypto D) (oneTime : String → Bool) (device : Nat → Nat)

/-- Thread `i` runs on its phone: invites, uploads of keys, and all the code that deals in no
package. -/
def inviters : Threaded Nat (KeyWorld D) Op Op.Res where
  call i op w r w' :=
    Client.Exec X op (w.clients (device i)) r (w'.clients (device i)) ∧ Traded oneTime op w r w'
  start _ _ p :=
    (∃ room_id user_id, p = (invite room_id user_id).forget) ∨ p = publish_device_keys ∨
    (∃ room_id body, p = (send_message room_id body).forget) ∨
    (∃ rounds backoff, p = (run_sync rounds backoff).forget) ∨ p = flush_pending.forget ∨
    (∃ room_id limit, p = (fetch_messages room_id limit).forget) ∨
    p.All (fun op => op.keepsPackages = true)
  drop _ w w' := Elsewhere w w'
  env w w' := Elsewhere w w'
  restart w w' := Elsewhere w w'

variable {X oneTime device}

/-! ## The programs -/

theorem keepsPackages_free {op : Op} (h : op.keepsPackages = true) :
    (keyEconomy oneTime).Free op := by
  cases op <;> first | exact absurd h Bool.false_ne_true | exact ⟨rfl, fun _ => rfl⟩

/-- The packages of some claims. -/
def packagesOf (claimed : List ClaimedKeyPackage) : List String :=
  claimed.map (fun kp => kp.key_package_b64)

/-- What is claimed is at hand. -/
theorem claim_devices_affords {user_id : String} (devices : List String)
    (claimed : List ClaimedKeyPackage) :
    (claim_devices user_id devices claimed).Affords (keyEconomy oneTime)
      (fun r left => ∀ all, r = .ok all → left = pool oneTime (packagesOf all))
      (pool oneTime (packagesOf claimed)) := by
  induction devices generalizing claimed with
  | nil =>
    rintro all ⟨⟩
    rfl
  | cons device_id rest ih =>
    refine ⟨pool oneTime (packagesOf claimed), (zero_add _).symm, ?_⟩
    intro r
    rcases r with err | _ | kp
    · exact fun all hall => nomatch hall
    · have hnone := ih claimed
      rwa [← zero_add (pool oneTime (packagesOf claimed))] at hnone
    · have hmore := ih (claimed ++ [⟨device_id, kp⟩])
      have hpool : pool oneTime (packagesOf (claimed ++ [⟨device_id, kp⟩])) =
          pool oneTime [kp] + pool oneTime (packagesOf claimed) := by
        unfold packagesOf
        rw [List.map_append, pool_append, add_comm]
        rfl
      rw [hpool] at hmore
      exact hmore

/-- Each package at hand is added once. -/
theorem welcome_devices_affords {room_id user_id : String} (claimed : List ClaimedKeyPackage) :
    (welcome_devices room_id user_id claimed).Affords (keyEconomy oneTime) (fun _ _ => True)
      (pool oneTime (packagesOf claimed)) := by
  induction claimed with
  | nil => trivial
  | cons kp rest ih =>
    apply Prog.Affords.andThen (R := fun _ left => left = pool oneTime (packagesOf rest))
    · refine ⟨pool oneTime (packagesOf rest), pool_cons oneTime _ _, ?_⟩
      intro r
      have hquiet : ∀ q : Code (Except CoreError Unit),
          q.Follows (fun _ _ => True) (keyEconomy oneTime).Free →
          q.Affords (keyEconomy oneTime) (fun r left => ∀ a, r = .ok a →
            left = pool oneTime (packagesOf rest)) (0 + pool oneTime (packagesOf rest)) := by
        intro q hq
        rw [zero_add]
        exact (hq.affords _).mono (fun _ _ hleft _ _ => hleft)
      apply hquiet
      cases r with
      | error e => trivial
      | ok outcome =>
        refine ⟨keepsPackages_free rfl, fun txn_id _ => ⟨keepsPackages_free rfl, ?_⟩⟩
        intro r _
        cases r with
        | error err => trivial
        | ok _ =>
          exact send_event_follows (keepsPackages_free rfl) (fun _ _ => keepsPackages_free rfl)
    · exact fun _ _ => trivial
    · rintro _ left rfl
      exact ih

theorem welcome_to_group_affords (room_id user_id : String) :
    (welcome_to_group room_id user_id).Affords (keyEconomy oneTime) (fun _ _ => True) 0 := by
  apply Prog.Affords.andThen (R := fun all left => left = pool oneTime (packagesOf all))
  · refine ⟨0, rfl, ?_⟩
    intro r
    cases r with
    | error err => exact fun all hall => nomatch hall
    | ok devices => exact claim_devices_affords _ []
  · exact fun _ _ => trivial
  · rintro all left rfl
    exact welcome_devices_affords all

theorem invite_affords (room_id user_id : String) :
    (invite room_id user_id).Affords (keyEconomy oneTime) (fun _ _ => True) 0 := by
  refine ⟨0, rfl, ?_⟩
  intro r
  cases r with
  | error err => trivial
  | ok _ =>
    refine ⟨0, rfl, ?_⟩
    intro engine
    cases engine with
    | false => trivial
    | true =>
      refine ⟨0, rfl, ?_⟩
      intro held
      rcases held with e | _ | _
      · trivial
      · trivial
      · exact welcome_to_group_affords room_id user_id

/-- What is made for an upload is uploaded once. -/
theorem publish_device_keys_affords :
    publish_device_keys.Affords (keyEconomy oneTime) (fun _ _ => True) 0 := by
  refine ⟨0, rfl, ?_⟩
  intro available
  cases available with
  | false => trivial
  | true =>
    refine ⟨0, rfl, ?_⟩
    intro r
    cases r with
    | error e => trivial
    | ok kps =>
      have hheld : pool oneTime kps + 0 = 0 + pool oneTime kps := add_comm _ _
      refine ⟨pool oneTime kps, hheld, fun last_resort => ⟨pool oneTime kps, rfl, fun pubkey =>
        ⟨pool oneTime kps, rfl, fun session => ⟨0, ?_, fun _ => trivial⟩⟩⟩⟩
      rw [add_zero]
      exact zero_add _

/-! ## Every run -/

theorem free_flush : FlushRule (fun _ _ => True) (keyEconomy oneTime).Free (fun _ => True) where
  asks op hop := by
    apply keepsPackages_free
    cases op <;> first | exact absurd hop Bool.false_ne_true | rfl
  queued _ _ _ _ := trivial
  plain _ _ := keepsPackages_free rfl
  sealed _ _ _ _ := keepsPackages_free rfl
  resolves _ _ _ _ _ _ := keepsPackages_free rfl

theorem free_round {op : Op} (h : op.ofRound = true) : (keyEconomy oneTime).Free op :=
  keepsPackages_free (by cases op <;> first | exact absurd h Bool.false_ne_true | rfl)

theorem free_pass {op : Op} (h : op.ofPass = true) : (keyEconomy oneTime).Free op :=
  keepsPackages_free (by cases op <;> first | exact absurd h Bool.false_ne_true | rfl)

theorem Elsewhere.moves {w w' : KeyWorld D} (h : Elsewhere w w') :
    Moves KeyWorld.out KeyWorld.made 0 0 w w' := by
  obtain ⟨fresh, hnodup, hfresh, hle⟩ := h.offered
  refine ⟨h.made, fresh, hnodup, hfresh, ?_⟩
  unfold KeyWorld.out
  calc w'.offered + w'.used + 0 = w'.offered + w.used := by rw [h.used, add_zero]
    _ ≤ w.offered + fresh + w.used := add_le_add_left hle _
    _ = w.offered + w.used + 0 + fresh := by abel

/-- Nothing is made, and what the directory has less is gained or lost. -/
theorem moves_of_le {w w' : KeyWorld D} {spent gained : Multiset String} (hmade : w'.made = w.made)
    (hle : w'.offered + w'.used + gained ≤ w.offered + w.used + spent) :
    Moves KeyWorld.out KeyWorld.made spent gained w w' := by
  refine ⟨hmade.ge, 0, Multiset.nodup_zero, fun kp hkp => absurd hkp (Multiset.notMem_zero kp), ?_⟩
  rw [add_zero]
  exact hle

theorem traded_moves {op : Op} {r : op.Res} {w w' : KeyWorld D} (h : Traded oneTime op w r w') :
    Moves KeyWorld.out KeyWorld.made ((keyEconomy oneTime).spends op)
      ((keyEconomy oneTime).gains op r) w w' := by
  have hstill : w.Leaves w' ∧ w'.offered = w.offered →
      Moves KeyWorld.out KeyWorld.made 0 0 w w' := by
    rintro ⟨hleaves, hoffered⟩
    apply moves_of_le hleaves.made
    rw [hoffered, hleaves.used]
  have hlost : w.Leaves w' ∧ w'.offered ≤ w.offered →
      Moves KeyWorld.out KeyWorld.made 0 0 w w' := by
    rintro ⟨hleaves, hoffered⟩
    apply moves_of_le hleaves.made
    rw [hleaves.used, add_zero, add_zero]
    exact add_le_add_left hoffered _
  cases op with
  | key_packages count =>
    cases r with
    | error e => exact hstill h
    | ok kps =>
      obtain ⟨hoffered, hused, hnodup, hfresh, hmade⟩ := h
      refine ⟨?_, pool oneTime kps, hnodup, fun kp hkp => ⟨hfresh kp hkp, ?_⟩, ?_⟩
      · rw [hmade]
        exact Set.subset_union_left
      · rw [hmade]
        exact Or.inr hkp
      · unfold KeyWorld.out
        rw [hoffered, hused]
        exact (add_zero (w.offered + w.used)).symm ▸ le_refl _
  | api_upload_keys device_id public_key_b64 kps last_resort =>
    obtain ⟨hleaves, hoffered⟩ := h
    apply moves_of_le hleaves.made
    calc w'.offered + w'.used + 0 = w'.offered + w.used := by rw [hleaves.used, add_zero]
      _ ≤ w.offered + pool oneTime kps + w.used := add_le_add_left hoffered _
      _ = w.offered + w.used + pool oneTime kps := by abel
  | api_claim_keys user_id device_id =>
    rcases r with err | _ | kp
    · exact hlost h
    · exact hlost h
    · obtain ⟨hleaves, hoffered⟩ := h
      apply moves_of_le hleaves.made
      calc w'.offered + w'.used + pool oneTime [kp] = w'.offered + pool oneTime [kp] + w.used := by
            rw [hleaves.used]
            abel
        _ ≤ w.offered + w.used := add_le_add_left hoffered _
        _ = w.offered + w.used + 0 := (add_zero _).symm
  | add_member room_id kp =>
    obtain ⟨hoffered, hused, hmade⟩ := h
    apply moves_of_le hmade
    have hnothing : (keyEconomy oneTime).gains (.add_member room_id kp) r = 0 := rfl
    rw [hoffered, hused, hnothing, add_zero, ← add_assoc]
    exact le_refl _
  | _ => exact hstill h

theorem inviters_conserve : (inviters X oneTime device).Conserves (keyEconomy oneTime) KeyWorld.out
    KeyWorld.made where
  start i w p hp := by
    have hforget : ∀ {α : Type} {q : Code α}, q.Affords (keyEconomy oneTime) (fun _ _ => True) 0 →
        q.forget.Affords (keyEconomy oneTime) (fun _ _ => True) 0 := by
      intro α q hq
      exact Prog.Affords.bind (hq.mono (fun _ _ _ => trivial))
    have hquiet : ∀ {α : Type} {q : Code α}, q.Follows (fun _ _ => True) (keyEconomy oneTime).Free →
        q.Affords (keyEconomy oneTime) (fun _ _ => True) 0 := by
      intro α q hq
      exact (hq.affords 0).mono (fun _ _ _ => trivial)
    rcases hp with ⟨room_id, user_id, rfl⟩ | rfl | ⟨room_id, body, rfl⟩ |
      ⟨rounds, backoff, rfl⟩ | rfl | ⟨room_id, limit, rfl⟩ | hother
    · exact hforget (invite_affords room_id user_id)
    · exact publish_device_keys_affords
    · exact hforget (hquiet (free_flush.send_message (keepsPackages_free rfl)
        (fun _ => keepsPackages_free rfl)))
    · exact hforget (hquiet (free_flush.run_sync (fun _ => free_round) rounds backoff))
    · exact hforget (hquiet free_flush.flush_pending)
    · exact hforget (hquiet (fetch_messages_follows (keepsPackages_free rfl) (fun _ => free_pass)
        (fun _ _ => keepsPackages_free rfl)))
    · exact hquiet (Prog.All.follows (hother.mono (fun _ => keepsPackages_free)))
  call i op w r w' h := traded_moves h.2
  drop i w w' h := h.moves
  env w w' h := h.moves
  restart w w' h := h.moves

end

/-- In every state that any number of phones can come to, whatever they run at once and wherever
they are cut off: no one-time package was handed to two `add_member` calls, none that was is still
on offer, and one that is about to be is neither. -/
theorem a_key_package_is_used_once (X : PigeonCrypto D) (oneTime : String → Bool)
    (device : Nat → Nat) {w : KeyWorld D} (hstart : (w.offered + w.used).Nodup)
    (hmade : ∀ kp ∈ w.offered + w.used, kp ∈ w.made)
    {p : Pool Nat (KeyWorld D) Op Op.Res}
    (hr : (inviters X oneTime device).Reaches (Threaded.idle w) p) :
    p.state.used.Nodup ∧ (∀ kp ∈ p.state.used, kp ∉ p.state.offered) ∧
      ∀ i room_id kp k, p.threads i = some (.call (.add_member room_id kp) k) → oneTime kp = true →
        kp ∉ p.state.used ∧ kp ∉ p.state.offered := by
  obtain ⟨hout, hnext⟩ := Threaded.conserved inviters_conserve hstart hmade hr
  obtain ⟨-, hused, hapart⟩ := Multiset.nodup_add.mp hout
  refine ⟨hused, fun kp hkp hin => Multiset.disjoint_left.mp hapart hin hkp, ?_⟩
  intro i room_id kp k hi hone
  have hspent : kp ∈ (keyEconomy oneTime).spends (.add_member room_id kp) := by
    simp [keyEconomy, pool, hone]
  obtain ⟨-, -, hnew⟩ := Multiset.nodup_add.mp (hnext i _ k hi)
  have hnone : kp ∉ p.state.offered + p.state.used := fun hin =>
    Multiset.disjoint_left.mp hnew hin hspent
  rw [Multiset.mem_add, not_or] at hnone
  exact ⟨hnone.2, hnone.1⟩

/-- A phone that hosts the group of `!room`, and a directory with one package. -/
def bobOffers : KeyWorld Copies := ⟨fun _ => memberClient, {"kp"}, 0, {kp | kp = "kp"}⟩

/-- The package is claimed, and about to be added. -/
theorem bob_is_claimed : ∃ p : Pool Nat (KeyWorld Copies) Op Op.Res,
    (inviters epochCrypto (fun _ => true) (fun i => i)).Reaches (Threaded.idle bobOffers) p ∧
      ∃ k, p.threads 0 = some (.call (.add_member "!room" "kp") k) := by
  have h0 : (inviters epochCrypto (fun _ => true) (fun i => i)).Reaches (Threaded.idle bobOffers)
      (Threaded.idle bobOffers) := Relation.ReflTransGen.refl
  have h1 := h0.start 0 (invite "!room" "@bob:pigeon.example").forget (Or.inl ⟨_, _, rfl⟩)
  have h2 := h1.call bobOffers (r := .ok "$invite") ⟨⟨.ok "$invite", rfl⟩, ⟨rfl, rfl⟩, rfl⟩
  have h3 := h2.call bobOffers (r := true) ⟨⟨.none, rfl⟩, ⟨rfl, rfl⟩, rfl⟩
  have h4 := h3.call bobOffers (r := .ok true) ⟨⟨.none, rfl⟩, ⟨rfl, rfl⟩, rfl⟩
  have h5 := h4.call bobOffers (r := .ok (.obj [("BOB1", .null)])) ⟨⟨_, rfl⟩, ⟨rfl, rfl⟩, rfl⟩
  have htraded : Traded (fun _ => true) (.api_claim_keys "@bob:pigeon.example" "BOB1") bobOffers
      (.ok (some "kp")) { bobOffers with offered := 0 } := ⟨⟨rfl, rfl⟩, le_refl _⟩
  have h6 := h5.call { bobOffers with offered := 0 } (r := .ok (some "kp")) ⟨⟨_, rfl⟩, htraded⟩
  exact ⟨_, h6, _, Threaded.solo_threads _⟩

theorem a_key_package_is_used_once_bob : ∃ p : Pool Nat (KeyWorld Copies) Op Op.Res,
    (inviters epochCrypto (fun _ => true) (fun i => i)).Reaches (Threaded.idle bobOffers) p ∧
      (∃ k, p.threads 0 = some (.call (.add_member "!room" "kp") k)) ∧
      "kp" ∉ p.state.used ∧ "kp" ∉ p.state.offered := by
  obtain ⟨p, hp, k, hi⟩ := bob_is_claimed
  have hstart : (bobOffers.offered + bobOffers.used).Nodup := Multiset.nodup_singleton "kp"
  have hmade : ∀ kp ∈ bobOffers.offered + bobOffers.used, kp ∈ bobOffers.made := by
    intro kp hkp
    exact Multiset.mem_singleton.mp hkp
  exact ⟨p, hp, ⟨k, hi⟩,
    (a_key_package_is_used_once epochCrypto _ _ hstart hmade hp).2.2 0 _ _ k hi rfl⟩

end PigeonMobile
