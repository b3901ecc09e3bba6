-- All the member devices of a group, in any run: members add members, one at a time, devices
-- join and read the log, in any interleaving. Once all have read it they agree on the epoch, if
-- and only if no commit was made by a user with a second device in the group: a device takes a
-- commit of its own user for its own.
import PigeonMobile.MemberDevices
import Mathlib.Logic.Relation

namespace PigeonMobile

variable {D : Type} {X : PigeonCrypto D} {ι : Type} [DecidableEq ι]

/-! ## The devices and their log -/

/-- The devices, the log of commits, and how much of it the store of each device has. -/
structure Fleet (ι D : Type) where
  device : ι → Client D
  log : List (Broadcast ι)
  got : ι → Nat

namespace Fleet

def epoch (M : EpochModel X) (room : String) (w : Fleet ι D) (i : ι) : Option Nat :=
  (w.device i).epochOf M.epoch room

def setDevice (w : Fleet ι D) (i : ι) (c : Client D) : Fleet ι D :=
  { w with device := Function.update w.device i c }

end Fleet

/-- The epoch at which a device comes into the group: the founder at the first, and any other at
the one that its Welcome gives. -/
def StartsAt (founder : ι) (log : List (Broadcast ι)) (i : ι) (s : Nat) : Prop :=
  (i = founder ∧ s = 0) ∨ ∃ k b, log[k]? = some b ∧ b.added = i ∧ s = k + 1

/-- The event of a new commit of the device `a`. -/
structure NewCommit (room : String) (w : Fleet ι D) (a : ι) (commit : String) (ev : StoredEvent) :
    Prop where
  group : GroupEvent room ev
  sender : ev.sender = (w.device a).session.user_id
  reads : Store.pendingOf (Store.rowOf ev) = .ok (some (commitItem ev commit))
  deeper : ∀ b ∈ w.log, b.event.depth < ev.depth
  fresh : ∀ b ∈ w.log, b.event.event_id ≠ ev.event_id
  unseen : ∀ i, (w.device i).store.events.find ev.event_id = none

/-- What can happen: a member that is at the latest epoch adds a device and broadcasts the
commit, a device applies its Welcome, or a device gets the next events of the log and runs its
pass. -/
inductive FleetStep (M : EpochModel X) (room : String) (founder : ι) : Fleet ι D → Fleet ι D → Prop
  | add {w : Fleet ι D} {a j : ι} {kp : String} {out : AddOutcome} {c' : Client D}
      {ev : StoredEvent} : w.epoch M room a = some w.log.length →
      (∀ s, ¬ StartsAt founder w.log j s) →
      Client.local_ X (.add_member room kp) (w.device a) = (.ok out, c') →
      NewCommit room w a out.commit ev →
      FleetStep M room founder w { w.setDevice a c' with log := w.log ++ [⟨a, j, out.welcome, ev⟩] }
  | join {w : Fleet ι D} {b : Broadcast ι} : b ∈ w.log →
      FleetStep M room founder w (w.setDevice b.added
        ((apply_welcome ⟨b.welcome, some room⟩).run (Client.local_ X) (w.device b.added)).2)
  | sync {w : Fleet ι D} {i : ι} {n : Nat} (source : Source) : w.got i + n ≤ w.log.length →
      FleetStep M room founder w
        { w.setDevice i ((w.device i).deliver X room (source, slice w.log (w.got i) n)) with
          got := Function.update w.got i (w.got i + n) }

/-- The group is made: its founder alone has a copy, and no event waits anywhere. -/
structure Founded (M : EpochModel X) (room : String) (founder : ι) (user : ι → String)
    (w : Fleet ι D) : Prop where
  log : w.log = []
  got : ∀ i, w.got i = 0
  users : ∀ i, (w.device i).session.user_id = user i
  engine : ∀ i, ∃ d, (w.device i).e2ee = some d ∧
    M.epoch d room = if i = founder then some 0 else none
  quiet : ∀ i, ∀ r ∈ (w.device i).store.events.rows, ¬ Store.Waiting r

/-- Each commit was made while no other device of its author's user was in the group. -/
def Solo (founder : ι) (user : ι → String) (log : List (Broadcast ι)) : Prop :=
  ∀ k b, log[k]? = some b → ∀ i s, StartsAt founder log i s → s ≤ k → user i = user b.author →
    i = b.author

/-- A device that has joined and has run its pass over the whole log. -/
def CaughtUp (M : EpochModel X) (room : String) (w : Fleet ι D) (i : ι) : Prop :=
  (w.epoch M room i).isSome ∧ w.got i = w.log.length ∧ AtRest X (w.device i)

/-! ## The log grows -/

theorem at_append {α : Type} {l : List α} {x b : α} {k : Nat} :
    (l ++ [x])[k]? = some b ↔ l[k]? = some b ∨ (k = l.length ∧ b = x) := by
  by_cases h : k < l.length
  · rw [List.getElem?_append_left h]
    constructor
    · exact Or.inl
    · rintro (hb | ⟨hk, -⟩)
      · exact hb
      · omega
  · rw [List.getElem?_append_right (by omega), List.getElem?_eq_none (by omega : l.length ≤ k)]
    by_cases hk : k = l.length
    · simp [hk, eq_comm]
    · have hone : [x].length ≤ k - l.length := by
        rw [List.length_singleton]
        omega
      rw [List.getElem?_eq_none hone]
      simp [hk]

theorem at_length {α : Type} {l : List α} {b : α} {k : Nat} (h : l[k]? = some b) : k < l.length :=
  (List.getElem?_eq_some_iff.mp h).1

omit [DecidableEq ι] in
theorem startsAt_append {founder : ι} {log : List (Broadcast ι)} {x : Broadcast ι} {i : ι}
    {s : Nat} : StartsAt founder (log ++ [x]) i s ↔
      StartsAt founder log i s ∨ (x.added = i ∧ s = log.length + 1) := by
  unfold StartsAt
  constructor
  · rintro (hf | ⟨k, b, hb, ha, hs⟩)
    · exact Or.inl (Or.inl hf)
    · rcases at_append.mp hb with hb | ⟨rfl, rfl⟩
      · exact Or.inl (Or.inr ⟨k, b, hb, ha, hs⟩)
      · exact Or.inr ⟨ha, hs⟩
  · rintro ((hf | ⟨k, b, hb, ha, hs⟩) | ⟨ha, hs⟩)
    · exact Or.inl hf
    · exact Or.inr ⟨k, b, at_append.mpr (Or.inl hb), ha, hs⟩
    · exact Or.inr ⟨log.length, x, at_append.mpr (Or.inr ⟨rfl, rfl⟩), ha, hs⟩

omit [DecidableEq ι] in
theorem Solo.of_append {founder : ι} {user : ι → String} {log : List (Broadcast ι)}
    {x : Broadcast ι} (h : Solo founder user (log ++ [x])) : Solo founder user log := by
  intro k b hb i s hs
  exact h k b (at_append.mpr (Or.inl hb)) i s (startsAt_append.mpr (Or.inl hs))

omit [DecidableEq ι] in
theorem SoundLog.append {M : EpochModel X} {room : String} {user : ι → String}
    {log : List (Broadcast ι)} (h : SoundLog M room user log) {x : Broadcast ι} {commit : String}
    (hgroup : GroupEvent room x.event) (hsender : x.event.sender = user x.author)
    (hreads : Store.pendingOf (Store.rowOf x.event) = .ok (some (commitItem x.event commit)))
    (hepoch : M.commitEpoch x.event.room_id commit = some log.length)
    (hdeeper : ∀ b ∈ log, b.event.depth < x.event.depth)
    (hfresh : ∀ b ∈ log, b.event.event_id ≠ x.event.event_id) :
    SoundLog M room user (log ++ [x]) := by
  refine ⟨?_, ?_, ?_, ?_, ?_⟩
  · intro b hb
    rcases List.mem_append.mp hb with hb | hb
    · exact h.event b hb
    · rw [List.mem_singleton.mp hb]
      exact hgroup
  · intro b hb
    rcases List.mem_append.mp hb with hb | hb
    · exact h.sender b hb
    · rw [List.mem_singleton.mp hb]
      exact hsender
  · intro k b hb
    rcases at_append.mp hb with hb | ⟨rfl, rfl⟩
    · exact h.reads k b hb
    · exact ⟨commit, hreads, hepoch⟩
  · rw [List.pairwise_append]
    refine ⟨h.deeper, List.pairwise_singleton _ _, ?_⟩
    intro b hb y hy
    rw [List.mem_singleton.mp hy]
    exact hdeeper b hb
  · rw [List.map_append, List.nodup_append]
    refine ⟨h.ids, List.nodup_singleton _, ?_⟩
    intro k hk y hy
    obtain ⟨b, hb, rfl⟩ := List.mem_map.mp hk
    rw [List.map_singleton, List.mem_singleton] at hy
    rw [hy]
    exact hfresh b hb

omit [DecidableEq ι] in
theorem Follows.append {log : List (Broadcast ι)} {got : Nat} {c : Client D} {d : D}
    (h : Follows log got c d) (hgot : got ≤ log.length) {x : Broadcast ι}
    (hx : c.store.events.find x.event.event_id = none) : Follows (log ++ [x]) got c d := by
  refine ⟨h.engine, ?_, ?_⟩
  · rw [List.take_append_of_le_length hgot]
    exact h.waiting
  · rw [List.drop_append_of_le_length hgot]
    intro b hb
    rcases List.mem_append.mp hb with hb | hb
    · exact h.absent b hb
    · rw [List.mem_singleton.mp hb]
      exact hx

omit [DecidableEq ι] in
theorem KeepsAhead.append {log : List (Broadcast ι)} {got : Nat} {c : Client D} {e : Option Nat}
    (h : KeepsAhead log got c e) (hgot : got ≤ log.length) (x : Broadcast ι) :
    KeepsAhead (log ++ [x]) got c e := by
  intro k b hb hk he
  rcases at_append.mp hb with hb | ⟨rfl, -⟩
  · exact h k b hb hk he
  · omega

/-! ## What every step keeps -/

/-- A Welcome that gives a device with no copy of the group the copy of the epoch `e`. -/
def Installs (M : EpochModel X) (room welcome : String) (e : Nat) : Prop :=
  ∀ d, M.epoch d room = none → ∃ d', X.join_from_welcome d welcome = .ok d' ∧
    ∀ r, M.epoch d' r = if r = room then some e else M.epoch d r

/-- What holds in every state of a run. -/
structure InOrder (M : EpochModel X) (room : String) (founder : ι) (user : ι → String)
    (w : Fleet ι D) : Prop where
  log : SoundLog M room user w.log
  users : ∀ i, (w.device i).session.user_id = user i
  bound : ∀ i, w.got i ≤ w.log.length
  follows : ∀ i, ∃ d, Follows w.log (w.got i) (w.device i) d
  latest : ∀ i n, w.epoch M room i = some n → n ≤ w.log.length
  start : ∀ i n, w.epoch M room i = some n → ∃ s, StartsAt founder w.log i s ∧ s ≤ n
  once : ∀ i s s', StartsAt founder w.log i s → StartsAt founder w.log i s' → s = s'
  own : ∀ k b, w.log[k]? = some b → ∃ n, w.epoch M room b.author = some n ∧ k < n
  welcome : ∀ k b, w.log[k]? = some b → Installs M room b.welcome (k + 1)
  /-- A copy never passes the commit of another device of its user. -/
  stuck : ∀ i n, w.epoch M room i = some n → ∀ k b, w.log[k]? = some b → user b.author = user i →
    b.author ≠ i → ∀ s, StartsAt founder w.log i s → s ≤ k → n ≤ k
  ahead : Solo founder user w.log → ∀ i,
    KeepsAhead w.log (w.got i) (w.device i) (w.epoch M room i)

namespace Fleet

variable (M : EpochModel X) (room : String) (w : Fleet ι D)

theorem device_self (i : ι) (c : Client D) : (w.setDevice i c).device i = c := by
  simp [setDevice]

theorem device_ne {i j : ι} (h : j ≠ i) (c : Client D) :
    (w.setDevice i c).device j = w.device j := by
  simp [setDevice, h]

omit [DecidableEq ι] in
theorem epoch_eq {i : ι} {d : D} (h : (w.device i).e2ee = some d) :
    w.epoch M room i = M.epoch d room := by
  unfold epoch Client.epochOf
  rw [h]
  rfl

theorem epoch_ne {i j : ι} (h : j ≠ i) (c : Client D) :
    (w.setDevice i c).epoch M room j = w.epoch M room j := by
  unfold epoch
  rw [w.device_ne h]

end Fleet

namespace InOrder

variable {M : EpochModel X} {room : String} {founder : ι} {user : ι → String} {w : Fleet ι D}

theorem founded (h : Founded M room founder user w) : InOrder M room founder user w := by
  have hepoch : ∀ i, w.epoch M room i = if i = founder then some 0 else none := by
    intro i
    obtain ⟨d, hd, he⟩ := h.engine i
    rw [w.epoch_eq M room hd, he]
  have hempty : ∀ (k : Nat) (b : Broadcast ι), w.log[k]? ≠ some b := by
    intro k b hb
    rw [h.log] at hb
    cases hb
  have hzero : ∀ i n, w.epoch M room i = some n → i = founder ∧ n = 0 := by
    intro i n hn
    rw [hepoch] at hn
    by_cases hi : i = founder
    · rw [if_pos hi] at hn
      cases hn
      exact ⟨hi, rfl⟩
    · rw [if_neg hi] at hn
      cases hn
  have hstart : ∀ i s, StartsAt founder w.log i s → s = 0 := by
    rintro i s (⟨-, rfl⟩ | ⟨k, b, hb, -⟩)
    · rfl
    · exact absurd hb (hempty k b)
  refine ⟨⟨?_, ?_, ?_, ?_, ?_⟩, h.users, ?_, ?_, ?_, ?_, ?_, ?_, ?_, ?_, ?_⟩
  · rw [h.log]
    simp
  · rw [h.log]
    simp
  · intro k b hb
    exact absurd hb (hempty k b)
  · rw [h.log]
    exact List.Pairwise.nil
  · rw [h.log]
    exact List.nodup_nil
  · intro i
    rw [h.got]
    exact Nat.zero_le _
  · intro i
    obtain ⟨d, hd, -⟩ := h.engine i
    refine ⟨d, hd, ?_, ?_⟩
    · intro r hr hw
      exact absurd hw (h.quiet i r hr)
    · rw [h.log]
      simp
  · intro i n hn
    rw [(hzero i n hn).2]
    exact Nat.zero_le _
  · intro i n hn
    exact ⟨0, Or.inl ⟨(hzero i n hn).1, rfl⟩, Nat.zero_le _⟩
  · intro i s s' hs hs'
    rw [hstart i s hs, hstart i s' hs']
  · intro k b hb
    exact absurd hb (hempty k b)
  · intro k b hb
    exact absurd hb (hempty k b)
  · intro i n _ k b hb
    exact absurd hb (hempty k b)
  · intro _ i k b hb
    exact absurd hb (hempty k b)

omit [DecidableEq ι] in
/-- The commits that are ahead of a member are of other users, where no user with a second
device in the group makes a commit. -/
theorem others (h : InOrder M room founder user w) (hsolo : Solo founder user w.log) {i : ι}
    {n : Nat} (hn : w.epoch M room i = some n) {k : Nat} {b : Broadcast ι} (hb : w.log[k]? = some b)
    (hk : n ≤ k) : b.event.sender ≠ user i := by
  intro hsender
  rw [h.log.sender b (List.mem_of_getElem? hb)] at hsender
  obtain ⟨s, hs, hsn⟩ := h.start i n hn
  obtain rfl := hsolo k b hb i s hs (by omega) hsender.symm
  obtain ⟨n', hn', hlt⟩ := h.own k b hb
  rw [hn] at hn'
  cases hn'
  omega

theorem add (h : InOrder M room founder user w) {a j : ι} {kp : String} {out : AddOutcome}
    {c' : Client D} {ev : StoredEvent} (hlatest : w.epoch M room a = some w.log.length)
    (hout : ∀ s, ¬ StartsAt founder w.log j s)
    (hadd : Client.local_ X (.add_member room kp) (w.device a) = (.ok out, c'))
    (hnew : NewCommit room w a out.commit ev) : InOrder M room founder user
      { w.setDevice a c' with log := w.log ++ [⟨a, j, out.welcome, ev⟩] } := by
  obtain ⟨d, hfollows⟩ := h.follows a
  obtain ⟨d', hx, rfl⟩ := local_add_member hfollows.engine hadd
  obtain ⟨e, he, hcommit, hmove, hwelcome⟩ := M.add_member_moves d room kp d' _ _ hx
  rw [w.epoch_eq M room hfollows.engine, he] at hlatest
  cases hlatest
  have hself : Fleet.epoch M room { w.setDevice a ((w.device a).hold X d') with
      log := w.log ++ [⟨a, j, out.welcome, ev⟩] } a = some (w.log.length + 1) := by
    have hd' : ((w.setDevice a ((w.device a).hold X d')).device a).e2ee = some d' := by
      rw [w.device_self]
      rfl
    have hepoch := (w.setDevice a ((w.device a).hold X d')).epoch_eq M room hd'
    rw [hmove, if_pos rfl] at hepoch
    exact hepoch
  have hothers : ∀ i, i ≠ a → Fleet.epoch M room { w.setDevice a ((w.device a).hold X d') with
      log := w.log ++ [⟨a, j, out.welcome, ev⟩] } i = w.epoch M room i :=
    fun i hi => w.epoch_ne M room hi _
  have hlen : (w.log ++ [(⟨a, j, out.welcome, ev⟩ : Broadcast ι)]).length = w.log.length + 1 := by
    simp
  refine ⟨?_, ?_, ?_, ?_, ?_, ?_, ?_, ?_, ?_, ?_, ?_⟩
  · apply h.log.append hnew.group (hnew.sender.trans (h.users a)) hnew.reads ?_ hnew.deeper
      hnew.fresh
    rw [hnew.group.here]
    exact hcommit
  · intro i
    by_cases hi : i = a
    · rw [hi]
      simp only [w.device_self]
      exact h.users a
    · simp only [w.device_ne hi]
      exact h.users i
  · intro i
    have hbound := h.bound i
    simp only [hlen]
    exact Nat.le_succ_of_le hbound
  · intro i
    by_cases hi : i = a
    · rw [hi]
      simp only [w.device_self]
      have hheld : Follows w.log (w.got a) ((w.device a).hold X d') d' :=
        ⟨rfl, hfollows.waiting, hfollows.absent⟩
      exact ⟨d', hheld.append (h.bound a) (hnew.unseen a)⟩
    · simp only [w.device_ne hi]
      obtain ⟨di, hi'⟩ := h.follows i
      exact ⟨di, hi'.append (h.bound i) (hnew.unseen i)⟩
  · intro i n hn
    simp only [hlen]
    by_cases hi : i = a
    · rw [hi, hself] at hn
      cases hn
      omega
    · rw [hothers i hi] at hn
      have hle := h.latest i n hn
      omega
  · intro i n hn
    by_cases hi : i = a
    · rw [hi, hself] at hn
      cases hn
      have hold : w.epoch M room a = some w.log.length := by
        rw [w.epoch_eq M room hfollows.engine, he]
      obtain ⟨s, hs, hle⟩ := h.start a _ hold
      rw [hi]
      exact ⟨s, startsAt_append.mpr (Or.inl hs), by omega⟩
    · rw [hothers i hi] at hn
      obtain ⟨s, hs, hle⟩ := h.start i n hn
      exact ⟨s, startsAt_append.mpr (Or.inl hs), hle⟩
  · intro i s s' hs hs'
    rcases startsAt_append.mp hs with hs | ⟨hj, rfl⟩
    · rcases startsAt_append.mp hs' with hs' | ⟨hj, rfl⟩
      · exact h.once i s s' hs hs'
      · exact absurd hs (hj ▸ hout s)
    · rcases startsAt_append.mp hs' with hs' | ⟨-, rfl⟩
      · exact absurd hs' (hj ▸ hout s')
      · rfl
  · intro k b hb
    rcases at_append.mp hb with hb | ⟨rfl, rfl⟩
    · obtain ⟨n, hn, hlt⟩ := h.own k b hb
      by_cases hi : b.author = a
      · rw [hi]
        have hk := at_length hb
        exact ⟨_, hself, by omega⟩
      · exact ⟨n, (hothers b.author hi).trans hn, hlt⟩
    · exact ⟨_, hself, Nat.lt_succ_self _⟩
  · intro k b hb
    rcases at_append.mp hb with hb | ⟨rfl, rfl⟩
    · exact h.welcome k b hb
    · exact hwelcome
  · intro i n hn k b hb huser hne s hs hsk
    have hkle : k ≤ w.log.length := by
      have hk := at_length hb
      simp only [hlen] at hk
      omega
    have hold : StartsAt founder w.log i s := by
      rcases startsAt_append.mp hs with hs | ⟨-, rfl⟩
      · exact hs
      · omega
    rcases at_append.mp hb with hb | ⟨rfl, rfl⟩
    · by_cases hi : i = a
      · have hbefore : w.epoch M room a = some w.log.length := by
          rw [w.epoch_eq M room hfollows.engine, he]
        have hle := h.stuck a _ hbefore k b hb (hi ▸ huser) (hi ▸ hne) s (hi ▸ hold) hsk
        have hk := at_length hb
        omega
      · rw [hothers i hi] at hn
        exact h.stuck i n hn k b hb huser hne s hold hsk
    · have hi : i ≠ a := fun hia => hne hia.symm
      rw [hothers i hi] at hn
      exact h.latest i n hn
  · intro hsolo i
    have hahead := h.ahead hsolo.of_append i
    by_cases hi : i = a
    · rw [hi] at hahead ⊢
      intro k b hb hk hle
      have hk' := h.bound a
      have hn := hle _ hself
      have hlt : k < w.got a := hk
      omega
    · rw [hothers i hi]
      simp only [w.device_ne hi]
      exact hahead.append (h.bound i) _

/-- One device changes, and the log does not. -/
theorem change (h : InOrder M room founder user w) {i : ι} {g : Nat} {c' : Client D} {d' : D}
    (hf : Follows w.log g c' d') (hg : g ≤ w.log.length)
    (hsession : c'.session = (w.device i).session)
    (hkeep : ∀ n, w.epoch M room i = some n → ∃ n', M.epoch d' room = some n' ∧ n ≤ n')
    (hlatest : ∀ n, M.epoch d' room = some n → n ≤ w.log.length)
    (hstart : ∀ n, M.epoch d' room = some n → ∃ s, StartsAt founder w.log i s ∧ s ≤ n)
    (hstuck : ∀ n, M.epoch d' room = some n → ∀ k b, w.log[k]? = some b → user b.author = user i →
      b.author ≠ i → ∀ s, StartsAt founder w.log i s → s ≤ k → n ≤ k)
    (hahead : Solo founder user w.log → KeepsAhead w.log g c' (M.epoch d' room)) :
    InOrder M room founder user { w.setDevice i c' with got := Function.update w.got i g } := by
  have hself : Fleet.epoch M room { w.setDevice i c' with got := Function.update w.got i g } i =
      M.epoch d' room := by
    have hdevice : ((w.setDevice i c').device i).e2ee = some d' := by
      rw [w.device_self]
      exact hf.engine
    exact (w.setDevice i c').epoch_eq M room hdevice
  have hothers : ∀ k, k ≠ i →
      Fleet.epoch M room { w.setDevice i c' with got := Function.update w.got i g } k =
        w.epoch M room k := fun k hk => w.epoch_ne M room hk _
  refine ⟨h.log, ?_, ?_, ?_, ?_, ?_, h.once, ?_, h.welcome, ?_, ?_⟩
  · intro k
    by_cases hk : k = i
    · rw [hk]
      simp only [w.device_self, hsession]
      exact h.users i
    · simp only [w.device_ne hk]
      exact h.users k
  · intro k
    by_cases hk : k = i
    · rw [hk]
      simp only [Function.update_self]
      exact hg
    · simp only [Function.update_of_ne hk]
      exact h.bound k
  · intro k
    by_cases hk : k = i
    · rw [hk]
      simp only [w.device_self, Function.update_self]
      exact ⟨d', hf⟩
    · simp only [w.device_ne hk, Function.update_of_ne hk]
      exact h.follows k
  · intro k n hn
    by_cases hk : k = i
    · rw [hk, hself] at hn
      exact hlatest n hn
    · rw [hothers k hk] at hn
      exact h.latest k n hn
  · intro k n hn
    by_cases hk : k = i
    · rw [hk, hself] at hn
      rw [hk]
      exact hstart n hn
    · rw [hothers k hk] at hn
      exact h.start k n hn
  · intro k b hb
    obtain ⟨n, hn, hlt⟩ := h.own k b hb
    by_cases hk : b.author = i
    · rw [hk] at hn ⊢
      obtain ⟨n', hn', hle⟩ := hkeep n hn
      exact ⟨n', hself.trans hn', by omega⟩
    · exact ⟨n, (hothers _ hk).trans hn, hlt⟩
  · intro k n hn l b hb huser hne s hs hsl
    by_cases hk : k = i
    · rw [hk, hself] at hn
      rw [hk] at huser hne hs
      exact hstuck n hn l b hb huser hne s hs hsl
    · rw [hothers k hk] at hn
      exact h.stuck k n hn l b hb huser hne s hs hsl
  · intro hsolo k
    by_cases hk : k = i
    · rw [hk, hself]
      simp only [w.device_self, Function.update_self]
      exact hahead hsolo
    · rw [hothers k hk]
      simp only [w.device_ne hk, Function.update_of_ne hk]
      exact h.ahead hsolo k

theorem join (h : InOrder M room founder user w) {b : Broadcast ι} (hb : b ∈ w.log) :
    InOrder M room founder user (w.setDevice b.added
      ((apply_welcome ⟨b.welcome, some room⟩).run (Client.local_ X) (w.device b.added)).2) := by
  obtain ⟨j, hj⟩ : ∃ j, j = b.added := ⟨_, rfl⟩
  rw [← hj]
  obtain ⟨d, hfollows⟩ := h.follows j
  cases he : M.epoch d room with
  | some e =>
    -- the device has a copy already
    have hg : X.load_group d room = true := by
      rw [M.load_group, he]
      rfl
    rw [run_apply_welcome_again hfollows.engine hg]
    have hsame : w.setDevice j (w.device j) = w := by
      unfold Fleet.setDevice
      rw [Function.update_eq_self]
    rw [hsame]
    exact h
  | none =>
    have hg : X.load_group d room = false := by
      rw [M.load_group, he]
      rfl
    obtain ⟨k₀, hk₀, hat⟩ := List.mem_iff_getElem.mp hb
    have hb₀ : w.log[k₀]? = some b := by
      rw [List.getElem?_eq_getElem hk₀, hat]
    obtain ⟨d', hx, hmove⟩ := h.welcome k₀ b hb₀ d he
    rw [run_apply_welcome hfollows.engine hg hx]
    have hnone : w.epoch M room j = none := by
      rw [w.epoch_eq M room hfollows.engine, he]
    have hepoch : M.epoch d' room = some (k₀ + 1) := by
      rw [hmove, if_pos rfl]
    have hstart : StartsAt founder w.log j (k₀ + 1) := Or.inr ⟨k₀, b, hb₀, hj.symm, rfl⟩
    have hf : Follows w.log (w.got j) ((w.device j).hold X d') d' :=
      ⟨rfl, hfollows.waiting, hfollows.absent⟩
    have hchanged := h.change hf (h.bound j) (by rfl)
      (fun n hn => by
        rw [hnone] at hn
        cases hn)
      (fun n hn => by
        rw [hepoch] at hn
        cases hn
        exact hk₀)
      (fun n hn => by
        rw [hepoch] at hn
        cases hn
        exact ⟨k₀ + 1, hstart, Nat.le_refl _⟩)
      (fun n hn k b' _ _ _ s hs hsk => by
        rw [hepoch] at hn
        cases hn
        have hsame := h.once j s (k₀ + 1) hs hstart
        omega)
      (fun hsolo k b' hb' hk _ => by
        apply h.ahead hsolo j k b' hb' hk
        intro n hn
        rw [hnone] at hn
        cases hn)
    rw [Function.update_eq_self] at hchanged
    exact hchanged

theorem sync (h : InOrder M room founder user w) (i : ι) {n : Nat} (source : Source)
    (hn : w.got i + n ≤ w.log.length) : InOrder M room founder user
      { w.setDevice i ((w.device i).deliver X room (source, slice w.log (w.got i) n)) with
        got := Function.update w.got i (w.got i + n) } := by
  obtain ⟨d, hfollows⟩ := h.follows i
  have hbefore : w.epoch M room i = M.epoch d room := w.epoch_eq M room hfollows.engine
  have hold := h.ahead
  cases he : M.epoch d room with
  | none =>
    rw [he] at hbefore
    rw [hfollows.deliver_outside h.log he source n]
    have hout : ∀ e, M.epoch d room ≠ some e := by
      intro e hx
      rw [he] at hx
      cases hx
    apply h.change (hfollows.takeIn h.log n) hn rfl
    · intro e hx
      rw [hbefore] at hx
      cases hx
    · intro e hx
      exact absurd hx (hout e)
    · intro e hx
      exact absurd hx (hout e)
    · intro e hx
      exact absurd hx (hout e)
    · intro hsolo
      rw [he, ← hbefore]
      exact (hold hsolo i).takeIn h.log.ids hfollows n
  | some e =>
    rw [he] at hbefore
    obtain ⟨d', e', hf, he', hge, hsession, htop, hreach⟩ :=
      hfollows.deliver_inside h.log he source hn
    rw [h.users i] at htop hreach
    have hlast : e' ≤ w.log.length := by
      apply htop w.log.length (h.latest i e hbefore)
      intro b hb
      rw [List.getElem?_eq_none (Nat.le_refl _)] at hb
      cases hb
    apply h.change hf hn hsession
    · intro x hx
      rw [hbefore] at hx
      cases hx
      exact ⟨e', he', hge⟩
    · intro x hx
      rw [he'] at hx
      cases hx
      exact hlast
    · intro x hx
      rw [he'] at hx
      cases hx
      obtain ⟨s, hs, hse⟩ := h.start i e hbefore
      exact ⟨s, hs, by omega⟩
    · intro x hx k b hb huser hne s hs hsk
      rw [he'] at hx
      cases hx
      apply htop k (h.stuck i e hbefore k b hb huser hne s hs hsk)
      intro b' hb'
      rw [hb] at hb'
      cases hb'
      rw [h.log.sender b (List.mem_of_getElem? hb), huser]
    · intro hsolo k b hb hk hx
      have hkept := hold hsolo i
      rw [hbefore] at hkept
      have hall := hreach hkept (fun k b hb hk => h.others hsolo hbefore hb hk)
      have hk' := hx e' he'
      omega

theorem step (h : InOrder M room founder user w) {w' : Fleet ι D}
    (hs : FleetStep M room founder w w') : InOrder M room founder user w' := by
  cases hs with
  | add hlatest hout hadd hnew => exact h.add hlatest hout hadd hnew
  | join hb => exact h.join hb
  | sync source hn => exact h.sync _ source hn

theorem run {w₀ w' : Fleet ι D} (h : InOrder M room founder user w₀)
    (hr : Relation.ReflTransGen (FleetStep M room founder) w₀ w') :
    InOrder M room founder user w' := by
  induction hr with
  | refl => exact h
  | tail _ hs ih => exact ih.step hs

omit [DecidableEq ι] in
/-- A device that has caught up is at the latest epoch, where no user with a second device in
the group makes a commit. -/
theorem caught_up (h : InOrder M room founder user w) (hsolo : Solo founder user w.log) {i : ι}
    (hc : CaughtUp M room w i) : w.epoch M room i = some w.log.length := by
  obtain ⟨hmember, hgot, pre, hpending, hwaits⟩ := hc
  obtain ⟨n, hn⟩ := Option.isSome_iff_exists.mp hmember
  obtain ⟨d, hfollows⟩ := h.follows i
  by_cases hlt : n < w.log.length
  · -- the commit of its epoch would still wait, and a pass would take it
    exfalso
    have hat : w.log[n]? = some w.log[n] := List.getElem?_eq_getElem hlt
    obtain ⟨commit, hof, -⟩ := h.log.reads n _ hat
    have hgroup := h.log.event w.log[n] (List.getElem_mem hlt)
    have hfind := h.ahead hsolo i n _ hat (by omega) (by
      intro m hm
      rw [hn] at hm
      cases hm
      exact Nat.le_refl n)
    have hin := (Store.mem_pending_iff hpending).mpr
      ⟨_, (Table.find_some_iff.mp hfind).1, ⟨hgroup.kind, rfl⟩, hof⟩
    rw [List.append_nil] at hin
    have hepoch : M.epoch d room = some n := by
      rw [← w.epoch_eq M room hfollows.engine, hn]
    have hroom : (commitItem w.log[n].event commit).room_id = room := hgroup.here
    rcases (wait_iff M hfollows.engine).mp (hwaits _ hin) with hnone | hheld
    · rw [hroom, hepoch] at hnone
      cases hnone
    · exact hheld trivial
  · have hle := h.latest i n hn
    rw [hn]
    congr 1
    omega

end InOrder

/-- In every run, once every device of the group has joined and has run its pass over the whole
log, they are all at the latest epoch if and only if each commit was made while no other device
of its author's user was in the group. -/
theorem member_devices_agree_iff (M : EpochModel X) (room : String) (founder : ι)
    (user : ι → String) (w₀ w : Fleet ι D) (h₀ : Founded M room founder user w₀)
    (hr : Relation.ReflTransGen (FleetStep M room founder) w₀ w)
    (hdone : ∀ i s, StartsAt founder w.log i s → CaughtUp M room w i) :
    (∀ i s, StartsAt founder w.log i s → w.epoch M room i = some w.log.length) ↔
      Solo founder user w.log := by
  have h := (InOrder.founded h₀).run hr
  constructor
  · intro hall k b hb i s hs hsk huser
    by_contra hne
    have hstuck := h.stuck i w.log.length (hall i s hs) k b hb huser.symm
      (fun heq => hne heq.symm) s hs hsk
    have hk := at_length hb
    omega
  · intro hsolo i s hs
    exact h.caught_up hsolo (hdone i s hs)

/-! ## A tablet is left behind -/

/-- `@ann` has a phone and a tablet, and `@bob` has a phone. -/
inductive Gadget where
  | annPhone
  | annTablet
  | bobPhone
  deriving DecidableEq

def gadgetUser : Gadget → String
  | .bobPhone => "@bob:pigeon.example"
  | _ => "@ann:pigeon.example"

/-- The phone of `@ann` has made the group. -/
def gadgetClient : Gadget → Client Copies
  | .annPhone => memberClient
  | .annTablet => { freshClient with session := ⟨"@ann:pigeon.example", "ANN2", "pigeon.example"⟩ }
  | .bobPhone => { freshClient with session := ⟨"@bob:pigeon.example", "BOB1", "pigeon.example"⟩ }

def gadgets : Fleet Gadget Copies := ⟨gadgetClient, [], fun _ => 0⟩

/-- The phone of `@ann` at the epoch `e` adds a device. -/
def annAdds (w : Fleet Gadget Copies) : Client Copies :=
  (Client.local_ epochCrypto (.add_member "!room" "key-package") (w.device .annPhone)).2

def annCommit (e : Nat) (event_id : String) (depth : Int) : StoredEvent :=
  wireStored "@ann:pigeon.example" event_id "p.mls.commit" depth
    (commitContent (epochText e "!room"))

def joined (w : Fleet Gadget Copies) (i : Gadget) (e : Nat) : Fleet Gadget Copies :=
  w.setDevice i ((apply_welcome ⟨epochText e "!room", some "!room"⟩).run
    (Client.local_ epochCrypto) (w.device i)).2

def synced (w : Fleet Gadget Copies) (i : Gadget) : Fleet Gadget Copies :=
  { w.setDevice i ((w.device i).deliver epochCrypto "!room" (.sync, slice w.log (w.got i) 2)) with
    got := Function.update w.got i (w.got i + 2) }

/-- It adds the tablet. -/
def gadgets₁ : Fleet Gadget Copies :=
  { gadgets.setDevice .annPhone (annAdds gadgets) with
    log := gadgets.log ++
      [⟨.annPhone, .annTablet, epochText 1 "!room", annCommit 0 "$tablet" 3⟩] }

/-- The tablet has joined, and the phone adds the phone of `@bob`. -/
def gadgets₂ : Fleet Gadget Copies :=
  { (joined gadgets₁ .annTablet 1).setDevice .annPhone (annAdds (joined gadgets₁ .annTablet 1)) with
    log := (joined gadgets₁ .annTablet 1).log ++
      [⟨.annPhone, .bobPhone, epochText 2 "!room", annCommit 1 "$bob" 4⟩] }

/-- All have joined, and all have read the log. -/
def gadgets₃ : Fleet Gadget Copies :=
  synced (synced (synced (joined gadgets₂ .bobPhone 2) .annPhone) .annTablet) .bobPhone

theorem gadgets_founded : Founded epochModel "!room" .annPhone gadgetUser gadgets := by
  refine ⟨rfl, fun _ => rfl, ?_, ?_, ?_⟩
  · intro i
    cases i <;> rfl
  · intro i
    cases i with
    | annPhone => exact ⟨Copies.set Table.empty "!room" 0, rfl, rfl⟩
    | annTablet => exact ⟨Table.empty, rfl, rfl⟩
    | bobPhone => exact ⟨Table.empty, rfl, rfl⟩
  · intro i r hr
    cases i <;> cases hr

theorem annCommit_new {w : Fleet Gadget Copies} {e : Nat} {event_id : String} {depth : Int}
    (hwire : StoredEvent.from_wire (annCommit e event_id depth).payload =
      .ok (annCommit e event_id depth))
    (huser : (w.device .annPhone).session.user_id = "@ann:pigeon.example")
    (hdeeper : ∀ b ∈ w.log, b.event.depth < depth)
    (hfresh : ∀ b ∈ w.log, b.event.event_id ≠ event_id)
    (hunseen : ∀ i, (w.device i).store.events.find event_id = none) :
    NewCommit "!room" w .annPhone (epochText e "!room") (annCommit e event_id depth) :=
  ⟨⟨hwire, rfl, Or.inr rfl⟩, huser.symm, rfl, hdeeper, hfresh, hunseen⟩

theorem gadgets_run :
    Relation.ReflTransGen (FleetStep epochModel "!room" .annPhone) gadgets gadgets₃ := by
  have hadd₁ : FleetStep epochModel "!room" .annPhone gadgets gadgets₁ := by
    refine @FleetStep.add _ _ _ _ _ _ _ gadgets .annPhone .annTablet "key-package"
      ⟨epochText 1 "!room", epochText 0 "!room"⟩ (annAdds gadgets) (annCommit 0 "$tablet" 3)
      rfl ?_ rfl ?_
    · rintro s (⟨h, -⟩ | ⟨k, b, hb, -⟩)
      · cases h
      · cases hb
    · apply annCommit_new rfl rfl
      · intro b hb
        cases hb
      · intro b hb
        cases hb
      · intro i
        cases i <;> rfl
  have hadd₂ : FleetStep epochModel "!room" .annPhone (joined gadgets₁ .annTablet 1) gadgets₂ := by
    refine @FleetStep.add _ _ _ _ _ _ _ (joined gadgets₁ .annTablet 1) .annPhone .bobPhone
      "key-package" ⟨epochText 2 "!room", epochText 1 "!room"⟩
      (annAdds (joined gadgets₁ .annTablet 1)) (annCommit 1 "$bob" 4) rfl ?_ rfl ?_
    · rintro s (⟨h, -⟩ | ⟨k, b, hb, ha, -⟩)
      · cases h
      · have hmem := List.mem_of_getElem? hb
        rw [List.mem_singleton.mp hmem] at ha
        cases ha
    · apply annCommit_new rfl rfl
      · intro b hb
        rw [List.mem_singleton.mp hb]
        decide
      · intro b hb
        rw [List.mem_singleton.mp hb]
        decide
      · intro i
        cases i <;> rfl
  have hjoin₁ : FleetStep epochModel "!room" .annPhone gadgets₁ (joined gadgets₁ .annTablet 1) :=
    @FleetStep.join _ _ _ _ _ _ _ gadgets₁
      ⟨.annPhone, .annTablet, epochText 1 "!room", annCommit 0 "$tablet" 3⟩ List.mem_cons_self
  have hjoin₂ : FleetStep epochModel "!room" .annPhone gadgets₂ (joined gadgets₂ .bobPhone 2) :=
    @FleetStep.join _ _ _ _ _ _ _ gadgets₂
      ⟨.annPhone, .bobPhone, epochText 2 "!room", annCommit 1 "$bob" 4⟩
      (List.mem_cons_of_mem _ List.mem_cons_self)
  have hsync : ∀ (w : Fleet Gadget Copies) (i : Gadget), w.got i + 2 ≤ w.log.length →
      FleetStep epochModel "!room" .annPhone w (synced w i) := fun w i h => .sync .sync h
  apply Relation.ReflTransGen.head hadd₁
  apply Relation.ReflTransGen.head hjoin₁
  apply Relation.ReflTransGen.head hadd₂
  apply Relation.ReflTransGen.head hjoin₂
  apply Relation.ReflTransGen.head (hsync _ .annPhone (by decide))
  apply Relation.ReflTransGen.head (hsync _ .annTablet (by decide))
  exact Relation.ReflTransGen.single (hsync _ .bobPhone (by decide))

theorem gadgets_caught_up (i : Gadget) : CaughtUp epochModel "!room" gadgets₃ i := by
  cases i with
  | annPhone => exact ⟨rfl, rfl, [], rfl, fun _ hi => absurd hi List.not_mem_nil⟩
  | annTablet => exact ⟨rfl, rfl, [], rfl, fun _ hi => absurd hi List.not_mem_nil⟩
  | bobPhone => exact ⟨rfl, rfl, [], rfl, fun _ hi => absurd hi List.not_mem_nil⟩

theorem member_devices_agree_iff_gadgets :
    (∀ i s, StartsAt .annPhone gadgets₃.log i s →
      gadgets₃.epoch epochModel "!room" i = some gadgets₃.log.length) ↔
        Solo .annPhone gadgetUser gadgets₃.log :=
  member_devices_agree_iff epochModel "!room" .annPhone gadgetUser gadgets gadgets₃
    gadgets_founded gadgets_run (fun i _ _ => gadgets_caught_up i)

/-- The tablet skips the commit of the phone of its own user, and stays an epoch behind. -/
theorem a_second_device_is_left_behind : ¬ ∀ (founder : Gadget) (user : Gadget → String)
    (w₀ w : Fleet Gadget Copies), Founded epochModel "!room" founder user w₀ →
    Relation.ReflTransGen (FleetStep epochModel "!room" founder) w₀ w →
    (∀ i s, StartsAt founder w.log i s → CaughtUp epochModel "!room" w i) →
    ∀ i s, StartsAt founder w.log i s → w.epoch epochModel "!room" i = some w.log.length := by
  intro h
  have hstart : StartsAt .annPhone gadgets₃.log .annTablet 1 := Or.inr ⟨0, _, rfl, rfl, rfl⟩
  have hlatest := h .annPhone gadgetUser gadgets gadgets₃ gadgets_founded gadgets_run
    (fun i _ _ => gadgets_caught_up i) .annTablet 1 hstart
  have hbehind : gadgets₃.epoch epochModel "!room" .annTablet = some 1 := rfl
  have htwo : gadgets₃.log.length = 2 := rfl
  rw [hbehind, htwo] at hlatest
  cases hlatest

end PigeonMobile
