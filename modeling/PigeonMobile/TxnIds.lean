-- Transaction ids over the runs of the app (`next_txn_id` in `rooms.rs`, `now_millis` and
-- `next_send_ids` in `store.rs`). The two generators share the ids that the server deduplicates
-- on, and each has a counter that restarts with the app.
import PigeonMobile.DecimalOrder
import PigeonMobile.Stamps
import PigeonMobile.Store
import Mathlib.Data.List.Perm.Basic

namespace PigeonMobile

/-! ## The generators -/

/-- `as_millis` of the time since the epoch, and 0 before it. -/
def as_millis (clock : Int) : Nat := clock.toNat

/-- The cast to `i64` wraps. -/
def now_millis (clock : Int) : Int := (as_millis clock : Int).bmod 18446744073709551616

/-- `next_txn_id`, where the counter stands at `n`. -/
def next_txn_id (clock : Int) (n : Nat) : String :=
  "mob-td-" ++ toString (as_millis clock) ++ "-" ++ toString n

/-- The counters are `AtomicU64`. -/
def COUNTS : Nat := 18446744073709551616

def fetch_add (n : Nat) : Nat := (n + 1) % COUNTS

inductive Generator where
  | next_txn_id
  | next_send_ids
deriving DecidableEq

/-- A call of a generator, with the wall clock it reads, in milliseconds since the epoch. -/
structure IdCall where
  generator : Generator
  clock : Int

/-- The two counters of a process. -/
structure Counters where
  rooms : Nat
  store : Nat

/-- The ids that a call gives: a one-shot send has no echo. -/
structure Issued where
  txn_id : String
  event_id : Option String

def IdCall.issue (k : Counters) : IdCall → Issued × Counters
  | ⟨.next_txn_id, clock⟩ =>
    (⟨PigeonMobile.next_txn_id clock k.rooms, none⟩, { k with rooms := fetch_add k.rooms })
  | ⟨.next_send_ids, clock⟩ =>
    let ids := PigeonMobile.next_send_ids (now_millis clock) k.store
    (⟨ids.txn_id, some ids.event_id⟩, { k with store := fetch_add k.store })

def issueFrom (k : Counters) : List IdCall → List Issued
  | [] => []
  | c :: calls => (c.issue k).1 :: issueFrom (c.issue k).2 calls

/-- The ids of some runs of the app. -/
def issued (runs : List (List IdCall)) : List Issued := runs.flatMap (issueFrom ⟨0, 0⟩)

/-- The milliseconds that a generator makes of the clock. -/
def millis : Generator → Int → Int
  | .next_txn_id, clock => as_millis clock
  | .next_send_ids, clock => now_millis clock

/-- What the calls of a generator read in a run. -/
def readings (g : Generator) (run : List IdCall) : List Int :=
  run.filterMap (fun c => if c.generator = g then some (millis g c.clock) else none)

/-! ## An id is a stamp -/

/-- The ids of a stamp. -/
def idsOf : Generator → Int × Nat → Issued
  | .next_txn_id, (ts, n) => ⟨"mob-td-" ++ toString ts ++ "-" ++ toString n, none⟩
  | .next_send_ids, (ts, n) =>
    ⟨(next_send_ids ts n).txn_id, some (next_send_ids ts n).event_id⟩

/-- What a run gives is what each generator gives. -/
theorem issueFrom_perm (k : Counters) (calls : List IdCall) : (issueFrom k calls).Perm
    ((Stamps.stampsFrom COUNTS k.rooms (readings .next_txn_id calls)).map (idsOf .next_txn_id) ++
      (Stamps.stampsFrom COUNTS k.store (readings .next_send_ids calls)).map
        (idsOf .next_send_ids)) := by
  induction calls generalizing k with
  | nil => exact List.Perm.refl _
  | cons c calls ih =>
    obtain ⟨g, clock⟩ := c
    cases g with
    | next_txn_id => exact (ih _).cons _
    | next_send_ids =>
      have hrest := (ih { k with store := fetch_add k.store }).cons
        (idsOf .next_send_ids (now_millis clock, k.store))
      exact hrest.trans List.perm_middle.symm

theorem issued_perm (runs : List (List IdCall)) : (issued runs).Perm
    ((Stamps.stamps COUNTS (runs.map (readings .next_txn_id))).map (idsOf .next_txn_id) ++
      (Stamps.stamps COUNTS (runs.map (readings .next_send_ids))).map (idsOf .next_send_ids)) := by
  have hparts : ∀ g, (Stamps.stamps COUNTS (runs.map (readings g))).map (idsOf g) =
      runs.flatMap (fun run => (Stamps.stampsFrom COUNTS 0 (readings g run)).map (idsOf g)) := by
    intro g
    unfold Stamps.stamps
    rw [List.flatMap_map, List.map_flatMap]
  rw [hparts, hparts]
  refine List.Perm.trans ?_ (List.flatMap_append_perm runs _ _).symm
  exact List.Perm.flatMap_left runs (fun run _ => issueFrom_perm ⟨0, 0⟩ run)

/-! ## The texts -/

/-- The text of a number, with its sign. -/
def signed (ts : Int) : List Char := (toString ts).toList

theorem signed_eq (ts : Int) : signed ts =
    if 0 ≤ ts then DecimalOrder.digits ts.toNat else '-' :: DecimalOrder.digits (-ts).toNat := by
  unfold signed
  rw [Int.toString_eq_repr, Int.repr_eq_if]
  split
  · rw [Nat.toList_repr]
    rfl
  · rw [String.toList_append, Nat.toList_repr]
    rfl

theorem minus_not_digit (n : Nat) : '-' ∉ DecimalOrder.digits n := by
  intro h
  exact absurd (DecimalOrder.digits_all n '-' h).1 (by decide)

theorem signed_inj {a b : Int} (h : signed a = signed b) : a = b := by
  rw [signed_eq, signed_eq] at h
  by_cases ha : 0 ≤ a
  · by_cases hb : 0 ≤ b
    · rw [if_pos ha, if_pos hb] at h
      have hnat := DecimalOrder.digits_inj h
      omega
    · rw [if_pos ha, if_neg hb] at h
      exact absurd (h ▸ List.mem_cons_self) (minus_not_digit a.toNat)
  · by_cases hb : 0 ≤ b
    · rw [if_neg ha, if_pos hb] at h
      exact absurd (h ▸ List.mem_cons_self) (minus_not_digit b.toNat)
    · rw [if_neg ha, if_neg hb] at h
      have hnat := DecimalOrder.digits_inj (List.cons.inj h).2
      omega

/-- The part of an id that is its stamp. -/
def stampText (x : Int × Nat) : List Char := signed x.1 ++ '-' :: DecimalOrder.digits x.2

theorem stampText_inj : Function.Injective stampText := by
  rintro ⟨ts, n⟩ ⟨ts', n'⟩ h
  obtain ⟨hts, hn⟩ := Stamps.split_inj (minus_not_digit n) (minus_not_digit n') h
  obtain rfl : ts = ts' := signed_inj hts
  obtain rfl := DecimalOrder.digits_inj hn
  rfl

/-- No text of a stamp begins as a transaction of `rooms.rs` goes on. -/
theorem stampText_head (x : Int × Nat) (l : List Char) : stampText x ≠ 'o' :: l := by
  intro h
  unfold stampText at h
  rw [signed_eq] at h
  split at h
  · -- a digit, as the text of a number is not empty
    cases hdigits : DecimalOrder.digits x.1.toNat with
    | nil => exact Nat.toDigits_ne_nil hdigits
    | cons c rest =>
      rw [hdigits, List.cons_append] at h
      have hdigit := DecimalOrder.digits_all x.1.toNat c (by rw [hdigits]; exact List.mem_cons_self)
      rw [(List.cons.inj h).1] at hdigit
      exact absurd hdigit.2 (by decide)
  · exact absurd (List.cons.inj h).1 (by decide)

theorem one_shot_text (x : Int × Nat) :
    (idsOf .next_txn_id x).txn_id.toList = "mob-td-".toList ++ stampText x := by
  obtain ⟨ts, n⟩ := x
  simp [idsOf, stampText, signed, DecimalOrder.digits, Nat.toList_repr]

theorem queued_text (x : Int × Nat) :
    (idsOf .next_send_ids x).txn_id.toList = 'm' :: stampText x := by
  obtain ⟨ts, n⟩ := x
  simp [idsOf, next_send_ids, stampText, signed, DecimalOrder.digits, Nat.toList_repr]

theorem echo_text (x : Int × Nat) :
    (next_send_ids x.1 x.2).event_id.toList = "$local-".toList ++ stampText x := by
  obtain ⟨ts, n⟩ := x
  simp [next_send_ids, stampText, signed, DecimalOrder.digits, Nat.toList_repr]

/-- Two stamps of a generator have two ids. -/
theorem txn_id_inj (g : Generator) : Function.Injective (fun x => (idsOf g x).txn_id) := by
  intro x y h
  have htext := congrArg String.toList h
  cases g with
  | next_txn_id =>
    rw [one_shot_text, one_shot_text] at htext
    exact stampText_inj (List.append_cancel_left htext)
  | next_send_ids =>
    rw [queued_text, queued_text] at htext
    exact stampText_inj (List.cons.inj htext).2

theorem event_id_inj :
    Function.Injective (fun x : Int × Nat => (next_send_ids x.1 x.2).event_id) := by
  intro x y h
  have htext := congrArg String.toList h
  rw [echo_text, echo_text] at htext
  exact stampText_inj (List.append_cancel_left htext)

/-- The two generators share no id. -/
theorem txn_id_apart (x y : Int × Nat) :
    (idsOf .next_txn_id x).txn_id ≠ (idsOf .next_send_ids y).txn_id := by
  intro h
  have htext := congrArg String.toList h
  rw [one_shot_text, queued_text] at htext
  exact stampText_head y _ (List.cons.inj htext).2.symm

/-! ## All runs -/

theorem txn_ids_nodup_iff (runs : List (List IdCall)) :
    ((issued runs).map Issued.txn_id).Nodup ↔
      Stamps.Apart COUNTS (runs.map (readings .next_txn_id)) ∧
        Stamps.Apart COUNTS (runs.map (readings .next_send_ids)) := by
  rw [((issued_perm runs).map Issued.txn_id).nodup_iff, List.map_append, List.map_map,
    List.map_map, List.nodup_append]
  have hpart : ∀ g, ((Stamps.stamps COUNTS (runs.map (readings g))).map
      (Issued.txn_id ∘ idsOf g)).Nodup ↔ Stamps.Apart COUNTS (runs.map (readings g)) := by
    intro g
    exact (List.nodup_map_iff (txn_id_inj g)).trans (Stamps.stamps_nodup_iff (by decide) _)
  constructor
  · rintro ⟨hone, hqueued, -⟩
    exact ⟨(hpart _).mp hone, (hpart _).mp hqueued⟩
  · rintro ⟨hone, hqueued⟩
    refine ⟨(hpart _).mpr hone, (hpart _).mpr hqueued, ?_⟩
    intro a ha b hb
    obtain ⟨x, -, rfl⟩ := List.mem_map.mp ha
    obtain ⟨y, -, rfl⟩ := List.mem_map.mp hb
    exact txn_id_apart x y

theorem event_ids_eq (runs : List (List IdCall)) : ((issued runs).filterMap Issued.event_id).Perm
    ((Stamps.stamps COUNTS (runs.map (readings .next_send_ids))).map
      (fun x => (next_send_ids x.1 x.2).event_id)) := by
  have hone : ∀ xs : List (Int × Nat),
      (xs.map (idsOf .next_txn_id)).filterMap Issued.event_id = [] := by
    intro xs
    rw [List.filterMap_map]
    exact List.filterMap_eq_nil_iff.mpr (fun _ _ => rfl)
  have hqueued : ∀ xs : List (Int × Nat), (xs.map (idsOf .next_send_ids)).filterMap
      Issued.event_id = xs.map (fun x => (next_send_ids x.1 x.2).event_id) := by
    intro xs
    rw [List.filterMap_map, ← List.filterMap_eq_map]
    rfl
  have hperm := (issued_perm runs).filterMap Issued.event_id
  rw [List.filterMap_append, hone, hqueued, List.nil_append] at hperm
  exact hperm

theorem event_ids_nodup_iff (runs : List (List IdCall)) :
    ((issued runs).filterMap Issued.event_id).Nodup ↔
      Stamps.Apart COUNTS (runs.map (readings .next_send_ids)) := by
  rw [(event_ids_eq runs).nodup_iff, List.nodup_map_iff event_id_inj]
  exact Stamps.stamps_nodup_iff (by decide) _

/-- The ids of all runs are distinct just where no generator reads the same milliseconds twice at
one count. The clock alone separates the runs, as a counter restarts with each. -/
theorem ids_never_repeat_iff (runs : List (List IdCall)) :
    ((issued runs).map Issued.txn_id).Nodup ∧ ((issued runs).filterMap Issued.event_id).Nodup ↔
      ∀ g, Stamps.Apart COUNTS (runs.map (readings g)) := by
  rw [txn_ids_nodup_iff, event_ids_nodup_iff]
  constructor
  · rintro ⟨⟨hone, hqueued⟩, -⟩ g
    cases g with
    | next_txn_id => exact hone
    | next_send_ids => exact hqueued
  · intro h
    exact ⟨⟨h .next_txn_id, h .next_send_ids⟩, h .next_send_ids⟩

/-- A clock set back between two runs gives an id of the first again. -/
theorem ids_repeat_on_a_clock_set_back : ¬ ∀ runs : List (List IdCall),
    ((issued runs).map Issued.txn_id).Nodup ∧
      ((issued runs).filterMap Issued.event_id).Nodup := by
  intro h
  have hruns := h [[⟨.next_txn_id, 1700000000000⟩, ⟨.next_send_ids, 1700000009000⟩],
    [⟨.next_txn_id, 1700000000000⟩]]
  exact (List.nodup_cons.mp hruns.1).1 (List.mem_of_getElem? (show _[1]? = some _ from rfl))

/-- The clock of a device, between the epoch and the end of `i64`. -/
theorem millis_eq (g : Generator) {clock : Int} (hepoch : 0 ≤ clock)
    (hbound : clock < 9223372036854775808) : millis g clock = clock := by
  have hread : (as_millis clock : Int) = clock := Int.toNat_of_nonneg hepoch
  cases g with
  | next_txn_id => exact hread
  | next_send_ids =>
    show (as_millis clock : Int).bmod 18446744073709551616 = clock
    rw [hread]
    exact Int.bmod_eq_of_le (by omega) (by omega)

theorem mem_readings {g : Generator} {run : List IdCall} {t : Int} :
    t ∈ readings g run ↔ ∃ c ∈ run, c.generator = g ∧ millis g c.clock = t := by
  unfold readings
  simp [List.mem_filterMap]

/-- What the time in an id is for: each run finds the clock later than all runs before it. -/
theorem ids_apart_of_later_clock {runs : List (List IdCall)}
    (hlength : ∀ run ∈ runs, run.length ≤ COUNTS)
    (hclock : ∀ run ∈ runs, ∀ c ∈ run, 0 ≤ c.clock ∧ c.clock < 9223372036854775808)
    (hlater : runs.Pairwise (fun run later => ∀ c ∈ run, ∀ d ∈ later, c.clock < d.clock)) :
    ((issued runs).map Issued.txn_id).Nodup ∧
      ((issued runs).filterMap Issued.event_id).Nodup := by
  have hread : ∀ run ∈ runs, ∀ c ∈ run, ∀ g, millis g c.clock = c.clock := by
    intro run hrun c hc g
    obtain ⟨hepoch, hbound⟩ := hclock run hrun c hc
    exact millis_eq g hepoch hbound
  have hapart : ∀ g, Stamps.Apart COUNTS (runs.map (readings g)) := by
    intro g
    apply Stamps.apart_of_ascending
    · intro ts hts
      obtain ⟨run, hrun, rfl⟩ := List.mem_map.mp hts
      exact (List.length_filterMap_le _ run).trans (hlength run hrun)
    · rw [List.pairwise_map]
      apply hlater.imp_of_mem
      intro run later hrun hrun' hlt t ht u hu
      obtain ⟨c, hc, -, rfl⟩ := mem_readings.mp ht
      obtain ⟨d, hd, -, rfl⟩ := mem_readings.mp hu
      rw [hread run hrun c hc g, hread later hrun' d hd g]
      exact hlt c hc d hd
  rw [txn_ids_nodup_iff, event_ids_nodup_iff]
  exact ⟨⟨hapart .next_txn_id, hapart .next_send_ids⟩, hapart .next_send_ids⟩

end PigeonMobile
