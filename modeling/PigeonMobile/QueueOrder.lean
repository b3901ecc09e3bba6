-- The order of the outbound queue (`queue_send`, `pending_sends` and `next_send_ids` in
-- `store.rs`). Sends of one millisecond are read back in the order of their transaction ids,
-- which is the order of texts: `m5-10` is before `m5-9`.
import PigeonMobile.StoreMethods
import PigeonMobile.DecimalOrder
import Mathlib.Data.List.Induction

namespace PigeonMobile

/-! ## One run of the process -/

/-- What `now_millis` gives: no less than 0, and an `i64`. -/
abbrev Reading := { n : Nat // n ≤ 9223372036854775807 }

/-- A call of `queue_send`, with the two readings of the clock that it takes: one for its ids,
and one for its row. -/
structure QueueSend where
  room_id : String
  sender : String
  body : String
  ts : Reading
  now : Reading

/-- A message that was queued in the run, when the counter stood at `n`. -/
structure InLine where
  call : QueueSend
  n : Nat

namespace InLine

def ids (q : InLine) : SendIds := next_send_ids q.call.ts.1 q.n

def txn_id (q : InLine) : String := q.ids.txn_id

/-- The row that is written for it. -/
def row (q : InLine) : PendingRow :=
  ⟨q.txn_id, q.call.room_id, q.call.body, q.ids.event_id, q.call.now.1⟩

/-- What the sender reads of it. -/
def shown (q : InLine) : PendingSend := ⟨q.txn_id, q.call.room_id, q.call.body⟩

end InLine

def Method.isSend : Method → Bool
  | .queue_send .. => true
  | _ => false

/-- The calls of a run: a send, or any other method of the store. -/
inductive QueueCall where
  | send (c : QueueSend)
  | other (m : Method) (h : m.isSend = false)

/-- The store, the counter of the process, and the messages of the run that remain, in the order
in which they were queued. -/
structure QueueRun where
  store : Store
  counter : Nat
  line : List InLine

/-- A message that is resolved or has failed leaves the line. -/
def leaveLine (line : List InLine) : Method → List InLine
  | .resolve_send txn_id _ => line.filter (fun q => decide (q.txn_id ≠ txn_id))
  | .fail_send txn_id => line.filter (fun q => decide (q.txn_id ≠ txn_id))
  | _ => line

/-- The counter is an `AtomicU64`, and is taken also by a send that fails. -/
def QueueRun.after (s : QueueRun) : QueueCall → QueueRun
  | .send c =>
    let q : InLine := ⟨c, s.counter⟩
    let counter := (s.counter + 1) % 18446744073709551616
    match s.store.queue_send c.room_id c.sender c.body q.ids c.now.1 with
    | .ok (_, store) => ⟨store, counter, s.line ++ [q]⟩
    | .error _ => ⟨s.store, counter, s.line⟩
  | .other m _ =>
    match s.store.call m with
    | .ok store => ⟨store, s.counter, leaveLine s.line m⟩
    | .error _ => s

def QueueRun.afterAll (s : QueueRun) (calls : List QueueCall) : QueueRun :=
  calls.foldl QueueRun.after s

/-- A process starts on a store that is there, with no message of its own. -/
def QueueRun.start (st : Store) (counter : Nat) : QueueRun := ⟨st, counter, []⟩

def QueueCall.readings : QueueCall → List Nat
  | .send c => [c.ts.1, c.now.1]
  | .other _ _ => []

/-- The wall clock never goes backwards. -/
def ClockSteady (calls : List QueueCall) : Prop :=
  (calls.flatMap QueueCall.readings).Pairwise (· ≤ ·)

/-- `pending_sends`, of it the messages of the run. -/
def QueueRun.listed (s : QueueRun) : List PendingSend :=
  s.store.pending_sends_list.filter (fun p => decide (p.txn_id ∈ s.line.map InLine.txn_id))

/-- Of two messages of one millisecond, the earlier one has the id that comes first as a text. -/
def TextOrder (a b : InLine) : Prop :=
  a.call.now.1 = b.call.now.1 →
    if a.call.ts.1 = b.call.ts.1 then DecimalOrder.Before a.n b.n
    else DecimalOrder.Before a.call.ts.1 b.call.ts.1

/-! ## The order of two rows -/

theorem txn_id_toList (q : InLine) : q.txn_id.toList =
    'm' :: (DecimalOrder.digits q.call.ts.1 ++ '-' :: DecimalOrder.digits q.n) := by
  have hts : toString ((q.call.ts.1 : Nat) : Int) = q.call.ts.1.repr := rfl
  unfold InLine.txn_id InLine.ids next_send_ids
  simp only [hts, Nat.toString_eq_repr, String.toList_append, Nat.toList_repr]
  simp [DecimalOrder.digits]

theorem txn_id_lt_iff {a b : InLine} (hne : a.txn_id ≠ b.txn_id) : a.txn_id < b.txn_id ↔
    if a.call.ts.1 = b.call.ts.1 then DecimalOrder.Before a.n b.n
    else DecimalOrder.Before a.call.ts.1 b.call.ts.1 := by
  rw [String.lt_iff_toList_lt, txn_id_toList, txn_id_toList, List.cons_lt_cons_iff]
  by_cases hts : a.call.ts.1 = b.call.ts.1
  · have hn : a.n ≠ b.n := by
      intro hn
      apply hne
      rw [← String.toList_inj, txn_id_toList, txn_id_toList, hts, hn]
    have hnil : DecimalOrder.Low [] := by simp [DecimalOrder.Low]
    have htext := DecimalOrder.text_lt_iff hn hnil hnil
    rw [List.append_nil, List.append_nil] at htext
    rw [if_pos hts, hts, DecimalOrder.append_lt_append_left, List.cons_lt_cons_iff, htext]
    simp
  · -- the minus sign that follows is below the digits
    have hlow : ∀ n, DecimalOrder.Low ('-' :: DecimalOrder.digits n) := by
      intro n c hc
      rw [List.head?_cons, Option.mem_some_iff] at hc
      subst hc
      decide
    rw [if_neg hts, DecimalOrder.text_lt_iff hts (hlow a.n) (hlow b.n)]
    simp

/-- Of two messages the first was queued no later, so it is read first just where the texts of
one millisecond say so. -/
theorem row_lt_iff {a b : InLine} (hne : a.txn_id ≠ b.txn_id) (hnow : a.call.now.1 ≤ b.call.now.1) :
    a.row.position < b.row.position ↔ TextOrder a b := by
  unfold PendingRow.position TextOrder
  rw [Prod.Lex.toLex_lt_toLex, ← txn_id_lt_iff hne]
  simp only [InLine.row, Int.ofNat_lt, Int.ofNat_inj]
  constructor
  · rintro (hlt | ⟨-, htext⟩) he
    · omega
    · exact htext
  · intro h
    rcases Nat.lt_or_eq_of_le hnow with hlt | he
    · exact Or.inl hlt
    · exact Or.inr ⟨he, h he⟩

/-! ## What a call does to the queue -/

namespace Store

variable {st st' : Store}

theorem resolve_send_queue {txn_id id : String} (h : st.resolve_send txn_id id = .ok st') :
    st'.pending_sends = st.pending_sends.erase txn_id := by
  unfold resolve_send at h
  split at h
  · cases h
    rfl
  · split at h
    · cases h
    · split at h <;> cases h <;> rfl

theorem fail_send_queue (st : Store) (txn_id : String) :
    (st.fail_send txn_id).pending_sends = st.pending_sends.erase txn_id := by
  unfold fail_send
  cases st.pending_sends.find txn_id <;> rfl

/-- A method that is no send adds no row. A row of the queue stays, but for that of the
transaction that is resolved or has failed. -/
theorem call_queue {m : Method} (hm : m.isSend = false) (h : st.call m = .ok st') :
    st'.pending_sends = match m with
      | .resolve_send txn_id _ => st.pending_sends.erase txn_id
      | .fail_send txn_id => st.pending_sends.erase txn_id
      | _ => st.pending_sends := by
  cases m with
  | queue_send room_id sender body ts n now => cases hm
  | resolve_send txn_id id => exact resolve_send_queue h
  | fail_send txn_id =>
    cases h
    exact st.fail_send_queue txn_id
  | apply_events events =>
    obtain ⟨n, happly⟩ := call_apply_events h
    obtain ⟨evs, -, hparsed⟩ := st.apply_events_ok happly
    have hqueue := st.apply_parsed_pending_sends evs
    rw [hparsed] at hqueue
    exact hqueue
  | save_sync_token token =>
    cases h
    rfl
  | set_decrypted event_id plaintext =>
    cases h
    rfl
  | set_decrypt_failed event_id =>
    cases h
    rfl
  | set_commit_processed event_id =>
    cases h
    rfl

end Store

/-! ## The line is in the queue -/

def QueueCall.sent : QueueCall → Option QueueSend
  | .send c => some c
  | .other _ _ => none

/-- Each message of the line has its row, and the line has the messages in the order of the
calls. -/
structure LineHeld (before : Store) (calls : List QueueCall) (s : QueueRun) : Prop where
  rows : ∀ q ∈ s.line, s.store.pending_sends.find q.txn_id = some q.row
  nodup : (s.line.map InLine.txn_id).Nodup
  called : (s.line.map InLine.call).Sublist (calls.filterMap QueueCall.sent)
  others : ∀ txn_id p, s.store.pending_sends.find txn_id = some p →
    txn_id ∈ s.line.map InLine.txn_id ∨ before.pending_sends.find txn_id = some p

namespace LineHeld

variable {before : Store} {calls : List QueueCall} {s : QueueRun}

theorem start (st : Store) (counter : Nat) : LineHeld st [] (QueueRun.start st counter) :=
  ⟨fun _ hq => absurd hq List.not_mem_nil, List.nodup_nil, List.nil_sublist _,
    fun _ _ hp => Or.inr hp⟩

/-- A message that is queued goes to the end of the line. -/
theorem send (h : LineHeld before calls s) (c : QueueSend) :
    LineHeld before (calls ++ [.send c]) (s.after (.send c)) := by
  have hcalls : (calls ++ [QueueCall.send c]).filterMap QueueCall.sent =
      calls.filterMap QueueCall.sent ++ [c] := by
    rw [List.filterMap_append]
    rfl
  simp only [QueueRun.after]
  cases hqueue : s.store.queue_send c.room_id c.sender c.body (InLine.ids ⟨c, s.counter⟩)
    c.now.1 with
  | error e =>
    refine ⟨h.rows, h.nodup, ?_, h.others⟩
    rw [hcalls]
    exact h.called.trans (List.sublist_append_left _ _)
  | ok out =>
    obtain ⟨txn, st'⟩ := out
    obtain ⟨depth, -, -, hfree, -, -, hfind⟩ := s.store.find_queue_send hqueue
    have hnew : (InLine.txn_id ⟨c, s.counter⟩) ∉ s.line.map InLine.txn_id := by
      intro hmem
      obtain ⟨q, hq, he⟩ := List.mem_map.mp hmem
      have hrow := h.rows q hq
      rw [he] at hrow
      exact Option.some_ne_none _ (hrow.symm.trans hfree)
    refine ⟨?_, ?_, ?_, ?_⟩
    · intro q hq
      simp only at hq ⊢
      rw [hfind]
      rcases List.mem_append.mp hq with hold | hlast
      · rw [if_neg]
        · exact h.rows q hold
        · intro he
          apply hnew
          rw [InLine.txn_id, he]
          exact List.mem_map_of_mem hold
      · obtain rfl := List.mem_singleton.mp hlast
        exact if_pos rfl
    · rw [List.map_append, List.nodup_append]
      refine ⟨h.nodup, List.nodup_singleton _, ?_⟩
      intro x hx y hy
      rw [List.map_singleton, List.mem_singleton] at hy
      rintro rfl
      exact hnew (hy ▸ hx)
    · rw [hcalls, List.map_append]
      exact h.called.append (List.Sublist.refl _)
    · intro txn_id p hp
      simp only at hp ⊢
      rw [hfind] at hp
      split at hp
      · next he =>
        refine Or.inl (List.mem_map.mpr ⟨⟨c, s.counter⟩, ?_, he⟩)
        simp
      · rcases h.others txn_id p hp with hin | hold
        · rw [List.map_append]
          exact Or.inl (List.mem_append_left _ hin)
        · exact Or.inr hold

/-- A message leaves the line, and its row the queue. -/
theorem leave (h : LineHeld before calls s) {st' : Store} {txn_id : String}
    (hqueue : st'.pending_sends = s.store.pending_sends.erase txn_id) :
    LineHeld before calls
      ⟨st', s.counter, s.line.filter (fun q => decide (q.txn_id ≠ txn_id))⟩ := by
  refine ⟨?_, h.nodup.sublist (List.filter_sublist.map _), ?_, ?_⟩
  · intro q hq
    obtain ⟨hmem, hne⟩ := List.mem_filter.mp hq
    simp only [decide_eq_true_eq] at hne
    simp only
    rw [hqueue, Table.find_erase, if_neg hne]
    exact h.rows q hmem
  · exact (List.filter_sublist.map _).trans h.called
  · intro t p hp
    simp only at hp ⊢
    rw [hqueue, Table.find_erase] at hp
    split at hp
    · cases hp
    · next hne =>
      rcases h.others t p hp with hin | hold
      · obtain ⟨q, hq, rfl⟩ := List.mem_map.mp hin
        exact Or.inl (List.mem_map_of_mem (List.mem_filter.mpr ⟨hq, by simpa using hne⟩))
      · exact Or.inr hold

/-- The queue is as it was. -/
theorem same (h : LineHeld before calls s) {st' : Store}
    (hqueue : st'.pending_sends = s.store.pending_sends) :
    LineHeld before calls ⟨st', s.counter, s.line⟩ := by
  refine ⟨?_, h.nodup, h.called, ?_⟩
  · intro q hq
    simp only
    rw [hqueue]
    exact h.rows q hq
  · intro t p hp
    simp only at hp
    rw [hqueue] at hp
    exact h.others t p hp

theorem other (h : LineHeld before calls s) (m : Method) (hm : m.isSend = false) :
    LineHeld before (calls ++ [.other m hm]) (s.after (.other m hm)) := by
  have hcalls : (calls ++ [QueueCall.other m hm]).filterMap QueueCall.sent =
      calls.filterMap QueueCall.sent := by
    rw [List.filterMap_append]
    simp [QueueCall.sent]
  have hkept : LineHeld before calls (s.after (.other m hm)) := by
    simp only [QueueRun.after]
    cases hcall : s.store.call m with
    | error e => exact h
    | ok st' =>
      have hqueue := Store.call_queue hm hcall
      cases m with
      | resolve_send txn_id id => exact h.leave hqueue
      | fail_send txn_id => exact h.leave hqueue
      | queue_send room_id sender body ts n now => cases hm
      | save_sync_token token => exact h.same hqueue
      | apply_events events => exact h.same hqueue
      | set_decrypted event_id plaintext => exact h.same hqueue
      | set_decrypt_failed event_id => exact h.same hqueue
      | set_commit_processed event_id => exact h.same hqueue
  exact ⟨hkept.rows, hkept.nodup, by rw [hcalls]; exact hkept.called, hkept.others⟩

/-- So it is after each run. -/
theorem afterAll (st : Store) (counter : Nat) (calls : List QueueCall) :
    LineHeld st calls ((QueueRun.start st counter).afterAll calls) := by
  induction calls using List.reverseRecOn with
  | nil => exact start st counter
  | append_singleton calls c ih =>
    unfold QueueRun.afterAll at ih ⊢
    rw [List.foldl_append]
    cases c with
    | send c => exact ih.send c
    | other m hm => exact ih.other m hm

/-- The clock did not go backwards from one message of the line to the next. -/
theorem clock (h : LineHeld before calls s) (hsteady : ClockSteady calls) :
    s.line.Pairwise (fun a b => a.call.now.1 ≤ b.call.now.1) := by
  have hsent : (calls.filterMap QueueCall.sent).Pairwise (fun a b => a.now.1 ≤ b.now.1) := by
    clear h
    unfold ClockSteady at hsteady
    induction calls with
    | nil => exact List.Pairwise.nil
    | cons c calls ih =>
      rw [List.flatMap_cons, List.pairwise_append] at hsteady
      obtain ⟨-, hrest, hacross⟩ := hsteady
      cases c with
      | other m hm => exact ih hrest
      | send c =>
        refine List.pairwise_cons.mpr ⟨?_, ih hrest⟩
        intro d hd
        obtain ⟨call, hcall, hsome⟩ := List.mem_filterMap.mp hd
        cases call with
        | other m hm => cases hsome
        | send d' =>
          cases hsome
          refine hacross c.now.1 (by simp [QueueCall.readings]) d.now.1 ?_
          exact List.mem_flatMap.mpr ⟨_, hcall, by simp [QueueCall.readings]⟩
  have hline := hsent.sublist h.called
  rwa [List.pairwise_map] at hline

/-! ## What is read back -/

/-- The rows of the line, as the queue has them. -/
theorem rows_perm (h : LineHeld before calls s) :
    ((s.store.pending_sends.rows.insertionSort (fun a b => a.position ≤ b.position)).filter
      (fun p => decide (p.txn_id ∈ s.line.map InLine.txn_id))).Perm (s.line.map InLine.row) := by
  have hnodup : (s.store.pending_sends.rows.insertionSort
      (fun a b => a.position ≤ b.position)).Nodup :=
    (List.perm_insertionSort _ _).nodup_iff.mpr (List.Nodup.of_map _ s.store.pending_sends.nodup)
  have hline : (s.line.map InLine.row).Nodup := by
    apply List.Nodup.of_map PendingRow.txn_id
    rw [List.map_map]
    exact h.nodup
  rw [List.perm_ext_iff_of_nodup (hnodup.filter _) hline]
  intro p
  simp only [List.mem_filter, List.mem_insertionSort, decide_eq_true_eq, List.mem_map]
  constructor
  · rintro ⟨hp, q, hq, he⟩
    have hrow := h.rows q hq
    rw [he, Table.mem_rows_iff.mp hp] at hrow
    exact ⟨q, hq, (Option.some.inj hrow).symm⟩
  · rintro ⟨q, hq, rfl⟩
    exact ⟨(Table.find_some_iff.mp (h.rows q hq)).1, q, hq, rfl⟩

/-- The messages are read in the order of the line just where the rows of the line are sorted. -/
theorem listed_iff_sorted (h : LineHeld before calls s) : s.listed = s.line.map InLine.shown ↔
    s.line.Pairwise (fun a b => a.row.position ≤ b.row.position) := by
  have hperm := h.rows_perm
  have hlisted : s.listed = ((s.store.pending_sends.rows.insertionSort
      (fun a b => a.position ≤ b.position)).filter
      (fun p => decide (p.txn_id ∈ s.line.map InLine.txn_id))).map
      (fun p => ⟨p.txn_id, p.room_id, p.body⟩) := by
    unfold QueueRun.listed Store.pending_sends_list
    rw [List.filter_map]
    rfl
  have hsorted := (List.pairwise_insertionSort (fun a b : PendingRow => a.position ≤ b.position)
    s.store.pending_sends.rows).filter
      (fun p => decide (p.txn_id ∈ s.line.map InLine.txn_id))
  generalize (s.store.pending_sends.rows.insertionSort (fun a b => a.position ≤ b.position)).filter
    (fun p => decide (p.txn_id ∈ s.line.map InLine.txn_id)) = found at hperm hlisted hsorted
  have hshown : s.line.map InLine.shown =
      (s.line.map InLine.row).map (fun p => ⟨p.txn_id, p.room_id, p.body⟩) := by
    rw [List.map_map]
    rfl
  have hheld : ∀ p ∈ s.line.map InLine.row, s.store.pending_sends.find p.txn_id = some p := by
    intro p hp
    obtain ⟨q, hq, rfl⟩ := List.mem_map.mp hp
    exact h.rows q hq
  have hrebuilt : ∀ l : List PendingRow, (∀ p ∈ l, s.store.pending_sends.find p.txn_id = some p) →
      (l.map PendingRow.txn_id).filterMap s.store.pending_sends.find = l := by
    intro l hl
    rw [List.filterMap_map]
    calc l.filterMap (s.store.pending_sends.find ∘ PendingRow.txn_id)
        = l.filterMap some := List.filterMap_congr hl
      _ = l := List.filterMap_some
  have hpairs : s.line.Pairwise (fun a b => a.row.position ≤ b.row.position) ↔
      (s.line.map InLine.row).Pairwise (fun a b => a.position ≤ b.position) := by
    rw [List.pairwise_map]
  rw [hlisted, hshown, hpairs]
  constructor
  · intro he
    -- the transactions are the same, and each has one row
    have htxns : found.map PendingRow.txn_id = (s.line.map InLine.row).map PendingRow.txn_id := by
      have hmap := congrArg (List.map PendingSend.txn_id) he
      rw [List.map_map, List.map_map] at hmap
      exact hmap
    have hfound := hrebuilt found (fun p hp => hheld p (hperm.mem_iff.mp hp))
    rw [htxns, hrebuilt _ hheld] at hfound
    rw [hfound]
    exact hsorted
  · intro hline
    congr 1
    refine List.Perm.eq_of_pairwise ?_ hsorted hline hperm
    intro a b ha hb hab hba
    have hposition := congrArg (fun p => (ofLex p).2) (le_antisymm hab hba)
    have hsame := hheld a (hperm.mem_iff.mp ha)
    have htxn : a.txn_id = b.txn_id := hposition
    rw [htxn, hheld b hb] at hsame
    exact (Option.some.inj hsame).symm

end LineHeld

/-- In each run in which the clock never goes backwards, on any store, `pending_sends` lists the
messages of the run that remain in the order in which they were queued just where the texts of
the ids of one millisecond are in that order: the counters, or the readings of the clock that
the ids are made of, compared by their leading digits. -/
theorem queue_order_iff (st : Store) (counter : Nat) (calls : List QueueCall)
    (hsteady : ClockSteady calls) :
    (((QueueRun.start st counter).afterAll calls).listed =
        ((QueueRun.start st counter).afterAll calls).line.map InLine.shown ↔
      ((QueueRun.start st counter).afterAll calls).line.Pairwise TextOrder) ∧
    ∀ p ∈ ((QueueRun.start st counter).afterAll calls).store.pending_sends.rows,
      p.txn_id ∈ ((QueueRun.start st counter).afterAll calls).line.map InLine.txn_id ∨
        p ∈ st.pending_sends.rows := by
  have h := LineHeld.afterAll st counter calls
  generalize (QueueRun.start st counter).afterAll calls = s at h
  have hpairs : s.line.Pairwise (fun a b => a.txn_id ≠ b.txn_id ∧ a.call.now.1 ≤ b.call.now.1) :=
    (List.pairwise_map.mp h.nodup).and (h.clock hsteady)
  refine ⟨?_, ?_⟩
  · rw [h.listed_iff_sorted]
    constructor
    · intro hsorted
      refine (hsorted.and hpairs).imp ?_
      rintro a b ⟨hle, hne, hnow⟩
      apply (row_lt_iff hne hnow).mp
      apply lt_of_le_of_ne hle
      intro he
      exact hne (congrArg (fun p => (ofLex p).2) he)
    · intro htext
      refine (htext.and hpairs).imp ?_
      rintro a b ⟨hord, hne, hnow⟩
      exact ((row_lt_iff hne hnow).mpr hord).le
  · intro p hp
    rcases h.others p.txn_id p (Table.mem_rows_iff.mp hp) with hin | hold
    · exact Or.inl hin
    · exact Or.inr (Table.find_some_iff.mp hold).1

/-- Two messages of one millisecond, the tenth and the eleventh of a process. -/
def tenthAndEleventh : List QueueCall :=
  List.replicate 11 (.send ⟨"!room", "@me:pigeon", "hi", ⟨5, by decide⟩, ⟨5, by decide⟩⟩)

theorem tenthAndEleventh_steady : ClockSteady tenthAndEleventh := by
  unfold ClockSteady
  decide

theorem queue_order_iff_eleven :
    ((QueueRun.start Store.init 0).afterAll tenthAndEleventh).listed =
        ((QueueRun.start Store.init 0).afterAll tenthAndEleventh).line.map InLine.shown ↔
      ((QueueRun.start Store.init 0).afterAll tenthAndEleventh).line.Pairwise TextOrder :=
  (queue_order_iff Store.init 0 tenthAndEleventh tenthAndEleventh_steady).1

theorem the_eleventh_overtakes : ¬ ∀ (st : Store) (counter : Nat) (calls : List QueueCall),
    ClockSteady calls → ((QueueRun.start st counter).afterAll calls).listed =
      ((QueueRun.start st counter).afterAll calls).line.map InLine.shown := by
  intro h
  have hlisted := h Store.init 0 tenthAndEleventh tenthAndEleventh_steady
  have hthird := congrArg (fun l => (l[2]?).map PendingSend.txn_id) hlisted
  revert hthird
  decide +kernel

end PigeonMobile
