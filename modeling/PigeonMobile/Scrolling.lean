-- Paging backwards through a room (`Store::timeline`, `PigeonClient::timeline`): the cursor is
-- the depth of the oldest event loaded, and the order is that of `(depth, event_id)`.
import PigeonMobile.StoreMethods
import PigeonMobile.CursorPages
import PigeonMobile.EventLog

namespace PigeonMobile

/-! ## The pages of a room -/

/-- Page after page, the newest first: each one before the cursor of the oldest event loaded
so far, until a page is empty. -/
inductive Scrolls (from_str : String → Option Json) (st : Store) (room_id : String) (limit : Nat) :
    Option Int → List (List TimelineEvent) → Prop
  | top {before : Option Int} : timeline from_str st room_id limit before = .ok [] →
      Scrolls from_str st room_id limit before []
  | older {before : Option Int} {oldest : TimelineEvent} {newer : List TimelineEvent}
      {ps : List (List TimelineEvent)} :
      timeline from_str st room_id limit before = .ok (oldest :: newer) →
      Scrolls from_str st room_id limit (some oldest.cursor) ps →
      Scrolls from_str st room_id limit before ((oldest :: newer) :: ps)

/-- The rows of a room that the timeline shows, the newest first. -/
def newestFirst (st : Store) (room_id : String) : List EventRow :=
  (dagSort (st.shownRows room_id)).reverse

/-- The event of a row, by its id and its cursor. -/
def EventRow.entry (r : EventRow) : String × Int := (r.event_id, r.depth)

def TimelineEvent.entry (e : TimelineEvent) : String × Int := (e.event_id, e.cursor)

section

variable {from_str : String → Option Json} {st : Store} {room_id : String} {limit : Nat}

theorem newestFirst_sorted (st : Store) (room_id : String) :
    (newestFirst st room_id).Pairwise (fun a b => b.depth ≤ a.depth) := by
  unfold newestFirst
  rw [List.pairwise_reverse]
  apply (dagSort_sorted _).imp
  intro a b hab
  exact Prod.Lex.monotone_fst _ _ hab

/-- The rows that a page is taken from are those under its cursor. -/
theorem timelineRows_under (before : Option Int) : st.timelineRows room_id before =
    CursorPages.under EventRow.depth (newestFirst st room_id) before := by
  unfold Store.timelineRows CursorPages.under newestFirst
  rw [List.filter_reverse]
  congr 1
  rw [← dagSort_filter]
  · unfold Store.shownRows
    rw [List.filter_filter]
    congr 2
    funext r
    rw [← Bool.decide_and, decide_eq_decide]
    tauto
  · exact st.events.nodup.sublist (List.filter_sublist.map EventRow.event_id)

theorem pageRows_page (before : Option Int) : st.pageRows room_id limit before =
    (CursorPages.page EventRow.depth limit (newestFirst st room_id) before).reverse := by
  unfold Store.pageRows CursorPages.page
  rw [timelineRows_under]

/-- The pages of a room, against the walk over its rows. -/
def SamePages (ps : List (List TimelineEvent)) (rows : List (List EventRow)) : Prop :=
  List.Forall₂ (fun p r => p.map TimelineEvent.entry = r.reverse.map EventRow.entry) ps rows

theorem SamePages.flatten {ps : List (List TimelineEvent)} {rows : List (List EventRow)}
    (h : SamePages ps rows) :
    ps.reverse.flatten.map TimelineEvent.entry = rows.flatten.reverse.map EventRow.entry := by
  induction h with
  | nil => rfl
  | cons hp _ ih =>
    simp only [List.reverse_cons, List.flatten_append, List.flatten_cons, List.flatten_nil,
      List.append_nil, List.map_append, List.reverse_append, ih, hp]

/-- A page, with the row that its cursor is read of. -/
theorem Paired.step_back (h : Paired st) (from_str : String → Option Json) (room_id : String)
    (limit : Nat) (before : Option Int) : ∃ entries,
    timeline from_str st room_id limit before = .ok entries ∧ entries.map TimelineEvent.entry =
      (CursorPages.page EventRow.depth limit (newestFirst st room_id) before).reverse.map
        EventRow.entry := by
  obtain ⟨page, -, hentries, hkeys, -⟩ := h.page_keys from_str room_id limit before
  refine ⟨_, hentries, ?_⟩
  rw [← pageRows_page]
  exact hkeys

/-- The cursor of a page is the depth of its oldest row. -/
theorem oldest_cursor {oldest : TimelineEvent} {newer : List TimelineEvent} {rows : List EventRow}
    (h : (oldest :: newer).map TimelineEvent.entry = rows.reverse.map EventRow.entry) :
    ∃ last, rows.getLast? = some last ∧ oldest.cursor = last.depth := by
  cases hrev : rows.reverse with
  | nil =>
    rw [hrev] at h
    cases h
  | cons last front =>
    rw [hrev, List.map_cons, List.map_cons, List.cons.injEq] at h
    refine ⟨last, ?_, congrArg Prod.snd h.1⟩
    rw [← List.head?_reverse, hrev]
    rfl

/-- Scrolling back is the walk over the rows. -/
theorem Scrolls.walk (h : Paired st) {before : Option Int} {ps : List (List TimelineEvent)}
    (hs : Scrolls from_str st room_id limit before ps) :
    ∃ rows, CursorPages.Walk EventRow.depth limit (newestFirst st room_id) before rows ∧
      SamePages ps rows := by
  induction hs with
  | @top before hpage =>
    obtain ⟨entries, hentries, hkeys⟩ := h.step_back from_str room_id limit before
    obtain rfl : entries = [] := Except.ok.inj (hentries.symm.trans hpage)
    refine ⟨[], CursorPages.Walk.stop ?_, List.Forall₂.nil⟩
    simpa using hkeys
  | @older before oldest newer ps hpage _ ih =>
    obtain ⟨entries, hentries, hkeys⟩ := h.step_back from_str room_id limit before
    obtain rfl : entries = oldest :: newer := Except.ok.inj (hentries.symm.trans hpage)
    obtain ⟨rows, hwalk, hsame⟩ := ih
    obtain ⟨last, hlast, hcursor⟩ := oldest_cursor hkeys
    rw [hcursor] at hwalk
    exact ⟨_, CursorPages.Walk.more hlast hwalk, List.Forall₂.cons hkeys hsame⟩

/-- It comes to the top of the room. -/
theorem walk_scrolls (h : Paired st) (from_str : String → Option Json)
    {before : Option Int} {rows : List (List EventRow)}
    (hw : CursorPages.Walk EventRow.depth limit (newestFirst st room_id) before rows) :
    ∃ ps, Scrolls from_str st room_id limit before ps := by
  induction hw with
  | @stop before hnil =>
    obtain ⟨entries, hentries, hkeys⟩ := h.step_back from_str room_id limit before
    rw [hnil, List.reverse_nil, List.map_nil, List.map_eq_nil_iff] at hkeys
    rw [hkeys] at hentries
    exact ⟨[], Scrolls.top hentries⟩
  | @more before last rows hlast _ ih =>
    obtain ⟨entries, hentries, hkeys⟩ := h.step_back from_str room_id limit before
    cases entries with
    | nil =>
      have hnil := List.map_eq_nil_iff.mp hkeys.symm
      rw [List.reverse_eq_nil_iff] at hnil
      rw [hnil] at hlast
      cases hlast
    | cons oldest newer =>
      obtain ⟨last', hlast', hcursor⟩ := oldest_cursor hkeys
      obtain rfl : last = last' := Option.some.inj (hlast.symm.trans hlast')
      obtain ⟨ps, hps⟩ := ih
      rw [← hcursor] at hps
      exact ⟨_, Scrolls.older hentries hps⟩

end

/-! ## What scrolling back shows -/

/-- In every store that the methods lead to, scrolling back ends, and it shows each event of
the room once, in order, if and only if no page ends between two events of one depth. -/
theorem scrolling_back_is_complete_iff (from_str : String → Option Json) (ms : List Method)
    (room_id : String) (limit : Nat) (hlimit : 1 ≤ limit) :
    (∃ ps, Scrolls from_str (Store.written ms) room_id limit none ps) ∧
    ∀ ps, Scrolls from_str (Store.written ms) room_id limit none ps →
      (ps.reverse.flatten.map TimelineEvent.entry =
          (dagSort ((Store.written ms).shownRows room_id)).map EventRow.entry ↔
        CursorPages.Clean EventRow.depth limit (newestFirst (Store.written ms) room_id)) := by
  have h := written_paired ms
  generalize Store.written ms = st at h
  have hsorted := newestFirst_sorted st room_id
  refine ⟨?_, ?_⟩
  · obtain ⟨rows, hwalk⟩ := CursorPages.walk_ends hlimit none hsorted
    exact walk_scrolls h from_str hwalk
  · intro ps hs
    obtain ⟨rows, hwalk, hsame⟩ := hs.walk h
    have hwhole := hwalk.whole_iff hlimit hsorted
    have hsub := hwalk.sublist hsorted
    rw [CursorPages.under_none] at hwhole hsub
    rw [← hwhole, hsame.flatten]
    constructor
    · intro hkeys
      apply hsub.eq_of_length
      have hlen := congrArg List.length hkeys
      rw [List.length_map, List.length_map, List.length_reverse] at hlen
      unfold newestFirst
      rw [List.length_reverse]
      exact hlen
    · intro hflat
      rw [hflat]
      unfold newestFirst
      rw [List.reverse_reverse]

/-! ## Two events of one depth -/

/-- Two members have named the room, on two forks. -/
def twiceNamed : Store := Store.written [.apply_events twoNames]

theorem twiceNamed_clean : CursorPages.Clean EventRow.depth 2 (newestFirst twiceNamed "!room") := by
  intro i a b _ hb
  have hlen : (newestFirst twiceNamed "!room").length = 2 := rfl
  have hlt := (List.getElem?_eq_some_iff.mp hb).1
  omega

/-- A page of two shows both. -/
theorem scrolling_back_is_complete_iff_two : ∃ ps,
    Scrolls (fun _ => none) twiceNamed "!room" 2 none ps ∧
      ps.reverse.flatten.map TimelineEvent.entry = [("$duck", 5), ("$goose", 5)] := by
  obtain ⟨⟨ps, hps⟩, hiff⟩ := scrolling_back_is_complete_iff (fun _ => none)
    [.apply_events twoNames]
    "!room" 2 (by decide)
  exact ⟨ps, hps, (hiff ps hps).mpr twiceNamed_clean⟩

/-- With pages of one event, the second one is never shown. -/
theorem a_fork_is_skipped : ¬ ∀ (from_str : String → Option Json) (ms : List Method)
    (room_id : String) (limit : Nat), 1 ≤ limit →
    ∀ ps, Scrolls from_str (Store.written ms) room_id limit none ps →
      ps.reverse.flatten.map TimelineEvent.entry =
        (dagSort ((Store.written ms).shownRows room_id)).map EventRow.entry := by
  intro h
  have hall := h (fun _ => none) [.apply_events twoNames] "!room" 1 (by decide) _
    (Scrolls.older rfl (Scrolls.top rfl))
  have hlen := congrArg List.length hall
  cases hlen

end PigeonMobile
