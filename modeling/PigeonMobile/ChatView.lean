-- The chat view of a room (`ChatViewModel.kt`, `ChatViewModel.swift`): pages read from the store
-- are merged by id into the loaded list. On Android the store is read on another thread, and the
-- answer is merged when it comes back; on iOS both happen at once. Kotlin compares ids as they
-- are, Swift by their canonical forms.
import PigeonMobile.PageMerge
import PigeonMobile.EchoDepth
import PigeonMobile.StoreMethods

namespace PigeonMobile

/-- How many timeline events are read for a page. -/
def PAGE : Nat := 50

/-- What the view shows. The events are oldest first. -/
structure ChatState where
  loading : Bool
  events : List TimelineEvent
  /-- True once paging back has reached the start of stored history. -/
  atTop : Bool
  error : Option String

def ChatState.init : ChatState := ⟨true, [], false, none⟩

/-! ## The two merges -/

namespace Android

/-- `distinctBy`: an entry is added to the list where its id is added to the set. -/
def adds (s : List String × List TimelineEvent) (e : TimelineEvent) :
    List String × List TimelineEvent :=
  if e.event_id ∈ s.1 then s else (e.event_id :: s.1, s.2 ++ [e])

def distinctBy (l : List TimelineEvent) : List TimelineEvent := (l.foldl adds ([], [])).2

def sortedBy (l : List TimelineEvent) : List TimelineEvent :=
  l.mergeSort (fun a b => decide (a.cursor ≤ b.cursor))

def merge (a b : List TimelineEvent) : List TimelineEvent := sortedBy (distinctBy (a ++ b))

end Android

namespace Ios

-- Two strings are equal in Swift where their canonical forms are.
variable (canonical : String → String)

/-- `filter` with the test that the id is new in `seen`. -/
def filterInserted (seen : List String) : List TimelineEvent → List TimelineEvent
  | [] => []
  | e :: rest =>
    if canonical e.event_id ∉ seen then
      e :: filterInserted (canonical e.event_id :: seen) rest
    else filterInserted seen rest

/-- Sorted by what comes strictly before what, stable. -/
def sorted (l : List TimelineEvent) : List TimelineEvent :=
  l.mergeSort (fun a b => !decide (b.cursor < a.cursor))

def merge (a b : List TimelineEvent) : List TimelineEvent :=
  sorted (filterInserted canonical [] (a ++ b))

end Ios

/-- Two pages merged by what is compared of their ids. -/
abbrev mergedPages (same : String → String) (a b : List TimelineEvent) : List TimelineEvent :=
  PageMerge.merged (fun e => same e.event_id) TimelineEvent.cursor a b

theorem Android.adds_loop (l : List TimelineEvent) (set : List String)
    (list : List TimelineEvent) : (l.foldl Android.adds (set, list)).2 =
      list ++ PageMerge.firsts TimelineEvent.event_id set l := by
  induction l generalizing set list with
  | nil => exact (List.append_nil list).symm
  | cons e l ih =>
    rw [List.foldl_cons, PageMerge.firsts]
    by_cases h : e.event_id ∈ set
    · have hadds : Android.adds (set, list) e = (set, list) := if_pos h
      rw [hadds, if_pos h, ih]
    · have hadds : Android.adds (set, list) e = (e.event_id :: set, list ++ [e]) := if_neg h
      rw [hadds, if_neg h, ih, List.append_assoc]
      rfl

theorem Android.merge_eq (a b : List TimelineEvent) : Android.merge a b = mergedPages id a b := by
  unfold Android.merge Android.distinctBy
  rw [Android.adds_loop]
  rfl

theorem Ios.filterInserted_eq (canonical : String → String) (seen : List String)
    (l : List TimelineEvent) : Ios.filterInserted canonical seen l =
      PageMerge.firsts (fun e => canonical e.event_id) seen l := by
  induction l generalizing seen with
  | nil => rfl
  | cons e l ih =>
    unfold Ios.filterInserted PageMerge.firsts
    by_cases h : canonical e.event_id ∈ seen
    · rw [if_neg (not_not_intro h), if_pos h, ih]
    · rw [if_pos h, if_neg h, ih]

theorem Ios.merge_eq (canonical : String → String) (a b : List TimelineEvent) :
    Ios.merge canonical a b = mergedPages canonical a b := by
  unfold Ios.merge Ios.sorted mergedPages PageMerge.merged PageMerge.sorted
  rw [Ios.filterInserted_eq]
  congr 1
  funext x y
  rw [← decide_not, decide_eq_decide, not_lt]

/-! ## The Android view -/

/-- What a coroutine of the view asks the store for. -/
inductive Request where
  | newest
  | older (before : Int)

def Request.read (from_str : String → Option Json) (room_id : String) (st : Store) :
    Request → Except StoreError (List TimelineEvent)
  | .newest => timeline from_str st room_id PAGE none
  | .older before => timeline from_str st room_id PAGE (some before)

/-- A store, the view, the reads that have not begun and the answers not yet merged. -/
structure Chat where
  store : Store
  view : ChatState
  asked : List Request
  answered : List (Request × Except StoreError (List TimelineEvent))

/-- A step of a run: of the store, of the user or the sync loop, or of a coroutine. -/
inductive ChatAct where
  | store (m : Method)
  | refresh
  | loadOlder
  | reads (i : Nat)
  | lands (i : Nat)

namespace Android

variable (from_str : String → Option Json) (room_id : String) (message : StoreError → String)

def refresh (s : Chat) : Chat := { s with asked := s.asked ++ [.newest] }

def loadOlder (s : Chat) : Chat :=
  match s.view.events with
  | [] => s
  | oldest :: _ =>
    if s.view.atTop ∨ s.view.loading then s
    else { s with asked := s.asked ++ [.older oldest.cursor] }

def reads (i : Nat) (s : Chat) : Chat :=
  match s.asked[i]? with
  | none => s
  | some q => { s with
      asked := s.asked.eraseIdx i
      answered := s.answered ++ [(q, q.read from_str room_id s.store)] }

/-- An answer comes back to the main thread. -/
def landed (view : ChatState) :
    Request × Except StoreError (List TimelineEvent) → ChatState
  | (.newest, .ok newest) => { view with loading := false, events := merge view.events newest }
  | (.newest, .error e) => { view with loading := false, error := some (message e) }
  | (.older _, .ok []) => { view with atTop := true }
  | (.older _, .ok older) => { view with events := merge older view.events }
  | (.older _, .error e) => { view with error := some (message e) }

def lands (i : Nat) (s : Chat) : Chat :=
  match s.answered[i]? with
  | none => s
  | some answer => { s with
      answered := s.answered.eraseIdx i
      view := landed message s.view answer }

def step (s : Chat) : ChatAct → Chat
  | .store m => { s with store := s.store.after m }
  | .refresh => refresh s
  | .loadOlder => loadOlder s
  | .reads i => reads from_str room_id i s
  | .lands i => lands message i s

/-- A run from the view of a store, just opened. -/
def run (st : Store) (acts : List ChatAct) : Chat :=
  acts.foldl (step from_str room_id message) ⟨st, ChatState.init, [], []⟩

end Android

/-! ## The iOS view -/

inductive ChatCall where
  | store (m : Method)
  | refresh
  | loadOlder

namespace Ios

variable (canonical : String → String) (from_str : String → Option Json) (room_id : String)
  (authErrorMessage : StoreError → String)

def refresh (st : Store) (view : ChatState) : ChatState :=
  match timeline from_str st room_id PAGE none with
  | .ok newest => { view with loading := false, events := merge canonical view.events newest }
  | .error e => { view with loading := false, error := some (authErrorMessage e) }

def loadOlder (st : Store) (view : ChatState) : ChatState :=
  if view.atTop ∨ view.loading then view
  else match view.events with
    | [] => view
    | oldest :: _ =>
      match timeline from_str st room_id PAGE (some oldest.cursor) with
      | .ok [] => { view with atTop := true }
      | .ok older => { view with events := merge canonical older view.events }
      | .error e => { view with error := some (authErrorMessage e) }

def step (s : Store × ChatState) : ChatCall → Store × ChatState
  | .store m => (s.1.after m, s.2)
  | .refresh => (s.1, refresh canonical from_str room_id authErrorMessage s.1 s.2)
  | .loadOlder => (s.1, loadOlder canonical from_str room_id authErrorMessage s.1 s.2)

def run (st : Store) (calls : List ChatCall) : Store × ChatState :=
  calls.foldl (step canonical from_str room_id authErrorMessage) (st, ChatState.init)

end Ios

/-- The steps of Android that make up a call: the read begins and lands at once. -/
def ChatCall.acts : ChatCall → List ChatAct
  | .store m => [.store m]
  | .refresh => [.refresh, .reads 0, .lands 0]
  | .loadOlder => [.loadOlder, .reads 0, .lands 0]

/-! ## What a view should show -/

/-- A cursor between those of a page. -/
def InRange (page : List TimelineEvent) (cursor : Int) : Prop :=
  (∃ a ∈ page, a.cursor ≤ cursor) ∧ ∃ b ∈ page, cursor ≤ b.cursor

def Store.Has (st : Store) (room_id event_id : String) : Prop :=
  ∃ r ∈ st.roomRows room_id, r.event_id = event_id

/-- The list shows each event of the page once and as it is there, in the order of the page, and
nothing in its range that the store does not have. -/
structure Tracks (st : Store) (room_id : String) (page events : List TimelineEvent) : Prop where
  once : ∀ e ∈ page, events.filter (fun x => decide (x.event_id = e.event_id)) = [e]
  order : page.Sublist events
  stored : ∀ x ∈ events, InRange page x.cursor → st.Has room_id x.event_id

/-- What is loaded before a page is merged: of the events of the page only what the page says,
and none of them before an earlier one of its depth; and in the range of the page nothing that
the store does not have. The ids are told apart by what is compared of them. -/
structure UpToDate (same : String → String) (st : Store) (room_id : String)
    (page loaded : List TimelineEvent) : Prop where
  apart : ∀ a ∈ page, ∀ b ∈ page, same a.event_id = same b.event_id → a = b
  current : ∀ e ∈ page, ∀ x ∈ loaded, same x.event_id = same e.event_id → x = e
  ties : ∀ a b, [a, b].Sublist page → a.cursor = b.cursor → b ∈ loaded → [a, b].Sublist loaded
  stored : ∀ x, x ∈ loaded ∨ x ∈ page → InRange page x.cursor → st.Has room_id x.event_id

/-! ## Pages -/

/-- A page of the store: each event once, in the order of the depths. -/
structure IsPage (page : List TimelineEvent) : Prop where
  distinct : (page.map TimelineEvent.event_id).Nodup
  sorted : page.Pairwise (fun a b => a.cursor ≤ b.cursor)

/-- The rows of a page come in the order of the depths, each id once. -/
theorem Store.pageRows_distinct (st : Store) (room_id : String) (limit : Nat)
    (before : Option Int) : (st.pageRows room_id limit before).Pairwise
      (fun a b => a.depth ≤ b.depth ∧ a.event_id ≠ b.event_id) := by
  apply (Store.pageRows_sorted st room_id limit before).imp_of_mem
  intro a b ha hb hlt
  refine ⟨?_, ?_⟩
  · rcases Prod.Lex.lt_iff.mp hlt with h | h
    · exact le_of_lt h
    · exact le_of_eq h.1
  · intro hid
    have hsame : a = b := List.inj_on_of_nodup_map st.events.nodup (Store.mem_pageRows ha).1
      (Store.mem_pageRows hb).1 hid
    rw [hsame] at hlt
    exact lt_irrefl _ hlt

theorem Paired.is_page {st : Store} (h : Paired st) (from_str : String → Option Json)
    (room_id : String) (limit : Nat) (before : Option Int) :
    ∃ page, timeline from_str st room_id limit before = .ok page ∧ IsPage page := by
  obtain ⟨events, -, hpage, hkeys, -⟩ := h.page_keys from_str room_id limit before
  have hrows := List.pairwise_map (f := fun r : EventRow => (r.event_id, r.depth))
    (R := fun p q => p.2 ≤ q.2 ∧ p.1 ≠ q.1) |>.mpr (st.pageRows_distinct room_id limit before)
  rw [← hkeys, List.pairwise_map] at hrows
  refine ⟨_, hpage, ?_, hrows.imp (fun h => h.1)⟩
  exact List.pairwise_map.mpr (hrows.imp (fun h => h.2))

/-- Nothing is loaded twice, by what is compared of the ids. -/
def Distinct (same : String → String) (loaded : List TimelineEvent) : Prop :=
  (loaded.map (fun e => same e.event_id)).Nodup

theorem mergedPages_distinct (same : String → String) (a b : List TimelineEvent) :
    Distinct same (mergedPages same a b) := PageMerge.merged_distinct _ _ a b

theorem Distinct.ids {same : String → String} {loaded : List TimelineEvent}
    (h : Distinct same loaded) : (loaded.map TimelineEvent.event_id).Nodup := by
  apply List.Nodup.of_map same
  rw [List.map_map]
  exact h

theorem IsPage.distinct_iff {same : String → String} {page : List TimelineEvent}
    (h : IsPage page) : Distinct same page ↔
      ∀ a ∈ page, ∀ b ∈ page, same a.event_id = same b.event_id → a = b := by
  constructor
  · intro hd a ha b hb hab
    exact List.inj_on_of_nodup_map hd ha hb hab
  · intro hinj
    exact List.Nodup.map_on hinj h.distinct.of_map

/-- A merge tracks the page just where the list was up to date. -/
theorem merge_tracks_iff {same : String → String} {st : Store} {room_id : String}
    {page loaded : List TimelineEvent} (hloaded : Distinct same loaded) (hpage : IsPage page) :
    Tracks st room_id page (mergedPages same loaded page) ↔
      UpToDate same st room_id page loaded := by
  have hmerged := mergedPages_distinct same loaded page
  constructor
  · intro h
    -- what is shown is told apart, so the page is
    have hdistinct : Distinct same page := hmerged.sublist (h.order.map _)
    have hshown : ∀ e ∈ page, (mergedPages same loaded page).filter
        (fun x => decide (same x.event_id = same e.event_id)) = [e] := by
      intro e he
      exact PageMerge.filter_key hmerged (h.order.subset he)
    obtain ⟨hcurrent, hties⟩ :=
      (PageMerge.merged_shows_iff hloaded hdistinct hpage.sorted).mp ⟨hshown, h.order⟩
    refine ⟨hpage.distinct_iff.mp hdistinct, hcurrent, hties, ?_⟩
    intro x hx
    apply h.stored x
    rcases hx with hx | hx
    · exact (PageMerge.mem_merged _ _ hloaded hdistinct).mpr (Or.inl hx)
    · exact PageMerge.current_mem hloaded hdistinct hcurrent hx
  · intro h
    have hdistinct := hpage.distinct_iff.mpr h.apart
    obtain ⟨-, horder⟩ :=
      (PageMerge.merged_shows_iff hloaded hdistinct hpage.sorted).mpr ⟨h.current, h.ties⟩
    refine ⟨?_, horder, ?_⟩
    · intro e he
      exact PageMerge.filter_key hmerged.ids (horder.subset he)
    · intro x hx
      apply h.stored x
      rcases (PageMerge.mem_merged _ _ hloaded hdistinct).mp hx with hx | ⟨hx, -⟩
      · exact Or.inl hx
      · exact Or.inr hx

/-! ## What holds of every run of the Android view -/

section AndroidRuns

variable {from_str : String → Option Json} {room_id : String} {message : StoreError → String}

theorem Android.run_append (st : Store) (acts acts' : List ChatAct) :
    Android.run from_str room_id message st (acts ++ acts') =
      acts'.foldl (Android.step from_str room_id message)
        (Android.run from_str room_id message st acts) := List.foldl_append

/-- The loaded list has each id once, and every answer is a page. -/
structure ChatHolds (s : Chat) : Prop where
  paired : Paired s.store
  distinct : Distinct id s.view.events
  pages : ∀ q answer, (q, answer) ∈ s.answered → ∃ page, answer = .ok page ∧ IsPage page

theorem Request.read_page {st : Store} (h : Paired st) (q : Request) :
    ∃ page, q.read from_str room_id st = .ok page ∧ IsPage page := by
  cases q with
  | newest => exact h.is_page from_str room_id PAGE none
  | older before => exact h.is_page from_str room_id PAGE (some before)

theorem Store.after_paired {st : Store} (h : Paired st) (m : Method) : Paired (st.after m) := by
  unfold Store.after
  split
  · next hok => exact h.call hok
  · exact h

theorem Android.landed_distinct {view : ChatState}
    (h : Distinct id view.events)
    (answer : Request × Except StoreError (List TimelineEvent)) :
    Distinct id (Android.landed message view answer).events := by
  unfold Android.landed
  split
  · rw [Android.merge_eq]
    exact mergedPages_distinct _ _ _
  · exact h
  · exact h
  · rw [Android.merge_eq]
    exact mergedPages_distinct _ _ _
  · exact h

namespace ChatHolds

variable {s : Chat}

theorem step (h : ChatHolds s) (act : ChatAct) :
    ChatHolds (Android.step from_str room_id message s act) := by
  cases act with
  | store m => exact ⟨Store.after_paired h.paired m, h.distinct, h.pages⟩
  | refresh => exact ⟨h.paired, h.distinct, h.pages⟩
  | loadOlder =>
    show ChatHolds (Android.loadOlder s)
    unfold Android.loadOlder
    split
    · exact h
    · split
      · exact h
      · exact ⟨h.paired, h.distinct, h.pages⟩
  | reads i =>
    show ChatHolds (Android.reads from_str room_id i s)
    unfold Android.reads
    split
    · exact h
    · next q _ =>
      refine ⟨h.paired, h.distinct, ?_⟩
      intro q' answer hmem
      rcases List.mem_append.mp hmem with hmem | hmem
      · exact h.pages q' answer hmem
      · cases List.mem_singleton.mp hmem
        exact q.read_page h.paired
  | lands i =>
    show ChatHolds (Android.lands message i s)
    unfold Android.lands
    split
    · exact h
    · next answer _ =>
      refine ⟨h.paired, Android.landed_distinct h.distinct answer, ?_⟩
      intro q' answer' hmem
      exact h.pages q' answer' (List.mem_of_mem_eraseIdx hmem)

theorem run {st : Store} (h : Paired st) (acts : List ChatAct) :
    ChatHolds (Android.run from_str room_id message st acts) := by
  have hsteps : ∀ s, ChatHolds s →
      ChatHolds (acts.foldl (Android.step from_str room_id message) s) := by
    induction acts with
    | nil => exact fun _ h => h
    | cons act acts ih => exact fun s hs => ih _ (hs.step act)
  apply hsteps
  refine ⟨h, List.nodup_nil, ?_⟩
  intro q answer hmem
  cases hmem

/-- The newest page that lands. -/
theorem lands_iff (h : ChatHolds s) {i : Nat} {page : List TimelineEvent}
    (hanswer : s.answered[i]? = some (.newest, .ok page)) :
    Tracks s.store room_id page (Android.lands message i s).view.events ↔
      UpToDate id s.store room_id page s.view.events := by
  obtain ⟨page', hok, hpage⟩ := h.pages _ _ (List.mem_of_getElem? hanswer)
  cases hok
  have hlands : Android.lands message i s = { s with
      answered := s.answered.eraseIdx i
      view := { s.view with loading := false, events := mergedPages id s.view.events page } } := by
    unfold Android.lands
    rw [hanswer, ← Android.merge_eq]
    rfl
  rw [hlands]
  exact merge_tracks_iff h.distinct hpage

end ChatHolds

end AndroidRuns

/-! ## What holds of every run of the iOS view -/

section IosRuns

variable {canonical : String → String} {from_str : String → Option Json} {room_id : String}
  {message authErrorMessage : StoreError → String}

theorem Ios.run_snoc (st : Store) (calls : List ChatCall) (call : ChatCall) :
    Ios.run canonical from_str room_id authErrorMessage st (calls ++ [call]) =
      Ios.step canonical from_str room_id authErrorMessage
        (Ios.run canonical from_str room_id authErrorMessage st calls) call := by
  unfold Ios.run
  rw [List.foldl_append]
  rfl

/-- The loaded list has each id once, as Swift compares them. -/
structure Ios.Holds (canonical : String → String) (s : Store × ChatState) : Prop where
  paired : Paired s.1
  distinct : Distinct canonical s.2.events

theorem Ios.refresh_page {st : Store} {page : List TimelineEvent}
    (hpage : timeline from_str st room_id PAGE none = .ok page) (view : ChatState) :
    Ios.refresh canonical from_str room_id authErrorMessage st view =
      { view with loading := false, events := mergedPages canonical view.events page } := by
  unfold Ios.refresh
  rw [hpage, ← Ios.merge_eq]

theorem Ios.Holds.step {s : Store × ChatState} (h : Ios.Holds canonical s) (call : ChatCall) :
    Ios.Holds canonical (Ios.step canonical from_str room_id authErrorMessage s call) := by
  cases call with
  | store m => exact ⟨Store.after_paired h.paired m, h.distinct⟩
  | refresh =>
    refine ⟨h.paired, ?_⟩
    obtain ⟨page, hpage, -⟩ := h.paired.is_page from_str room_id PAGE none
    show Distinct canonical (Ios.refresh canonical from_str room_id authErrorMessage s.1 s.2).events
    rw [Ios.refresh_page hpage]
    exact mergedPages_distinct _ _ _
  | loadOlder =>
    refine ⟨h.paired, ?_⟩
    show Distinct canonical
      (Ios.loadOlder canonical from_str room_id authErrorMessage s.1 s.2).events
    unfold Ios.loadOlder
    split
    · exact h.distinct
    · split
      · exact h.distinct
      · split
        · exact h.distinct
        · rw [Ios.merge_eq]
          exact mergedPages_distinct _ _ _
        · exact h.distinct

theorem Ios.Holds.run {st : Store} (h : Paired st) (calls : List ChatCall) :
    Ios.Holds canonical (Ios.run canonical from_str room_id authErrorMessage st calls) := by
  induction calls using List.reverseRecOn with
  | nil => exact ⟨h, List.nodup_nil⟩
  | append_singleton calls call ih =>
    rw [Ios.run_snoc]
    exact ih.step call

/-- The newest page that is merged. -/
theorem Ios.Holds.refresh_iff {s : Store × ChatState} (h : Ios.Holds canonical s)
    {page : List TimelineEvent} (hpage : timeline from_str s.1 room_id PAGE none = .ok page) :
    Tracks s.1 room_id page
        (Ios.refresh canonical from_str room_id authErrorMessage s.1 s.2).events ↔
      UpToDate canonical s.1 room_id page s.2.events := by
  obtain ⟨page', hok, hp⟩ := h.paired.is_page from_str room_id PAGE none
  obtain rfl : page = page' := Except.ok.inj (hpage.symm.trans hok)
  rw [Ios.refresh_page hpage]
  exact merge_tracks_iff h.distinct hp

/-! ## The iOS view is an Android view without waiting -/

/-- A store and a view with nothing under way. -/
def atRest (s : Store × ChatState) : Chat := ⟨s.1, s.2, [], []⟩

/-- The page that a call merges. -/
def ChatCall.page (from_str : String → Option Json) (room_id : String) (s : Store × ChatState) :
    ChatCall → Option (List TimelineEvent)
  | .store _ => none
  | .refresh => (timeline from_str s.1 room_id PAGE none).toOption
  | .loadOlder =>
    if s.2.atTop ∨ s.2.loading then none
    else s.2.events.head?.bind fun oldest =>
      (timeline from_str s.1 room_id PAGE (some oldest.cursor)).toOption

/-- Events that are one to Swift have one id. -/
def ToldApart (canonical : String → String) (l : List TimelineEvent) : Prop :=
  ∀ a ∈ l, ∀ b ∈ l, canonical a.event_id = canonical b.event_id → a.event_id = b.event_id

/-- A call of the view before `s` merges what Swift tells apart. -/
def ChatCall.Apart (canonical : String → String) (from_str : String → Option Json)
    (room_id : String) (s : Store × ChatState) (call : ChatCall) : Prop :=
  ∀ page, call.page from_str room_id s = some page → ToldApart canonical (s.2.events ++ page)

theorem Distinct.toldApart {loaded : List TimelineEvent} (h : Distinct canonical loaded) :
    ToldApart canonical loaded := by
  intro a ha b hb hab
  rw [List.inj_on_of_nodup_map h ha hb hab]

theorem merges_alike_iff (a b : List TimelineEvent) :
    Android.merge a b = Ios.merge canonical a b ↔ ToldApart canonical (a ++ b) := by
  rw [Android.merge_eq, Ios.merge_eq, eq_comm]
  exact PageMerge.merged_coarser_iff TimelineEvent.event_id TimelineEvent.cursor canonical a b

theorem toldApart_comm {a b : List TimelineEvent} :
    ToldApart canonical (a ++ b) ↔ ToldApart canonical (b ++ a) := by
  unfold ToldApart
  simp only [List.mem_append, or_comm]

/-- A call shows the same on both, just where the ids it merges can be told apart. -/
theorem call_at_once_iff {s : Store × ChatState} (h : Ios.Holds canonical s) (call : ChatCall) :
    call.acts.foldl (Android.step from_str room_id message) (atRest s) =
        atRest (Ios.step canonical from_str room_id authErrorMessage s call) ↔
      call.Apart canonical from_str room_id s := by
  obtain ⟨st, view⟩ := s
  cases call with
  | store m =>
    refine iff_of_true rfl ?_
    intro page hp
    cases hp
  | refresh =>
    obtain ⟨page, hpage, -⟩ := h.paired.is_page from_str room_id PAGE none
    have hboth : ChatCall.refresh.acts.foldl (Android.step from_str room_id message)
          (atRest (st, view)) =
        atRest (st, { view with loading := false, events := Android.merge view.events page }) := by
      simp [ChatCall.acts, Android.step, Android.refresh, Android.reads, Android.lands, atRest,
        Request.read, hpage, Android.landed]
    have hios : Ios.step canonical from_str room_id authErrorMessage (st, view) .refresh =
        (st, { view with loading := false, events := Ios.merge canonical view.events page }) := by
      simp [Ios.step, Ios.refresh, hpage]
    rw [hboth, hios]
    simp [atRest, merges_alike_iff, ChatCall.Apart, ChatCall.page, hpage, Except.toOption]
  | loadOlder =>
    obtain ⟨loading, events, atTop, error⟩ := view
    cases events with
    | nil =>
      refine iff_of_true ?_ ?_
      · simp [ChatCall.acts, Android.step, Android.loadOlder, Android.reads, Android.lands, atRest,
          Ios.step, Ios.loadOlder]
      · intro page hp
        simp [ChatCall.page] at hp
    | cons oldest newer =>
      by_cases hstop : atTop = true ∨ loading = true
      · refine iff_of_true ?_ ?_
        · simp [ChatCall.acts, Android.step, Android.loadOlder, Android.reads, Android.lands,
            atRest, Ios.step, Ios.loadOlder, hstop]
        · intro page hp
          simp [ChatCall.page, hstop] at hp
      · obtain ⟨page, hpage, -⟩ := h.paired.is_page from_str room_id PAGE (some oldest.cursor)
        have hapart : ChatCall.loadOlder.Apart canonical from_str room_id
            (st, ⟨loading, oldest :: newer, atTop, error⟩) ↔
              ToldApart canonical (page ++ oldest :: newer) := by
          rw [toldApart_comm]
          simp [ChatCall.Apart, ChatCall.page, hpage, hstop, Except.toOption]
        rw [hapart]
        cases page with
        | nil =>
          refine iff_of_true ?_ h.distinct.toldApart
          simp [ChatCall.acts, Android.step, Android.loadOlder, Android.reads, Android.lands,
            atRest, Ios.step, Ios.loadOlder, hstop, Request.read, hpage, Android.landed]
        | cons e page =>
          rw [← merges_alike_iff]
          simp [ChatCall.acts, Android.step, Android.loadOlder, Android.reads, Android.lands,
            atRest, Ios.step, Ios.loadOlder, hstop, Request.read, hpage, Android.landed]

/-- Both views show the same call by call, just where every call merges ids that Swift tells
apart. -/
theorem run_at_once_iff {st : Store} (h : Paired st) (calls : List ChatCall) :
    (∀ n, Android.run from_str room_id message st ((calls.take n).flatMap ChatCall.acts) =
        atRest (Ios.run canonical from_str room_id authErrorMessage st (calls.take n))) ↔
      ∀ (n : Nat) (call : ChatCall), calls[n]? = some call → call.Apart canonical from_str room_id
        (Ios.run canonical from_str room_id authErrorMessage st (calls.take n)) := by
  have hholds : ∀ n, Ios.Holds canonical
      (Ios.run canonical from_str room_id authErrorMessage st (calls.take n)) :=
    fun n => Ios.Holds.run h (calls.take n)
  have hnext : ∀ (n : Nat) (call : ChatCall), calls[n]? = some call →
      calls.take (n + 1) = calls.take n ++ [call] := by
    intro n call hcall
    rw [List.take_add_one, hcall]
    rfl
  have hacts : ∀ (n : Nat) (call : ChatCall), calls[n]? = some call →
      Android.run from_str room_id message st ((calls.take (n + 1)).flatMap ChatCall.acts) =
        call.acts.foldl (Android.step from_str room_id message)
          (Android.run from_str room_id message st ((calls.take n).flatMap ChatCall.acts)) := by
    intro n call hcall
    rw [hnext n call hcall, List.flatMap_append, Android.run_append]
    simp
  constructor
  · intro hsame n call hcall
    have hafter := hsame (n + 1)
    rw [hacts n call hcall, hsame n, hnext n call hcall, Ios.run_snoc] at hafter
    exact (call_at_once_iff (hholds n) call).mp hafter
  · intro hapart n
    induction n with
    | zero => rfl
    | succ n ih =>
      cases hcall : calls[n]? with
      | none =>
        have hall : calls.length ≤ n := List.getElem?_eq_none_iff.mp hcall
        rw [List.take_of_length_le hall] at ih
        rw [List.take_of_length_le (Nat.le_succ_of_le hall)]
        exact ih
      | some call =>
        rw [hacts n call hcall, ih, hnext n call hcall, Ios.run_snoc]
        exact (call_at_once_iff (hholds n) call).mpr (hapart n call hcall)

end IosRuns

/-! ## The law -/

/-- In every run on Android, when a newest page lands, and in every run on iOS, when it is merged,
the view tracks it just where what was loaded is up to date. Call by call both views are the same,
just where Swift tells apart the ids that each call merges. -/
theorem chat_view_tracks_iff (canonical : String → String) (from_str : String → Option Json)
    (room_id : String) (message authErrorMessage : StoreError → String) (ms : List Method) :
    (∀ acts i page, (Android.run from_str room_id message (Store.written ms) acts).answered[i]? =
        some (.newest, .ok page) →
      (Tracks (Android.run from_str room_id message (Store.written ms) acts).store room_id page
          (Android.run from_str room_id message (Store.written ms)
            (acts ++ [.lands i])).view.events ↔
        UpToDate id (Android.run from_str room_id message (Store.written ms) acts).store room_id
          page
          (Android.run from_str room_id message (Store.written ms) acts).view.events)) ∧
    (∀ calls page, timeline from_str
        (Ios.run canonical from_str room_id authErrorMessage (Store.written ms) calls).1 room_id
          PAGE none = .ok page →
      (Tracks (Ios.run canonical from_str room_id authErrorMessage (Store.written ms) calls).1
          room_id page (Ios.run canonical from_str room_id authErrorMessage (Store.written ms)
            (calls ++ [.refresh])).2.events ↔
        UpToDate canonical
          (Ios.run canonical from_str room_id authErrorMessage (Store.written ms) calls).1 room_id
          page
          (Ios.run canonical from_str room_id authErrorMessage (Store.written ms)
            calls).2.events)) ∧
    ∀ calls : List ChatCall, (∀ n, Android.run from_str room_id message (Store.written ms)
          ((calls.take n).flatMap ChatCall.acts) = atRest
            (Ios.run canonical from_str room_id authErrorMessage (Store.written ms)
              (calls.take n))) ↔
      ∀ (n : Nat) (call : ChatCall), calls[n]? = some call → call.Apart canonical from_str room_id
        (Ios.run canonical from_str room_id authErrorMessage (Store.written ms)
          (calls.take n)) := by
  have hpaired := written_paired ms
  refine ⟨?_, ?_, fun calls => run_at_once_iff hpaired calls⟩
  · intro acts i page hanswer
    rw [Android.run_append]
    exact (ChatHolds.run hpaired acts).lands_iff hanswer
  · intro calls page hpage
    rw [Ios.run_snoc]
    exact (Ios.Holds.run hpaired calls).refresh_iff hpage

/-- A message that is typed and shown, acknowledged by the server and read again. -/
def typedAndAcked : List ChatAct :=
  [.store (.queue_send "!room" "@me:pigeon" "hi" 5 0 ⟨5, by decide⟩), .refresh, .reads 0, .lands 0,
    .store (.resolve_send "m5-0" "$1"), .refresh, .reads 0]

/-- The run of it up to some step. -/
def typedRun (n : Nat) : Chat :=
  Android.run (fun _ => none) "!room" (fun _ => "") (Store.written []) (typedAndAcked.take n)

def typedEcho : TimelineEvent :=
  ⟨"$local-5-0", "@me:pigeon", 5, 1, some "hi", none, true, false, none⟩

/-- The message as the server has it. -/
def ackedEcho : TimelineEvent :=
  ⟨"$1", "@me:pigeon", 5, 1, some "hi", none, false, false, none⟩

/-- The echo is shown once it is queued. -/
theorem chat_view_tracks_iff_typed :
    (typedRun 3).answered[0]? = some (.newest, .ok [typedEcho]) ∧
      Tracks (typedRun 3).store "!room" [typedEcho] (typedRun 4).view.events := by
  refine ⟨rfl, ?_⟩
  have hiff := (chat_view_tracks_iff id (fun _ => none) "!room" (fun _ => "") (fun _ => "") []).1
    (typedAndAcked.take 3) 0 [typedEcho] rfl
  refine hiff.mpr ⟨?_, ?_, ?_, ?_⟩
  · intro a ha b hb _
    rw [List.mem_singleton.mp ha, List.mem_singleton.mp hb]
  · intro e _ x hx
    cases hx
  · intro a b _ _ hb
    cases hb
  · rintro x (hx | hx) -
    · cases hx
    · cases List.mem_singleton.mp hx
      exact ⟨_, List.mem_singleton.mpr rfl, rfl⟩

/-- Once it is acknowledged the list shows both. -/
theorem the_echo_stays_beside_its_message : ¬ ∀ (from_str : String → Option Json)
    (room_id : String) (message : StoreError → String) (ms : List Method) (acts : List ChatAct)
    (i : Nat) (page : List TimelineEvent),
    (Android.run from_str room_id message (Store.written ms) acts).answered[i]? =
      some (.newest, .ok page) →
    Tracks (Android.run from_str room_id message (Store.written ms) acts).store room_id page
      (Android.run from_str room_id message (Store.written ms)
        (acts ++ [.lands i])).view.events := by
  intro h
  have htracks := h (fun _ => none) "!room" (fun _ => "") [] typedAndAcked 0 [ackedEcho] rfl
  rw [Android.run_append] at htracks
  have hrun : ChatHolds (typedRun 7) := ChatHolds.run (written_paired []) _
  have huptodate := (@ChatHolds.lands_iff "!room" (fun _ => "") _ hrun 0 _ rfl).mp htracks
  have hloaded : typedEcho ∈ (typedRun 7).view.events := by
    have hmerge : (typedRun 7).view.events = Android.merge [] [typedEcho] := rfl
    rw [hmerge, Android.merge_eq]
    refine (PageMerge.mem_merged _ _ ?_ ?_).mpr (Or.inr ⟨List.mem_singleton.mpr rfl, ?_⟩)
    · exact List.nodup_nil
    · exact List.nodup_singleton "$local-5-0"
    · exact List.not_mem_nil
  have hrange : InRange [ackedEcho] typedEcho.cursor :=
    ⟨⟨_, List.mem_singleton.mpr rfl, le_refl 1⟩, ⟨_, List.mem_singleton.mpr rfl, le_refl 1⟩⟩
  obtain ⟨r, hr, hid⟩ := huptodate.stored typedEcho (Or.inl hloaded) hrange
  have hids : ((typedRun 7).store.roomRows "!room").map EventRow.event_id = ["$1"] := rfl
  have hgone : typedEcho.event_id ∈ ["$1"] := hids ▸ hid ▸ List.mem_map_of_mem hr
  exact absurd hgone (by decide)

end PigeonMobile
