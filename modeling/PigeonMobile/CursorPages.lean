-- Pages of a list that is sorted by rank, the highest rank first, where the rank of the last
-- entry of a page is the cursor of the next. A walk over the pages gives the whole list just
-- where no page ends between two entries of one rank.
import Mathlib.Data.List.Sort
import Mathlib.Order.Basic

namespace CursorPages

section Definitions

variable {α ι : Type} (rank : α → ι) (n : Nat) (l : List α)

/-- Where a page ends, the next entry has another rank. -/
def Clean : Prop :=
  ∀ i a b, l[n * (i + 1) - 1]? = some a → l[n * (i + 1)]? = some b → rank a ≠ rank b

variable [LinearOrder ι]

/-- The entries under the cursor. -/
def under (before : Option ι) : List α := l.filter (fun a => decide (∀ d ∈ before, rank a < d))

/-- The first `n` of them. -/
def page (before : Option ι) : List α := (under rank l before).take n

/-- The pages from a cursor on, until one is empty. -/
inductive Walk : Option ι → List (List α) → Prop
  | stop {before : Option ι} : page rank n l before = [] → Walk before []
  | more {before : Option ι} {last : α} {ps : List (List α)} :
      (page rank n l before).getLast? = some last → Walk (some (rank last)) ps →
      Walk before (page rank n l before :: ps)

end Definitions

variable {α ι : Type} {rank : α → ι} {n : Nat} {l : List α}

/-! ## Clean lists -/

theorem clean_nil : Clean rank n ([] : List α) := by
  intro i a b ha
  simp at ha

/-- The first boundary, and those of the rest. -/
theorem clean_iff (hn : 0 < n) : Clean rank n l ↔
    (∀ a b, l[n - 1]? = some a → l[n]? = some b → rank a ≠ rank b) ∧ Clean rank n (l.drop n) := by
  have hshift : ∀ i, n + (n * (i + 1) - 1) = n * (i + 1 + 1) - 1 := by
    intro i
    have hpos : 0 < n * (i + 1) := Nat.mul_pos hn (Nat.succ_pos i)
    rw [Nat.mul_succ n (i + 1)]
    omega
  have hshift' : ∀ i, n + n * (i + 1) = n * (i + 1 + 1) := by
    intro i
    rw [Nat.mul_succ n (i + 1)]
    omega
  constructor
  · intro h
    refine ⟨?_, ?_⟩
    · intro a b ha hb
      apply h 0 a b
      · simpa using ha
      · simpa using hb
    · intro i a b ha hb
      rw [List.getElem?_drop, hshift] at ha
      rw [List.getElem?_drop, hshift'] at hb
      exact h (i + 1) a b ha hb
  · rintro ⟨hfirst, hrest⟩ i a b ha hb
    cases i with
    | zero =>
      apply hfirst a b
      · simpa using ha
      · simpa using hb
    | succ i =>
      apply hrest i a b
      · rw [List.getElem?_drop, hshift]
        exact ha
      · rw [List.getElem?_drop, hshift']
        exact hb

/-- The last entry of a full page, and the first one after it. -/
theorem boundary {last b : α} (hlast : (l.take n).getLast? = some last) (hb : l[n]? = some b) :
    l[n - 1]? = some last := by
  have hlen : n < l.length := (List.getElem?_eq_some_iff.mp hb).1
  rw [List.getLast?_eq_getElem?, List.length_take, Nat.min_eq_left (Nat.le_of_lt hlen)] at hlast
  rw [List.getElem?_take] at hlast
  split at hlast
  · exact hlast
  · cases hlast

section Walks

variable [LinearOrder ι]

/-! ## One page -/

theorem under_none : under rank l none = l := by
  unfold under
  simp

theorem mem_under {before : Option ι} {a : α} :
    a ∈ under rank l before ↔ a ∈ l ∧ ∀ d ∈ before, rank a < d := by
  unfold under
  rw [List.mem_filter, decide_eq_true_eq]

theorem page_nil {before : Option ι} (hn : 0 < n) (h : page rank n l before = []) :
    under rank l before = [] := by
  unfold page at h
  rcases List.take_eq_nil_iff.mp h with hzero | hnil
  · omega
  · exact hnil

/-- What is under the last entry of a page is in the rest of the list. -/
theorem under_last {before : Option ι} {last : α}
    (hsorted : l.Pairwise (fun a b => rank b ≤ rank a))
    (hlast : (page rank n l before).getLast? = some last) :
    under rank l (some (rank last)) =
      ((under rank l before).drop n).filter (fun a => decide (rank a < rank last)) := by
  have hmem : last ∈ under rank l before := List.mem_of_mem_take (List.mem_of_getLast? hlast)
  have hlow : ∀ d ∈ before, rank last < d := (mem_under.mp hmem).2
  have hfilter : under rank l (some (rank last)) =
      (under rank l before).filter (fun a => decide (rank a < rank last)) := by
    unfold under
    rw [List.filter_filter]
    apply List.filter_congr
    intro a _
    by_cases ha : rank a < rank last
    · have hall : ∀ d, before = some d → rank a < d := fun d hd => lt_trans ha (hlow d hd)
      simpa [ha] using hall
    · simp [ha]
  -- no entry of the page is under its last one
  have hpage : (page rank n l before).filter (fun a => decide (rank a < rank last)) = [] := by
    rw [List.filter_eq_nil_iff]
    intro a ha
    rw [decide_eq_true_eq, not_lt]
    have hsub : (page rank n l before).Pairwise (fun a b => rank b ≤ rank a) :=
      (hsorted.sublist List.filter_sublist).sublist (List.take_sublist _ _)
    obtain ⟨front, hfront⟩ := List.getLast?_eq_some_iff.mp hlast
    rw [hfront] at ha hsub
    rcases List.mem_append.mp ha with ha | ha
    · exact (List.pairwise_append.mp hsub).2.2 a ha last (List.mem_singleton_self last)
    · rw [List.mem_singleton.mp ha]
  rw [hfilter]
  conv => lhs; rw [← List.take_append_drop n (under rank l before)]
  rw [List.filter_append]
  unfold page at hpage
  rw [hpage, List.nil_append]

/-! ## Walks -/

/-- The walk takes each entry once at most, in order. -/
theorem Walk.sublist (hsorted : l.Pairwise (fun a b => rank b ≤ rank a)) {before : Option ι}
    {ps : List (List α)} (hw : Walk rank n l before ps) :
    ps.flatten.Sublist (under rank l before) := by
  induction hw with
  | stop _ => exact List.nil_sublist _
  | @more before last ps hlast _ ih =>
    rw [List.flatten_cons]
    rw [under_last hsorted hlast] at ih
    have hrest : ps.flatten.Sublist ((under rank l before).drop n) := ih.trans List.filter_sublist
    have hboth := (List.Sublist.refl ((under rank l before).take n)).append hrest
    rw [List.take_append_drop] at hboth
    exact hboth

/-- What is under a cursor is walked whole just where it is clean. -/
theorem Walk.whole_iff (hn : 0 < n) (hsorted : l.Pairwise (fun a b => rank b ≤ rank a))
    {before : Option ι} {ps : List (List α)} (hw : Walk rank n l before ps) :
    ps.flatten = under rank l before ↔ Clean rank n (under rank l before) := by
  induction hw with
  | stop hnil =>
    rw [page_nil hn hnil]
    exact iff_of_true rfl clean_nil
  | @more before last ps hlast hw ih =>
    have hunder := under_last hsorted hlast
    have hlow := hw.sublist hsorted
    have hsub : (under rank l before).Pairwise (fun a b => rank b ≤ rank a) :=
      hsorted.sublist List.filter_sublist
    rw [List.flatten_cons, clean_iff hn]
    have hsplit : page rank n l before ++ ps.flatten = under rank l before ↔
        ps.flatten = (under rank l before).drop n := by
      have hwhole : page rank n l before ++ (under rank l before).drop n = under rank l before :=
        List.take_append_drop n _
      constructor
      · intro h
        exact List.append_cancel_left (h.trans hwhole.symm)
      · intro h
        rw [h]
        exact hwhole
    rw [hsplit]
    constructor
    · intro hflat
      -- the rest is what is under the cursor of the page
      have hall : ∀ a ∈ (under rank l before).drop n, rank a < rank last := by
        intro a ha
        rw [← hflat] at ha
        exact (mem_under.mp (hlow.subset ha)).2 (rank last) rfl
      have hsame : under rank l (some (rank last)) = (under rank l before).drop n := by
        rw [hunder, List.filter_eq_self]
        intro a ha
        exact decide_eq_true (hall a ha)
      rw [hsame] at ih
      refine ⟨?_, ih.mp hflat⟩
      intro a b ha hb
      have hlast' := boundary hlast hb
      rw [hlast'] at ha
      cases ha
      have hmem : b ∈ (under rank l before).drop n := by
        apply List.mem_of_getElem? (i := 0)
        rw [List.getElem?_drop]
        exact hb
      exact ne_of_gt (hall b hmem)
    · rintro ⟨hfirst, hclean⟩
      have hall : ∀ a ∈ (under rank l before).drop n, rank a < rank last := by
        intro a ha
        have hparts := hsub
        rw [← List.take_append_drop n (under rank l before), List.pairwise_append] at hparts
        obtain ⟨-, hrest, hcross⟩ := hparts
        cases hdrop : (under rank l before).drop n with
        | nil =>
          rw [hdrop] at ha
          cases ha
        | cons b rest =>
          have hb : (under rank l before)[n]? = some b := by
            have hget : ((under rank l before).drop n)[0]? = some b := by rw [hdrop]; rfl
            rwa [List.getElem?_drop] at hget
          have hb_le : rank b ≤ rank last := by
            apply hcross last (List.mem_of_getLast? hlast)
            rw [hdrop]
            exact List.mem_cons_self
          have ha_le : rank a ≤ rank b := by
            rw [hdrop] at ha hrest
            rcases List.mem_cons.mp ha with rfl | ha
            · exact le_refl _
            · exact (List.pairwise_cons.mp hrest).1 a ha
          have hne := hfirst last b (boundary hlast hb) hb
          exact lt_of_le_of_lt ha_le (lt_of_le_of_ne hb_le (Ne.symm hne))
      have hsame : under rank l (some (rank last)) = (under rank l before).drop n := by
        rw [hunder, List.filter_eq_self]
        intro a ha
        exact decide_eq_true (hall a ha)
      rw [hsame] at ih
      exact ih.mpr hclean

/-- A walk comes to its end. -/
theorem walk_ends (hn : 0 < n) (before : Option ι)
    (hsorted : l.Pairwise (fun a b => rank b ≤ rank a)) : ∃ ps, Walk rank n l before ps := by
  induction hlen : (under rank l before).length using Nat.strong_induction_on
    generalizing before with
  | _ len ih =>
    cases hlast : (page rank n l before).getLast? with
    | none => exact ⟨[], Walk.stop (List.getLast?_eq_none_iff.mp hlast)⟩
    | some last =>
      have hshorter : (under rank l (some (rank last))).length < len := by
        have hfilter := List.length_filter_le (fun a => decide (rank a < rank last))
          ((under rank l before).drop n)
        have hnonempty : 0 < (under rank l before).length :=
          List.length_pos_of_mem (List.mem_of_mem_take (List.mem_of_getLast? hlast))
        rw [under_last hsorted hlast]
        rw [List.length_drop] at hfilter
        omega
      obtain ⟨ps, hps⟩ := ih _ hshorter (some (rank last)) rfl
      exact ⟨_, Walk.more hlast hps⟩

end Walks

end CursorPages
