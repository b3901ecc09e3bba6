-- Pages merged by key into a list in the order of a rank: of two entries with one key the first
-- stays, and entries of one rank stay in the order they come in. What a merge shows of its
-- second page.
import Mathlib

namespace PageMerge

variable {α κ ι : Type} [DecidableEq κ] [LinearOrder ι] (key : α → κ) (rank : α → ι)

/-- The first entry of each key that was not seen before. -/
def firsts (seen : List κ) : List α → List α
  | [] => []
  | a :: l => if key a ∈ seen then firsts seen l else a :: firsts (key a :: seen) l

/-- Sorted by rank, stable. -/
def sorted (l : List α) : List α := l.mergeSort (fun a b => decide (rank a ≤ rank b))

def merged (l p : List α) : List α := sorted rank (firsts key [] (l ++ p))

/-! ## The order of two entries -/

section Pairs

variable {a b : α} {l : List α}

theorem pair_mem (h : [a, b].Sublist l) : a ∈ l ∧ b ∈ l :=
  ⟨h.subset List.mem_cons_self, h.subset (List.mem_cons_of_mem _ List.mem_cons_self)⟩

theorem pair_ne (hl : l.Nodup) (h : [a, b].Sublist l) : a ≠ b :=
  List.nodup_iff_pairwise_ne.mp hl |>.forall_sublist h

/-- Two entries do not come in both orders. -/
theorem pair_asymm (hl : l.Nodup) (h : [a, b].Sublist l) : ¬ [b, a].Sublist l := by
  intro h'
  induction l with
  | nil => cases h
  | cons c l ih =>
    have hnew := (List.nodup_cons.mp hl).1
    cases h with
    | cons _ h =>
      cases h' with
      | cons _ h' => exact ih (List.nodup_cons.mp hl).2 h h'
      | cons_cons _ h' => exact hnew (pair_mem h).2
    | cons_cons _ h =>
      cases h' with
      | cons _ h' => exact hnew (pair_mem h').2
      | cons_cons _ h' => exact hnew (List.singleton_sublist.mp h)

/-- They come in one of them. -/
theorem pair_total (ha : a ∈ l) (hb : b ∈ l) (hne : a ≠ b) :
    [a, b].Sublist l ∨ [b, a].Sublist l := by
  induction l with
  | nil => cases ha
  | cons c l ih =>
    rcases List.mem_cons.mp ha with hac | ha
    · rcases List.mem_cons.mp hb with hbc | hb
      · exact absurd (hac.trans hbc.symm) hne
      · exact Or.inl (hac ▸ (List.singleton_sublist.mpr hb).cons_cons a)
    · rcases List.mem_cons.mp hb with hbc | hb
      · exact Or.inr (hbc ▸ (List.singleton_sublist.mpr ha).cons_cons b)
      · rcases ih ha hb with h | h
        · exact Or.inl (h.cons _)
        · exact Or.inr (h.cons _)

/-- One of each side of an append. -/
theorem pair_append {l' : List α} (ha : a ∈ l) (hb : b ∈ l') : [a, b].Sublist (l ++ l') :=
  (List.singleton_sublist.mpr ha).append (List.singleton_sublist.mpr hb)

end Pairs

/-! ## The first of each key -/

section Firsts

variable {key} {l p : List α}

theorem firsts_new {seen : List κ} {a : α} (h : a ∈ firsts key seen l) : key a ∉ seen := by
  induction l generalizing seen with
  | nil => cases h
  | cons c l ih =>
    unfold firsts at h
    split at h
    · exact ih h
    · next hnew =>
      rcases List.mem_cons.mp h with rfl | h
      · exact hnew
      · exact fun hseen => ih h (List.mem_cons_of_mem _ hseen)

/-- Each key once. -/
theorem firsts_distinct (seen : List κ) (l : List α) : ((firsts key seen l).map key).Nodup := by
  induction l generalizing seen with
  | nil => exact List.nodup_nil
  | cons a l ih =>
    unfold firsts
    split
    · exact ih seen
    · rw [List.map_cons, List.nodup_cons]
      refine ⟨?_, ih _⟩
      intro hmem
      obtain ⟨b, hb, hkey⟩ := List.mem_map.mp hmem
      exact firsts_new hb (hkey ▸ List.mem_cons_self)

/-- Of a page with distinct keys the entries stay whose keys were not seen. -/
theorem firsts_page (hp : (p.map key).Nodup) (seen : List κ) :
    firsts key seen p = p.filter (fun a => decide (key a ∉ seen)) := by
  induction p generalizing seen with
  | nil => rfl
  | cons a p ih =>
    obtain ⟨hnew, hp⟩ := List.nodup_cons.mp hp
    unfold firsts
    by_cases hseen : key a ∈ seen
    · rw [if_pos hseen, ih hp, List.filter_cons_of_neg (by simpa using hseen)]
    · rw [if_neg hseen, ih hp, List.filter_cons_of_pos (by simpa using hseen)]
      congr 1
      apply List.filter_congr
      intro b hb
      have hne : key b ≠ key a := fun h => hnew (h ▸ List.mem_map_of_mem hb)
      simp [hne]

/-- All of a list with distinct keys stays, and of what follows what it has not. -/
theorem firsts_append (hl : (l.map key).Nodup) {seen : List κ} (hnew : ∀ a ∈ l, key a ∉ seen)
    (p : List α) : firsts key seen (l ++ p) = l ++ firsts key ((l.map key).reverse ++ seen) p := by
  induction l generalizing seen with
  | nil => rfl
  | cons a l ih =>
    obtain ⟨ha, hl⟩ := List.nodup_cons.mp hl
    rw [List.cons_append, firsts, if_neg (hnew a List.mem_cons_self), ih hl]
    · simp
    · intro b hb hseen
      rcases List.mem_cons.mp hseen with h | h
      · exact ha (h ▸ List.mem_map_of_mem hb)
      · exact hnew b (List.mem_cons_of_mem _ hb) h

/-- Each key stays. -/
theorem firsts_key {seen : List κ} {a : α} (ha : a ∈ l) (hseen : key a ∉ seen) :
    ∃ b ∈ firsts key seen l, key b = key a := by
  induction l generalizing seen with
  | nil => cases ha
  | cons c l ih =>
    unfold firsts
    by_cases hc : key c ∈ seen
    · rw [if_pos hc]
      rcases List.mem_cons.mp ha with rfl | ha
      · exact absurd hc hseen
      · exact ih ha hseen
    · rw [if_neg hc]
      by_cases hkey : key a = key c
      · exact ⟨c, List.mem_cons_self, hkey.symm⟩
      · rcases List.mem_cons.mp ha with rfl | ha
        · exact absurd rfl hkey
        · have hnew : key a ∉ key c :: seen := by simp [hkey, hseen]
          obtain ⟨b, hb, hba⟩ := ih ha hnew
          exact ⟨b, List.mem_cons_of_mem _ hb, hba⟩

/-- A coarser key leaves the same, where it tells the keys of the list apart. -/
theorem firsts_coarser {κ' : Type} [DecidableEq κ'] {f : κ → κ'} {seen : List κ}
    (hf : ∀ a ∈ l, ∀ b ∈ l, f (key a) = f (key b) → key a = key b)
    (hseen : ∀ a ∈ l, ∀ k ∈ seen, f (key a) = f k → key a = k) :
    firsts (fun a => f (key a)) (seen.map f) l = firsts key seen l := by
  induction l generalizing seen with
  | nil => rfl
  | cons c l ih =>
    have hl : ∀ a ∈ l, ∀ b ∈ l, f (key a) = f (key b) → key a = key b := by
      intro a ha b hb
      exact hf a (List.mem_cons_of_mem _ ha) b (List.mem_cons_of_mem _ hb)
    have hmem : f (key c) ∈ seen.map f ↔ key c ∈ seen := by
      constructor
      · intro h
        obtain ⟨k, hk, hfk⟩ := List.mem_map.mp h
        rw [hseen c List.mem_cons_self k hk hfk.symm]
        exact hk
      · exact List.mem_map_of_mem
    unfold firsts
    by_cases hc : key c ∈ seen
    · rw [if_pos hc, if_pos (hmem.mpr hc)]
      exact ih hl (fun a ha => hseen a (List.mem_cons_of_mem _ ha))
    · rw [if_neg hc, if_neg (fun h => hc (hmem.mp h))]
      congr 1
      have hseen' : ∀ a ∈ l, ∀ k ∈ key c :: seen, f (key a) = f k → key a = k := by
        intro a ha k hk
        rcases List.mem_cons.mp hk with rfl | hk
        · exact hf a (List.mem_cons_of_mem _ ha) c List.mem_cons_self
        · exact hseen a (List.mem_cons_of_mem _ ha) k hk
      exact ih hl hseen'

/-- What a merge puts in order: the list, and of the page what the list has not. -/
theorem firsts_merge (hl : (l.map key).Nodup) (hp : (p.map key).Nodup) :
    firsts key [] (l ++ p) = l ++ p.filter (fun a => decide (key a ∉ l.map key)) := by
  rw [firsts_append hl (fun _ _ => List.not_mem_nil), firsts_page hp]
  simp

end Firsts

/-! ## The order of a merge -/

section Sorted

variable {rank} {l : List α}

theorem sorted_perm (rank : α → ι) (l : List α) : (sorted rank l).Perm l := List.mergeSort_perm l _

theorem rank_trans (a b c : α) (hab : decide (rank a ≤ rank b) = true)
    (hbc : decide (rank b ≤ rank c) = true) : decide (rank a ≤ rank c) = true :=
  decide_eq_true (le_trans (of_decide_eq_true hab) (of_decide_eq_true hbc))

theorem rank_total (a b : α) :
    (decide (rank a ≤ rank b) || decide (rank b ≤ rank a)) = true := by
  simpa using le_total (rank a) (rank b)

theorem sorted_pairwise (rank : α → ι) (l : List α) :
    (sorted rank l).Pairwise (fun a b => rank a ≤ rank b) :=
  (List.pairwise_mergeSort rank_trans rank_total l).imp (fun h => of_decide_eq_true h)

/-- Entries that are in order stay in order. -/
theorem sorted_stable {a b : α} (hle : rank a ≤ rank b) (h : [a, b].Sublist l) :
    [a, b].Sublist (sorted rank l) :=
  List.pair_sublist_mergeSort rank_trans rank_total (decide_eq_true hle) h

end Sorted

theorem merged_distinct (l p : List α) : ((merged key rank l p).map key).Nodup :=
  ((sorted_perm rank _).map key).nodup_iff.mpr (firsts_distinct [] _)

/-- By a coarser key two pages merge into the same just where it tells their keys apart. -/
theorem merged_coarser_iff {κ' : Type} [DecidableEq κ'] (f : κ → κ') (l p : List α) :
    merged (fun a => f (key a)) rank l p = merged key rank l p ↔
      ∀ a ∈ l ++ p, ∀ b ∈ l ++ p, f (key a) = f (key b) → key a = key b := by
  constructor
  · intro h a ha b hb hab
    have hshown : ∀ c ∈ l ++ p, ∃ d ∈ merged (fun a => f (key a)) rank l p, key d = key c := by
      intro c hc
      rw [h]
      have hstays : ∃ d ∈ firsts key [] (l ++ p), key d = key c := firsts_key hc List.not_mem_nil
      obtain ⟨d, hd, hdc⟩ := hstays
      exact ⟨d, (sorted_perm rank _).mem_iff.mpr hd, hdc⟩
    obtain ⟨a', ha', hka⟩ := hshown a ha
    obtain ⟨b', hb', hkb⟩ := hshown b hb
    have hdistinct := merged_distinct (fun a => f (key a)) rank l p
    have hsame : a' = b' :=
      List.inj_on_of_nodup_map hdistinct ha' hb' (by rw [hka, hkb, hab])
    rw [← hka, ← hkb, hsame]
  · intro hf
    unfold merged
    have hfirsts : firsts (fun a => f (key a)) ([].map f) (l ++ p) = firsts key [] (l ++ p) :=
      firsts_coarser hf (fun _ _ _ hk => absurd hk List.not_mem_nil)
    rw [← hfirsts]
    rfl

theorem mem_merged {l p : List α} (hl : (l.map key).Nodup) (hp : (p.map key).Nodup) {a : α} :
    a ∈ merged key rank l p ↔ a ∈ l ∨ a ∈ p ∧ key a ∉ l.map key := by
  unfold merged
  rw [(sorted_perm rank _).mem_iff, firsts_merge hl hp, List.mem_append, List.mem_filter,
    decide_eq_true_eq]

/-! ## What is shown of the page -/

/-- The list has what the page has, where it has its key. -/
def Current (l p : List α) : Prop := ∀ a ∈ p, ∀ b ∈ l, key b = key a → b = a

/-- Of two entries of the page with one rank the list has the second one only after the first. -/
def TiesInOrder (l p : List α) : Prop :=
  ∀ a b, [a, b].Sublist p → rank a = rank b → b ∈ l → [a, b].Sublist l

section Shown

variable {key rank} {l p : List α}

/-- An entry of a list with distinct keys is all of it with its key. -/
theorem filter_key {m : List α} (hm : (m.map key).Nodup) {a : α} (ha : a ∈ m) :
    m.filter (fun b => decide (key b = key a)) = [a] := by
  induction m with
  | nil => cases ha
  | cons c m ih =>
    obtain ⟨hnew, hm⟩ := List.nodup_cons.mp hm
    rcases List.mem_cons.mp ha with rfl | ha
    · rw [List.filter_cons_of_pos (by simp), List.filter_eq_nil_iff.mpr]
      intro b hb hkey
      exact hnew (of_decide_eq_true hkey ▸ List.mem_map_of_mem hb)
    · rw [List.filter_cons_of_neg, ih hm ha]
      intro hkey
      exact hnew (of_decide_eq_true hkey ▸ List.mem_map_of_mem ha)

variable (hl : (l.map key).Nodup) (hp : (p.map key).Nodup)
include hl hp

theorem current_mem (hcurrent : Current key l p) {a : α} (ha : a ∈ p) :
    a ∈ merged key rank l p := by
  rw [mem_merged key rank hl hp]
  by_cases hkey : key a ∈ l.map key
  · obtain ⟨b, hb, hba⟩ := List.mem_map.mp hkey
    exact Or.inl (hcurrent a ha b hb hba ▸ hb)
  · exact Or.inr ⟨ha, hkey⟩

theorem list_pair {a b : α} (hle : rank a ≤ rank b) (h : [a, b].Sublist l) :
    [a, b].Sublist (merged key rank l p) := by
  apply sorted_stable hle
  rw [firsts_merge hl hp]
  exact h.trans (List.sublist_append_left _ _)

/-- An entry that is loaded comes before one of its rank that is not. -/
theorem loaded_first {a b : α} (hrank : rank a = rank b) (ha : a ∈ l) (hb : b ∈ p)
    (hnew : key b ∉ l.map key) : [a, b].Sublist (merged key rank l p) := by
  apply sorted_stable (le_of_eq hrank)
  rw [firsts_merge hl hp]
  exact pair_append ha (List.mem_filter.mpr ⟨hb, decide_eq_true hnew⟩)

/-- Entries of one rank are shown in the order of the page. -/
theorem tie_shown (hcurrent : Current key l p) (hties : TiesInOrder rank l p) {a b : α}
    (hpair : [a, b].Sublist p) (hrank : rank a = rank b) :
    [a, b].Sublist (merged key rank l p) := by
  obtain ⟨ha, hb⟩ := pair_mem hpair
  have hnew : ∀ c ∈ p, c ∉ l → key c ∉ l.map key := by
    intro c hc hcl hkey
    obtain ⟨d, hd, hdc⟩ := List.mem_map.mp hkey
    exact hcl (hcurrent c hc d hd hdc ▸ hd)
  by_cases hbl : b ∈ l
  · exact list_pair hl hp (le_of_eq hrank) (hties a b hpair hrank hbl)
  · by_cases hal : a ∈ l
    · exact loaded_first hl hp hrank hal hb (hnew b hb hbl)
    · apply sorted_stable (le_of_eq hrank)
      rw [firsts_merge hl hp]
      have hrest := hpair.filter (fun c => decide (key c ∉ l.map key))
      have hboth : [a, b].filter (fun c => decide (key c ∉ l.map key)) = [a, b] := by
        apply List.filter_eq_self.mpr
        intro c hc
        rcases List.mem_pair.mp hc with rfl | rfl
        · exact decide_eq_true (hnew c ha hal)
        · exact decide_eq_true (hnew c hb hbl)
      rw [hboth] at hrest
      exact hrest.trans (List.sublist_append_right _ _)

/-- The merge shows the page in its order. -/
theorem page_sublist (hsorted : p.Pairwise (fun a b => rank a ≤ rank b))
    (hcurrent : Current key l p) (hties : TiesInOrder rank l p) :
    p.Sublist (merged key rank l p) := by
  have hmerged : (merged key rank l p).Nodup := (merged_distinct key rank l p).of_map
  have hmem : ∀ a, a ∈ (merged key rank l p).filter (fun b => decide (key b ∈ p.map key)) ↔
      a ∈ p := by
    intro a
    rw [List.mem_filter, decide_eq_true_eq]
    constructor
    · rintro ⟨ha, hkey⟩
      obtain ⟨b, hb, hba⟩ := List.mem_map.mp hkey
      rcases (mem_merged key rank hl hp).mp ha with hal | hap
      · exact hcurrent b hb a hal hba.symm ▸ hb
      · exact hap.1
    · intro ha
      exact ⟨current_mem hl hp hcurrent ha, List.mem_map_of_mem ha⟩
  have hasymm : ∀ a b, a ∈ (merged key rank l p).filter (fun b => decide (key b ∈ p.map key)) →
      b ∈ p → [a, b].Sublist p → [b, a].Sublist p → a = b := by
    intro a b _ _ hab hba
    exact absurd hba (pair_asymm hp.of_map hab)
  have hordered : ((merged key rank l p).filter (fun b => decide (key b ∈ p.map key))).Pairwise
      (fun a b => [a, b].Sublist p) := by
    apply List.pairwise_of_forall_sublist
    intro a b hab
    obtain ⟨ha, hb⟩ := pair_mem hab
    have hshown := hab.trans List.filter_sublist
    rcases pair_total ((hmem a).mp ha) ((hmem b).mp hb) (pair_ne hmerged hshown) with h | h
    · exact h
    · -- The page has them the other way round, so they have one rank.
      have hle := (sorted_pairwise rank _).forall_sublist hshown
      have hge := hsorted.forall_sublist h
      have hother := tie_shown hl hp hcurrent hties h (le_antisymm hge hle)
      exact absurd hother (pair_asymm hmerged hshown)
  have hpage : (merged key rank l p).filter (fun b => decide (key b ∈ p.map key)) = p :=
    List.Perm.eq_of_pairwise hasymm hordered (List.pairwise_of_forall_sublist (fun h => h))
      ((List.perm_ext_iff_of_nodup (hmerged.filter _) hp.of_map).mpr hmem)
  calc p = (merged key rank l p).filter (fun b => decide (key b ∈ p.map key)) := hpage.symm
    List.Sublist _ (merged key rank l p) := List.filter_sublist

/-- The merge shows each entry of the page once and as it is there, and all in its order, just
where the list holds no other entry of a key of the page and no entry of a rank too early. -/
theorem merged_shows_iff (hsorted : p.Pairwise (fun a b => rank a ≤ rank b)) :
    ((∀ a ∈ p, (merged key rank l p).filter (fun b => decide (key b = key a)) = [a]) ∧
      p.Sublist (merged key rank l p)) ↔ Current key l p ∧ TiesInOrder rank l p := by
  have hmerged : (merged key rank l p).Nodup := (merged_distinct key rank l p).of_map
  constructor
  · rintro ⟨honce, horder⟩
    have hcurrent : Current key l p := by
      intro a ha b hb hkey
      have hshown : b ∈ (merged key rank l p).filter (fun b => decide (key b = key a)) :=
        List.mem_filter.mpr ⟨(mem_merged key rank hl hp).mpr (Or.inl hb), decide_eq_true hkey⟩
      rw [honce a ha] at hshown
      exact List.mem_singleton.mp hshown
    refine ⟨hcurrent, ?_⟩
    intro a b hpair hrank hb
    obtain ⟨ha, -⟩ := pair_mem hpair
    have hshown := hpair.trans horder
    by_cases hkey : key a ∈ l.map key
    · obtain ⟨c, hc, hca⟩ := List.mem_map.mp hkey
      rw [hcurrent a ha c hc hca] at hc
      rcases pair_total hc hb (pair_ne hmerged hshown) with h | h
      · exact h
      · exact absurd (list_pair hl hp (le_of_eq hrank.symm) h) (pair_asymm hmerged hshown)
    · exact absurd (loaded_first hl hp hrank.symm hb ha hkey) (pair_asymm hmerged hshown)
  · rintro ⟨hcurrent, hties⟩
    refine ⟨?_, page_sublist hl hp hsorted hcurrent hties⟩
    intro a ha
    exact filter_key (merged_distinct key rank l p) (current_mem hl hp hcurrent ha)

end Shown

end PageMerge
