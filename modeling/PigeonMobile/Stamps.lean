-- Stamps of a clock and a counter. Every run counts from 0, up to a modulus, and the clock may
-- give anything, so that two stamps differ just where the clock says so at equal counts. A stamp
-- is written as a text, with a separator before its count.
import Mathlib.Data.List.Nodup
import Mathlib.Order.Basic

namespace Stamps

variable {τ : Type}

/-- What the clock gives at the calls of a run, each with the count at that call. -/
def stampsFrom (m k : Nat) : List τ → List (τ × Nat)
  | [] => []
  | t :: run => (t, k) :: stampsFrom m ((k + 1) % m) run

/-- The stamps of some runs, of which each counts from 0. -/
def stamps (m : Nat) (runs : List (List τ)) : List (τ × Nat) := runs.flatMap (stampsFrom m 0)

/-- At equal counts the clock never gives the same, neither in one run nor in two. -/
structure Apart (m : Nat) (runs : List (List τ)) : Prop where
  within : ∀ run ∈ runs, ∀ i j t, i < j → run[i]? = some t → run[j]? = some t → i % m ≠ j % m
  between : runs.Pairwise (fun run later =>
    ∀ i j t, run[i]? = some t → later[j]? = some t → i % m ≠ j % m)

/-! ## One run -/

theorem getElem?_stampsFrom {m k : Nat} (hk : k < m) (run : List τ) (i : Nat) :
    (stampsFrom m k run)[i]? = run[i]?.map (fun t => (t, (k + i) % m)) := by
  induction run generalizing k i with
  | nil => rfl
  | cons t run ih =>
    cases i with
    | zero =>
      have hmod : k % m = k := Nat.mod_eq_of_lt hk
      simp [stampsFrom, hmod]
    | succ i =>
      have hpos : 0 < m := by omega
      have hcount : ((k + 1) % m + i) % m = (k + (i + 1)) % m := by
        rw [Nat.mod_add_mod]
        congr 1
        omega
      rw [stampsFrom, List.getElem?_cons_succ, List.getElem?_cons_succ, ih (Nat.mod_lt _ hpos),
        hcount]

theorem getElem?_stamps_run {m : Nat} (hm : 0 < m) (run : List τ) (i : Nat) :
    (stampsFrom m 0 run)[i]? = run[i]?.map (fun t => (t, i % m)) := by
  rw [getElem?_stampsFrom hm, Nat.zero_add]

theorem mem_stamps_run {m : Nat} (hm : 0 < m) {run : List τ} {x : τ × Nat} :
    x ∈ stampsFrom m 0 run ↔ ∃ i t, run[i]? = some t ∧ x = (t, i % m) := by
  rw [List.mem_iff_getElem?]
  constructor
  · rintro ⟨i, hi⟩
    rw [getElem?_stamps_run hm, Option.map_eq_some_iff] at hi
    obtain ⟨t, ht, rfl⟩ := hi
    exact ⟨i, t, ht, rfl⟩
  · rintro ⟨i, t, ht, rfl⟩
    refine ⟨i, ?_⟩
    rw [getElem?_stamps_run hm, ht]
    rfl

theorem run_nodup_iff {m : Nat} (hm : 0 < m) (run : List τ) : (stampsFrom m 0 run).Nodup ↔
    ∀ i j t, i < j → run[i]? = some t → run[j]? = some t → i % m ≠ j % m := by
  rw [List.nodup_iff_getElem?_ne_getElem?]
  constructor
  · intro h i j t hlt hi hj hsame
    have hstamp : (stampsFrom m 0 run)[j]? = some (t, j % m) := by
      rw [getElem?_stamps_run hm, hj]
      rfl
    apply h i j hlt (List.getElem?_eq_some_iff.mp hstamp).1
    rw [hstamp, getElem?_stamps_run hm, hi, ← hsame]
    rfl
  · intro h i j hlt hj heq
    obtain ⟨x, hx⟩ : ∃ x, (stampsFrom m 0 run)[j]? = some x := ⟨_, List.getElem?_eq_getElem hj⟩
    rw [hx] at heq
    rw [getElem?_stamps_run hm, Option.map_eq_some_iff] at hx heq
    obtain ⟨t, ht, rfl⟩ := hx
    obtain ⟨u, hu, hpair⟩ := heq
    obtain ⟨rfl, hcount⟩ := Prod.mk.inj hpair
    exact h i j u hlt hu ht hcount

/-! ## Several runs -/

theorem stamps_nodup_iff {m : Nat} (hm : 0 < m) (runs : List (List τ)) :
    (stamps m runs).Nodup ↔ Apart m runs := by
  have hbetween : ∀ run later : List τ,
      (∀ x ∈ stampsFrom m 0 run, ∀ y ∈ stampsFrom m 0 later, x ≠ y) ↔
        ∀ i j t, run[i]? = some t → later[j]? = some t → i % m ≠ j % m := by
    intro run later
    constructor
    · intro h i j t hi hj hsame
      apply h _ ((mem_stamps_run hm).mpr ⟨i, t, hi, rfl⟩) _
        ((mem_stamps_run hm).mpr ⟨j, t, hj, rfl⟩)
      rw [hsame]
    · intro h x hx y hy heq
      obtain ⟨i, t, hi, rfl⟩ := (mem_stamps_run hm).mp hx
      obtain ⟨j, u, hj, hpair⟩ := (mem_stamps_run hm).mp hy
      obtain ⟨rfl, hcount⟩ := Prod.mk.inj (heq.trans hpair)
      exact h i j t hi hj hcount
  unfold stamps
  rw [List.nodup_iff_pairwise_ne, List.pairwise_flatMap]
  simp only [hbetween]
  constructor
  · rintro ⟨hwithin, hruns⟩
    exact ⟨fun run hrun => (run_nodup_iff hm run).mp (hwithin run hrun), hruns⟩
  · intro h
    exact ⟨fun run hrun => (run_nodup_iff hm run).mpr (h.within run hrun), h.between⟩

/-- A clock that each run finds later than all runs before it keeps their stamps apart. -/
theorem apart_of_ascending [Preorder τ] {m : Nat} {runs : List (List τ)}
    (hlength : ∀ run ∈ runs, run.length ≤ m)
    (hclock : runs.Pairwise (fun run later => ∀ t ∈ run, ∀ u ∈ later, t < u)) : Apart m runs := by
  refine ⟨?_, ?_⟩
  · intro run hrun i j t hlt hi hj hsame
    have hbound := hlength run hrun
    have hj' := (List.getElem?_eq_some_iff.mp hj).1
    rw [Nat.mod_eq_of_lt (by omega), Nat.mod_eq_of_lt (by omega)] at hsame
    omega
  · apply hclock.imp
    intro run later hlt i j t hi hj _
    exact lt_irrefl t (hlt t (List.mem_of_getElem? hi) t (List.mem_of_getElem? hj))

/-! ## Texts -/

/-- A text is read back from its last separator. -/
theorem split_inj {α : Type} {sep : α} {s t d e : List α} (hd : sep ∉ d) (he : sep ∉ e)
    (h : s ++ sep :: d = t ++ sep :: e) : s = t ∧ d = e := by
  rcases List.append_eq_append_iff.mp h with ⟨l, rfl, hl⟩ | ⟨l, rfl, hl⟩
  · cases l with
    | nil =>
      rw [List.nil_append] at hl
      rw [List.append_nil]
      exact ⟨rfl, (List.cons.inj hl).2⟩
    | cons a l =>
      -- the separator before `e` would be in `d`
      rw [List.cons_append] at hl
      exact absurd (by rw [(List.cons.inj hl).2]; simp) hd
  · cases l with
    | nil =>
      rw [List.nil_append] at hl
      rw [List.append_nil]
      exact ⟨rfl, (List.cons.inj hl).2.symm⟩
    | cons a l =>
      rw [List.cons_append] at hl
      exact absurd (by rw [(List.cons.inj hl).2]; simp) he

end Stamps
