-- A slot for the handle of one task. The slot can start a task and revoke the one it holds; a task
-- that ends empties the slot, whichever task the slot then holds. A task that runs and is not held
-- cannot be revoked any more.
import Mathlib.Data.Set.Subsingleton

namespace HandleSlot

variable {ι : Type}

/-- The task that the slot holds, and the tasks that run. -/
structure Slot (ι : Type) where
  held : Option ι
  live : Set ι

def Slot.spawn (s : Slot ι) (i : ι) : Slot ι := ⟨some i, insert i s.live⟩

def Slot.revoke (s : Slot ι) : Slot ι := ⟨none, {j ∈ s.live | s.held ≠ some j}⟩

/-- The task `i` ends. -/
def Slot.finish (s : Slot ι) (i : ι) : Slot ι := ⟨none, {j ∈ s.live | j ≠ i}⟩

/-- A task that is held runs. -/
def Held (s : Slot ι) : Prop := ∀ i, s.held = some i → i ∈ s.live

/-- The task that is held runs, and no other. -/
def Exact (s : Slot ι) : Prop := ∀ i, i ∈ s.live ↔ s.held = some i

/-- The task runs, and the slot does not hold it. -/
def Lost (s : Slot ι) (i : ι) : Prop := i ∈ s.live ∧ s.held ≠ some i

/-! ## A task that is held runs -/

theorem held_spawn (s : Slot ι) (i : ι) : Held (s.spawn i) := by
  intro j hj
  obtain rfl := Option.some.inj hj
  exact Set.mem_insert _ s.live

theorem held_empty (live : Set ι) : Held ⟨none, live⟩ := by
  intro j hj
  cases hj

/-! ## No other task runs -/

theorem Exact.at_most_one {s : Slot ι} (h : Exact s) : s.live.Subsingleton := by
  intro i hi j hj
  exact Option.some.inj (((h i).mp hi).symm.trans ((h j).mp hj))

theorem Exact.empty {s : Slot ι} (h : Exact s) (hnone : s.held = none) (i : ι) : i ∉ s.live := by
  intro hi
  rw [h i, hnone] at hi
  cases hi

theorem exact_spawn {s : Slot ι} (h : Exact s) (hnone : s.held = none) (i : ι) :
    Exact (s.spawn i) := by
  intro j
  show j ∈ insert i s.live ↔ some i = some j
  rw [Set.mem_insert_iff, or_iff_left (h.empty hnone j), Option.some_inj]
  exact eq_comm

theorem exact_revoke {s : Slot ι} (h : Exact s) : Exact s.revoke := by
  intro j
  constructor
  · rintro ⟨hj, hheld⟩
    exact absurd ((h j).mp hj) hheld
  · intro hj
    cases hj

/-- A task that ends takes no other with it, where the slot holds it or nothing. -/
theorem exact_finish {s : Slot ι} (h : Exact s) {i : ι}
    (hown : s.held = none ∨ s.held = some i) : Exact (s.finish i) := by
  intro j
  constructor
  · rintro ⟨hj, hne⟩
    have hheld := (h j).mp hj
    rcases hown with hnone | hsome
    · exact absurd (hheld.symm.trans hnone) (Option.some_ne_none j)
    · exact absurd (Option.some.inj (hheld.symm.trans hsome)) hne
  · intro hj
    cases hj

/-! ## A task that is lost -/

theorem lost_finish {s : Slot ι} (h : Held s) {i j : ι} (hj : s.held = some j) (hne : j ≠ i) :
    Lost (s.finish i) j := ⟨⟨h j hj, hne⟩, (Option.some_ne_none j).symm⟩

theorem Lost.spawn {s : Slot ι} {j : ι} (h : Lost s j) {i : ι} (hne : i ≠ j) :
    Lost (s.spawn i) j :=
  ⟨Set.mem_insert_of_mem i h.1, fun heq => hne (Option.some.inj heq)⟩

theorem Lost.revoke {s : Slot ι} {j : ι} (h : Lost s j) : Lost s.revoke j :=
  ⟨h, (Option.some_ne_none j).symm⟩

theorem Lost.finish {s : Slot ι} {j : ι} (h : Lost s j) {i : ι} (hne : j ≠ i) :
    Lost (s.finish i) j := ⟨⟨h.1, hne⟩, (Option.some_ne_none j).symm⟩

end HandleSlot
