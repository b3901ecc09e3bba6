-- A run of acts, state by state. Where a good act keeps a property and a bad one breaks it, the
-- property holds throughout the run just where no act of it is bad.
import Mathlib.Data.List.Infix
import Mathlib.Data.List.Induction

namespace RunPrefixes

variable {σ α : Type} (step : σ → α → σ)

/-- The property holds before the first act and after each. -/
def Throughout (I : σ → Prop) (s : σ) (acts : List α) : Prop :=
  ∀ pre, pre <+: acts → I (pre.foldl step s)

/-- Some act is bad in the state that it meets. -/
def Somewhere (bad : σ → α → Prop) (s : σ) (acts : List α) : Prop :=
  ∃ pre act, pre ++ [act] <+: acts ∧ bad (pre.foldl step s) act

variable {step} {I : σ → Prop} {bad : σ → α → Prop} {s : σ}

theorem Throughout.last {acts : List α} (h : Throughout step I s acts) : I (acts.foldl step s) :=
  h acts (List.prefix_refl acts)

theorem throughout_snoc {acts : List α} {act : α} : Throughout step I s (acts ++ [act]) ↔
    Throughout step I s acts ∧ I ((acts ++ [act]).foldl step s) := by
  constructor
  · intro h
    exact ⟨fun pre hpre => h pre (hpre.trans (List.prefix_append acts [act])), h.last⟩
  · rintro ⟨h, hlast⟩ pre hpre
    rcases List.prefix_concat_iff.mp hpre with rfl | hpre
    · exact hlast
    · exact h pre hpre

theorem somewhere_snoc {acts : List α} {act : α} : Somewhere step bad s (acts ++ [act]) ↔
    Somewhere step bad s acts ∨ bad (acts.foldl step s) act := by
  constructor
  · rintro ⟨pre, act', hpre, hbad⟩
    rcases List.prefix_concat_iff.mp hpre with heq | hpre
    · obtain ⟨rfl, rfl⟩ := List.append_inj' heq rfl |>.imp id List.singleton_inj.mp
      exact Or.inr hbad
    · exact Or.inl ⟨pre, act', hpre, hbad⟩
  · rintro (⟨pre, act', hpre, hbad⟩ | hbad)
    · exact ⟨pre, act', hpre.trans (List.prefix_append acts [act]), hbad⟩
    · exact ⟨acts, act, List.prefix_refl _, hbad⟩

/-- A property that good acts keep holds throughout a run with no bad act. -/
theorem throughout_of_good (h0 : I s) (hgood : ∀ s act, I s → ¬ bad s act → I (step s act))
    {acts : List α} (h : ¬ Somewhere step bad s acts) : Throughout step I s acts := by
  induction acts using List.reverseRecOn with
  | nil =>
    intro pre hpre
    rw [List.prefix_nil.mp hpre]
    exact h0
  | append_singleton acts act ih =>
    rw [somewhere_snoc, not_or] at h
    have hacts := ih h.1
    refine throughout_snoc.mpr ⟨hacts, ?_⟩
    rw [List.foldl_concat]
    exact hgood _ act hacts.last h.2

/-- What follows from the property holds only there, where a bad act breaks it. -/
theorem throughout_iff {J : σ → Prop} (h0 : I s)
    (hgood : ∀ s act, I s → ¬ bad s act → I (step s act)) (hJ : ∀ s, I s → J s)
    (hbad : ∀ s act, I s → bad s act → ¬ J (step s act)) (acts : List α) :
    Throughout step J s acts ↔ ¬ Somewhere step bad s acts := by
  constructor
  · intro h
    induction acts using List.reverseRecOn with
    | nil =>
      rintro ⟨pre, act, hpre, -⟩
      exact absurd (List.prefix_nil.mp hpre) (by simp)
    | append_singleton acts act ih =>
      obtain ⟨hacts, hlast⟩ := throughout_snoc.mp h
      have hnone := ih hacts
      rw [somewhere_snoc, not_or]
      refine ⟨hnone, fun hact => ?_⟩
      rw [List.foldl_concat] at hlast
      exact hbad _ act (throughout_of_good h0 hgood hnone).last hact hlast
  · intro h pre hpre
    exact hJ _ (throughout_of_good h0 hgood h pre hpre)

end RunPrefixes
