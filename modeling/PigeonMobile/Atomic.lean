-- Programs that act at once. Each run of such a program has one call at which its action takes
-- place, whole, and its other calls leave what the action is on as it is. Any number of them,
-- interleaved in any order, do what their actions do one after another.
import PigeonMobile.Threads
import Mathlib.Data.List.Nodup
import Mathlib.Order.WellFounded

variable {Op : Type} {Res : Op → Type} {ι σ τ υ α : Type}

namespace Prog

/-- The action has taken place and gave `a`: what is left changes nothing, and ends in `a`. -/
def Acted (h : (op : Op) → σ → Res op → σ → Prop) (view : σ → τ) (a : α) : Prog Op Res α → Prop
  | .done b => b = a
  | .call op k => ∀ s r s', h op s r s' → view s' = view s ∧ Acted h view a (k r)

/-- The action is still to come. -/
def Acts (h : (op : Op) → σ → Res op → σ → Prop) (view : σ → τ) (act : τ → α → τ → Prop) :
    Prog Op Res α → Prop
  | .done _ => False
  | .call op k => ∀ s r s', h op s r s' → (view s' = view s ∧ Acts h view act (k r)) ∨
      ∃ a, act (view s) a (view s') ∧ Acted h view a (k r)

variable {h : (op : Op) → σ → Res op → σ → Prop} {view : σ → τ}

theorem Acted.through {p : Prog Op Res α} {a : α} (f : τ → υ) (hp : p.Acted h view a) :
    p.Acted h (fun s => f (view s)) a := by
  induction p with
  | done b => exact hp
  | call op k ih =>
    intro s r s' hc
    obtain ⟨hsame, hrest⟩ := hp s r s' hc
    exact ⟨congrArg f hsame, ih r hrest⟩

/-- An action on more is one on less. -/
theorem Acts.through {p : Prog Op Res α} {act : τ → α → τ → Prop} {act' : υ → α → υ → Prop}
    (f : τ → υ) (hact : ∀ t a t', act t a t' → act' (f t) a (f t')) (hp : p.Acts h view act) :
    p.Acts h (fun s => f (view s)) act' := by
  induction p with
  | done b => exact hp
  | call op k ih =>
    intro s r s' hc
    rcases hp s r s' hc with ⟨hsame, hrest⟩ | ⟨a, ha, hrest⟩
    · exact Or.inl ⟨congrArg f hsame, ih r hrest⟩
    · exact Or.inr ⟨a, hact _ _ _ ha, hrest.through f⟩

/-- What is left of a program after a call. -/
def After (q p : Prog Op Res α) : Prop := ∃ op k r, p = .call op k ∧ q = k r

theorem after_wellFounded : WellFounded (After : Prog Op Res α → Prog Op Res α → Prop) := by
  refine ⟨fun p => ?_⟩
  induction p with
  | done a =>
    refine ⟨_, ?_⟩
    rintro q ⟨op, k, r, hp, -⟩
    cases hp
  | call op k ih =>
    refine ⟨_, ?_⟩
    rintro q ⟨op', k', r, hp, rfl⟩
    cases hp
    exact ih r

/-- A program that has made a call is never what it was. -/
theorem after_ne {p q : Prog Op Res α} (h : Relation.TransGen After q p) : q ≠ p := by
  rintro rfl
  exact after_wellFounded.transGen.irrefl.irrefl q h

end Prog

/-- The actions of a log, one after another. -/
inductive Performs (act : ι → τ → α → τ → Prop) : τ → List (ι × α) → τ → Prop
  | nil (t : τ) : Performs act t [] t
  | snoc {t t' t'' : τ} {log : List (ι × α)} {i : ι} {a : α} : Performs act t log t' →
      act i t' a t'' → Performs act t (log ++ [(i, a)]) t''

/-- Actions that follow others one by one follow their log. -/
theorem Performs.follow {act : ι → τ → α → τ → Prop} {act' : ι → υ → α → υ → Prop}
    {R : τ → υ → Prop}
    (hact : ∀ i t a t' u, act i t a t' → R t u → ∃ u', act' i u a u' ∧ R t' u') {t t' : τ}
    {log : List (ι × α)} (h : Performs act t log t') {u : υ} (hu : R t u) :
    ∃ u', Performs act' u log u' ∧ R t' u' := by
  induction h with
  | nil => exact ⟨u, Performs.nil u, hu⟩
  | snoc _ ha ih =>
    obtain ⟨u₁, hlog, hu₁⟩ := ih
    obtain ⟨u₂, ha', hu₂⟩ := hact _ _ _ _ u₁ ha hu₁
    exact ⟨u₂, hlog.snoc ha', hu₂⟩

theorem Performs.append {act : ι → τ → α → τ → Prop} {t t' t'' : τ} {log more : List (ι × α)}
    (h : Performs act t log t') (h' : Performs act t' more t'') :
    Performs act t (log ++ more) t'' := by
  induction h' with
  | nil => rwa [List.append_nil]
  | snoc _ ha ih =>
    rw [← List.append_assoc]
    exact ih.snoc ha

namespace Crew

/-- Each program has acted once, at its place in the log, or is still to act. One that has acted has
made a call. -/
structure Linear (h : ι → (op : Op) → σ → Res op → σ → Prop) (view : σ → τ)
    (act : ι → τ → α → τ → Prop) (first : ι → Prog Op Res α) (log : List (ι × α))
    (p : Crew ι σ Op Res α) : Prop where
  once : (log.map Prod.fst).Nodup
  acted : ∀ i a, (i, a) ∈ log → (p.left i).Acted (h i) view a
  acts : ∀ i, i ∉ log.map Prod.fst → (p.left i).Acts (h i) view (act i)
  begun : ∀ i ∈ log.map Prod.fst, Relation.TransGen Prog.After (p.left i) (first i)
  from_first : ∀ i, Relation.ReflTransGen Prog.After (p.left i) (first i)

namespace Linear

variable {h : ι → (op : Op) → σ → Res op → σ → Prop} {view : σ → τ} {act : ι → τ → α → τ → Prop}
  {first : ι → Prog Op Res α} {log : List (ι × α)} {p p' : Crew ι σ Op Res α}

/-- Programs that are all still to act. -/
theorem start (s : σ) (hfirst : ∀ i, (first i).Acts (h i) view (act i)) :
    Linear h view act first [] ⟨s, first⟩ where
  once := List.nodup_nil
  acted _ _ hi := absurd hi List.not_mem_nil
  acts i _ := hfirst i
  begun _ hi := absurd hi List.not_mem_nil
  from_first _ := Relation.ReflTransGen.refl

/-- A program that has made no call is not in the log. -/
theorem not_begun (hl : Linear h view act first log p) {i : ι} (hi : p.left i = first i) :
    i ∉ log.map Prod.fst := fun hin => Prog.after_ne (hl.begun i hin) hi

/-- A program that has ended is in the log, with what it ended in. -/
theorem ended (hl : Linear h view act first log p) {i : ι} {a : α} (hi : p.left i = .done a) :
    (i, a) ∈ log := by
  by_cases hin : i ∈ log.map Prod.fst
  · obtain ⟨⟨j, b⟩, hmem, rfl⟩ := List.mem_map.mp hin
    have hacted := hl.acted _ b hmem
    simp only at hi
    rw [hi] at hacted
    obtain rfl : a = b := hacted
    exact hmem
  · have hacts := hl.acts i hin
    rw [hi] at hacts
    exact hacts.elim

variable [DecidableEq ι]

/-- What one call makes of a program, and of the others. -/
theorem update (hl : Linear h view act first log p) {i : ι} {op : Op} {k : Res op → Prog Op Res α}
    {r : Res op} {s : σ} {more : List (ι × α)} (hi : p.left i = .call op k)
    (honce : ((log ++ more).map Prod.fst).Nodup) (hmore : ∀ j ∈ more.map Prod.fst, j = i)
    (hacted : ∀ a, (i, a) ∈ log ++ more → (k r).Acted (h i) view a)
    (hacts : i ∉ (log ++ more).map Prod.fst → (k r).Acts (h i) view (act i)) :
    Linear h view act first (log ++ more) ⟨s, Function.update p.left i (k r)⟩ := by
  have hafter : Prog.After (k r) (p.left i) := ⟨op, k, r, hi, rfl⟩
  have hold : ∀ j, j ≠ i → j ∈ (log ++ more).map Prod.fst → j ∈ log.map Prod.fst := by
    intro j hj hin
    rw [List.map_append, List.mem_append] at hin
    exact hin.resolve_right (fun hin => hj (hmore j hin))
  refine ⟨honce, ?_, ?_, ?_, ?_⟩
  · intro j a hj
    by_cases he : j = i
    · subst he
      simpa using hacted a hj
    · have hmem : (j, a) ∈ log := by
        rcases List.mem_append.mp hj with hj | hj
        · exact hj
        · exact absurd (hmore j (List.mem_map_of_mem hj)) he
      simpa [Function.update_of_ne he] using hl.acted j a hmem
  · intro j hj
    by_cases he : j = i
    · subst he
      simpa using hacts hj
    · have hnot : j ∉ log.map Prod.fst := by
        intro hin
        apply hj
        rw [List.map_append]
        exact List.mem_append_left _ hin
      simpa [Function.update_of_ne he] using hl.acts j hnot
  · intro j hj
    by_cases he : j = i
    · subst he
      simpa using Relation.TransGen.head' hafter (hl.from_first j)
    · simpa [Function.update_of_ne he] using hl.begun j (hold j he hj)
  · intro j
    by_cases he : j = i
    · subst he
      simpa using (hl.from_first j).head hafter
    · simpa [Function.update_of_ne he] using hl.from_first j

/-- One call: its program acts there, or has acted, or is still to. -/
theorem step (hl : Linear h view act first log p) (hs : Step h p p') :
    ∃ more, Performs act (view p.state) more (view p'.state) ∧
      Linear h view act first (log ++ more) p' := by
  cases hs with
  | @call i op k r s hi hc =>
    -- a call that changes nothing adds nothing to the log
    have hquiet : view s = view p.state → (∀ a, (i, a) ∈ log → (k r).Acted (h i) view a) →
        (i ∉ log.map Prod.fst → (k r).Acts (h i) view (act i)) →
        ∃ more, Performs act (view p.state) more (view s) ∧
          Linear h view act first (log ++ more) ⟨s, Function.update p.left i (k r)⟩ := by
      intro hsame hacted hacts
      refine ⟨[], hsame ▸ Performs.nil _, hl.update hi ?_ (fun j hj => absurd hj List.not_mem_nil)
        ?_ ?_⟩
      · rw [List.append_nil]
        exact hl.once
      · rwa [List.append_nil]
      · rwa [List.append_nil]
    by_cases hin : i ∈ log.map Prod.fst
    · obtain ⟨⟨j, a⟩, hmem, rfl⟩ := List.mem_map.mp hin
      have hacted := hl.acted _ a hmem
      simp only at hi
      rw [hi] at hacted
      obtain ⟨hsame, hrest⟩ := hacted _ r s hc
      refine hquiet hsame ?_ (fun hnot => absurd hin hnot)
      intro b hb
      have heq : (j, a) = (j, b) := List.inj_on_of_nodup_map hl.once hmem hb rfl
      cases heq
      exact hrest
    · have hacts := hl.acts i hin
      rw [hi] at hacts
      rcases hacts _ r s hc with ⟨hsame, hrest⟩ | ⟨a, ha, hrest⟩
      · exact hquiet hsame (fun b hb => absurd (List.mem_map_of_mem hb) hin) (fun _ => hrest)
      · refine ⟨[(i, a)], (Performs.nil (view p.state)).snoc ha, hl.update hi ?_ ?_ ?_ ?_⟩
        · rw [List.map_append, List.nodup_append]
          refine ⟨hl.once, List.nodup_singleton _, ?_⟩
          intro x hx y hy
          rw [List.map_singleton, List.mem_singleton] at hy
          rintro rfl
          rw [hy] at hx
          exact hin hx
        · intro j hj
          rw [List.map_singleton, List.mem_singleton] at hj
          exact hj
        · intro b hb
          rw [List.mem_append, List.mem_singleton] at hb
          rcases hb with hold | hnew
          · exact absurd (List.mem_map_of_mem hold) hin
          · cases hnew
            exact hrest
        · intro hnot
          refine absurd ?_ hnot
          simp

/-- The log of a run goes on from that of its beginning. -/
theorem reaches (hl : Linear h view act first log p) (hr : Reaches h p p') :
    ∃ more, Performs act (view p.state) more (view p'.state) ∧
      Linear h view act first (log ++ more) p' := by
  induction hr with
  | refl => exact ⟨[], Performs.nil _, by rwa [List.append_nil]⟩
  | tail _ hs ih =>
    obtain ⟨more, hmore, hlinear⟩ := ih
    obtain ⟨last, hlast, hnext⟩ := hlinear.step hs
    exact ⟨more ++ last, hmore.append hlast, by rwa [← List.append_assoc]⟩

end Linear

end Crew
