-- Any number of programs over one shared state, their calls interleaved in any
-- order. A program is `Safe` when each call it makes keeps the invariant, given
-- that the others keep to what it relies on. `Threaded.invariant` then says that
-- every run of the whole system keeps the invariant.
import PigeonMobile.Program
import Mathlib.Logic.Function.Basic

variable {Op : Type} {Res : Op → Type} {ι σ α β : Type}

/-! ## One program among others -/

/-- What holds of a system of programs: the invariant, and for each program what
it relies on the others for and what it gives them. -/
structure Contract (ι σ : Type) where
  inv : σ → Prop
  rely : ι → σ → σ → Prop
  give : ι → σ → σ → Prop
  refl : ∀ i s, rely i s s
  trans : ∀ i s₁ s₂ s₃, rely i s₁ s₂ → rely i s₂ s₃ → rely i s₁ s₃
  frame : ∀ i j s₁ s₂, i ≠ j → give i s₁ s₂ → rely j s₁ s₂

/-- The calls of program `i` keep the invariant and what the program gives, from
the state `s` on, whatever the others do before each call. It ends in `Q`. -/
def Safe (c : Contract ι σ) (h : ι → (op : Op) → σ → Res op → σ → Prop) (i : ι)
    (Q : α → σ → Prop) : Prog Op Res α → σ → Prop
  | .done a, s => Q a s
  | .call op k, s => ∀ s₁, c.rely i s s₁ → c.inv s₁ → ∀ r s₂, h i op s₁ r s₂ →
      c.inv s₂ ∧ c.give i s₁ s₂ ∧ Safe c h i Q (k r) s₂

namespace Safe

variable {c : Contract ι σ} {h : ι → (op : Op) → σ → Res op → σ → Prop} {i : ι}

theorem bind {p : Prog Op Res α} {f : α → Prog Op Res β} {Q : β → σ → Prop} {s : σ}
    (hp : Safe c h i (fun a s' => Safe c h i Q (f a) s') p s) : Safe c h i Q (p.bind f) s := by
  induction p generalizing s with
  | done a => exact hp
  | call op k ih =>
    intro s₁ hr hi r s₂ hc
    obtain ⟨h1, h2, h3⟩ := hp s₁ hr hi r s₂ hc
    exact ⟨h1, h2, ih r h3⟩

theorem mono {p : Prog Op Res α} {Q Q' : α → σ → Prop} {s : σ} (hQ : ∀ a s, Q a s → Q' a s)
    (hp : Safe c h i Q p s) : Safe c h i Q' p s := by
  induction p generalizing s with
  | done a => exact hQ a s hp
  | call op k ih =>
    intro s₁ hr hi r s₂ hc
    obtain ⟨h1, h2, h3⟩ := hp s₁ hr hi r s₂ hc
    exact ⟨h1, h2, ih r h3⟩

/-- A program that is safe stays so when the others keep to what it relies on, if what it
ends in does. -/
theorem stable_of {p : Prog Op Res α} {Q : α → σ → Prop} {s s' : σ} (hr : c.rely i s s')
    (hQ : ∀ a, Q a s → Q a s') (hp : Safe c h i Q p s) : Safe c h i Q p s' := by
  cases p with
  | done a => exact hQ a hp
  | call op k => exact fun s₁ hr' => hp s₁ (c.trans i s s' s₁ hr hr')

theorem stable {p : Prog Op Res α} {s s' : σ} (hr : c.rely i s s')
    (hp : Safe c h i (fun _ _ => True) p s) : Safe c h i (fun _ _ => True) p s' :=
  hp.stable_of hr (fun _ _ => trivial)

/-- A run of one program, among others that keep to what it relies on. -/
theorem runs {p p' : Prog Op Res α} {Q : α → σ → Prop} {others : σ → σ → Prop} {s₀ s s' : σ}
    {es : List (Prog.Event σ Op Res)} (hr : Prog.Runs (h i) others p s es p' s')
    (ho : ∀ s s', c.inv s → others s s' → c.inv s' ∧ c.rely i s s') (hi : c.inv s)
    (hrely : c.rely i s₀ s) (hp : Safe c h i Q p s₀) :
    c.inv s' ∧ ∃ s₁, c.rely i s₁ s' ∧ Safe c h i Q p' s₁ := by
  induction hr generalizing s₀ with
  | refl p s => exact ⟨hi, s₀, hrely, hp⟩
  | call hc hothers _ ih =>
    obtain ⟨hi₁, -, hp₁⟩ := hp _ hrely hi _ _ hc
    obtain ⟨hi₂, hrely₂⟩ := ho _ _ hi₁ hothers
    exact ih hi₂ hrely₂ hp₁

end Safe

/-- Safe where its future may be dropped at a call, and it ends in `Q` where it is not. -/
def SafeDropped (c : Contract ι σ) (h : ι → (op : Op) → σ → Option (Res op) → σ → Prop) (i : ι)
    (Q : α → σ → Prop) (p : Prog Op Res α) (s : σ) : Prop :=
  Safe c h i (fun o s => ∀ a, o = some a → Q a s) p.droppable s

namespace SafeDropped

variable {c : Contract ι σ} {h : ι → (op : Op) → σ → Option (Res op) → σ → Prop} {i : ι}

theorem done {Q : α → σ → Prop} {a : α} {s : σ} (ha : Q a s) :
    SafeDropped c h i Q (.done a : Prog Op Res α) s := by
  intro b hb
  cases hb
  exact ha

theorem bind {p : Prog Op Res α} {f : α → Prog Op Res β} {Q : β → σ → Prop} {s : σ}
    (hp : SafeDropped c h i (fun a s' => SafeDropped c h i Q (f a) s') p s) :
    SafeDropped c h i Q (p.bind f) s := by
  unfold SafeDropped
  rw [Prog.droppable_bind]
  apply Safe.bind
  apply Safe.mono _ hp
  intro o s' ho
  cases o with
  | none =>
    intro a ha
    cases ha
  | some a => exact ho a rfl

theorem mono {p : Prog Op Res α} {Q Q' : α → σ → Prop} {s : σ} (hQ : ∀ a s, Q a s → Q' a s)
    (hp : SafeDropped c h i Q p s) : SafeDropped c h i Q' p s :=
  Safe.mono (fun _ s' ho a ha => hQ a s' (ho a ha)) hp

end SafeDropped

/-! ## The whole system -/

/-- The shared state, and the program that each thread is at. -/
structure Pool (ι σ : Type) (Op : Type) (Res : Op → Type) where
  state : σ
  threads : ι → Option (Prog Op Res Unit)

/-- What can happen beside the calls: a program starts, one is dropped, the
surroundings move, and a restart ends every program. -/
structure Threaded (ι σ : Type) (Op : Type) (Res : Op → Type) where
  call : ι → (op : Op) → σ → Res op → σ → Prop
  start : ι → σ → Prog Op Res Unit → Prop
  drop : ι → σ → σ → Prop
  env : σ → σ → Prop
  restart : σ → σ → Prop

namespace Threaded

variable [DecidableEq ι] (S : Threaded ι σ Op Res)

inductive Step : Pool ι σ Op Res → Pool ι σ Op Res → Prop
  | start {c : Pool ι σ Op Res} {i : ι} {p : Prog Op Res Unit} : c.threads i = none →
      S.start i c.state p → Step c ⟨c.state, Function.update c.threads i (some p)⟩
  | call {c : Pool ι σ Op Res} {i : ι} {op : Op} {k : Res op → Prog Op Res Unit} {r : Res op}
      {s : σ} : c.threads i = some (.call op k) → S.call i op c.state r s →
      Step c ⟨s, Function.update c.threads i (some (k r))⟩
  | finish {c : Pool ι σ Op Res} {i : ι} : c.threads i = some (.done ()) →
      Step c ⟨c.state, Function.update c.threads i none⟩
  | drop {c : Pool ι σ Op Res} {i : ι} {p : Prog Op Res Unit} {s : σ} :
      c.threads i = some p → S.drop i c.state s →
      Step c ⟨s, Function.update c.threads i none⟩
  | env {c : Pool ι σ Op Res} {s : σ} : S.env c.state s → Step c ⟨s, c.threads⟩
  | restart {c : Pool ι σ Op Res} {s : σ} : S.restart c.state s → Step c ⟨s, fun _ => none⟩

/-- `c'` comes from `c` by any number of steps. -/
def Reaches (c c' : Pool ι σ Op Res) : Prop := Relation.ReflTransGen S.Step c c'

/-- A state with no program under way. -/
def idle (s : σ) : Pool ι σ Op Res := ⟨s, fun _ => none⟩

/-- A state with one program under way. -/
def solo (i : ι) (p : Prog Op Res Unit) (s : σ) : Pool ι σ Op Res :=
  ⟨s, Function.update (fun _ => none) i (some p)⟩

section Solo

variable {S} {c : Pool ι σ Op Res} {i : ι} {s : σ}

theorem solo_threads (p : Prog Op Res Unit) : (solo i p s).threads i = some p := by
  simp [solo]

/-- A run may start one program, take it call by call, and end it. -/
theorem Reaches.start (h : S.Reaches c (idle s)) (i : ι) (p : Prog Op Res Unit)
    (hs : S.start i s p) : S.Reaches c (solo i p s) := h.tail (Step.start rfl hs)

theorem Reaches.call {op : Op} {k : Res op → Prog Op Res Unit} {r : Res op}
    (h : S.Reaches c (solo i (.call op k) s)) (s' : σ) (hc : S.call i op s r s') :
    S.Reaches c (solo i (k r) s') := by
  have hstep := Step.call (solo_threads (.call op k)) hc
  have hthreads : Function.update (solo i (.call op k) s).threads i (some (k r)) =
      (solo i (k r) s').threads := Function.update_idem _ _ _
  rw [hthreads] at hstep
  exact h.tail hstep

theorem Reaches.finish (h : S.Reaches c (solo i (.done ()) s)) : S.Reaches c (idle s) := by
  have hstep := Step.finish (S := S) (c := solo i (.done ()) s) (solo_threads (.done ()))
  have hthreads : Function.update (solo i (.done () : Prog Op Res Unit) s).threads i none =
      (idle s : Pool ι σ Op Res).threads := by
    unfold solo idle
    rw [Function.update_idem]
    exact Function.update_eq_self i _
  rw [hthreads] at hstep
  exact h.tail hstep

theorem Reaches.env (h : S.Reaches c (idle s)) (s' : σ) (he : S.env s s') :
    S.Reaches c (idle s') := h.tail (Step.env he)

/-- The surroundings may move while a program is under way. -/
theorem Reaches.env_during {p : Prog Op Res Unit} (h : S.Reaches c (solo i p s)) (s' : σ)
    (he : S.env s s') : S.Reaches c (solo i p s') := h.tail (Step.env he)

end Solo

/-- Every part of the system keeps to the contract. -/
structure Keeps (c : Contract ι σ) : Prop where
  start : ∀ i s p, c.inv s → S.start i s p → Safe c S.call i (fun _ _ => True) p s
  drop : ∀ i s s', c.inv s → S.drop i s s' → c.inv s' ∧ c.give i s s'
  env : ∀ s s', c.inv s → S.env s s' → c.inv s' ∧ ∀ i, c.rely i s s'
  restart : ∀ s s', c.inv s → S.restart s s' → c.inv s'

/-- The invariant holds, and every program under way is safe. -/
def Holds (c : Contract ι σ) (p : Pool ι σ Op Res) : Prop :=
  c.inv p.state ∧ ∀ i q, p.threads i = some q → Safe c S.call i (fun _ _ => True) q p.state

theorem Holds.update {c : Contract ι σ} {p : Pool ι σ Op Res} {i : ι} {s : σ}
    {q : Option (Prog Op Res Unit)} (hp : S.Holds c p) (hs : c.inv s)
    (hg : c.give i p.state s) (hq : ∀ q', q = some q' → Safe c S.call i (fun _ _ => True) q' s) :
    S.Holds c ⟨s, Function.update p.threads i q⟩ := by
  refine ⟨hs, ?_⟩
  intro j q' hj
  by_cases hij : i = j
  · subst hij
    simp only [Function.update_self] at hj
    exact hq q' hj
  · simp only [Function.update_of_ne (Ne.symm hij)] at hj
    exact (hp.2 j q' hj).stable (c.frame i j _ _ hij hg)

/-- One step keeps it. -/
theorem Holds.step {c : Contract ι σ} (hk : S.Keeps c)
    {p p' : Pool ι σ Op Res} (hp : S.Holds c p) (hs : S.Step p p') : S.Holds c p' := by
  cases hs with
  | @start i q hnone hst =>
    refine ⟨hp.1, ?_⟩
    intro j q' hj
    by_cases hij : j = i
    · subst hij
      simp only [Function.update_self, Option.some.injEq] at hj
      subst hj
      exact hk.start j _ _ hp.1 hst
    · simp only [Function.update_of_ne hij] at hj
      exact hp.2 j q' hj
  | @call i op k r s hi hc =>
    obtain ⟨h1, h2, h3⟩ := hp.2 i _ hi p.state (c.refl i _) hp.1 r s hc
    exact Holds.update S hp h1 h2 (fun q' hq' => by cases hq'; exact h3)
  | @finish i hi =>
    refine ⟨hp.1, ?_⟩
    intro j q' hj
    by_cases hij : j = i
    · subst hij
      simp at hj
    · simp only [Function.update_of_ne hij] at hj
      exact hp.2 j q' hj
  | @drop i q s hi hd =>
    obtain ⟨h1, h2⟩ := hk.drop i _ _ hp.1 hd
    exact Holds.update S hp h1 h2 (fun q' hq' => by cases hq')
  | @env s he =>
    obtain ⟨h1, h2⟩ := hk.env _ _ hp.1 he
    exact ⟨h1, fun j q' hj => (hp.2 j q' hj).stable (h2 j)⟩
  | @restart s hr => exact ⟨hk.restart _ _ hp.1 hr, fun j q' hj => by cases hj⟩

/-- Every run from a state that keeps the invariant keeps it, and all programs stay safe. -/
theorem holds {c : Contract ι σ} (hk : S.Keeps c) {s : σ} (h0 : c.inv s)
    {p : Pool ι σ Op Res} (hr : S.Reaches (idle s) p) : S.Holds c p := by
  induction hr with
  | refl => exact ⟨h0, fun j q hj => by cases hj⟩
  | tail _ hs ih => exact Holds.step S hk ih hs

theorem invariant {c : Contract ι σ} (hk : S.Keeps c) {s : σ} (h0 : c.inv s)
    {p : Pool ι σ Op Res} (hr : S.Reaches (idle s) p) : c.inv p.state := (S.holds hk h0 hr).1

/-! ## A system that records more -/

/-- Each part of `S` is one of `T`, without what only `S` records. -/
structure Records {τ : Type} (S : Threaded ι σ Op Res) (T : Threaded ι τ Op Res) (f : σ → τ) :
    Prop where
  call : ∀ i op s r s', S.call i op s r s' → T.call i op (f s) r (f s')
  start : ∀ i s p, S.start i s p → T.start i (f s) p
  drop : ∀ i s s', S.drop i s s' → T.drop i (f s) (f s')
  env : ∀ s s', S.env s s' → T.env (f s) (f s')
  restart : ∀ s s', S.restart s s' → T.restart (f s) (f s')

section Records

variable {S} {τ : Type} {T : Threaded ι τ Op Res} {f : σ → τ}

theorem Records.step (h : Records S T f) {p p' : Pool ι σ Op Res} (hs : S.Step p p') :
    T.Step ⟨f p.state, p.threads⟩ ⟨f p'.state, p'.threads⟩ := by
  cases hs with
  | start hnone hst => exact Step.start hnone (h.start _ _ _ hst)
  | call hi hc => exact Step.call hi (h.call _ _ _ _ _ hc)
  | finish hi => exact Step.finish hi
  | drop hi hd => exact Step.drop hi (h.drop _ _ _ hd)
  | env he => exact Step.env (h.env _ _ he)
  | restart hr => exact Step.restart (h.restart _ _ hr)

theorem Records.reaches (h : Records S T f) {p p' : Pool ι σ Op Res} (hr : S.Reaches p p') :
    T.Reaches ⟨f p.state, p.threads⟩ ⟨f p'.state, p'.threads⟩ := by
  induction hr with
  | refl => exact Relation.ReflTransGen.refl
  | tail _ hs ih => exact ih.tail (h.step hs)

/-- What is recorded keeps `I`, where each call and each drop keeps it, given what the
contract of `T` says of it. -/
theorem Records.invariant (h : Records S T f) {c : Contract ι τ} (hk : T.Keeps c) {I : σ → Prop}
    {s : σ} (h0 : c.inv (f s)) (hI : I s)
    (hcall : ∀ i op s r s', I s → c.inv (f s) → S.call i op s r s' → c.give i (f s) (f s') → I s')
    (hdrop : ∀ i s s', I s → c.inv (f s) → S.drop i s s' → c.give i (f s) (f s') → I s')
    (henv : ∀ s s', I s → S.env s s' → I s') (hrestart : ∀ s s', I s → S.restart s s' → I s')
    {p : Pool ι σ Op Res} (hr : S.Reaches (idle s) p) : I p.state := by
  induction hr with
  | refl => exact hI
  | @tail p p' hp hs ih =>
    have hholds : T.Holds c ⟨f p.state, p.threads⟩ := T.holds hk h0 (h.reaches hp)
    cases hs with
    | start _ _ => exact ih
    | call hi hc =>
      have hT := h.call _ _ _ _ _ hc
      obtain ⟨-, hgive, -⟩ := hholds.2 _ _ hi _ (c.refl _ _) hholds.1 _ _ hT
      exact hcall _ _ _ _ _ ih hholds.1 hc hgive
    | finish _ => exact ih
    | drop _ hd =>
      have hgive := (hk.drop _ _ _ hholds.1 (h.drop _ _ _ hd)).2
      exact hdrop _ _ _ ih hholds.1 hd hgive
    | env he => exact henv _ _ ih he
    | restart hr' => exact hrestart _ _ ih hr'

end Records

end Threaded

/-! ## Programs that are all under way -/

/-- The shared state, and what is left of each program. -/
structure Crew (ι σ : Type) (Op : Type) (Res : Op → Type) (α : Type) where
  state : σ
  left : ι → Prog Op Res α

namespace Crew

variable [DecidableEq ι] {h : ι → (op : Op) → σ → Res op → σ → Prop}

/-- One of them makes its next call. -/
inductive Step (h : ι → (op : Op) → σ → Res op → σ → Prop) :
    Crew ι σ Op Res α → Crew ι σ Op Res α → Prop
  | call {p : Crew ι σ Op Res α} {i : ι} {op : Op} {k : Res op → Prog Op Res α} {r : Res op}
      {s : σ} :
      p.left i = .call op k → h i op p.state r s → Step h p ⟨s, Function.update p.left i (k r)⟩

/-- Their calls interleaved in any order. -/
def Reaches (h : ι → (op : Op) → σ → Res op → σ → Prop) :
    Crew ι σ Op Res α → Crew ι σ Op Res α → Prop := Relation.ReflTransGen (Step h)

/-- Every program is through. -/
def Ended (p : Crew ι σ Op Res α) : Prop := ∀ i, ∃ a, p.left i = .done a

/-- The invariant holds, and every program is safe and ends in `Q`. -/
structure Holds (c : Contract ι σ) (h : ι → (op : Op) → σ → Res op → σ → Prop)
    (Q : ι → α → σ → Prop) (p : Crew ι σ Op Res α) : Prop where
  inv : c.inv p.state
  safe : ∀ i, Safe c h i (Q i) (p.left i) p.state

theorem Holds.step {c : Contract ι σ} {Q : ι → α → σ → Prop} {p p' : Crew ι σ Op Res α}
    (hQ : ∀ i a s s', c.rely i s s' → Q i a s → Q i a s') (hp : Holds c h Q p)
    (hs : Step h p p') : Holds c h Q p' := by
  cases hs with
  | @call i op k r s hi hc =>
    have hsafe := hp.safe i
    rw [hi] at hsafe
    obtain ⟨h1, h2, h3⟩ := hsafe p.state (c.refl i _) hp.inv r s hc
    refine ⟨h1, ?_⟩
    intro j
    by_cases hij : i = j
    · subst hij
      simp only [Function.update_self]
      exact h3
    · simp only [Function.update_of_ne (Ne.symm hij)]
      have hrely := c.frame i j _ _ hij h2
      exact (hp.safe j).stable_of hrely (fun a => hQ j a _ _ hrely)

/-- Every interleaving keeps it. -/
theorem Holds.reaches {c : Contract ι σ} {Q : ι → α → σ → Prop} {p p' : Crew ι σ Op Res α}
    (hQ : ∀ i a s s', c.rely i s s' → Q i a s → Q i a s') (hp : Holds c h Q p)
    (hr : Reaches h p p') : Holds c h Q p' := by
  induction hr with
  | refl => exact hp
  | tail _ hs ih => exact ih.step hQ hs

/-- A world that records more can follow each run. -/
theorem Reaches.recorded {τ : Type} {h' : ι → (op : Op) → τ → Res op → τ → Prop} {f : τ → σ}
    (hf : ∀ i op t r s', h i op (f t) r s' → ∃ t', f t' = s' ∧ h' i op t r t')
    {left : ι → Prog Op Res α} {t : τ} {p' : Crew ι σ Op Res α}
    (hr : Reaches h ⟨f t, left⟩ p') :
    ∃ t', f t' = p'.state ∧ Reaches h' ⟨t, left⟩ ⟨t', p'.left⟩ := by
  induction hr with
  | refl => exact ⟨t, rfl, Relation.ReflTransGen.refl⟩
  | @tail p₁ p₂ _ hs ih =>
    obtain ⟨t₁, ht₁, hr₁⟩ := ih
    cases hs with
    | @call i op k r s hi hc =>
      rw [← ht₁] at hc
      obtain ⟨t₂, ht₂, hc'⟩ := hf i op t₁ r s hc
      exact ⟨t₂, ht₂, hr₁.tail (Step.call hi hc')⟩

/-- One program makes its next call. -/
theorem Reaches.call {p₀ : Crew ι σ Op Res α} {s s' : σ} {left : ι → Prog Op Res α} {i : ι}
    {op : Op} {k : Res op → Prog Op Res α} {r : Res op} (hr : Reaches h p₀ ⟨s, left⟩)
    (hi : left i = .call op k)
    (hc : h i op s r s') : Reaches h p₀ ⟨s', Function.update left i (k r)⟩ :=
  hr.tail (Step.call (p := ⟨s, left⟩) hi hc)

/-- One program takes all the calls of its next part. -/
theorem Reaches.part {f : (op : Op) → σ → Res op × σ}
    (hf : ∀ i op s, h i op s (f op s).1 (f op s).2) {p₀ : Crew ι σ Op Res α} {s : σ}
    {left : ι → Prog Op Res α} (i : ι) (q : Prog Op Res β) (g : β → Prog Op Res α)
    (hi : left i = q.bind g) (hr : Reaches h p₀ ⟨s, left⟩) :
    Reaches h p₀ ⟨(q.run f s).2, Function.update left i (g (q.run f s).1)⟩ := by
  induction q generalizing s left with
  | done b =>
    have hleft : Function.update left i (g b) = left := by
      rw [Function.update_eq_self_iff]
      exact hi.symm
    simp only [Prog.run_done]
    rw [hleft]
    exact hr
  | call op k ih =>
    have hstep := hr.call hi (hf i op s)
    have hrest := ih (f op s).1 (s := (f op s).2) (Function.update_self i _ left) hstep
    rw [Function.update_idem] at hrest
    exact hrest

end Crew
