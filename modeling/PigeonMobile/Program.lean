-- Programs that call on a world they share with others. A program is a tree: it
-- ends, or it makes one call and goes on with the answer. What the calls do is
-- given apart from the programs, so one program is read alone, cut off after any
-- call, or interleaved with others (`Threads.lean`).
import Mathlib.Logic.Relation

/-- A program that makes calls `op`, each answered by a `Res op`, and gives an `α`. -/
inductive Prog (Op : Type) (Res : Op → Type) (α : Type) : Type
  | done (a : α) : Prog Op Res α
  | call (op : Op) (k : Res op → Prog Op Res α) : Prog Op Res α

namespace Prog

variable {Op : Type} {Res : Op → Type} {α β γ σ ε : Type}

/-! ## Programs in sequence -/

/-- One program after another. -/
def bind : Prog Op Res α → (α → Prog Op Res β) → Prog Op Res β
  | .done a, f => f a
  | .call op k, f => .call op (fun r => (k r).bind f)

/-- The `?` of Rust: an error ends the program, a value goes on. -/
def andThen (p : Prog Op Res (Except ε α)) (f : α → Prog Op Res (Except ε β)) :
    Prog Op Res (Except ε β) :=
  p.bind (fun
    | .error e => .done (.error e)
    | .ok a => f a)

/-- The program with its value forgotten. -/
def forget (p : Prog Op Res α) : Prog Op Res Unit := p.bind (fun _ => .done ())

@[simp] theorem bind_done (a : α) (f : α → Prog Op Res β) :
    (Prog.done a : Prog Op Res α).bind f = f a := rfl

@[simp] theorem bind_call (op : Op) (k : Res op → Prog Op Res α) (f : α → Prog Op Res β) :
    (Prog.call op k).bind f = .call op (fun r => (k r).bind f) := rfl

theorem bind_assoc (p : Prog Op Res α) (f : α → Prog Op Res β) (g : β → Prog Op Res γ) :
    (p.bind f).bind g = p.bind (fun a => (f a).bind g) := by
  induction p with
  | done a => rfl
  | call op k ih =>
    simp only [bind_call]
    congr 1
    funext r
    exact ih r

/-! ## Programs that may be dropped -/

/-- The program as a future that may be dropped while it waits for an answer: no answer
ends it there. -/
def droppable : Prog Op Res α → Prog Op (fun op => Option (Res op)) (Option α)
  | .done a => .done (some a)
  | .call op k => .call op (fun r => r.elim (.done none) (fun r => (k r).droppable))

/-- A future that was dropped in its first part never comes to the second. -/
theorem droppable_bind (p : Prog Op Res α) (f : α → Prog Op Res β) :
    (p.bind f).droppable = p.droppable.bind (fun o =>
      o.elim (.done none) (fun a => (f a).droppable)) := by
  induction p with
  | done a => rfl
  | call op k ih =>
    simp only [bind_call, droppable]
    congr 1
    funext r
    cases r with
    | none => rfl
    | some r => exact ih r

/-! ## A world that answers each call in one way -/

/-- The value and the last state, where `f` answers every call. -/
def run (f : (op : Op) → σ → Res op × σ) : Prog Op Res α → σ → α × σ
  | .done a, s => (a, s)
  | .call op k, s => (k (f op s).1).run f (f op s).2

/-- The state after at most `n` calls, and what is left of the program: the
process is killed there. -/
def cut (f : (op : Op) → σ → Res op × σ) : Nat → Prog Op Res α → σ → Prog Op Res α × σ
  | 0, p, s => (p, s)
  | _ + 1, .done a, s => (.done a, s)
  | n + 1, .call op k, s => cut f n (k (f op s).1) (f op s).2

@[simp] theorem run_done (f : (op : Op) → σ → Res op × σ) (a : α) (s : σ) :
    (Prog.done a : Prog Op Res α).run f s = (a, s) := rfl

theorem run_call (f : (op : Op) → σ → Res op × σ) (op : Op) (k : Res op → Prog Op Res α) (s : σ) :
    (Prog.call op k).run f s = (k (f op s).1).run f (f op s).2 := rfl

theorem run_bind (f : (op : Op) → σ → Res op × σ) (p : Prog Op Res α) (g : α → Prog Op Res β)
    (s : σ) : (p.bind g).run f s = (g (p.run f s).1).run f (p.run f s).2 := by
  induction p generalizing s with
  | done a => rfl
  | call op k ih => simp only [bind_call, run_call, ih]

theorem run_andThen_ok {f : (op : Op) → σ → Res op × σ} {p : Prog Op Res (Except ε α)}
    {g : α → Prog Op Res (Except ε β)} {s s' : σ} {a : α} (h : p.run f s = (.ok a, s')) :
    (p.andThen g).run f s = (g a).run f s' := by
  unfold andThen
  rw [run_bind, h]

theorem run_andThen_error {f : (op : Op) → σ → Res op × σ} {p : Prog Op Res (Except ε α)}
    {g : α → Prog Op Res (Except ε β)} {s s' : σ} {e : ε} (h : p.run f s = (.error e, s')) :
    (p.andThen g).run f s = (.error e, s') := by
  unfold andThen
  rw [run_bind, h]
  rfl

@[simp] theorem cut_done (f : (op : Op) → σ → Res op × σ) (n : Nat) (a : α) (s : σ) :
    cut f n (Prog.done a : Prog Op Res α) s = (.done a, s) := by
  cases n <;> rfl

theorem cut_call (f : (op : Op) → σ → Res op × σ) (n : Nat) (op : Op) (k : Res op → Prog Op Res α)
    (s : σ) : cut f (n + 1) (.call op k) s = cut f n (k (f op s).1) (f op s).2 := rfl

/-- Two programs in sequence are cut inside the first, or somewhere in the second. -/
theorem cut_andThen (f : (op : Op) → σ → Res op × σ) (n : Nat) (p : Prog Op Res (Except ε α))
    (g : α → Prog Op Res (Except ε β)) (s : σ) :
    (∃ op k, (cut f n p s).1 = .call op k ∧
      cut f n (p.andThen g) s = (.call op (fun r => (k r).andThen g), (cut f n p s).2)) ∨
    (∃ e, (p.run f s).1 = .error e ∧ cut f n (p.andThen g) s = (.done (.error e), (p.run f s).2)) ∨
    ∃ a m, (p.run f s).1 = .ok a ∧ cut f n (p.andThen g) s = cut f m (g a) (p.run f s).2 := by
  induction p generalizing n s with
  | done r =>
    cases r with
    | error e => exact Or.inr (Or.inl ⟨e, rfl, cut_done f n _ s⟩)
    | ok a => exact Or.inr (Or.inr ⟨a, n, rfl, rfl⟩)
  | call op k ih =>
    cases n with
    | zero => exact Or.inl ⟨op, k, rfl, rfl⟩
    | succ n => exact ih (f op s).1 n (f op s).2

/-! ## A world that may answer a call in several ways -/

/-- One call that was answered: the state before it, the call and its answer. -/
structure Event (σ : Type) (Op : Type) (Res : Op → Type) where
  before : σ
  op : Op
  answer : Res op

/-- `Runs h others p s es p' s'`: from `s`, the program `p` makes the calls `es`
and is left as `p'` in `s'`. Between its calls the others may change the state. -/
inductive Runs (h : (op : Op) → σ → Res op → σ → Prop) (others : σ → σ → Prop) :
    Prog Op Res α → σ → List (Event σ Op Res) → Prog Op Res α → σ → Prop
  | refl (p : Prog Op Res α) (s : σ) : Runs h others p s [] p s
  | call {op : Op} {k : Res op → Prog Op Res α} {s s₁ s₂ s' : σ} {r : Res op}
      {es : List (Event σ Op Res)} {p' : Prog Op Res α} :
      h op s r s₁ → others s₁ s₂ → Runs h others (k r) s₂ es p' s' →
      Runs h others (.call op k) s (⟨s, op, r⟩ :: es) p' s'

theorem Runs.done_inv {h : (op : Op) → σ → Res op → σ → Prop} {others : σ → σ → Prop} {a : α}
    {s s' : σ} {es : List (Event σ Op Res)} {p' : Prog Op Res α}
    (hr : Runs h others (.done a) s es p' s') : es = [] ∧ p' = .done a ∧ s' = s := by
  cases hr
  exact ⟨rfl, rfl, rfl⟩

theorem Runs.call_inv {h : (op : Op) → σ → Res op → σ → Prop} {others : σ → σ → Prop} {op : Op}
    {k : Res op → Prog Op Res α} {s s' : σ} {es : List (Event σ Op Res)} {p' : Prog Op Res α}
    (hr : Runs h others (.call op k) s es p' s') :
    (es = [] ∧ p' = .call op k ∧ s' = s) ∨
      ∃ r s₁ s₂ es', h op s r s₁ ∧ others s₁ s₂ ∧ es = ⟨s, op, r⟩ :: es' ∧
        Runs h others (k r) s₂ es' p' s' := by
  cases hr with
  | refl => exact Or.inl ⟨rfl, rfl, rfl⟩
  | call h1 h2 h3 => exact Or.inr ⟨_, _, _, _, h1, h2, rfl, h3⟩

/-- The calls of a program are calls of the program that goes on after it. -/
theorem Runs.bind {h : (op : Op) → σ → Res op → σ → Prop} {others : σ → σ → Prop}
    {p p' : Prog Op Res α} {s s' : σ} {es : List (Event σ Op Res)} (f : α → Prog Op Res β)
    (hr : Runs h others p s es p' s') : Runs h others (p.bind f) s es (p'.bind f) s' := by
  induction hr with
  | refl p s => exact Runs.refl _ _
  | call hc ho _ ih => exact Runs.call hc ho ih

/-- What is left of a program runs on. -/
theorem Runs.trans {h : (op : Op) → σ → Res op → σ → Prop} {others : σ → σ → Prop}
    {p p' p'' : Prog Op Res α} {s s' s'' : σ} {es es' : List (Event σ Op Res)}
    (hr : Runs h others p s es p' s') (hr' : Runs h others p' s' es' p'' s'') :
    Runs h others p s (es ++ es') p'' s'' := by
  induction hr with
  | refl p s => exact hr'
  | call hc ho _ ih => exact Runs.call hc ho (ih hr')

/-- What the others may do in one world they may do in a wider one. -/
theorem Runs.mono {h : (op : Op) → σ → Res op → σ → Prop} {others others' : σ → σ → Prop}
    (hmono : ∀ s s', others s s' → others' s s') {p p' : Prog Op Res α} {s s' : σ}
    {es : List (Event σ Op Res)} (hr : Runs h others p s es p' s') :
    Runs h others' p s es p' s' := by
  induction hr with
  | refl p s => exact Runs.refl p s
  | call hc ho _ ih => exact Runs.call hc (hmono _ _ ho) ih

/-- A run of two programs in sequence ends at a call of the first, or goes through it. -/
theorem Runs.bind_inv {h : (op : Op) → σ → Res op → σ → Prop} {others : σ → σ → Prop}
    {p : Prog Op Res α} {f : α → Prog Op Res β} {s s' : σ} {es : List (Event σ Op Res)}
    {p' : Prog Op Res β} (hr : Runs h others (p.bind f) s es p' s') :
    (∃ op k, Runs h others p s es (.call op k) s' ∧ p' = .call op (fun r => (k r).bind f)) ∨
      ∃ a es₁ es₂ s₁, es = es₁ ++ es₂ ∧ Runs h others p s es₁ (.done a) s₁ ∧
        Runs h others (f a) s₁ es₂ p' s' := by
  induction p generalizing s es with
  | done a => exact Or.inr ⟨a, [], es, s, rfl, Runs.refl _ _, hr⟩
  | call op k ih =>
    rw [bind_call] at hr
    rcases hr.call_inv with ⟨rfl, rfl, rfl⟩ | ⟨r, s₁, s₂, es', hc, ho, rfl, hr'⟩
    · exact Or.inl ⟨op, k, Runs.refl _ _, rfl⟩
    · rcases ih r hr' with ⟨op', k', hk, rfl⟩ | ⟨a, es₁, es₂, s₃, rfl, h1, h2⟩
      · exact Or.inl ⟨op', k', Runs.call hc ho hk, rfl⟩
      · exact Or.inr ⟨a, _ :: es₁, es₂, s₃, rfl, Runs.call hc ho h1, h2⟩

/-- The calls of a program, where `f` answers every call. -/
def trace (f : (op : Op) → σ → Res op × σ) : Prog Op Res α → σ → List (Event σ Op Res)
  | .done _, _ => []
  | .call op k, s => ⟨s, op, (f op s).1⟩ :: trace f (k (f op s).1) (f op s).2

/-- A run where `f` answers every call, with what the others do after it. -/
theorem runs_among {h : (op : Op) → σ → Res op → σ → Prop} {others : σ → σ → Prop}
    {f : (op : Op) → σ → Res op × σ}
    (hf : ∀ op s, ∃ s₁, h op s (f op s).1 s₁ ∧ others s₁ (f op s).2) (p : Prog Op Res α) (s : σ) :
    Runs h others p s (p.trace f s) (.done (p.run f s).1) (p.run f s).2 := by
  induction p generalizing s with
  | done a => exact Runs.refl _ _
  | call op k ih =>
    obtain ⟨s₁, hc, ho⟩ := hf op s
    exact Runs.call hc ho (ih _ _)

theorem runs_trace {h : (op : Op) → σ → Res op → σ → Prop} {f : (op : Op) → σ → Res op × σ}
    (hf : ∀ op s, h op s (f op s).1 (f op s).2) (p : Prog Op Res α) (s : σ) :
    Runs h Eq p s (p.trace f s) (.done (p.run f s).1) (p.run f s).2 :=
  runs_among (fun op s => ⟨_, hf op s, rfl⟩) p s

/-- The first `n` of them. -/
def traceTo (f : (op : Op) → σ → Res op × σ) : Nat → Prog Op Res α → σ → List (Event σ Op Res)
  | 0, _, _ => []
  | _ + 1, .done _, _ => []
  | n + 1, .call op k, s => ⟨s, op, (f op s).1⟩ :: traceTo f n (k (f op s).1) (f op s).2

theorem runs_cut {h : (op : Op) → σ → Res op → σ → Prop} {others : σ → σ → Prop}
    {f : (op : Op) → σ → Res op × σ} (hf : ∀ op s, h op s (f op s).1 (f op s).2)
    (ho : ∀ s, others s s) (n : Nat) (p : Prog Op Res α) (s : σ) :
    Runs h others p s (traceTo f n p s) (cut f n p s).1 (cut f n p s).2 := by
  induction n generalizing p s with
  | zero => exact Runs.refl _ _
  | succ n ih =>
    cases p with
    | done a => exact Runs.refl _ _
    | call op k => exact Runs.call (hf op s) (ho _) (ih _ _)

/-- Each call that the program can make, whatever is answered, is one of `P`. -/
def All (P : Op → Prop) : Prog Op Res α → Prop
  | .done _ => True
  | .call op k => P op ∧ ∀ r, All P (k r)

theorem All.bind {P : Op → Prop} {p : Prog Op Res α} {f : α → Prog Op Res β} (hp : All P p)
    (hf : ∀ a, All P (f a)) : All P (p.bind f) := by
  induction p with
  | done a => exact hf a
  | call op k ih => exact ⟨hp.1, fun r => ih r (hp.2 r)⟩

theorem All.mono {P Q : Op → Prop} {p : Prog Op Res α} (hPQ : ∀ op, P op → Q op) (hp : All P p) :
    All Q p := by
  induction p with
  | done a => trivial
  | call op k ih => exact ⟨hPQ op hp.1, fun r => ih r (hp.2 r)⟩

/-- The `?` of Rust makes no call of its own. -/
theorem All.andThen {P : Op → Prop} {p : Prog Op Res (Except ε α)}
    {f : α → Prog Op Res (Except ε β)} (hp : All P p) (hf : ∀ a, All P (f a)) :
    All P (p.andThen f) := by
  apply All.bind hp
  intro r
  cases r with
  | error e => trivial
  | ok a => exact hf a

/-- Each value that the program can end with is one of `R`. -/
def Ends (h : (op : Op) → σ → Res op → σ → Prop) (R : α → Prop) : Prog Op Res α → Prop
  | .done a => R a
  | .call op k => ∀ s r s', h op s r s' → Ends h R (k r)

theorem Ends.bind {h : (op : Op) → σ → Res op → σ → Prop} {R : β → Prop} {p : Prog Op Res α}
    {f : α → Prog Op Res β} (hp : Ends h (fun a => Ends h R (f a)) p) : Ends h R (p.bind f) := by
  induction p with
  | done a => exact hp
  | call op k ih => exact fun s r s' hc => ih r (hp s r s' hc)

theorem Ends.mono {h : (op : Op) → σ → Res op → σ → Prop} {R R' : α → Prop} {p : Prog Op Res α}
    (hR : ∀ a, R a → R' a) (hp : Ends h R p) : Ends h R' p := by
  induction p with
  | done a => exact hR a hp
  | call op k ih => exact fun s r s' hc => ih r (hp s r s' hc)

theorem Runs.all {P : Op → Prop} {h : (op : Op) → σ → Res op → σ → Prop} {others : σ → σ → Prop}
    {p p' : Prog Op Res α} {s s' : σ} {es : List (Event σ Op Res)}
    (hr : Runs h others p s es p' s') (hp : All P p) : (∀ e ∈ es, P e.op) ∧ All P p' := by
  induction hr with
  | refl p s => exact ⟨fun e he => absurd he List.not_mem_nil, hp⟩
  | @call op k s s₁ s₂ s' r es p' _ _ _ ih =>
    obtain ⟨h1, h2⟩ := ih (hp.2 r)
    refine ⟨?_, h2⟩
    intro e he
    rcases List.mem_cons.mp he with rfl | he
    · exact hp.1
    · exact h1 e he

/-- A run that makes a call which the first of two programs never makes is through with it. -/
theorem Runs.through {P : Op → Prop} {h : (op : Op) → σ → Res op → σ → Prop}
    {others : σ → σ → Prop} {p : Prog Op Res α} {f : α → Prog Op Res β} {s s' : σ}
    {es : List (Event σ Op Res)} {p' : Prog Op Res β} (hr : Runs h others (p.bind f) s es p' s')
    (hp : All (fun op => ¬ P op) p) {e : Event σ Op Res} (he : e ∈ es) (hP : P e.op) :
    ∃ a es₁ es₂ s₁, es = es₁ ++ es₂ ∧ Runs h others p s es₁ (.done a) s₁ ∧
      Runs h others (f a) s₁ es₂ p' s' ∧ e ∈ es₂ := by
  rcases hr.bind_inv with ⟨op, k, hcut, _⟩ | ⟨a, es₁, es₂, s₁, rfl, h1, h2⟩
  · exact absurd hP ((hcut.all hp).1 e he)
  · refine ⟨a, es₁, es₂, s₁, rfl, h1, h2, ?_⟩
    rcases List.mem_append.mp he with he | he
    · exact absurd hP ((h1.all hp).1 e he)
    · exact he

theorem Runs.through_andThen {P : Op → Prop} {h : (op : Op) → σ → Res op → σ → Prop}
    {others : σ → σ → Prop} {p : Prog Op Res (Except ε α)} {f : α → Prog Op Res (Except ε β)}
    {s s' : σ} {es : List (Event σ Op Res)} {p' : Prog Op Res (Except ε β)}
    (hr : Runs h others (p.andThen f) s es p' s')
    (hp : All (fun op => ¬ P op) p) {e : Event σ Op Res} (he : e ∈ es) (hP : P e.op) :
    ∃ a es₁ es₂ s₁, es = es₁ ++ es₂ ∧ Runs h others p s es₁ (.done (.ok a)) s₁ ∧
      Runs h others (f a) s₁ es₂ p' s' ∧ e ∈ es₂ := by
  obtain ⟨r, es₁, es₂, s₁, rfl, h1, h2, he₂⟩ := hr.through hp he hP
  cases r with
  | error err =>
    rw [h2.done_inv.1] at he₂
    exact absurd he₂ List.not_mem_nil
  | ok a => exact ⟨a, es₁, es₂, s₁, rfl, h1, h2, he₂⟩

/-- Two worlds that answer the calls of a program alike run it alike. -/
theorem run_congr {f g : (op : Op) → σ → Res op × σ} {P : Op → Prop}
    (h : ∀ op s, P op → f op s = g op s) {p : Prog Op Res α} (hp : All P p) (s : σ) :
    p.run f s = p.run g s := by
  induction p generalizing s with
  | done a => rfl
  | call op k ih =>
    rw [run_call, run_call, h op s hp.1]
    exact ih _ (hp.2 _) _

/-! ## What holds of every call a program makes -/

/-- `P` holds of every call that `p` makes, with the calls before it (the newest
first), and `Q` of the calls and the value it ends with. -/
def Along (h : (op : Op) → σ → Res op → σ → Prop)
    (P : List (Event σ Op Res) → Event σ Op Res → Prop)
    (Q : List (Event σ Op Res) → α → Prop) : List (Event σ Op Res) → Prog Op Res α → Prop
  | past, .done a => Q past a
  | past, .call op k => ∀ s r s', h op s r s' →
      P past ⟨s, op, r⟩ ∧ Along h P Q (⟨s, op, r⟩ :: past) (k r)

theorem Along.bind {h : (op : Op) → σ → Res op → σ → Prop}
    {P : List (Event σ Op Res) → Event σ Op Res → Prop} {Q : List (Event σ Op Res) → β → Prop}
    {past : List (Event σ Op Res)} {p : Prog Op Res α} {f : α → Prog Op Res β}
    (hp : Along h P (fun past' a => Along h P Q past' (f a)) past p) :
    Along h P Q past (p.bind f) := by
  induction p generalizing past with
  | done a => exact hp
  | call op k ih =>
    intro s r s' hc
    obtain ⟨h1, h2⟩ := hp s r s' hc
    exact ⟨h1, ih r h2⟩

theorem Along.mono {h : (op : Op) → σ → Res op → σ → Prop}
    {P : List (Event σ Op Res) → Event σ Op Res → Prop} {Q Q' : List (Event σ Op Res) → α → Prop}
    {past : List (Event σ Op Res)} {p : Prog Op Res α} (hQ : ∀ past' a, Q past' a → Q' past' a)
    (hp : Along h P Q past p) : Along h P Q' past p := by
  induction p generalizing past with
  | done a => exact hQ past a hp
  | call op k ih =>
    intro s r s' hc
    obtain ⟨h1, h2⟩ := hp s r s' hc
    exact ⟨h1, ih r h2⟩

/-- It holds of every call of a run, whatever the others do between the calls. -/
theorem Runs.along {h : (op : Op) → σ → Res op → σ → Prop} {others : σ → σ → Prop}
    {P : List (Event σ Op Res) → Event σ Op Res → Prop} {Q : List (Event σ Op Res) → α → Prop}
    {past : List (Event σ Op Res)} {p p' : Prog Op Res α} {s s' : σ} {es : List (Event σ Op Res)}
    (hr : Runs h others p s es p' s') (hp : Along h P Q past p) {es₁ es₂ : List (Event σ Op Res)}
    {e : Event σ Op Res} (he : es = es₁ ++ e :: es₂) : P (es₁.reverse ++ past) e := by
  induction hr generalizing past es₁ with
  | refl => simp at he
  | @call op k s s₁ s₂ s' r es p' hc _ _ ih =>
    obtain ⟨h1, h2⟩ := hp s r s₁ hc
    cases es₁ with
    | nil =>
      simp only [List.nil_append, List.cons.injEq] at he
      rw [← he.1]
      exact h1
    | cons e₁ es₁ =>
      simp only [List.cons_append, List.cons.injEq] at he
      have h3 := ih h2 he.2
      rw [← he.1]
      simpa using h3

end Prog
