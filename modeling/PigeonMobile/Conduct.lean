-- Programs that keep to a rule: each call is allowed, given what the calls before it answered. The
-- rule names no state, so that it is checked on the program alone, and gives safety among other
-- programs.
import PigeonMobile.Threads

variable {Op : Type} {Res : Op → Type} {ι σ α β ε : Type}

namespace Prog

/-- Each call is one of `P`, for every answer that `A` allows. -/
def Follows (A : (op : Op) → Res op → Prop) (P : Op → Prop) : Prog Op Res α → Prop
  | .done _ => True
  | .call op k => P op ∧ ∀ r, A op r → Follows A P (k r)

variable {A : (op : Op) → Res op → Prop} {P : Op → Prop}

theorem Follows.bind {p : Prog Op Res α} {f : α → Prog Op Res β} (hp : p.Follows A P)
    (hf : ∀ a, (f a).Follows A P) : (p.bind f).Follows A P := by
  induction p with
  | done a => exact hf a
  | call op k ih => exact ⟨hp.1, fun r hr => ih r (hp.2 r hr)⟩

theorem Follows.andThen {p : Prog Op Res (Except ε α)} {f : α → Prog Op Res (Except ε β)}
    (hp : p.Follows A P) (hf : ∀ a, (f a).Follows A P) : (p.andThen f).Follows A P := by
  apply hp.bind
  intro r
  cases r with
  | error e => trivial
  | ok a => exact hf a

/-- A program whose calls are all allowed, whatever is answered. -/
theorem All.follows {p : Prog Op Res α} (hp : p.All P) : p.Follows A P := by
  induction p with
  | done a => trivial
  | call op k ih => exact ⟨hp.1, fun r _ => ih r (hp.2 r)⟩

theorem Follows.forget {p : Prog Op Res α} (hp : p.Follows A P) : p.forget.Follows A P :=
  hp.bind (fun _ => trivial)

end Prog

/-- A program that follows the rule is safe, where each allowed call is, and keeps what the others
keep. -/
theorem Safe.of_follows {c : Contract ι σ} {h : ι → (op : Op) → σ → Res op → σ → Prop} {i : ι}
    {A : (op : Op) → Res op → Prop} {P : Op → Prop} {Q : σ → Prop}
    (hcall : ∀ op s r s', P op → c.inv s → h i op s r s' → A op r ∧ c.inv s' ∧ c.give i s s')
    (hrely : ∀ s s', c.rely i s s' → Q s → Q s') (hgive : ∀ s s', c.give i s s' → Q s → Q s')
    {p : Prog Op Res α} (hp : p.Follows A P) {s : σ} (hs : Q s) :
    Safe c h i (fun _ s' => Q s') p s := by
  induction p generalizing s with
  | done a => exact hs
  | call op k ih =>
    intro s₁ hr hinv r s₂ hc
    obtain ⟨ha, hinv₂, hg⟩ := hcall op s₁ r s₂ hp.1 hinv hc
    exact ⟨hinv₂, hg, ih r (hp.2 r ha) (hgive s₁ s₂ hg (hrely s s₁ hr hs))⟩

/-- The `?` of Rust, among other programs. -/
theorem Safe.andThen {c : Contract ι σ} {h : ι → (op : Op) → σ → Res op → σ → Prop} {i : ι}
    {p : Prog Op Res (Except ε α)} {f : α → Prog Op Res (Except ε β)} {R : α → σ → Prop}
    {Q : Except ε β → σ → Prop} {s : σ}
    (hp : Safe c h i (fun r s' => ∀ a, r = .ok a → R a s') p s)
    (herror : ∀ e s', Q (.error e) s') (hf : ∀ a s', R a s' → Safe c h i Q (f a) s') :
    Safe c h i Q (p.andThen f) s := by
  apply Safe.bind
  refine hp.mono ?_
  intro r s' hr
  cases r with
  | error e => exact herror e s'
  | ok a => exact hf a s' (hr a rfl)

namespace Threaded

variable [DecidableEq ι] {S : Threaded ι σ Op Res} {A : (op : Op) → Res op → Prop} {P : Op → Prop}
  {I : σ → Prop}

/-- The invariant holds, and each program under way keeps to the rule. -/
structure Conducts (A : (op : Op) → Res op → Prop) (P : Op → Prop) (I : σ → Prop)
    (p : Pool ι σ Op Res) : Prop where
  inv : I p.state
  follows : ∀ i q, p.threads i = some q → q.Follows A P

theorem Conducts.update {p : Pool ι σ Op Res} {s : σ} {i : ι} {q : Option (Prog Op Res Unit)}
    (hp : Conducts A P I p) (hs : I s) (hq : ∀ q', q = some q' → q'.Follows A P) :
    Conducts A P I ⟨s, Function.update p.threads i q⟩ := by
  refine ⟨hs, ?_⟩
  intro j q' hj
  by_cases hij : j = i
  · subst hij
    simp only [Function.update_self] at hj
    exact hq q' hj
  · simp only [Function.update_of_ne hij] at hj
    exact hp.follows j q' hj

/-- Where each program that starts keeps to a rule, and each call that it allows keeps the invariant
and is answered as it says, every state has the invariant, and every call to come is allowed. -/
theorem conduct (hstart : ∀ i s p, S.start i s p → p.Follows A P)
    (hcall : ∀ i op s r s', P op → I s → S.call i op s r s' → A op r ∧ I s')
    (hdrop : ∀ i s s', I s → S.drop i s s' → I s') (henv : ∀ s s', I s → S.env s s' → I s')
    (hrestart : ∀ s s', I s → S.restart s s' → I s') {s : σ} (hs : I s) {p : Pool ι σ Op Res}
    (hr : S.Reaches (idle s) p) : Conducts A P I p := by
  induction hr with
  | refl => exact ⟨hs, fun i q hi => nomatch hi⟩
  | tail _ hstep ih =>
    cases hstep with
    | start _ hst => exact ih.update ih.inv (fun q' hq' => Option.some.inj hq' ▸ hstart _ _ _ hst)
    | call hi hc =>
      have hnext := ih.follows _ _ hi
      obtain ⟨hr, hs'⟩ := hcall _ _ _ _ _ hnext.1 ih.inv hc
      exact ih.update hs' (fun q' hq' => Option.some.inj hq' ▸ hnext.2 _ hr)
    | finish _ => exact ih.update ih.inv (fun q' hq' => nomatch hq')
    | drop _ hd => exact ih.update (hdrop _ _ _ ih.inv hd) (fun q' hq' => nomatch hq')
    | env he => exact ⟨henv _ _ ih.inv he, ih.follows⟩
    | restart hr' => exact ⟨hrestart _ _ ih.inv hr', fun i q hi => nomatch hi⟩

end Threaded
