-- Things that are used once. A program spends only what it has been given, and the world hands a
-- thing out only when it gives it away itself. However many programs run at once, in any order and
-- cut off at any call, no thing is in two places.
import PigeonMobile.Conduct
import Mathlib.Algebra.Order.Group.Multiset
import Mathlib.Data.Multiset.UnionInter
import Mathlib.Tactic.Abel

variable {Op : Type} {Res : Op → Type} {ι σ ρ α β ε : Type}

/-- What a call takes from its program, and what its answer gives it. -/
structure Economy (Op : Type) (Res : Op → Type) (ρ : Type) where
  spends : Op → Multiset ρ
  gains : (op : Op) → Res op → Multiset ρ

/-- A call that deals in nothing. -/
def Economy.Free (E : Economy Op Res ρ) (op : Op) : Prop := E.spends op = 0 ∧ ∀ r, E.gains op r = 0

namespace Prog

/-- With `held` at hand, the program never spends what it does not have, and ends in `Q`. -/
def Affords (E : Economy Op Res ρ) (Q : α → Multiset ρ → Prop) : Prog Op Res α → Multiset ρ → Prop
  | .done a, held => Q a held
  | .call op k, held => ∃ rest, held = E.spends op + rest ∧
      ∀ r, Affords E Q (k r) (E.gains op r + rest)

variable {E : Economy Op Res ρ}

theorem Affords.bind {p : Prog Op Res α} {f : α → Prog Op Res β} {Q : β → Multiset ρ → Prop}
    {held : Multiset ρ} (hp : p.Affords E (fun a left => (f a).Affords E Q left) held) :
    (p.bind f).Affords E Q held := by
  induction p generalizing held with
  | done a => exact hp
  | call op k ih =>
    obtain ⟨rest, hheld, hrest⟩ := hp
    exact ⟨rest, hheld, fun r => ih r (hrest r)⟩

theorem Affords.mono {p : Prog Op Res α} {Q Q' : α → Multiset ρ → Prop} {held : Multiset ρ}
    (hQ : ∀ a left, Q a left → Q' a left) (hp : p.Affords E Q held) : p.Affords E Q' held := by
  induction p generalizing held with
  | done a => exact hQ a held hp
  | call op k ih =>
    obtain ⟨rest, hheld, hrest⟩ := hp
    exact ⟨rest, hheld, fun r => ih r (hrest r)⟩

/-- The `?` of Rust. -/
theorem Affords.andThen {p : Prog Op Res (Except ε α)} {f : α → Prog Op Res (Except ε β)}
    {R : α → Multiset ρ → Prop} {Q : Except ε β → Multiset ρ → Prop} {held : Multiset ρ}
    (hp : p.Affords E (fun r left => ∀ a, r = .ok a → R a left) held)
    (herror : ∀ e left, Q (.error e) left) (hf : ∀ a left, R a left → (f a).Affords E Q left) :
    (p.andThen f).Affords E Q held := by
  apply Affords.bind
  refine hp.mono ?_
  intro r left hr
  cases r with
  | error e => exact herror e left
  | ok a => exact hf a left (hr a rfl)

/-- A program whose calls deal in nothing keeps what it holds. -/
theorem Follows.affords {p : Prog Op Res α} (hp : p.Follows (fun _ _ => True) E.Free)
    (held : Multiset ρ) : p.Affords E (fun _ left => left = held) held := by
  induction p with
  | done a => rfl
  | call op k ih =>
    obtain ⟨⟨hspends, hgains⟩, hrest⟩ := hp
    refine ⟨held, by rw [hspends, zero_add], ?_⟩
    intro r
    rw [hgains r, zero_add]
    exact ih r (hrest r trivial)

end Prog

/-! ## What is where -/

/-- What is in the world and in the hands of each program: nothing is in two places, or twice in
one. -/
structure Single (made : Set ρ) (out : Multiset ρ) (hold : ι → Multiset ρ) : Prop where
  known : ∀ i, ∀ x ∈ out + hold i, x ∈ made
  nodup : ∀ i, (out + hold i).Nodup
  apart : ∀ i j, i ≠ j → Disjoint (hold i) (hold j)

/-- From one state of the world to the next: it takes what is spent and gives what is gained, and
what is new has never been before. -/
structure Moves (out : σ → Multiset ρ) (made : σ → Set ρ) (spent gained : Multiset ρ) (s s' : σ) :
    Prop where
  keeps : made s ⊆ made s'
  trade : ∃ fresh : Multiset ρ, fresh.Nodup ∧ (∀ x ∈ fresh, x ∉ made s ∧ x ∈ made s') ∧
    out s' + gained ≤ out s + spent + fresh

theorem Single.zero {made : Set ρ} {out : Multiset ρ} (hmade : ∀ x ∈ out, x ∈ made)
    (hout : out.Nodup) : Single made out (fun _ : ι => 0) := by
  refine ⟨fun i x hx => ?_, fun i => ?_, fun i j _ => ?_⟩
  · exact hmade x (by simpa using hx)
  · simpa using hout
  · exact Multiset.disjoint_left.mpr (fun hx => absurd hx (Multiset.notMem_zero _))

variable [DecidableEq ι]

/-- A program trades with the world. -/
theorem Single.trade {out : σ → Multiset ρ} {made : σ → Set ρ} {hold : ι → Multiset ρ} {s s' : σ}
    {spent gained rest : Multiset ρ} {i : ι} (h : Single (made s) (out s) hold)
    (hmoves : Moves out made spent gained s s') (hhold : hold i = spent + rest) :
    Single (made s') (out s') (Function.update hold i (gained + rest)) := by
  obtain ⟨hmade, fresh, hnodup, hfresh, hle⟩ := hmoves
  -- all that the world and the program have, before and after
  have hall : out s' + (gained + rest) ≤ out s + hold i + fresh := by
    calc out s' + (gained + rest) = out s' + gained + rest := (add_assoc _ _ _).symm
      _ ≤ out s + spent + fresh + rest := add_le_add_left hle rest
      _ = out s + hold i + fresh := by rw [hhold]; abel
  have hold_or_new : ∀ x ∈ out s' + (gained + rest), x ∈ out s + hold i ∨ x ∈ fresh := by
    intro x hx
    exact Multiset.mem_add.mp (Multiset.mem_of_le hall hx)
  have hnew : (out s + hold i + fresh).Nodup := by
    rw [Multiset.nodup_add]
    refine ⟨h.nodup i, hnodup, ?_⟩
    rw [Multiset.disjoint_left]
    intro x hx hf
    exact (hfresh x hf).1 (h.known i x hx)
  have hothers : ∀ j, j ≠ i → ∀ x ∈ hold j, x ∉ out s' + (gained + rest) := by
    intro j hj x hx hin
    have hold : x ∈ made s := h.known j x (Multiset.mem_add.mpr (Or.inr hx))
    rcases hold_or_new x hin with hin | hin
    · rcases Multiset.mem_add.mp hin with hin | hin
      · have hdisjoint := (Multiset.nodup_add.mp (h.nodup j)).2.2
        exact Multiset.disjoint_left.mp hdisjoint hin hx
      · exact Multiset.disjoint_left.mp (h.apart j i hj) hx hin
    · exact (hfresh x hin).1 hold
  have hown : (out s' + (gained + rest)).Nodup := Multiset.nodup_of_le hall hnew
  refine ⟨?_, ?_, ?_⟩
  · intro j x hx
    by_cases hj : j = i
    · subst hj
      rw [Function.update_self] at hx
      rcases hold_or_new x hx with hx | hx
      · exact hmade (h.known _ x hx)
      · exact (hfresh x hx).2
    · rw [Function.update_of_ne hj] at hx
      rcases Multiset.mem_add.mp hx with hx | hx
      · rcases hold_or_new x (Multiset.mem_add.mpr (Or.inl hx)) with hx | hx
        · exact hmade (h.known _ x hx)
        · exact (hfresh x hx).2
      · exact hmade (h.known j x (Multiset.mem_add.mpr (Or.inr hx)))
  · intro j
    by_cases hj : j = i
    · subst hj
      rwa [Function.update_self]
    · rw [Function.update_of_ne hj, Multiset.nodup_add]
      refine ⟨(Multiset.nodup_add.mp hown).1, (Multiset.nodup_add.mp (h.nodup j)).2.1, ?_⟩
      rw [Multiset.disjoint_left]
      intro x hx hin
      exact hothers j hj x hin (Multiset.mem_add.mpr (Or.inl hx))
  · intro j k hjk
    rw [Multiset.disjoint_left]
    intro x hx hin
    by_cases hj : j = i
    · subst hj
      rw [Function.update_self] at hx
      rw [Function.update_of_ne (Ne.symm hjk)] at hin
      exact hothers k (Ne.symm hjk) x hin (Multiset.mem_add.mpr (Or.inr hx))
    · rw [Function.update_of_ne hj] at hx
      by_cases hk : k = i
      · subst hk
        rw [Function.update_self] at hin
        exact hothers j hj x hx (Multiset.mem_add.mpr (Or.inr hin))
      · rw [Function.update_of_ne hk] at hin
        exact Multiset.disjoint_left.mp (h.apart j k hjk) hx hin

/-- The world moves by itself. -/
theorem Single.moves {out : σ → Multiset ρ} {made : σ → Set ρ} {hold : ι → Multiset ρ} {s s' : σ}
    [Nonempty ι] (h : Single (made s) (out s) hold) (hmoves : Moves out made 0 0 s s') :
    Single (made s') (out s') hold := by
  have i : ι := Classical.choice inferInstance
  have hsame := h.trade hmoves (zero_add (hold i)).symm
  rwa [zero_add, Function.update_eq_self] at hsame

/-- What a program held is lost. -/
theorem Single.lost {made : Set ρ} {out : Multiset ρ} {hold : ι → Multiset ρ}
    (h : Single made out hold) (i : ι) : Single made out (Function.update hold i 0) := by
  have hstay : Moves (fun _ : Unit => out) (fun _ => made) (hold i) 0 () () := by
    refine ⟨subset_rfl, 0, Multiset.nodup_zero, fun x hx => absurd hx (Multiset.notMem_zero x), ?_⟩
    rw [add_zero, add_zero]
    exact Multiset.le_add_right out (hold i)
  have hlost : Single made out (Function.update hold i (0 + 0)) :=
    Single.trade (s := ()) h hstay (add_zero (hold i)).symm
  rwa [add_zero] at hlost

/-! ## Every run -/

namespace Threaded

variable {S : Threaded ι σ Op Res} {E : Economy Op Res ρ} {out : σ → Multiset ρ} {made : σ → Set ρ}

/-- Each program that starts affords what it does with nothing at hand, and the world conserves. -/
structure Conserves (S : Threaded ι σ Op Res) (E : Economy Op Res ρ) (out : σ → Multiset ρ)
    (made : σ → Set ρ) : Prop where
  start : ∀ i s p, S.start i s p → p.Affords E (fun _ _ => True) 0
  call : ∀ i op s r s', S.call i op s r s' → Moves out made (E.spends op) (E.gains op r) s s'
  drop : ∀ i s s', S.drop i s s' → Moves out made 0 0 s s'
  env : ∀ s s', S.env s s' → Moves out made 0 0 s s'
  restart : ∀ s s', S.restart s s' → Moves out made 0 0 s s'

/-- Nothing is in two places, and each program affords what is left of it with what it holds. -/
def Solvent (E : Economy Op Res ρ) (out : σ → Multiset ρ) (made : σ → Set ρ) (p : Pool ι σ Op Res) :
    Prop :=
  ∃ hold : ι → Multiset ρ, Single (made p.state) (out p.state) hold ∧
    ∀ i q, p.threads i = some q → q.Affords E (fun _ _ => True) (hold i)

theorem Solvent.step [Nonempty ι] (hS : Conserves S E out made) {p p' : Pool ι σ Op Res}
    (hp : Solvent E out made p) (hs : S.Step p p') : Solvent E out made p' := by
  obtain ⟨hold, hsingle, hafford⟩ := hp
  -- the programs beside the one that moves
  have hothers : ∀ {i : ι} {q : Option (Prog Op Res Unit)} {held : Multiset ρ},
      (∀ q', q = some q' → q'.Affords E (fun _ _ => True) held) →
      ∀ j q', Function.update p.threads i q j = some q' →
        q'.Affords E (fun _ _ => True) (Function.update hold i held j) := by
    intro i q held hq j q' hj
    by_cases hij : j = i
    · subst hij
      rw [Function.update_self] at hj ⊢
      exact hq q' hj
    · rw [Function.update_of_ne hij] at hj ⊢
      exact hafford j q' hj
  cases hs with
  | @start i q _ hst =>
    exact ⟨_, hsingle.lost i, hothers (fun q' hq' => Option.some.inj hq' ▸ hS.start i _ _ hst)⟩
  | @call i op k r s hi hc =>
    obtain ⟨rest, hheld, hrest⟩ := hafford i _ hi
    exact ⟨_, hsingle.trade (hS.call i _ _ _ _ hc) hheld,
      hothers (fun q' hq' => Option.some.inj hq' ▸ hrest r)⟩
  | @finish i _ => exact ⟨_, hsingle.lost i, hothers (fun q' hq' => nomatch hq')⟩
  | @drop i q s _ hd =>
    exact ⟨_, (hsingle.moves (hS.drop i _ _ hd)).lost i, hothers (fun q' hq' => nomatch hq')⟩
  | env he => exact ⟨hold, hsingle.moves (hS.env _ _ he), hafford⟩
  | restart hr => exact ⟨hold, hsingle.moves (hS.restart _ _ hr), fun i q hi => nomatch hi⟩

/-- In every state nothing is twice in the world, nor is what a program is about to spend. -/
theorem conserved [Nonempty ι] (hS : Conserves S E out made) {s : σ} (hout : (out s).Nodup)
    (hmade : ∀ x ∈ out s, x ∈ made s) {p : Pool ι σ Op Res} (hr : S.Reaches (idle s) p) :
    (out p.state).Nodup ∧ ∀ i op k, p.threads i = some (.call op k) →
      (out p.state + E.spends op).Nodup := by
  have hsolvent : Solvent E out made p := by
    induction hr with
    | refl => exact ⟨fun _ => 0, Single.zero hmade hout, fun i q hi => nomatch hi⟩
    | tail _ hs ih => exact ih.step hS hs
  obtain ⟨hold, hsingle, hafford⟩ := hsolvent
  refine ⟨?_, ?_⟩
  · have i : ι := Classical.choice inferInstance
    exact (Multiset.nodup_add.mp (hsingle.nodup i)).1
  · intro i op k hi
    obtain ⟨rest, hheld, -⟩ := hafford i _ hi
    have hnodup := hsingle.nodup i
    rw [hheld, ← add_assoc] at hnodup
    exact (Multiset.nodup_add.mp hnodup).1

end Threaded
