-- A register where the last writer wins, unless what is there has a higher rank. Two
-- runs of writes with the same members leave the same value, whatever their order and
-- repeats, exactly where no two of them share the top rank.
import Mathlib.Order.Lattice
import Mathlib.Data.List.Induction

namespace LastWriter

variable {α ι : Type} [LinearOrder ι] (rank : α → ι)

/-- One write. A tie goes to the newcomer. -/
def write (cur : Option α) (a : α) : Option α :=
  match cur with
  | none => some a
  | some b => some (if rank b ≤ rank a then a else b)

def writes (cur : Option α) (xs : List α) : Option α := xs.foldl (write rank) cur

/-- A write that nothing outranks, neither among the writes nor what was there. -/
structure Tops (cur : Option α) (xs : List α) (a : α) : Prop where
  mem : a ∈ xs
  over_writes : ∀ b ∈ xs, rank b ≤ rank a
  over_start : ∀ b ∈ cur, rank b ≤ rank a

variable {rank}

@[simp] theorem writes_nil (cur : Option α) : writes rank cur [] = cur := rfl

theorem writes_append (cur : Option α) (xs ys : List α) :
    writes rank cur (xs ++ ys) = writes rank (writes rank cur xs) ys := by
  unfold writes
  rw [List.foldl_append]

theorem writes_snoc (cur : Option α) (xs : List α) (a : α) :
    writes rank cur (xs ++ [a]) = write rank (writes rank cur xs) a := by
  rw [writes_append]
  rfl

theorem Tops.congr {cur : Option α} {xs ys : List α} (h : ∀ a, a ∈ xs ↔ a ∈ ys) {a : α}
    (ha : Tops rank cur xs a) : Tops rank cur ys a :=
  ⟨(h a).mp ha.mem, fun b hb => ha.over_writes b ((h b).mpr hb), ha.over_start⟩

/-- What the writes leave is a top write, or what was there, which then outranks them all. -/
theorem writes_cases (rank : α → ι) (cur : Option α) (xs : List α) :
    (∃ a, writes rank cur xs = some a ∧ Tops rank cur xs a) ∨
      writes rank cur xs = cur ∧ ∀ a ∈ xs, ∃ b ∈ cur, rank a < rank b := by
  induction xs using List.reverseRecOn with
  | nil => exact Or.inr ⟨rfl, fun a ha => absurd ha List.not_mem_nil⟩
  | append_singleton xs x ih =>
    rw [writes_snoc]
    rcases ih with ⟨a, ha, htops⟩ | ⟨hcur, hunder⟩
    · left
      rw [ha]
      simp only [write]
      by_cases hle : rank a ≤ rank x
      · refine ⟨x, by simp [hle], by simp, ?_, fun b hb => le_trans (htops.over_start b hb) hle⟩
        intro b hb
        rcases List.mem_append.mp hb with hb | hb
        · exact le_trans (htops.over_writes b hb) hle
        · rw [List.mem_singleton.mp hb]
      · refine ⟨a, by simp [hle], List.mem_append_left _ htops.mem, ?_, htops.over_start⟩
        intro b hb
        rcases List.mem_append.mp hb with hb | hb
        · exact htops.over_writes b hb
        · rw [List.mem_singleton.mp hb]
          exact le_of_not_ge hle
    · rw [hcur]
      have htop : (∀ b ∈ cur, rank b ≤ rank x) → Tops rank cur (xs ++ [x]) x := by
        intro hover
        refine ⟨by simp, ?_, hover⟩
        intro b hb
        rcases List.mem_append.mp hb with hb | hb
        · obtain ⟨o, ho, hlt⟩ := hunder b hb
          exact le_trans (le_of_lt hlt) (hover o ho)
        · rw [List.mem_singleton.mp hb]
      cases cur with
      | none => exact Or.inl ⟨x, rfl, htop (fun b hb => by cases hb)⟩
      | some o =>
        simp only [write]
        by_cases hle : rank o ≤ rank x
        · left
          refine ⟨x, by simp [hle], htop ?_⟩
          intro b hb
          cases hb
          exact hle
        · right
          refine ⟨by simp [hle], ?_⟩
          intro b hb
          rcases List.mem_append.mp hb with hb | hb
          · exact hunder b hb
          · rw [List.mem_singleton.mp hb]
            exact ⟨o, rfl, lt_of_not_ge hle⟩

/-- A top write that comes last stays. -/
theorem writes_last {cur : Option α} {xs : List α} {a : α} (ha : Tops rank cur xs a) :
    writes rank cur (xs ++ [a]) = some a := by
  rw [writes_snoc]
  rcases writes_cases rank cur xs with ⟨b, hb, htops⟩ | ⟨hcur, hunder⟩
  · rw [hb]
    simp [write, ha.over_writes b htops.mem]
  · obtain ⟨o, ho, hlt⟩ := hunder a ha.mem
    exact absurd (ha.over_start o ho) (not_le_of_gt hlt)

/-- The writes agree for every order and repetition, if and only if they have one top. -/
theorem writes_agree_iff (cur : Option α) (xs : List α) :
    (∀ ys zs, (∀ a, a ∈ xs ↔ a ∈ ys) → (∀ a, a ∈ xs ↔ a ∈ zs) →
      writes rank cur ys = writes rank cur zs) ↔
    ∀ a b, Tops rank cur xs a → Tops rank cur xs b → a = b := by
  constructor
  · intro h a b ha hb
    have hsame : ∀ t ∈ xs, ∀ c, c ∈ xs ↔ c ∈ xs ++ [t] := by
      intro t ht c
      simp only [List.mem_append, List.mem_singleton]
      constructor
      · exact Or.inl
      · rintro (hc | rfl)
        · exact hc
        · exact ht
    have hboth := h (xs ++ [a]) (xs ++ [b]) (hsame a ha.mem) (hsame b hb.mem)
    rw [writes_last ha, writes_last hb] at hboth
    exact Option.some.inj hboth
  · intro h ys zs hys hzs
    have hsame : ∀ a, a ∈ ys ↔ a ∈ zs := fun a => (hys a).symm.trans (hzs a)
    have hback : ∀ {us : List α}, (∀ a, a ∈ xs ↔ a ∈ us) → ∀ {a}, Tops rank cur us a →
        Tops rank cur xs a := fun hus _ ha => ha.congr (fun c => (hus c).symm)
    rcases writes_cases rank cur ys with ⟨a, ha, htops⟩ | ⟨hcur, hunder⟩
    · rcases writes_cases rank cur zs with ⟨b, hb, htops'⟩ | ⟨hcur', hunder'⟩
      · rw [ha, hb, h a b (hback hys htops) (hback hzs htops')]
      · obtain ⟨o, ho, hlt⟩ := hunder' a ((hsame a).mp htops.mem)
        exact absurd (htops.over_start o ho) (not_le_of_gt hlt)
    · rcases writes_cases rank cur zs with ⟨b, hb, htops'⟩ | ⟨hcur', hunder'⟩
      · obtain ⟨o, ho, hlt⟩ := hunder b ((hsame b).mpr htops'.mem)
        exact absurd (htops'.over_start o ho) (not_le_of_gt hlt)
      · rw [hcur, hcur']

end LastWriter
