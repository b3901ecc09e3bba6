-- Tables with a primary key, as SQL keeps them: one row for each key. The
-- operations are the statements a small store is written with. Each lemma says
-- what `find` gives after one of them, so no proof looks at the list of rows.
import Mathlib.Data.List.Nodup

/-- Rows with at most one row for each key: the primary key is the field `nodup`. -/
structure Table {α κ : Type} (key : α → κ) where
  rows : List α
  nodup : (rows.map key).Nodup

namespace Table

variable {α κ : Type} [DecidableEq κ] {key : α → κ}

/-! ## The statements -/

def empty : Table key := ⟨[], List.nodup_nil⟩

/-- `SELECT … WHERE key = k`. -/
def find (t : Table key) (k : κ) : Option α := t.rows.find? (fun a => decide (key a = k))

theorem find_eq_none {t : Table key} {k : κ} : t.find k = none ↔ k ∉ t.rows.map key := by
  simp [find]

/-- `INSERT OR IGNORE`: a row whose key is taken changes nothing. -/
def insertNew (t : Table key) (a : α) : Table key :=
  if h : t.find (key a) = none then
    ⟨t.rows ++ [a], by
      rw [List.map_append, List.nodup_append]
      refine ⟨t.nodup, List.nodup_singleton _, ?_⟩
      intro x hx y hy
      simp only [List.map_cons, List.map_nil, List.mem_singleton] at hy
      subst hy
      rintro rfl
      exact find_eq_none.mp h hx⟩
  else t

/-- `DELETE … WHERE key = k`. -/
def erase (t : Table key) (k : κ) : Table key :=
  ⟨t.rows.filter (fun a => decide (key a ≠ k)), t.nodup.sublist (List.filter_sublist.map key)⟩

/-- `UPDATE … WHERE key = k`, where no column of the key changes. -/
def update (t : Table key) (k : κ) (f : α → α) (hf : ∀ a, key (f a) = key a) : Table key :=
  ⟨t.rows.map (fun a => if key a = k then f a else a), by
    rw [List.map_map]
    have h : key ∘ (fun a => if key a = k then f a else a) = key := by
      funext a
      simp only [Function.comp_apply]
      split
      · exact hf a
      · rfl
    rw [h]
    exact t.nodup⟩

/-- `UPDATE … SET key = k' … WHERE key = k`: the row moves to another key. A taken
`k'` breaks the primary key, and then nothing changes. -/
def rekey (t : Table key) (k k' : κ) (f : α → α) (hf : ∀ a, key (f a) = k') : Table key :=
  if h : t.find k' = none then
    ⟨t.rows.map (fun a => if key a = k then f a else a), by
      rw [List.map_map]
      refine List.Nodup.map_on ?_ (List.Nodup.of_map key t.nodup)
      have hfree : ∀ a ∈ t.rows, key a ≠ k' := fun a ha he =>
        find_eq_none.mp h (he ▸ List.mem_map_of_mem ha)
      intro a ha b hb hab
      simp only [Function.comp_apply] at hab
      by_cases hak : key a = k <;> by_cases hbk : key b = k
      · exact List.inj_on_of_nodup_map t.nodup ha hb (hak.trans hbk.symm)
      · simp only [hak, hbk, if_true, if_false, hf] at hab
        exact absurd hab.symm (hfree b hb)
      · simp only [hak, hbk, if_true, if_false, hf] at hab
        exact absurd hab (hfree a ha)
      · simp only [hak, hbk, if_false] at hab
        exact List.inj_on_of_nodup_map t.nodup ha hb hab⟩
  else t

theorem rekey_rows (t : Table key) (k k' : κ) (f : α → α) (hf : ∀ a, key (f a) = k')
    (h : t.find k' = none) :
    (t.rekey k k' f hf).rows = t.rows.map (fun a => if key a = k then f a else a) := by
  rw [rekey, dif_pos h]

/-- `REPLACE`, for a row whose key is there. -/
def replace (t : Table key) (a : α) : Table key :=
  t.update (key a) (fun old => if key old = key a then a else old) (by
    intro b
    split
    · next h => exact h.symm
    · rfl)

/-- `INSERT … ON CONFLICT DO UPDATE … WHERE wins`: a row whose key is taken replaces
the incumbent when `wins` says so. -/
def upsert (t : Table key) (a : α) (wins : α → Bool) : Table key :=
  match t.find (key a) with
  | none => t.insertNew a
  | some old => if wins old then t.replace a else t

/-! ## What `find` gives -/

theorem find_some_iff {t : Table key} {k : κ} {a : α} :
    t.find k = some a ↔ a ∈ t.rows ∧ key a = k := by
  constructor
  · intro h
    exact ⟨List.mem_of_find?_eq_some h, by simpa using List.find?_some h⟩
  · rintro ⟨ha, hk⟩
    cases hb : t.find k with
    | none => exact absurd (hk ▸ List.mem_map_of_mem ha) (find_eq_none.mp hb)
    | some b =>
      have hbk : key b = k := by simpa using List.find?_some hb
      have hbm : b ∈ t.rows := List.mem_of_find?_eq_some hb
      rw [List.inj_on_of_nodup_map t.nodup ha hbm (hk.trans hbk.symm)]

theorem find_key {t : Table key} {k : κ} {a : α} (h : t.find k = some a) : key a = k :=
  (find_some_iff.mp h).2

theorem mem_rows_iff {t : Table key} {a : α} : a ∈ t.rows ↔ t.find (key a) = some a := by
  rw [find_some_iff]
  simp

@[simp] theorem find_empty (k : κ) : (empty : Table key).find k = none := rfl

theorem find_insertNew (t : Table key) (a : α) (k : κ) :
    (t.insertNew a).find k = if key a = k then some ((t.find k).getD a) else t.find k := by
  by_cases h : t.find (key a) = none
  · simp only [insertNew, h, dif_pos]
    simp only [find, List.find?_append, List.find?_cons, List.find?_nil]
    by_cases hk : key a = k
    · subst hk
      have h' : t.rows.find? (fun b => decide (key b = key a)) = none := h
      simp [h']
    · simp [hk]
  · simp only [insertNew, h, dif_neg, not_false_eq_true]
    by_cases hk : key a = k
    · subst hk
      obtain ⟨b, hb⟩ := Option.ne_none_iff_exists'.mp h
      simp [hb]
    · simp [hk]

/-- A row under a key that is free. -/
theorem find_insertNew_free {t : Table key} {a : α} (h : t.find (key a) = none) (k : κ) :
    (t.insertNew a).find k = if key a = k then some a else t.find k := by
  rw [find_insertNew]
  by_cases hk : key a = k
  · rw [if_pos hk, if_pos hk, ← hk, h]
    rfl
  · rw [if_neg hk, if_neg hk]

theorem find_erase (t : Table key) (k j : κ) :
    (t.erase k).find j = if j = k then none else t.find j := by
  simp only [find, erase, List.find?_filter]
  split
  · next h =>
    subst h
    rw [List.find?_eq_none]
    intro a _
    simp
  · next h =>
    congr 1
    funext a
    by_cases hj : key a = j
    · simp [hj, h]
    · simp [hj]

/-- A key that is not there. -/
theorem find_erase_none {t : Table key} {k : κ} (h : t.find k = none) (j : κ) :
    (t.erase k).find j = t.find j := by
  rw [find_erase]
  split
  · next hj => rw [hj, h]
  · rfl

theorem find_map_same (l : List α) (k j : κ) (f : α → α) (hf : ∀ a, key (f a) = key a) :
    (l.map (fun a => if key a = k then f a else a)).find? (fun a => decide (key a = j)) =
      (l.find? (fun a => decide (key a = j))).map (fun a => if j = k then f a else a) := by
  induction l with
  | nil => rfl
  | cons a rest ih =>
    have hkey : key (if key a = k then f a else a) = key a := by
      split
      · exact hf a
      · rfl
    simp only [List.map_cons, List.find?_cons, hkey]
    by_cases hj : key a = j
    · simp [hj]
    · simp [hj, ih]

theorem find_update (t : Table key) (k j : κ) (f : α → α) (hf : ∀ a, key (f a) = key a) :
    (t.update k f hf).find j = (t.find j).map (fun a => if j = k then f a else a) :=
  find_map_same t.rows k j f hf

theorem find_rekey_self (t : Table key) (k k' : κ) (f : α → α) (hf : ∀ a, key (f a) = k')
    (h : t.find k' = none) : (t.rekey k k' f hf).find k' = (t.find k).map f := by
  have hfree := find_eq_none.mp h
  simp only [find, rekey_rows t k k' f hf h]
  generalize t.rows = l at hfree
  induction l with
  | nil => rfl
  | cons a rest ih =>
    simp only [List.map_cons, List.mem_cons, not_or] at hfree
    by_cases hk : key a = k
    · simp [hk, hf]
    · simp only [List.map_cons, hk, if_false, List.find?_cons, Ne.symm hfree.1, decide_false,
        decide_false]
      exact ih hfree.2

theorem find_rekey_ne (t : Table key) (k k' j : κ) (f : α → α) (hf : ∀ a, key (f a) = k')
    (h : t.find k' = none) (hk : j ≠ k) (hk' : j ≠ k') :
    (t.rekey k k' f hf).find j = t.find j := by
  simp only [find, rekey_rows t k k' f hf h]
  induction t.rows with
  | nil => rfl
  | cons a rest ih =>
    by_cases ha : key a = k
    · simp only [List.map_cons, List.find?_cons, ha, if_true, hf, Ne.symm hk', Ne.symm hk,
        decide_false, ih]
    · simp only [List.map_cons, ha, if_false, List.find?_cons, ih]

theorem find_rekey_old (t : Table key) (k k' : κ) (f : α → α) (hf : ∀ a, key (f a) = k')
    (h : t.find k' = none) (hk : k ≠ k') : (t.rekey k k' f hf).find k = none := by
  simp only [find, rekey_rows t k k' f hf h, List.find?_eq_none]
  intro b hb
  obtain ⟨a, _, rfl⟩ := List.mem_map.mp hb
  by_cases ha : key a = k
  · simp only [ha, if_true, hf]
    simpa using Ne.symm hk
  · simp [ha]

theorem find_upsert (t : Table key) (a : α) (wins : α → Bool) (k : κ) :
    (t.upsert a wins).find k =
      if key a = k then
        match t.find k with
        | none => some a
        | some old => some (if wins old then a else old)
      else t.find k := by
  unfold upsert
  by_cases hk : key a = k
  · subst hk
    cases h : t.find (key a) with
    | none => simp [find_insertNew, h]
    | some old =>
      by_cases hw : wins old = true
      · simp [replace, find_update, h, hw, find_key h]
      · simp [h, hw]
  · cases h : t.find (key a) with
    | none => simp [find_insertNew, hk]
    | some old =>
      by_cases hw : wins old = true
      · simp [replace, find_update, hw, hk, Ne.symm hk]
      · simp [hw, hk]

/-- A row that is there already changes nothing. -/
theorem insertNew_taken {t : Table key} {a : α} (h : (t.find (key a)).isSome = true) :
    t.insertNew a = t := by
  unfold insertNew
  rw [dif_neg]
  intro hnone
  simp [hnone] at h

/-- A row that could only replace itself changes nothing. -/
theorem upsert_same {t : Table key} {a old : α} {wins : α → Bool} (h : t.find (key a) = some old)
    (hw : wins old = true → a = old) : t.upsert a wins = t := by
  unfold upsert
  rw [h]
  simp only
  by_cases hwins : wins old = true
  · obtain rfl := hw hwins
    rw [if_pos hwins]
    obtain ⟨rows, nodup⟩ := t
    unfold replace update
    congr 1
    have hmem := (find_some_iff.mp h).1
    conv => rhs; rw [← List.map_id rows]
    apply List.map_congr_left
    intro b hb
    by_cases hk : key b = key a
    · have hba : b = a := List.inj_on_of_nodup_map nodup hb hmem hk
      simp [hba]
    · simp [hk]
  · rw [if_neg hwins]

/-- Two tables with the same rows, whatever their order. -/
theorem perm_of_find {t u : Table key} (h : ∀ k, t.find k = u.find k) : t.rows.Perm u.rows := by
  rw [List.perm_ext_iff_of_nodup (List.Nodup.of_map key t.nodup) (List.Nodup.of_map key u.nodup)]
  intro a
  rw [mem_rows_iff, mem_rows_iff, h]

end Table
