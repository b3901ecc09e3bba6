-- The order of decimal texts. Numbers that are compared as texts compare by their leading
-- digits, so the order is that of the numbers only where they are equally wide.
import Mathlib.Data.String.Basic
import Mathlib.Data.Nat.Log

namespace DecimalOrder

/-- The digits of a number, the leading one first. -/
def digits (n : Nat) : List Char := Nat.toDigits 10 n

/-- How many digits a number has. -/
def width (n : Nat) : Nat := (digits n).length

def AllDigits (l : List Char) : Prop := ∀ c ∈ l, '0' ≤ c ∧ c ≤ '9'

/-- The number that a text of digits says. -/
def value (l : List Char) : Nat := Nat.ofDigitChars 10 l 0

/-- The text of `a` comes before that of `b`: its leading digits are no more than those of `b`,
as many of them as both have. -/
def Before (a b : Nat) : Prop :=
  if width a ≤ width b then a ≤ b / 10 ^ (width b - width a) else a / 10 ^ (width a - width b) < b

instance (a b : Nat) : Decidable (Before a b) := by
  unfold Before
  infer_instance

/-! ## The value of a text -/

theorem digits_all (n : Nat) : AllDigits (digits n) := by
  intro c hc
  have h := Nat.isDigit_of_mem_toDigits (by decide) (by decide) hc
  unfold Char.isDigit at h
  rw [Bool.and_eq_true, decide_eq_true_eq, decide_eq_true_eq] at h
  exact h

theorem value_digits (n : Nat) : value (digits n) = n := Nat.ofDigitChars_ten_toDigits

theorem digits_inj {a b : Nat} (h : digits a = digits b) : a = b := by
  rw [← value_digits a, h, value_digits]

theorem value_cons (c : Char) (l : List Char) :
    value (c :: l) = 10 ^ l.length * (c.toNat - 48) + value l := by
  unfold value
  rw [Nat.ofDigitChars_cons, Nat.ofDigitChars_eq_ofDigitChars_zero]
  simp

theorem value_append (l m : List Char) : value (l ++ m) = 10 ^ m.length * value l + value m := by
  unfold value
  rw [Nat.ofDigitChars_append, Nat.ofDigitChars_eq_ofDigitChars_zero]

theorem digit_lt {c : Char} (h : '0' ≤ c ∧ c ≤ '9') : c.toNat - 48 < 10 := by
  have hle : c.toNat ≤ 57 := h.2
  omega

theorem value_lt {l : List Char} (h : AllDigits l) : value l < 10 ^ l.length := by
  induction l with
  | nil => simp [value]
  | cons c l ih =>
    have hrest := ih (fun d hd => h d (List.mem_cons_of_mem _ hd))
    have hc := digit_lt (h c List.mem_cons_self)
    have hmul : 10 ^ l.length * (c.toNat - 48) ≤ 10 ^ l.length * 9 :=
      Nat.mul_le_mul_left _ (by omega)
    rw [value_cons, List.length_cons, Nat.pow_succ]
    omega

/-- The leading digits of a text. -/
theorem value_take {l : List Char} (h : AllDigits l) (k : Nat) :
    value (l.take k) = value l / 10 ^ (l.length - k) := by
  have hdrop : value (l.drop k) < 10 ^ (l.drop k).length :=
    value_lt (fun c hc => h c (List.mem_of_mem_drop hc))
  have hsplit : value l = 10 ^ (l.drop k).length * value (l.take k) + value (l.drop k) := by
    rw [← value_append, List.take_append_drop]
  rw [List.length_drop] at hsplit hdrop
  rw [hsplit, Nat.mul_add_div (Nat.pow_pos (by decide)), Nat.div_eq_of_lt hdrop, Nat.add_zero]

/-! ## The order of texts -/

/-- Texts of one length are in the order of their values. -/
theorem lt_iff_value_lt {l m : List Char} (hl : AllDigits l) (hm : AllDigits m)
    (hlen : l.length = m.length) : l < m ↔ value l < value m := by
  induction l generalizing m with
  | nil =>
    obtain rfl := List.length_eq_zero_iff.mp hlen.symm
    simp
  | cons c l ih =>
    obtain ⟨d, m, rfl⟩ := List.exists_cons_of_length_eq_add_one hlen.symm
    have hlen : l.length = m.length := by simpa using hlen
    have hl' : AllDigits l := fun x hx => hl x (List.mem_cons_of_mem _ hx)
    have hm' : AllDigits m := fun x hx => hm x (List.mem_cons_of_mem _ hx)
    have hvl := value_lt hl'
    have hvm := value_lt hm'
    have hc : 48 ≤ c.toNat := (hl c List.mem_cons_self).1
    have hd : 48 ≤ d.toNat := (hm d List.mem_cons_self).1
    rw [List.cons_lt_cons_iff, ih hl' hm' hlen, value_cons, value_cons, ← hlen]
    rw [← hlen] at hvm
    rcases lt_trichotomy c d with hlt | rfl | hgt
    · have hnat : c.toNat < d.toNat := hlt
      have hstep : 10 ^ l.length * (c.toNat - 48) + 10 ^ l.length ≤
          10 ^ l.length * (d.toNat - 48) := by
        rw [← Nat.mul_succ]
        exact Nat.mul_le_mul_left _ (by omega)
      simp only [hlt, true_or, true_iff]
      omega
    · simp
    · have hnat : d.toNat < c.toNat := hgt
      have hstep : 10 ^ l.length * (d.toNat - 48) + 10 ^ l.length ≤
          10 ^ l.length * (c.toNat - 48) := by
        rw [← Nat.mul_succ]
        exact Nat.mul_le_mul_left _ (by omega)
      have hnot : ¬ c < d := not_lt_of_gt hgt
      have hne : c ≠ d := ne_of_gt hgt
      simp only [hnot, hne, false_and, or_self, false_iff]
      omega

/-- What follows a number in a text: nothing, or a character below the digits. -/
def Low (s : List Char) : Prop := ∀ c ∈ s.head?, c < '0'

/-- A text that goes on with a digit is behind one that ends there. -/
theorem low_lt_digits {s e t : List Char} (hs : Low s) (he : AllDigits e) (hne : e ≠ []) :
    s < e ++ t := by
  obtain ⟨d, e, rfl⟩ := List.exists_cons_of_ne_nil hne
  cases s with
  | nil => exact List.nil_lt_cons _ _
  | cons c s =>
    rw [List.cons_append, List.cons_lt_cons_iff]
    exact Or.inl (lt_of_lt_of_le (hs c (by simp)) (he d List.mem_cons_self).1)

theorem append_lt_append_left {l s t : List Char} : l ++ s < l ++ t ↔ s < t := by
  induction l with
  | nil => rfl
  | cons c l ih => rw [List.cons_append, List.cons_append, List.cons_lt_cons_iff]; simp [ih]

/-- Two texts of one length that differ decide what follows. -/
theorem append_lt_append_iff {l m s t : List Char} (hlen : l.length = m.length) (hne : l ≠ m) :
    l ++ s < m ++ t ↔ l < m := by
  induction l generalizing m with
  | nil =>
    obtain rfl := List.length_eq_zero_iff.mp hlen.symm
    exact absurd rfl hne
  | cons c l ih =>
    obtain ⟨d, m, rfl⟩ := List.exists_cons_of_length_eq_add_one hlen.symm
    have hlen' : l.length = m.length := by simpa using hlen
    rw [List.cons_append, List.cons_append, List.cons_lt_cons_iff, List.cons_lt_cons_iff]
    by_cases hcd : c = d
    · subst hcd
      rw [ih hlen' (fun h => hne (by rw [h]))]
    · simp [hcd]

/-- A number and a wider one: the text of the narrow one is compared with as many digits of the
wide one, and comes first where these are the same. -/
theorem narrow_lt_iff {a b : Nat} {s t : List Char} (hab : a ≠ b) (hw : width a ≤ width b)
    (hs : Low s) : digits a ++ s < digits b ++ t ↔ a ≤ b / 10 ^ (width b - width a) := by
  have hlen : (digits a).length = ((digits b).take (width a)).length := by
    rw [List.length_take]
    exact (Nat.min_eq_left hw).symm
  have hall : AllDigits ((digits b).take (width a)) :=
    fun c hc => digits_all b c (List.mem_of_mem_take hc)
  have hvalue : value ((digits b).take (width a)) = b / 10 ^ (width b - width a) := by
    rw [value_take (digits_all b), value_digits]
    rfl
  have hsplit : digits b ++ t = (digits b).take (width a) ++ ((digits b).drop (width a) ++ t) := by
    rw [← List.append_assoc, List.take_append_drop]
  rw [← hvalue, hsplit]
  by_cases heq : digits a = (digits b).take (width a)
  · have hrest : (digits b).drop (width a) ≠ [] := by
      intro hnil
      have hsame : digits b = digits a := by
        rw [← List.take_append_drop (width a) (digits b), hnil, List.append_nil, ← heq]
      exact hab (digits_inj hsame.symm)
    rw [← heq, append_lt_append_left]
    have hle : a ≤ value (digits a) := (value_digits a).ge
    have hlow := low_lt_digits (t := t) hs
      (fun c hc => digits_all b c (List.mem_of_mem_drop hc)) hrest
    exact ⟨fun _ => hle, fun _ => hlow⟩
  · rw [append_lt_append_iff hlen heq, lt_iff_value_lt (digits_all a) hall hlen, value_digits]
    constructor
    · intro h
      omega
    · intro h
      apply lt_of_le_of_ne h
      intro hv
      -- texts of one length and one value are the same
      rcases lt_trichotomy (digits a) ((digits b).take (width a)) with hlt | he | hgt
      · rw [lt_iff_value_lt (digits_all a) hall hlen, value_digits] at hlt
        omega
      · exact heq he
      · rw [lt_iff_value_lt hall (digits_all a) hlen.symm, value_digits] at hgt
        omega

/-- The texts of two numbers, each with what follows it, are in the order of `Before`. -/
theorem text_lt_iff {a b : Nat} {s t : List Char} (hab : a ≠ b) (hs : Low s) (ht : Low t) :
    digits a ++ s < digits b ++ t ↔ Before a b := by
  unfold Before
  by_cases hw : width a ≤ width b
  · rw [if_pos hw]
    exact narrow_lt_iff hab hw hs
  · rw [if_neg hw]
    have hback := narrow_lt_iff (s := t) (t := s) hab.symm (by omega : width b ≤ width a) ht
    have hne : digits a ++ s ≠ digits b ++ t := by
      intro he
      -- the narrow number is a part of the wide one, and then a digit is low
      have hsplit := congrArg (fun l => l.drop (width b)) he
      have hdrop : (digits a).drop (width b) ≠ [] := by
        intro hnil
        rw [List.drop_eq_nil_iff] at hnil
        exact hw hnil
      have hlow := low_lt_digits (t := s) ht
        (fun c hc => digits_all a c (List.mem_of_mem_drop hc)) hdrop
      simp only [width, List.drop_append_of_le_length (Nat.le_refl _), List.drop_length,
        List.nil_append] at hsplit
      rw [List.drop_append_of_le_length (by unfold width at hw; omega)] at hsplit
      unfold width at hlow
      rw [hsplit] at hlow
      exact lt_irrefl _ hlow
    rw [← Nat.not_le, ← hback]
    constructor
    · exact fun h => not_lt_of_gt h
    · intro h
      exact lt_of_le_of_ne (not_lt.mp h) hne

end DecimalOrder
