-- Pairs of texts in the query of a URL (`application/x-www-form-urlencoded`). What is written is
-- read back, whatever the texts are.
import PigeonMobile.UrlPath

namespace FormUrl

open UrlPath

/-- The characters that stand for themselves. -/
def isSafe (c : Char) : Bool := c.isAlphanum || c ∈ ['*', '-', '.', '_']

def encodeChar (c : Char) : List Char :=
  if c = ' ' then ['+']
  else if isSafe c then [c]
  else (String.utf8EncodeChar c).flatMap escapeByte

def encode (s : List Char) : List Char := s.flatMap encodeChar

def plusToSpace (c : Char) : Char := if c = '+' then ' ' else c

/-- A plus is a space before the escapes are read. -/
def decode (s : List Char) : List UInt8 := percentDecode (s.map plusToSpace)

def serialize (pairs : List (List Char × List Char)) : List Char :=
  ['&'].intercalate (pairs.map (fun p => encode p.1 ++ '=' :: encode p.2))

/-- A name goes up to the first equals sign. -/
def parsePair (s : List Char) : List UInt8 × List UInt8 :=
  (decode (s.takeWhile (fun c => c ≠ '=')), decode ((s.dropWhile (fun c => c ≠ '=')).drop 1))

def parse (s : List Char) : List (List UInt8 × List UInt8) :=
  ((s.splitOn '&').filter (fun pair => pair ≠ [])).map parsePair

/-! ## One text -/

/-- What an escaped byte is written in. -/
theorem escapeByte_chars {b : UInt8} {c : Char} (h : c ∈ escapeByte b) :
    c = '%' ∨ isHex c = true := by
  have hb := b.toNat_lt
  have hdigit : ∀ n < 16, isHex (hexChar n) = true := hexChar_isHex
  simp only [escapeByte, List.mem_cons, List.not_mem_nil, or_false] at h
  rcases h with rfl | rfl | rfl
  · exact Or.inl rfl
  · exact Or.inr (hdigit _ (by omega))
  · exact Or.inr (hdigit _ (by omega))

theorem isHex_ne {c d : Char} (h : isHex c = true) (hd : isHex d = false) : c ≠ d := by
  rintro rfl
  rw [h] at hd
  cases hd

theorem isSafe_ne {c d : Char} (h : isSafe c = true) (hd : isSafe d = false) : c ≠ d := by
  rintro rfl
  rw [h] at hd
  cases hd

/-- A sign that is no digit, no safe character and neither plus nor percent is not written. -/
theorem not_mem_encode {d : Char} (hhex : isHex d = false) (hsafe : isSafe d = false)
    (hplus : d ≠ '+') (hpercent : d ≠ '%') (s : List Char) : d ∉ encode s := by
  unfold encode
  rw [List.mem_flatMap]
  rintro ⟨c, -, hd⟩
  unfold encodeChar at hd
  split at hd
  · exact hplus (List.mem_singleton.mp hd)
  · split at hd
    · next hc => exact isSafe_ne hc hsafe (List.mem_singleton.mp hd).symm
    · obtain ⟨b, -, hd⟩ := List.mem_flatMap.mp hd
      rcases escapeByte_chars hd with h | h
      · exact hpercent h
      · exact isHex_ne h hhex rfl

theorem decode_encodeChar (c : Char) (s : List Char) :
    decode (encodeChar c ++ s) = String.utf8EncodeChar c ++ decode s := by
  unfold decode encodeChar
  split
  · next hc =>
    subst hc
    have hspace : ¬ (' ' = '%' ∧ BeginsHex (s.map plusToSpace)) := by simp
    exact decode_char hspace
  · split
    · next hc =>
      have hplus : plusToSpace c = c := if_neg (isSafe_ne hc (by decide))
      rw [List.map_append, List.map_singleton, hplus]
      exact decode_char (fun h => isSafe_ne hc (by decide) h.1)
    · rw [List.map_append]
      have hsame : ((String.utf8EncodeChar c).flatMap escapeByte).map plusToSpace =
          (String.utf8EncodeChar c).flatMap escapeByte := by
        conv_rhs => rw [← List.map_id ((String.utf8EncodeChar c).flatMap escapeByte)]
        apply List.map_congr_left
        intro d hd
        obtain ⟨b, -, hd⟩ := List.mem_flatMap.mp hd
        refine if_neg ?_
        rcases escapeByte_chars hd with rfl | h
        · decide
        · exact isHex_ne h (by decide)
      rw [hsame, decode_escapes]

/-- A text is read back. -/
theorem decode_encode (s : List Char) : decode (encode s) = utf8 s := by
  induction s with
  | nil => rfl
  | cons c s ih =>
    rw [utf8_cons, ← ih]
    exact decode_encodeChar c (encode s)

/-! ## The pairs -/

theorem parsePair_serialize (name value : List Char) :
    parsePair (encode name ++ '=' :: encode value) = (utf8 name, utf8 value) := by
  have hno : ∀ c ∈ encode name, decide (c ≠ '=') = true := by
    intro c hc
    refine decide_eq_true ?_
    rintro rfl
    exact not_mem_encode (by decide) (by decide) (by decide) (by decide) name hc
  unfold parsePair
  rw [List.takeWhile_append_of_pos hno, List.dropWhile_append_of_pos hno]
  simp [decode_encode]

/-- Pairs are read back. -/
theorem parse_serialize (pairs : List (List Char × List Char)) :
    parse (serialize pairs) = pairs.map (fun p => (utf8 p.1, utf8 p.2)) := by
  cases pairs with
  | nil => rfl
  | cons p pairs =>
    have hno : ∀ pair ∈ (p :: pairs).map (fun p => encode p.1 ++ '=' :: encode p.2),
        '&' ∉ pair := by
      intro pair hpair
      obtain ⟨q, -, rfl⟩ := List.mem_map.mp hpair
      have hnot := not_mem_encode (d := '&') (by decide) (by decide) (by decide) (by decide)
      simp [hnot]
    have hne : ∀ pair ∈ (p :: pairs).map (fun p => encode p.1 ++ '=' :: encode p.2),
        decide (pair ≠ []) = true := by
      intro pair hpair
      obtain ⟨q, -, rfl⟩ := List.mem_map.mp hpair
      simp
    unfold parse serialize
    rw [List.splitOn_intercalate _ hno (List.cons_ne_nil _ _), List.filter_eq_self.mpr hne,
      List.map_map]
    exact List.map_congr_left (fun q _ => parsePair_serialize q.1 q.2)

end FormUrl
