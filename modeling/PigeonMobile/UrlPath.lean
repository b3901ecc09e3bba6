-- How a URL parser reads what follows the origin of an http URL: dot segments, backslashes,
-- percent escapes, query and fragment. What a server decodes of a path is never longer than the
-- text it was made from, and as long only where the text was taken as it stands.
import Mathlib

namespace UrlPath

/-! ## Bytes and escapes -/

def utf8 (s : List Char) : List UInt8 := s.flatMap String.utf8EncodeChar

def hexChar (n : Nat) : Char := ("0123456789ABCDEF".toList[n]?).getD '0'

def isHex (c : Char) : Bool :=
  c.isDigit || decide ('a' ≤ c ∧ c ≤ 'f') || decide ('A' ≤ c ∧ c ≤ 'F')

def hexValue (c : Char) : Nat :=
  if c.isDigit then c.toNat - '0'.toNat
  else if 'a' ≤ c then c.toNat - 'a'.toNat + 10
  else c.toNat - 'A'.toNat + 10

def escapeByte (b : UInt8) : List Char := ['%', hexChar (b.toNat / 16), hexChar (b.toNat % 16)]

/-- `UTF-8 percent-encode` of the characters in a set. -/
def percentEncode (set : Char → Bool) (s : List Char) : List Char :=
  s.flatMap (fun c => if set c then (String.utf8EncodeChar c).flatMap escapeByte else [c])

/-- `percent-decode`: an escape gives its byte, a percent sign without two digits stands for
itself. -/
def percentDecode : List Char → List UInt8
  | [] => []
  | [a] => String.utf8EncodeChar a
  | [a, b] => String.utf8EncodeChar a ++ String.utf8EncodeChar b
  | a :: b :: c :: rest =>
    if a = '%' ∧ isHex b ∧ isHex c then
      UInt8.ofNat (16 * hexValue b + hexValue c) :: percentDecode rest
    else String.utf8EncodeChar a ++ percentDecode (b :: c :: rest)

/-! ## The sets -/

def isC0OrSpace (c : Char) : Bool := decide (c ≤ ' ')

def c0Control (c : Char) : Bool := decide (c < ' ') || decide ('~' < c)

def fragmentSet (c : Char) : Bool :=
  c0Control c || c ∈ [' ', Char.ofNat 0x22, '<', '>', Char.ofNat 0x60]

def querySet (c : Char) : Bool :=
  c0Control c || c ∈ [' ', Char.ofNat 0x22, '#', '<', '>', Char.ofNat 0x27]

def pathSet (c : Char) : Bool :=
  c0Control c ||
    c ∈ [' ', Char.ofNat 0x22, '#', '<', '>', '?', '^', Char.ofNat 0x60, '{', '}']

/-! ## The parser -/

structure Target where
  path : List (List Char)
  query : Option (List Char)
  fragment : Option (List Char)

/-- In an http URL a backslash is a slash. -/
def isSlash (c : Char) : Bool := c = '/' || c = '\\'

def isTabOrNewline (c : Char) : Bool := c = '\t' || c = '\n' || c = '\r'

/-- A dot as a path may spell it. -/
def dots : List (List Char) := [['.'], ['%', '2', 'e'], ['%', '2', 'E']]

def isSingleDot (s : List Char) : Bool := s ∈ dots

def isDoubleDot (s : List Char) : Bool := s ∈ dots.flatMap (fun a => dots.map (fun b => a ++ b))

/-- The end of a segment: `last` where no slash ends it. -/
def push (last : Bool) (path : List (List Char)) (s : List Char) : List (List Char) :=
  if isDoubleDot s then if last then path.dropLast ++ [[]] else path.dropLast
  else if isSingleDot s then if last then path ++ [[]] else path
  else path ++ [s]

def walk (path : List (List Char)) : List (List Char) → List (List Char)
  | [] => path
  | [s] => push true path s
  | s :: s' :: rest => walk (push false path s) (s' :: rest)

/-- What is dropped before the URL is read: spaces at its end, tabs and newlines everywhere. -/
def clean (s : List Char) : List Char :=
  (s.rdropWhile isC0OrSpace).filter (fun c => !isTabOrNewline c)

/-- What ends the path. -/
def endsPath (c : Char) : Bool := c = '?' || c = '#'

/-- The fragment, with the sign before it. -/
def readFragment : List Char → Option (List Char)
  | [] => none
  | _ :: s => some (percentEncode fragmentSet s)

/-- The query and the fragment. -/
def readRest : List Char → Option (List Char) × Option (List Char)
  | [] => (none, none)
  | c :: s =>
    if c = '?' then
      (some (percentEncode querySet (s.takeWhile (fun c => c ≠ '#'))),
        readFragment (s.dropWhile (fun c => c ≠ '#')))
    else (none, readFragment (c :: s))

/-- What follows the first slash after the origin, where the characters in `set` are escaped in a
path: `pathSet`, or an earlier one. -/
def read (set : Char → Bool) (s : List Char) : Target :=
  let path := (clean s).takeWhile (fun c => !endsPath c)
  let rest := readRest ((clean s).dropWhile (fun c => !endsPath c))
  ⟨walk [] ((path.splitOnP isSlash).map (percentEncode set)), rest.1, rest.2⟩

/-! ## Decoding -/

theorem utf8_cons (c : Char) (s : List Char) : utf8 (c :: s) = String.utf8EncodeChar c ++ utf8 s :=
  List.flatMap_cons

theorem utf8_append (s t : List Char) : utf8 (s ++ t) = utf8 s ++ utf8 t := List.flatMap_append

theorem percentEncode_cons (set : Char → Bool) (c : Char) (s : List Char) :
    percentEncode set (c :: s) =
      (if set c then (String.utf8EncodeChar c).flatMap escapeByte else [c]) ++
        percentEncode set s := List.flatMap_cons

/-- The text begins with two hex digits. -/
def BeginsHex (s : List Char) : Prop :=
  ∃ b c rest, s = b :: c :: rest ∧ isHex b = true ∧ isHex c = true

theorem decode_escape {b c : Char} (hb : isHex b = true) (hc : isHex c = true) (rest : List Char) :
    percentDecode ('%' :: b :: c :: rest) =
      UInt8.ofNat (16 * hexValue b + hexValue c) :: percentDecode rest := by
  rw [percentDecode, if_pos ⟨rfl, hb, hc⟩]

theorem decode_char {a : Char} {s : List Char} (h : ¬ (a = '%' ∧ BeginsHex s)) :
    percentDecode (a :: s) = String.utf8EncodeChar a ++ percentDecode s := by
  match s with
  | [] => simp [percentDecode]
  | [b] => simp [percentDecode]
  | b :: c :: rest =>
    rw [percentDecode, if_neg]
    rintro ⟨ha, hb, hc⟩
    exact h ⟨ha, b, c, rest, rfl, hb, hc⟩

theorem hexChar_isHex : ∀ n < 16, isHex (hexChar n) = true := by decide

theorem hexValue_hexChar : ∀ n < 16, hexValue (hexChar n) = n := by decide

theorem decode_escapeByte (b : UInt8) (s : List Char) :
    percentDecode (escapeByte b ++ s) = b :: percentDecode s := by
  have hb := b.toNat_lt
  have hhigh : b.toNat / 16 < 16 := by omega
  have hlow : b.toNat % 16 < 16 := by omega
  have hvalue : 16 * hexValue (hexChar (b.toNat / 16)) + hexValue (hexChar (b.toNat % 16)) =
      b.toNat := by
    rw [hexValue_hexChar _ hhigh, hexValue_hexChar _ hlow]
    omega
  calc percentDecode (escapeByte b ++ s)
      = UInt8.ofNat (16 * hexValue (hexChar (b.toNat / 16)) +
          hexValue (hexChar (b.toNat % 16))) :: percentDecode s :=
        decode_escape (hexChar_isHex _ hhigh) (hexChar_isHex _ hlow) s
    _ = b :: percentDecode s := by rw [hvalue, UInt8.ofNat_toNat]

theorem decode_escapes (bs : List UInt8) (s : List Char) :
    percentDecode (bs.flatMap escapeByte ++ s) = bs ++ percentDecode s := by
  induction bs with
  | nil => rfl
  | cons b bs ih =>
    rw [List.flatMap_cons, List.append_assoc, decode_escapeByte, ih]
    rfl

/-- A set that leaves escapes alone. -/
structure KeepsEscapes (set : Char → Bool) : Prop where
  percent : set '%' = false
  hex : ∀ c, isHex c = true → set c = false

theorem beginsHex_of_encode {set : Char → Bool} {s : List Char}
    (h : BeginsHex (percentEncode set s)) : BeginsHex s := by
  have hpercent : ∀ c : Char, ∀ t : List Char, ∃ u,
      (String.utf8EncodeChar c).flatMap escapeByte ++ t = '%' :: u := by
    intro c t
    cases hbytes : String.utf8EncodeChar c with
    | nil => exact absurd hbytes String.utf8EncodeChar_ne_nil
    | cons b bs => exact ⟨_, rfl⟩
  obtain ⟨b, c, rest, hs, hb, hc⟩ := h
  cases s with
  | nil => cases hs
  | cons x s =>
    rw [percentEncode_cons] at hs
    split at hs
    · obtain ⟨u, hu⟩ := hpercent x (percentEncode set s)
      rw [hu] at hs
      cases hs
      exact absurd hb (by decide)
    · injection hs with hx hs
      subst hx
      cases s with
      | nil => cases hs
      | cons y s =>
        have hs : percentEncode set (y :: s) = c :: rest := hs
        rw [percentEncode_cons] at hs
        split at hs
        · obtain ⟨u, hu⟩ := hpercent y (percentEncode set s)
          rw [hu] at hs
          cases hs
          exact absurd hc (by decide)
        · injection hs with hy _
          subst hy
          exact ⟨x, y, s, rfl, hb, hc⟩

theorem decode_encode_char {set : Char → Bool} {a : Char} {s : List Char}
    (h : ¬ (a = '%' ∧ BeginsHex s)) : percentDecode (percentEncode set (a :: s)) =
      String.utf8EncodeChar a ++ percentDecode (percentEncode set s) := by
  rw [percentEncode_cons]
  split
  · exact decode_escapes _ _
  · exact decode_char (fun hhex => h ⟨hhex.1, beginsHex_of_encode hhex.2⟩)

theorem not_beginsHex_short {s : List Char} (h : s.length < 2) : ¬ BeginsHex s := by
  rintro ⟨b, c, rest, rfl, -, -⟩
  simp only [List.length_cons] at h
  omega

/-- Encoding changes nothing of what is decoded. -/
theorem decode_encode {set : Char → Bool} (hset : KeepsEscapes set) (s : List Char) :
    percentDecode (percentEncode set s) = percentDecode s := by
  fun_induction percentDecode s with
  | case1 => rfl
  | case2 a =>
    rw [decode_encode_char (fun h => not_beginsHex_short (by simp) h.2)]
    exact List.append_nil _
  | case3 a b =>
    rw [decode_encode_char (fun h => not_beginsHex_short (by simp) h.2),
      decode_encode_char (fun h => not_beginsHex_short (by simp) h.2)]
    exact congrArg _ (List.append_nil _)
  | case4 a b c rest h ih =>
    obtain ⟨rfl, hb, hc⟩ := h
    have hkept : percentEncode set ('%' :: b :: c :: rest) =
        '%' :: b :: c :: percentEncode set rest := by
      simp [percentEncode, hset.percent, hset.hex b hb, hset.hex c hc]
    rw [hkept, decode_escape hb hc, ih]
  | case5 a b c rest h ih =>
    rw [decode_encode_char, ih]
    rintro ⟨ha, b', c', rest', hs, hb, hc⟩
    cases hs
    exact h ⟨ha, hb, hc⟩

/-! ## How long it is -/

/-- The text has a percent sign with two hex digits. -/
def HasEscape (s : List Char) : Prop :=
  ∃ b c, ['%', b, c] <:+: s ∧ isHex b = true ∧ isHex c = true

theorem HasEscape.percent_mem {s : List Char} (h : HasEscape s) : '%' ∈ s := by
  obtain ⟨b, c, hin, -⟩ := h
  exact hin.subset List.mem_cons_self

theorem hasEscape_cons {a : Char} {s : List Char} (h : HasEscape s) : HasEscape (a :: s) := by
  obtain ⟨b, c, hin, hhex⟩ := h
  exact ⟨b, c, hin.trans (List.suffix_cons a s).isInfix, hhex⟩

theorem hasEscape_tail {a : Char} {s : List Char} (h : HasEscape (a :: s))
    (hhead : ¬ (a = '%' ∧ BeginsHex s)) : HasEscape s := by
  obtain ⟨b, c, hin, hb, hc⟩ := h
  rcases List.infix_cons_iff.mp hin with hprefix | hin
  · obtain ⟨rest, hrest⟩ := hprefix
    cases hrest
    exact absurd ⟨rfl, b, c, rest, rfl, hb, hc⟩ hhead
  · exact ⟨b, c, hin, hb, hc⟩

theorem utf8_length_pos (c : Char) : 0 < (String.utf8EncodeChar c).length :=
  List.length_pos_iff.mpr String.utf8EncodeChar_ne_nil

theorem decode_length_le (s : List Char) : (percentDecode s).length ≤ (utf8 s).length := by
  fun_induction percentDecode s with
  | case1 => exact le_refl _
  | case2 a => simp [utf8]
  | case3 a b => simp [utf8]
  | case4 a b c rest h ih =>
    simp only [utf8_cons, List.length_cons, List.length_append]
    have ha := utf8_length_pos a
    omega
  | case5 a b c rest h ih =>
    rw [utf8_cons, List.length_append, List.length_append]
    omega

theorem decode_shorter {s : List Char} (h : HasEscape s) :
    (percentDecode s).length < (utf8 s).length := by
  fun_induction percentDecode s with
  | case1 =>
    obtain ⟨b, c, hin, -⟩ := h
    exact absurd hin.length_le (by simp)
  | case2 a =>
    obtain ⟨b, c, hin, -⟩ := h
    exact absurd hin.length_le (by simp)
  | case3 a b =>
    obtain ⟨b', c, hin, -⟩ := h
    exact absurd hin.length_le (by simp)
  | case4 a b c rest _ _ =>
    simp only [utf8_cons, List.length_cons, List.length_append]
    have hrest := decode_length_le rest
    have ha := utf8_length_pos a
    have hb := utf8_length_pos b
    omega
  | case5 a b c rest hhead ih =>
    rw [utf8_cons, List.length_append, List.length_append]
    have hrest := ih (hasEscape_tail h (by
      rintro ⟨ha, b', c', rest', hs, hb, hc⟩
      cases hs
      exact hhead ⟨ha, hb, hc⟩))
    omega

/-- Without escapes a text is its own. -/
theorem decode_plain {s : List Char} (h : ¬ HasEscape s) : percentDecode s = utf8 s := by
  fun_induction percentDecode s with
  | case1 => rfl
  | case2 a => exact (List.append_nil _).symm
  | case3 a b => simp [utf8]
  | case4 a b c rest hhead _ =>
    obtain ⟨rfl, hb, hc⟩ := hhead
    exact absurd ⟨b, c, ⟨[], rest, rfl⟩, hb, hc⟩ h
  | case5 a b c rest _ ih =>
    rw [utf8_cons, ih (fun hrest => h (hasEscape_cons hrest))]

theorem utf8_injective {s t : List Char} (h : utf8 s = utf8 t) : s = t := by
  have hbytes : s.utf8Encode = t.utf8Encode := congrArg List.toByteArray h
  rw [← String.toByteArray_ofList, ← String.toByteArray_ofList, String.toByteArray_inj] at hbytes
  exact String.ofList_injective hbytes

theorem isHex_range {c : Char} (h : isHex c = true) : '0' ≤ c ∧ c ≤ 'f' := by
  unfold isHex at h
  rw [Bool.or_eq_true, Bool.or_eq_true, decide_eq_true_eq, decide_eq_true_eq] at h
  rcases h with (h | h) | h
  · unfold Char.isDigit at h
    rw [Bool.and_eq_true, decide_eq_true_eq, decide_eq_true_eq] at h
    exact ⟨h.1, le_trans h.2 (show '9' ≤ 'f' by decide)⟩
  · exact ⟨le_trans (show '0' ≤ 'a' by decide) h.1, h.2⟩
  · exact ⟨le_trans (show '0' ≤ 'A' by decide) h.1, le_trans h.2 (show 'F' ≤ 'f' by decide)⟩

theorem pathSet_keeps : KeepsEscapes pathSet := by
  refine ⟨by decide, ?_⟩
  intro c hhex
  obtain ⟨hlow, hhigh⟩ := isHex_range hhex
  have hothers : ∀ d ∈ [' ', Char.ofNat 0x22, '#', '<', '>', '?', '^', Char.ofNat 0x60, '{', '}'],
      isHex d = false := by
    intro d hd
    simp only [List.mem_cons, List.not_mem_nil, or_false] at hd
    rcases hd with rfl | rfl | rfl | rfl | rfl | rfl | rfl | rfl | rfl | rfl <;> rfl
  unfold pathSet c0Control
  rw [Bool.or_eq_false_iff, Bool.or_eq_false_iff]
  refine ⟨⟨decide_eq_false ?_, decide_eq_false ?_⟩, decide_eq_false ?_⟩
  · exact not_lt_of_ge (le_trans (show ' ' ≤ '0' by decide) hlow)
  · exact not_lt_of_ge (le_trans hhigh (show 'f' ≤ '~' by decide))
  · intro hmem
    rw [hothers c hmem] at hhex
    cases hhex

/-! ## Walking the segments -/

/-- The bytes that are decoded of a path. -/
def decoded (path : List (List Char)) : Nat := (path.map (fun s => (percentDecode s).length)).sum

theorem decoded_append (path path' : List (List Char)) :
    decoded (path ++ path') = decoded path + decoded path' := by
  unfold decoded
  rw [List.map_append, List.sum_append]

theorem decoded_cons (s : List Char) (path : List (List Char)) :
    decoded (s :: path) = (percentDecode s).length + decoded path := by
  unfold decoded
  rw [List.map_cons, List.sum_cons]

theorem decoded_dropLast_le (path : List (List Char)) : decoded path.dropLast ≤ decoded path := by
  rcases List.eq_nil_or_concat path with rfl | ⟨path, s, rfl⟩
  · exact le_refl _
  · rw [List.concat_eq_append, List.dropLast_concat, decoded_append]
    exact Nat.le_add_right _ _

/-- A dot, single or double. -/
def isDot (s : List Char) : Bool := isDoubleDot s || isSingleDot s

theorem decode_dot {s : List Char} (h : isDot s = true) :
    percentDecode s = utf8 ['.'] ∨ percentDecode s = utf8 ['.', '.'] := by
  have hdouble : ∀ s ∈ dots.flatMap (fun a => dots.map (fun b => a ++ b)),
      percentDecode s = utf8 ['.', '.'] := by decide
  have hsingle : ∀ s ∈ dots, percentDecode s = utf8 ['.'] := by decide
  rcases Bool.or_eq_true_iff.mp h with h | h
  · exact Or.inr (hdouble s (of_decide_eq_true h))
  · exact Or.inl (hsingle s (of_decide_eq_true h))

theorem push_plain {s : List Char} (h : isDot s = false) (last : Bool) (path : List (List Char)) :
    push last path s = path ++ [s] := by
  obtain ⟨hdouble, hsingle⟩ := Bool.or_eq_false_iff.mp h
  unfold push
  rw [hdouble, hsingle]
  rfl

theorem push_dot {s : List Char} (h : isDot s = true) (last : Bool) (path : List (List Char)) :
    decoded (push last path s) < decoded path + (percentDecode s).length := by
  have hlong : 0 < (percentDecode s).length := by
    rcases decode_dot h with h | h <;> rw [h] <;> decide
  have hdrop := decoded_dropLast_le path
  have hempty : decoded [[]] = 0 := rfl
  unfold push
  split
  · split
    · rw [decoded_append]
      omega
    · omega
  · split
    · split
      · rw [decoded_append]
        omega
      · omega
    · next hdouble hsingle =>
      unfold isDot at h
      rw [Bool.or_eq_true] at h
      exact absurd h (by tauto)

theorem push_le (last : Bool) (path : List (List Char)) (s : List Char) :
    decoded (push last path s) ≤ decoded path + (percentDecode s).length := by
  cases h : isDot s with
  | false =>
    rw [push_plain h, decoded_append, decoded_cons]
    exact le_refl _
  | true => exact le_of_lt (push_dot h last path)

theorem walk_le (path segs : List (List Char)) :
    decoded (walk path segs) ≤ decoded path + decoded segs := by
  fun_induction walk path segs with
  | case1 path => exact le_refl _
  | case2 path s =>
    rw [decoded_cons]
    exact push_le true path s
  | case3 path s s' rest ih =>
    have hpush := push_le false path s
    rw [decoded_cons]
    omega

/-- A dot among the segments is lost. -/
theorem walk_lt {path segs : List (List Char)} (h : ∃ s ∈ segs, isDot s = true) :
    decoded (walk path segs) < decoded path + decoded segs := by
  fun_induction walk path segs with
  | case1 path =>
    obtain ⟨s, hs, -⟩ := h
    cases hs
  | case2 path s =>
    obtain ⟨s', hs', hdot⟩ := h
    cases List.mem_singleton.mp hs'
    rw [decoded_cons]
    exact push_dot hdot true path
  | case3 path s s' rest ih =>
    obtain ⟨t, ht, hdot⟩ := h
    rw [decoded_cons]
    rcases List.mem_cons.mp ht with rfl | ht
    · have hpush := push_dot hdot false path
      have hrest := walk_le (push false path t) (s' :: rest)
      omega
    · have hpush := push_le false path s
      have hrest := ih ⟨t, ht, hdot⟩
      omega

theorem walk_plain {path segs : List (List Char)} (h : ∀ s ∈ segs, isDot s = false) :
    walk path segs = path ++ segs := by
  fun_induction walk path segs with
  | case1 path => exact (List.append_nil path).symm
  | case2 path s => exact push_plain (h s List.mem_cons_self) true path
  | case3 path s s' rest ih =>
    rw [ih (fun t ht => h t (List.mem_cons_of_mem _ ht)),
      push_plain (h s List.mem_cons_self), List.append_assoc]
    rfl

/-! ## Splitting -/

/-- The bytes of a text beside its slashes. -/
def weight (s : List Char) : Nat := (utf8 (s.filter (fun c => !isSlash c))).length

theorem weight_cons (c : Char) (s : List Char) :
    weight (c :: s) = (if isSlash c then 0 else (String.utf8EncodeChar c).length) + weight s := by
  unfold weight
  cases h : isSlash c with
  | true => rw [List.filter_cons_of_neg (by simp [h]), if_pos rfl, Nat.zero_add]
  | false =>
    rw [List.filter_cons_of_pos (by simp [h]), utf8_cons, List.length_append]
    rfl

theorem weight_append (s t : List Char) : weight (s ++ t) = weight s + weight t := by
  unfold weight
  rw [List.filter_append, utf8_append, List.length_append]

theorem weight_le (s : List Char) : weight s ≤ (utf8 s).length := by
  induction s with
  | nil => exact le_refl _
  | cons c s ih =>
    rw [weight_cons, utf8_cons, List.length_append]
    split
    · omega
    · omega

theorem weight_lt {s : List Char} (h : ∃ c ∈ s, isSlash c = true) :
    weight s < (utf8 s).length := by
  obtain ⟨c, hc, hslash⟩ := h
  obtain ⟨before, after, rfl⟩ := List.append_of_mem hc
  have hbefore := weight_le before
  have hafter := weight_le after
  have hpos := utf8_length_pos c
  rw [weight_append, weight_cons, if_pos hslash, utf8_append, utf8_cons, List.length_append,
    List.length_append]
  omega

theorem flatten_splitOnP (s : List Char) :
    (s.splitOnP isSlash).flatten = s.filter (fun c => !isSlash c) := by
  induction s with
  | nil => rfl
  | cons c s ih =>
    rw [List.splitOnP_cons_eq_if_modifyHead]
    cases h : isSlash c with
    | true =>
      rw [if_pos rfl, List.flatten_cons, ih, List.filter_cons_of_neg (by simp [h])]
      rfl
    | false =>
      rw [if_neg (by decide), List.filter_cons_of_pos (by simp [h]), ← ih]
      cases hsplit : s.splitOnP isSlash with
      | nil => exact absurd hsplit (List.splitOnP_ne_nil _ _)
      | cons t ts => rfl

/-- The bytes of all segments. -/
def bytes (segs : List (List Char)) : Nat := (segs.map (fun s => (utf8 s).length)).sum

theorem bytes_splitOnP (s : List Char) : bytes (s.splitOnP isSlash) = weight s := by
  have hsum : ∀ segs : List (List Char), bytes segs = (utf8 segs.flatten).length := by
    intro segs
    induction segs with
    | nil => rfl
    | cons t ts ih =>
      unfold bytes at *
      rw [List.map_cons, List.sum_cons, ih, List.flatten_cons, utf8_append, List.length_append]
  rw [hsum, flatten_splitOnP]
  rfl

/-! ## Segments that are read as they stand -/

/-- A segment that no rule of the parser touches. -/
structure Plain (s : List Char) : Prop where
  notDot : s ≠ ['.']
  notDots : s ≠ ['.', '.']
  noBackslash : '\\' ∉ s
  noQuery : '?' ∉ s
  noFragment : '#' ∉ s
  noTab : '\t' ∉ s
  noNewline : '\n' ∉ s
  noReturn : '\r' ∉ s
  noEscape : ¬ HasEscape s

/-- The text does not end in a space or a control character. -/
def EndsVisible (s : List Char) : Prop := ∀ c ∈ s.getLast?, isC0OrSpace c = false

abbrev join (segs : List (List Char)) : List Char := ['/'].intercalate segs

theorem splitOnP_join {segs : List (List Char)} (hne : segs ≠ [])
    (h : ∀ s ∈ segs, ∀ c ∈ s, isSlash c = false) : (join segs).splitOnP isSlash = segs := by
  induction segs with
  | nil => exact absurd rfl hne
  | cons s segs ih =>
    have hs := h s List.mem_cons_self
    cases segs with
    | nil =>
      rw [join, List.intercalate_singleton]
      exact List.splitOnP_eq_singleton hs
    | cons s' rest =>
      rw [join, List.intercalate_cons_cons, List.append_assoc, List.singleton_append,
        List.splitOnP_append_cons_of_forall_mem hs '/' rfl,
        ih (List.cons_ne_nil _ _) (fun t ht => h t (List.mem_cons_of_mem _ ht))]

theorem weight_join (segs : List (List Char)) : weight (join segs) = (segs.map weight).sum := by
  induction segs with
  | nil => rfl
  | cons s segs ih =>
    cases segs with
    | nil =>
      rw [join, List.intercalate_singleton]
      rfl
    | cons s' rest =>
      have hslash : weight ['/'] = 0 := rfl
      rw [join, List.intercalate_cons_cons, weight_append, weight_append, hslash, ih]
      rfl

theorem weight_pos {s : List Char} {c : Char} (hc : c ∈ s) (hslash : isSlash c = false) :
    0 < weight s := by
  obtain ⟨before, after, rfl⟩ := List.append_of_mem hc
  have hpos := utf8_length_pos c
  rw [weight_append, weight_cons, hslash, if_neg (by decide)]
  omega

theorem weight_filter (s : List Char) :
    weight (s.filter (fun c => !isTabOrNewline c)) + s.countP isTabOrNewline ≤ weight s := by
  induction s with
  | nil => exact le_refl _
  | cons c s ih =>
    rw [weight_cons]
    cases h : isTabOrNewline c with
    | false =>
      rw [List.filter_cons_of_pos (by simp [h]), List.countP_cons_of_neg (by simp [h]), weight_cons]
      omega
    | true =>
      have hslash : isSlash c = false := by
        unfold isTabOrNewline at h
        rw [Bool.or_eq_true, Bool.or_eq_true, decide_eq_true_eq, decide_eq_true_eq,
          decide_eq_true_eq] at h
        rcases h with (rfl | rfl) | rfl <;> rfl
      have hpos := utf8_length_pos c
      rw [List.filter_cons_of_neg (by simp [h]), List.countP_cons_of_pos h, hslash,
        if_neg (by decide)]
      omega

/-- What is dropped of a text is beside its slashes. -/
theorem weight_clean (s : List Char) : weight (clean s) ≤ weight s ∧
    (weight (clean s) = weight s → (∀ c ∈ s, isTabOrNewline c = false) ∧ EndsVisible s) := by
  have hsplit : s.rdropWhile isC0OrSpace ++ s.rtakeWhile isC0OrSpace = s :=
    List.rdropWhile_append_rtakeWhile
  have hsum : weight (s.rdropWhile isC0OrSpace) + weight (s.rtakeWhile isC0OrSpace) = weight s := by
    rw [← weight_append, hsplit]
  have hfilter := weight_filter (s.rdropWhile isC0OrSpace)
  refine ⟨by unfold clean; omega, ?_⟩
  intro heq
  unfold clean at heq
  have hnone : s.rtakeWhile isC0OrSpace = [] := by
    rw [List.eq_nil_iff_forall_not_mem]
    intro c hc
    have hspace : isC0OrSpace c = true := List.mem_rtakeWhile_imp hc
    have hslash : isSlash c = false := by
      have hle : c ≤ ' ' := of_decide_eq_true hspace
      unfold isSlash
      rw [Bool.or_eq_false_iff]
      refine ⟨decide_eq_false ?_, decide_eq_false ?_⟩ <;> rintro rfl <;> exact absurd hle
        (by decide)
    have hpos := weight_pos hc hslash
    omega
  have hkept : s.rdropWhile isC0OrSpace = s := by
    rw [hnone, List.append_nil] at hsplit
    exact hsplit
  rw [hkept] at hfilter heq
  refine ⟨?_, ?_⟩
  · have hcount : s.countP isTabOrNewline = 0 := by omega
    intro c hc
    exact Bool.eq_false_iff.mpr (List.countP_eq_zero.mp hcount c hc)
  · intro c hc
    obtain ⟨hne, rfl⟩ := List.mem_getLast?_eq_getLast hc
    exact Bool.eq_false_iff.mpr (List.rdropWhile_eq_self_iff.mp hkept hne)

theorem clean_self {s : List Char} (htab : ∀ c ∈ s, isTabOrNewline c = false)
    (hend : EndsVisible s) : clean s = s := by
  have hkept : s.rdropWhile isC0OrSpace = s := by
    rw [List.rdropWhile_eq_self_iff]
    intro hne hlast
    have hvisible := hend _ (List.getLast?_eq_getLast_of_ne_nil hne)
    rw [hvisible] at hlast
    cases hlast
  unfold clean
  rw [hkept, List.filter_eq_self]
  intro c hc
  rw [htab c hc]
  rfl

/-! ## What is read of segments -/

variable {set : Char → Bool}

theorem readRest_none {s : List Char} (hquery : (readRest s).1 = none)
    (hfragment : (readRest s).2 = none) : s = [] := by
  cases s with
  | nil => rfl
  | cons c s =>
    by_cases hc : c = '?'
    · rw [readRest, if_pos hc] at hquery
      cases hquery
    · rw [readRest, if_neg hc] at hfragment
      cases hfragment

theorem mem_join {segs : List (List Char)} {c : Char} :
    c ∈ join segs → c = '/' ∨ ∃ s ∈ segs, c ∈ s := by
  intro h
  induction segs with
  | nil => cases h
  | cons s segs ih =>
    cases segs with
    | nil =>
      rw [join, List.intercalate_singleton] at h
      exact Or.inr ⟨s, List.mem_singleton.mpr rfl, h⟩
    | cons s' rest =>
      rw [join, List.intercalate_cons_cons, List.mem_append, List.mem_append] at h
      rcases h with (h | h) | h
      · exact Or.inr ⟨s, List.mem_cons_self, h⟩
      · exact Or.inl (List.mem_singleton.mp h)
      · rcases ih h with h | ⟨t, ht, hc⟩
        · exact Or.inl h
        · exact Or.inr ⟨t, List.mem_cons_of_mem _ ht, hc⟩

theorem join_mem {segs : List (List Char)} {s : List Char} {c : Char} (hs : s ∈ segs)
    (hc : c ∈ s) : c ∈ join segs := by
  induction segs with
  | nil => cases hs
  | cons t segs ih =>
    cases segs with
    | nil =>
      rw [join, List.intercalate_singleton]
      cases List.mem_singleton.mp hs
      exact hc
    | cons t' rest =>
      rw [join, List.intercalate_cons_cons, List.mem_append, List.mem_append]
      rcases List.mem_cons.mp hs with rfl | hs
      · exact Or.inl (Or.inl hc)
      · exact Or.inr (ih hs)

theorem Plain.isTabOrNewline {s : List Char} (h : Plain s) {c : Char} (hc : c ∈ s) :
    isTabOrNewline c = false := by
  unfold UrlPath.isTabOrNewline
  rw [Bool.or_eq_false_iff, Bool.or_eq_false_iff]
  refine ⟨⟨decide_eq_false ?_, decide_eq_false ?_⟩, decide_eq_false ?_⟩
  · exact fun he => h.noTab (he ▸ hc)
  · exact fun he => h.noNewline (he ▸ hc)
  · exact fun he => h.noReturn (he ▸ hc)

theorem Plain.endsPath {s : List Char} (h : Plain s) {c : Char} (hc : c ∈ s) :
    endsPath c = false := by
  unfold UrlPath.endsPath
  rw [Bool.or_eq_false_iff]
  refine ⟨decide_eq_false ?_, decide_eq_false ?_⟩
  · exact fun he => h.noQuery (he ▸ hc)
  · exact fun he => h.noFragment (he ▸ hc)

/-- A plain segment is not taken for a dot. -/
theorem Plain.encode_not_dot (hset : KeepsEscapes set) {s : List Char} (h : Plain s) :
    isDot (percentEncode set s) = false := by
  rw [Bool.eq_false_iff]
  intro hdot
  have hdecode := decode_dot hdot
  rw [decode_encode hset, decode_plain h.noEscape] at hdecode
  rcases hdecode with hdecode | hdecode
  · exact h.notDot (utf8_injective hdecode)
  · exact h.notDots (utf8_injective hdecode)

/-- A dot is one also where it is escaped. -/
theorem encode_dots :
    isDot (percentEncode set ['.']) = true ∧ isDot (percentEncode set ['.', '.']) = true := by
  cases h : set '.' with
  | false =>
    simp only [percentEncode, List.flatMap_cons, List.flatMap_nil, h]
    decide
  | true =>
    simp only [percentEncode, List.flatMap_cons, List.flatMap_nil, h]
    decide

/-- What is decoded of a path, and what is lost on the way. -/
theorem decoded_encoded (hset : KeepsEscapes set) (segs : List (List Char)) :
    decoded (segs.map (percentEncode set)) =
      (segs.map (fun s => (percentDecode s).length)).sum := by
  unfold decoded
  rw [List.map_map]
  congr 1
  apply List.map_congr_left
  intro s _
  rw [Function.comp_apply, decode_encode hset]

/-- Segments are read as they stand: a parser takes their path apart again into them, and a
server decodes them, just where each is plain and no space is cut off at the end. -/
theorem read_decodes_iff (hset : KeepsEscapes set) {segs : List (List Char)} (hne : segs ≠ [])
    (hslash : ∀ s ∈ segs, '/' ∉ s) :
    ((read set (join segs)).path.map percentDecode = segs.map utf8 ∧
      (read set (join segs)).query = none ∧ (read set (join segs)).fragment = none) ↔
    (∀ s ∈ segs, Plain s) ∧ EndsVisible (join segs) := by
  constructor
  · rintro ⟨hpath, hquery, hfragment⟩
    have hnothing := readRest_none hquery hfragment
    have hnoend : ∀ c ∈ clean (join segs), endsPath c = false := by
      intro c hc
      simpa using List.dropWhile_eq_nil_iff.mp hnothing c hc
    have hwhole : (clean (join segs)).takeWhile (fun c => !endsPath c) = clean (join segs) := by
      rw [List.takeWhile_eq_self_iff]
      intro c hc
      simp [hnoend c hc]
    have hpathOf : (read set (join segs)).path =
        walk [] (((clean (join segs)).splitOnP isSlash).map (percentEncode set)) := by
      unfold read
      rw [hwhole]
    have hbytes : decoded (read set (join segs)).path = bytes segs := by
      have hlengths := congrArg (fun l => (l.map List.length).sum) hpath
      simpa [decoded, bytes, Function.comp_def] using hlengths
    rw [hpathOf] at hbytes
    -- Each bound on the way from the segments to what is decoded must be met.
    have hweights : (segs.map weight).sum ≤ bytes segs :=
      List.sum_le_sum (fun s _ => weight_le s)
    obtain ⟨hclean, hcleaned⟩ := weight_clean (join segs)
    have hsplitBytes := bytes_splitOnP (clean (join segs))
    have hdecodes : decoded (((clean (join segs)).splitOnP isSlash).map (percentEncode set)) ≤
        bytes ((clean (join segs)).splitOnP isSlash) := by
      rw [decoded_encoded hset]
      exact List.sum_le_sum (fun s _ => decode_length_le s)
    have hwalk := walk_le [] (((clean (join segs)).splitOnP isSlash).map (percentEncode set))
    have hnil : decoded [] = 0 := rfl
    rw [weight_join] at hclean hcleaned
    obtain ⟨htabs, hend⟩ := hcleaned (by omega)
    refine ⟨?_, hend⟩
    rw [clean_self htabs hend] at hsplitBytes hdecodes hwalk hbytes hnoend
    have hslashless : ∀ s ∈ segs, ∀ c ∈ s, isSlash c = false := by
      intro s hs c hc
      rw [Bool.eq_false_iff]
      intro hslashed
      have hless : (segs.map weight).sum < bytes segs :=
        List.sum_lt_sum _ _ (fun s _ => weight_le s) ⟨s, hs, weight_lt ⟨c, hc, hslashed⟩⟩
      rw [weight_join] at hsplitBytes
      omega
    have hsplit := splitOnP_join hne hslashless
    rw [hsplit] at hdecodes hwalk hbytes
    have hescapes : ∀ s ∈ segs, ¬ HasEscape s := by
      intro s hs hescape
      have hless : (segs.map (fun s => (percentDecode s).length)).sum < bytes segs :=
        List.sum_lt_sum _ _ (fun s _ => decode_length_le s) ⟨s, hs, decode_shorter hescape⟩
      rw [decoded_encoded hset] at hwalk
      omega
    have hdots : ∀ s ∈ segs, isDot (percentEncode set s) = false := by
      intro s hs
      rw [Bool.eq_false_iff]
      intro hdot
      have hless := @walk_lt [] _ ⟨_, List.mem_map_of_mem hs, hdot⟩
      omega
    intro s hs
    have hin : ∀ c ∈ s, c ∈ join segs := fun c hc => join_mem hs hc
    refine ⟨?_, ?_, ?_, ?_, ?_, ?_, ?_, ?_, hescapes s hs⟩
    · rintro rfl
      exact absurd (encode_dots.1.symm.trans (hdots _ hs)) (by decide)
    · rintro rfl
      exact absurd (encode_dots.2.symm.trans (hdots _ hs)) (by decide)
    · exact fun hc => absurd (hslashless s hs _ hc) (by decide)
    · exact fun hc => absurd (hnoend _ (hin _ hc)) (by decide)
    · exact fun hc => absurd (hnoend _ (hin _ hc)) (by decide)
    · exact fun hc => absurd (htabs _ (hin _ hc)) (by decide)
    · exact fun hc => absurd (htabs _ (hin _ hc)) (by decide)
    · exact fun hc => absurd (htabs _ (hin _ hc)) (by decide)
  · rintro ⟨hplain, hend⟩
    have hchars : ∀ c ∈ join segs, isTabOrNewline c = false ∧ endsPath c = false := by
      intro c hc
      rcases mem_join hc with rfl | ⟨s, hs, hc⟩
      · exact ⟨rfl, rfl⟩
      · exact ⟨(hplain s hs).isTabOrNewline hc, (hplain s hs).endsPath hc⟩
    have hclean := clean_self (fun c hc => (hchars c hc).1) hend
    have hwhole : (join segs).takeWhile (fun c => !endsPath c) = join segs := by
      rw [List.takeWhile_eq_self_iff]
      intro c hc
      simp [(hchars c hc).2]
    have hnothing : (join segs).dropWhile (fun c => !endsPath c) = [] := by
      rw [List.dropWhile_eq_nil_iff]
      intro c hc
      simp [(hchars c hc).2]
    have hsplit : (join segs).splitOnP isSlash = segs := by
      apply splitOnP_join hne
      intro s hs c hc
      unfold isSlash
      rw [Bool.or_eq_false_iff]
      refine ⟨decide_eq_false ?_, decide_eq_false ?_⟩
      · exact fun h => hslash s hs (h ▸ hc)
      · exact fun h => (hplain s hs).noBackslash (h ▸ hc)
    have hread : read set (join segs) = ⟨segs.map (percentEncode set), none, none⟩ := by
      simp only [read, hclean, hwhole, hnothing, hsplit]
      rw [walk_plain]
      · rfl
      · intro t ht
        obtain ⟨s, hs, rfl⟩ := List.mem_map.mp ht
        exact (hplain s hs).encode_not_dot hset
    rw [hread]
    refine ⟨?_, rfl, rfl⟩
    rw [List.map_map]
    apply List.map_congr_left
    intro s hs
    rw [Function.comp_apply, decode_encode hset, decode_plain (hplain s hs).noEscape]

/-- Where the path is decoded as it should be, nothing of the text was taken for something else. -/
theorem read_fits (hset : KeepsEscapes set) {segs : List (List Char)}
    (h : (read set (join segs)).path.map percentDecode = segs.map utf8) :
    (∀ s ∈ segs, ∀ c ∈ s, isSlash c = false) ∧
      (clean (join segs)).dropWhile (fun c => !endsPath c) = [] := by
  have hbytes : decoded (read set (join segs)).path = bytes segs := by
    have hlengths := congrArg (fun l => (l.map List.length).sum) h
    simpa [decoded, bytes, Function.comp_def] using hlengths
  have hsplit := List.takeWhile_append_dropWhile (p := fun c => !endsPath c)
    (l := clean (join segs))
  simp only [read] at hbytes
  generalize (clean (join segs)).takeWhile (fun c => !endsPath c) = head at hbytes hsplit
  -- What is decoded weighs as much as the segments, so each bound between them is met.
  have hwalk := walk_le [] ((head.splitOnP isSlash).map (percentEncode set))
  have hdecodes : decoded ((head.splitOnP isSlash).map (percentEncode set)) ≤
      bytes (head.splitOnP isSlash) := by
    rw [decoded_encoded hset]
    exact List.sum_le_sum (fun s _ => decode_length_le s)
  have hnil : decoded [] = 0 := rfl
  have hhead := bytes_splitOnP head
  have hclean := (weight_clean (join segs)).1
  rw [weight_join] at hclean
  have hweights : (segs.map weight).sum ≤ bytes segs := List.sum_le_sum (fun s _ => weight_le s)
  have htext := congrArg weight hsplit
  rw [weight_append] at htext
  constructor
  · intro s hs c hc
    rw [Bool.eq_false_iff]
    intro hslashed
    have hless : (segs.map weight).sum < bytes segs :=
      List.sum_lt_sum _ _ (fun s _ => weight_le s) ⟨s, hs, weight_lt ⟨c, hc, hslashed⟩⟩
    omega
  · rcases hrest : (clean (join segs)).dropWhile (fun c => !endsPath c) with _ | ⟨c, rest⟩
    · rfl
    · have hends : endsPath c = true := by
        have hfirst := List.head?_dropWhile_not (fun c => !endsPath c) (clean (join segs))
        rw [hrest] at hfirst
        simpa using hfirst
      have hslash : isSlash c = false := by
        unfold endsPath at hends
        rw [Bool.or_eq_true, decide_eq_true_eq, decide_eq_true_eq] at hends
        rcases hends with rfl | rfl <;> rfl
      have hpos : 0 < weight (c :: rest) := weight_pos List.mem_cons_self hslash
      rw [hrest] at htext
      omega

/-- A path is decoded into the segments it was made of just where each is plain and without a slash,
and no space is cut off at the end. There is no query then, and no fragment. -/
theorem read_path_iff (hset : KeepsEscapes set) {segs : List (List Char)} (hne : segs ≠ []) :
    (read set (join segs)).path.map percentDecode = segs.map utf8 ↔
      (∀ s ∈ segs, '/' ∉ s ∧ Plain s) ∧ EndsVisible (join segs) := by
  constructor
  · intro h
    obtain ⟨hslashless, hnothing⟩ := read_fits hset h
    have hslash : ∀ s ∈ segs, '/' ∉ s := fun s hs hc => absurd (hslashless s hs _ hc) (by decide)
    have hrest : (read set (join segs)).query = none ∧ (read set (join segs)).fragment = none := by
      unfold read
      rw [hnothing]
      exact ⟨rfl, rfl⟩
    obtain ⟨hplain, hends⟩ := (read_decodes_iff hset hne hslash).mp ⟨h, hrest⟩
    exact ⟨fun s hs => ⟨hslash s hs, hplain s hs⟩, hends⟩
  · rintro ⟨hplain, hends⟩
    exact ((read_decodes_iff hset hne (fun s hs => (hplain s hs).1)).mpr
      ⟨fun s hs => (hplain s hs).2, hends⟩).1

theorem read_query_none (hset : KeepsEscapes set) {segs : List (List Char)}
    (h : (read set (join segs)).path.map percentDecode = segs.map utf8) :
    (read set (join segs)).query = none := by
  unfold read
  rw [(read_fits hset h).2]
  rfl

theorem join_snoc {init : List (List Char)} (h : init ≠ []) (last : List Char) :
    join (init ++ [last]) = join init ++ '/' :: last := by
  induction init with
  | nil => exact absurd rfl h
  | cons s init ih =>
    cases init with
    | nil => simp [join, List.intercalate_cons_cons]
    | cons t rest =>
      have hrest := ih (List.cons_ne_nil _ _)
      simp only [join, List.cons_append, List.intercalate_cons_cons] at hrest ⊢
      rw [hrest]
      simp

/-- A path ends as its last segment does. -/
theorem ends_join {init : List (List Char)} (h : init ≠ []) (last : List Char) :
    EndsVisible (join (init ++ [last])) ↔ EndsVisible last := by
  unfold EndsVisible
  rw [join_snoc h]
  cases last with
  | nil => simp [isC0OrSpace]
  | cons c last => rw [List.getLast?_append_of_ne_nil _ (List.cons_ne_nil _ _),
      List.getLast?_cons_cons]

end UrlPath
