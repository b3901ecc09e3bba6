-- JSON values as `serde_json::Value` holds them, the reads the core makes of
-- them, and what SQLite's JSON functions give on them.

namespace PigeonMobile

/-- A JSON value. An integer is `num`; a number that is no integer of 64 bits keeps
its text. The fields of an object are in order, each name once. -/
inductive Json where
  | null
  | bool (b : Bool)
  | num (n : Int)
  | float (text : String)
  | str (s : String)
  | arr (items : List Json)
  | obj (fields : List (String × Json))

namespace Json

/-- `value.get(key)`. -/
def get : Json → String → Option Json
  | .obj fields, key => (fields.find? (fun f => decide (f.1 = key))).map (·.2)
  | _, _ => none

/-- `value[key]`: null where there is no such field. -/
def index (j : Json) (key : String) : Json := (j.get key).getD .null

def as_str : Json → Option String
  | .str s => some s
  | _ => none

def as_array : Json → Option (List Json)
  | .arr items => some items
  | _ => none

def as_object : Json → Option (List (String × Json))
  | .obj fields => some fields
  | _ => none

def is_object (j : Json) : Bool := j.as_object.isSome

/-- The values an `i64` holds. -/
def inI64 (n : Int) : Bool := decide (-9223372036854775808 ≤ n ∧ n ≤ 9223372036854775807)

def as_i64 : Json → Option Int
  | .num n => if inI64 n then some n else none
  | _ => none

def as_u64 : Json → Option Nat
  | .num n => if 0 ≤ n ∧ n ≤ 18446744073709551615 then some n.toNat else none
  | _ => none

/-- The fields with `key` set to `v`: in its place where it is there, else last. -/
def setField : List (String × Json) → String → Json → List (String × Json)
  | [], key, v => [(key, v)]
  | f :: rest, key, v => if f.1 = key then (key, v) :: rest else f :: setField rest key v

/-- SQLite's `json_set(j, '$.key', v)`. -/
def json_set : Json → String → Json → Json
  | .obj fields, key, v => .obj (setField fields key v)
  | j, _, _ => j

/-! ## What the reads give on an object -/

@[simp] theorem get_obj (fields : List (String × Json)) (key : String) :
    (Json.obj fields).get key = (fields.find? (fun f => decide (f.1 = key))).map (·.2) := rfl

theorem find_setField (fields : List (String × Json)) (key k : String) (v : Json) :
    ((setField fields key v).find? (fun f => decide (f.1 = k))).map (·.2) =
      if k = key then some v else (fields.find? (fun f => decide (f.1 = k))).map (·.2) := by
  induction fields with
  | nil =>
    by_cases hk : key = k
    · simp [setField, hk]
    · simp [setField, hk, Ne.symm hk]
  | cons f rest ih =>
    unfold setField
    by_cases hf : f.1 = key
    · by_cases hk : k = key
      · simp [hf, hk]
      · simp [hf, hk, Ne.symm hk]
    · by_cases hk : f.1 = k
      · have hne : k ≠ key := fun h => hf (hk.trans h)
        simp [hk, hne]
      · simp only [hf, if_false, List.find?_cons, hk, decide_false]
        exact ih

theorem get_json_set (fields : List (String × Json)) (key k : String) (v : Json) :
    ((Json.obj fields).json_set key v).get k =
      if k = key then some v else (Json.obj fields).get k :=
  find_setField fields key k v

/-! ## The text of a value -/

def hexDigit (n : Nat) : Char := if n < 10 then Char.ofNat (48 + n) else Char.ofNat (87 + n)

/-- One character of a JSON string, as `serde_json` writes it. -/
def escapeChar (c : Char) : List Char :=
  if c = '"' then ['\\', '"']
  else if c = '\\' then ['\\', '\\']
  else if c = '\n' then ['\\', 'n']
  else if c = '\r' then ['\\', 'r']
  else if c = '\t' then ['\\', 't']
  else if c.toNat = 8 then ['\\', 'b']
  else if c.toNat = 12 then ['\\', 'f']
  else if c.toNat < 32 then ['\\', 'u', '0', '0', hexDigit (c.toNat / 16), hexDigit (c.toNat % 16)]
  else [c]

def quote (s : String) : String := "\"" ++ String.ofList (s.toList.flatMap escapeChar) ++ "\""

mutual
/-- `value.to_string()`: the JSON text with no space in it. -/
def to_string : Json → String
  | .null => "null"
  | .bool b => if b then "true" else "false"
  | .num n => toString n
  | .float text => text
  | .str s => quote s
  | .arr items => "[" ++ itemsText items ++ "]"
  | .obj fields => "\x7b" ++ fieldsText fields ++ "\x7d"

def itemsText : List Json → String
  | [] => ""
  | [j] => to_string j
  | j :: rest => to_string j ++ "," ++ itemsText rest

def fieldsText : List (String × Json) → String
  | [] => ""
  | [(key, j)] => quote key ++ ":" ++ to_string j
  | (key, j) :: rest => quote key ++ ":" ++ to_string j ++ "," ++ fieldsText rest
end

end Json

/-! ## SQL values -/

/-- A value of an SQL column or expression. -/
inductive SqlValue where
  | null
  | integer (n : Int)
  | real
  | text (s : String)

/-- SQLite's `json_extract(j, '$.a.b')`: text for a string, an integer for a boolean,
the JSON text for an array or an object. -/
def json_extract (j : Json) (path : List String) : SqlValue :=
  match path.foldl (fun v key => v.bind (·.get key)) (some j) with
  | none => .null
  | some .null => .null
  | some (.bool b) => .integer (if b then 1 else 0)
  | some (.num n) => if Json.inI64 n then .integer n else .real
  | some (.float _) => .real
  | some (.str s) => .text s
  | some (.arr items) => .text (Json.to_string (.arr items))
  | some (.obj fields) => .text (Json.to_string (.obj fields))

/-- `row.get::<_, Option<String>>`: no conversion from a number. -/
def SqlValue.getOptionString : SqlValue → Option (Option String)
  | .null => some none
  | .text s => some (some s)
  | .integer _ => none
  | .real => none

end PigeonMobile
