import Mathlib.Data.String.Basic
import WolfCore.Lib.Go
import WolfCore.Lib.Rfc3339

/-!
# JSON in Go's `encoding/json`

A JSON text is represented by the value it denotes; a number is the literal it is written with.

`json.Unmarshal` into a struct goes through the entries of the object in their order and stores each
value in the field that its key names.  Keys are compared without case (`names`), and a field that
is named again is stored into again (`read`): a null then leaves a number, a string or a time as it
is, and the entries of an object are added to those of a map.  A value of another kind is an error.

Every reader gives back what was written: `storeInt64_ofInt64`, `storeTime_of_marshalTime`,
`storeStringMap_ofStringMap`.
-/

namespace Go

/-- A JSON value.  How a string is written matters only for times: one that is written with an
escape is `escaped`. -/
inductive Json
  | null
  | bool (b : Bool)
  | num (literal : String)
  | str (s : String)
  | escaped (s : String)
  | arr (items : List Json)
  | obj (fields : List (String × Json))

/-- `json.RawMessage`: nil, or a JSON text. -/
abbrev Json.RawMessage := Option Json

namespace Json

variable {α : Type}

/-! ### Fields -/

/-- The entries of a value that is read into a struct: a null changes nothing. -/
def fieldsOf : Json → Option (List (String × Json))
  | .obj fields => some fields
  | .null => some []
  | _ => none

/-- A character in the form in which keys are compared.  The only characters beyond ASCII that equal
an ASCII letter are the long s and the Kelvin sign. -/
def foldChar (c : Char) : Char :=
  if 'a' ≤ c ∧ c ≤ 'z' then Char.ofNat (c.toNat - 32)
  else if c = Char.ofNat 0x17F then 'S'
  else if c = Char.ofNat 0x212A then 'K'
  else c

/-- The key of an entry names a field, whose own name is ASCII. -/
def names (key name : String) : Bool := key.toList.map foldChar = name.toList.map foldChar

/-- The values of the entries that name a field. -/
def values (fields : List (String × Json)) (name : String) : List Json :=
  (fields.filter fun f => names f.1 name).map Prod.snd

/-- Reading a field: its values are stored one after the other. -/
def read (store : α → Json → Option α) (old : α) (fields : List (String × Json)) (name : String) :
    Option α :=
  (values fields name).foldlM store old

/-- A field of type `json.RawMessage` or `any` keeps the last value, also a null. -/
def lastValue (fields : List (String × Json)) (name : String) : Option Json :=
  (values fields name).getLast?

@[simp] theorem values_nil (name : String) : values [] name = [] := rfl

@[simp] theorem values_cons (key name : String) (v : Json) (fields : List (String × Json)) :
    values ((key, v) :: fields) name =
      if names key name then v :: values fields name else values fields name := by
  unfold values
  rw [List.filter_cons]
  split_ifs <;> rfl

theorem values_append (fields fields' : List (String × Json)) (name : String) :
    values (fields ++ fields') name = values fields name ++ values fields' name := by
  simp [values]

/-- A field that is written unless it is empty. -/
def omitEmpty (isEmpty : Prop) [Decidable isEmpty] (name : String) (v : Json) :
    List (String × Json) :=
  if isEmpty then [] else [(name, v)]

theorem values_omitEmpty (isEmpty : Prop) [Decidable isEmpty] (key name : String) (v : Json) :
    values (omitEmpty isEmpty key v) name = if names key name ∧ ¬ isEmpty then [v] else [] := by
  unfold omitEmpty
  by_cases hempty : isEmpty <;> simp [hempty]

/-! ### Strings, numbers and times -/

/-- Storing in a `string`. -/
def storeString (old : String) : Json → Option String
  | .null => some old
  | .str s | .escaped s => some s
  | _ => none

/-- Storing in an `int`, `int64` or `time.Duration`. -/
def storeInt64 (old : Int64) : Json → Option Int64
  | .null => some old
  | .num literal => (atoi literal).map Int64.ofInt
  | _ => none

/-- Storing in a `time.Time`, whose `UnmarshalJSON` does not read escapes. -/
def storeTime (old : ℤ) : Json → Option ℤ
  | .null => some old
  | .str s => Rfc3339.parse s
  | _ => none

/-- An integer is written in decimal. -/
def ofInt64 (n : Int64) : Json := .num (itoa n.toInt)

/-- `Time.MarshalJSON`. -/
def marshalTime (t : ℤ) : Except Err Json :=
  if 0 ≤ Rfc3339.year t ∧ Rfc3339.year t ≤ 9999 then .ok (.str (Rfc3339.format t))
  else .error (.msg "Time.MarshalJSON: year outside of range [0,9999]")

@[simp] theorem storeString_str (old s : String) : storeString old (.str s) = some s := rfl

@[simp] theorem storeInt64_ofInt64 (old n : Int64) : storeInt64 old (ofInt64 n) = some n := by
  have hrange : -2 ^ 63 ≤ n.toInt ∧ n.toInt < 2 ^ 63 := ⟨n.le_toInt, n.toInt_lt⟩
  show (atoi (itoa n.toInt)).map Int64.ofInt = some n
  rw [atoi_itoa hrange, Option.map_some, Int64.ofInt_toInt]

theorem storeTime_of_marshalTime {t : ℤ} {v : Json} (h : marshalTime t = .ok v) (old : ℤ) :
    storeTime old v = some t := by
  unfold marshalTime at h
  split_ifs at h with hyear
  cases h
  show Rfc3339.parse (Rfc3339.format t) = some t
  rw [Rfc3339.parse_format, if_pos hyear]

-- a key in another case names the field, and a null does not reset it
example : read storeString "" [("NAME", .str "a"), ("name", .null)] "Name" = some "a" := by decide

/-! ### Maps -/

/-- `m[k] = v`, for the entries of a map in the order of their keys. -/
def insertKey (k v : String) : List (String × String) → List (String × String)
  | [] => [(k, v)]
  | (k', v') :: m =>
      if k < k' then (k, v) :: (k', v') :: m
      else if k = k' then (k, v) :: m
      else (k', v') :: insertKey k v m

/-- A `map[string]string` is written with its keys in order. -/
def ofStringMap (m : List (String × String)) : Json := .obj (m.map fun e => (e.1, .str e.2))

/-- The entries of an object that are read into a map, one after the other. -/
def readEntries : List (String × Json) → List (String × String) → Option (List (String × String))
  | [], m => some m
  | (k, v) :: fields, m => (storeString "" v).bind fun s => readEntries fields (insertKey k s m)

/-- Storing in a `map[string]string`, given by its entries in the order of their keys. -/
def storeStringMap (old : List (String × String)) : Json → Option (List (String × String))
  | .null => some []
  | .obj fields => readEntries fields old
  | _ => none

/-- The entries are in the order of their keys. -/
def Sorted (m : List (String × String)) : Prop := m.Pairwise fun e e' => e.1 < e'.1

theorem insertKey_last {k v : String} {m : List (String × String)} (h : ∀ e ∈ m, e.1 < k) :
    insertKey k v m = m ++ [(k, v)] := by
  induction m with
  | nil => rfl
  | cons e m ih =>
    have hlt : e.1 < k := h e List.mem_cons_self
    rw [insertKey, if_neg (not_lt_of_gt hlt), if_neg (ne_of_gt hlt),
      ih fun e' he' => h e' (List.mem_cons_of_mem _ he'), List.cons_append]

theorem readEntries_ofStringMap {m m' : List (String × String)} (h : Sorted (m' ++ m)) :
    readEntries (m.map fun e => (e.1, .str e.2)) m' = some (m' ++ m) := by
  induction m generalizing m' with
  | nil => simp [readEntries]
  | cons e m ih =>
    have hlast : ∀ e' ∈ m', e'.1 < e.1 := fun e' he' =>
      (List.pairwise_append.1 h).2.2 e' he' e List.mem_cons_self
    have hnext : Sorted ((m' ++ [(e.1, e.2)]) ++ m) := by simpa using h
    rw [List.map_cons, readEntries, storeString_str, Option.bind_some, insertKey_last hlast,
      ih hnext]
    simp

theorem storeStringMap_ofStringMap {m : List (String × String)} (h : Sorted m) :
    storeStringMap [] (ofStringMap m) = some m := by
  have hread := readEntries_ofStringMap (show Sorted ([] ++ m) from h)
  exact hread

end Json

end Go
