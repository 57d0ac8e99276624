import Saps.Auth.Text
import Saps.Lib.Utf8
import Mathlib.Data.Rat.Defs

namespace Saps.Auth

-- A Postgres `jsonb` value. An object holds each key once, in the order in
-- which `jsonb` stores keys.
inductive Jsonb where
  | null
  | bool (value : Bool)
  | number (value : Rat)
  | string (value : Str)
  | array (items : List Jsonb)
  | object (fields : List (Str × Jsonb))

namespace Jsonb

mutual

def decEq : (left right : Jsonb) → Decidable (left = right)
  | .null, .null => isTrue rfl
  | .bool left, .bool right => decidable_of_iff (left = right) (by simp)
  | .number left, .number right => decidable_of_iff (left = right) (by simp)
  | .string left, .string right => decidable_of_iff (left = right) (by simp)
  | .array left, .array right =>
    match decEqItems left right with
    | isTrue h => isTrue (by rw [h])
    | isFalse h => isFalse (by simpa using h)
  | .object left, .object right =>
    match decEqFields left right with
    | isTrue h => isTrue (by rw [h])
    | isFalse h => isFalse (by simpa using h)
  | .null, .bool _ | .null, .number _ | .null, .string _ | .null, .array _ | .null, .object _
  | .bool _, .null | .bool _, .number _ | .bool _, .string _ | .bool _, .array _
  | .bool _, .object _ | .number _, .null | .number _, .bool _ | .number _, .string _
  | .number _, .array _ | .number _, .object _ | .string _, .null | .string _, .bool _
  | .string _, .number _ | .string _, .array _ | .string _, .object _ | .array _, .null
  | .array _, .bool _ | .array _, .number _ | .array _, .string _ | .array _, .object _
  | .object _, .null | .object _, .bool _ | .object _, .number _ | .object _, .string _
  | .object _, .array _ => isFalse (by simp)

def decEqItems : (left right : List Jsonb) → Decidable (left = right)
  | [], [] => isTrue rfl
  | [], _ :: _ | _ :: _, [] => isFalse (by simp)
  | item :: left, other :: right =>
    match decEq item other, decEqItems left right with
    | isTrue hitem, isTrue hrest => isTrue (by rw [hitem, hrest])
    | isFalse hitem, _ => isFalse fun h => hitem (by simp_all)
    | _, isFalse hrest => isFalse fun h => hrest (by simp_all)

def decEqFields : (left right : List (Str × Jsonb)) → Decidable (left = right)
  | [], [] => isTrue rfl
  | [], _ :: _ | _ :: _, [] => isFalse (by simp)
  | (key, value) :: left, (key', value') :: right =>
    if hkey : key = key' then
      match decEq value value', decEqFields left right with
      | isTrue hvalue, isTrue hrest => isTrue (by rw [hkey, hvalue, hrest])
      | isFalse hvalue, _ => isFalse fun h => hvalue (by simp_all)
      | _, isFalse hrest => isFalse fun h => hrest (by simp_all)
    else isFalse fun h => hkey (by simp_all)

end

instance : DecidableEq Jsonb :=
  decEq

-- `jsonb` sorts keys by their length in bytes and then byte by byte.
def keyLt (left right : Str) : Bool :=
  Utf8.byteLen left < Utf8.byteLen right ∨
    (Utf8.byteLen left = Utf8.byteLen right ∧ left < right)

-- `target -> key`, with NULL for `none`.
def get (key : Str) : Jsonb → Option Jsonb
  | .object fields => fields.lookup key
  | _ => none

def setField (key : Str) (value : Jsonb) : List (Str × Jsonb) → List (Str × Jsonb)
  | [] => [(key, value)]
  | (key', value') :: rest =>
    if key' = key then (key, value) :: rest
    else if keyLt key key' then (key, value) :: (key', value') :: rest
    else (key', value') :: setField key value rest

-- An array takes the key for an index: past the ends it is made longer.
def setItem (index : Int) (value : Jsonb) (items : List Jsonb) : List Jsonb :=
  let fromStart := if index < 0 then items.length + index else index
  if fromStart < 0 then value :: items
  else if fromStart < items.length then items.set fromStart.toNat value
  else items ++ [value]

-- `strtoint`, which skips leading blanks.
def arrayIndex (key : Str) : Except Str Int :=
  parseInt 32 (key.dropWhile fun c => c = ' ' ∨ ('\t' ≤ c ∧ c ≤ '\r'))

-- `jsonb_set(target, ARRAY[key], value, true)`, with the SQL state of an error.
def set (target : Jsonb) (key : Str) (value : Jsonb) : Except (Str × Str) Jsonb :=
  match target with
  | .object fields => .ok (.object (setField key value fields))
  | .array items =>
    match arrayIndex key with
    | .ok index => .ok (.array (setItem index value items))
    | .error _ => .error ("22P02".toList,
        "path element at position 1 is not an integer: \"".toList ++ key ++ "\"".toList)
  | _ => .error ("22023".toList, "cannot set path in scalar".toList)

-- `target - key`. In an array it is the strings equal to `key` that go.
def remove (key : Str) : Jsonb → Except (Str × Str) Jsonb
  | .object fields => .ok (.object (fields.filter (·.1 ≠ key)))
  | .array items => .ok (.array (items.filter (· ≠ .string key)))
  | _ => .error ("22023".toList, "cannot delete from scalar".toList)

theorem lookup_setField (key : Str) (value : Jsonb) (fields : List (Str × Jsonb)) :
    (setField key value fields).lookup key = some value := by
  induction fields with
  | nil => simp [setField]
  | cons field rest ih =>
      obtain ⟨key', value'⟩ := field
      unfold setField
      split
      · simp
      · next hkey =>
        split
        · simp
        · have hne : (key == key') = false := by simpa using fun h => hkey h.symm
          rw [List.lookup_cons, hne]
          exact ih

theorem lookup_setField_ne {key other : Str} (hne : other ≠ key) (value : Jsonb)
    (fields : List (Str × Jsonb)) :
    (setField key value fields).lookup other = fields.lookup other := by
  have hkey : (other == key) = false := by simpa using hne
  induction fields with
  | nil => simp [setField, List.lookup_cons, hkey]
  | cons field rest ih =>
      obtain ⟨key', value'⟩ := field
      unfold setField
      split
      · next h => subst h; simp only [List.lookup_cons, hkey]
      · split
        · simp only [List.lookup_cons, hkey]
        · simp only [List.lookup_cons, ih]

end Jsonb

end Saps.Auth
