import Saps.Auth.Jsonb

namespace Saps.Auth.Jsonb

-- Neither an array nor an object.
def isScalar : Jsonb → Bool
  | .array _ => false
  | .object _ => false
  | _ => true

-- What `jsonb` can hold: an object has its keys once, in the order of the store.
inductive Valid : Jsonb → Prop where
  | scalar {json : Jsonb} (h : json.isScalar = true) : Valid json
  | array {items : List Jsonb} (hitems : ∀ item ∈ items, Valid item) : Valid (.array items)
  | object {fields : List (Str × Jsonb)} (hkeys : fields.Pairwise fun a b => keyLt a.1 b.1 = true)
      (hfields : ∀ field ∈ fields, Valid field.2) : Valid (.object fields)

mutual

-- `whole @> part`, below the top level. At the top level an array also
-- contains a scalar that is one of its items.
def contains (whole : Jsonb) : Jsonb → Bool
  | .array parts =>
    match whole with
    | .array items => containsItems items parts
    | _ => false
  | .object parts =>
    match whole with
    | .object fields => containsFields fields parts
    | _ => false
  | .null => decide (whole = .null)
  | .bool value => decide (whole = .bool value)
  | .number value => decide (whole = .number value)
  | .string value => decide (whole = .string value)

def containsItems (items : List Jsonb) : List Jsonb → Bool
  | [] => true
  | part :: parts => items.any (fun item => contains item part) && containsItems items parts

def containsFields (fields : List (Str × Jsonb)) : List (Str × Jsonb) → Bool
  | [] => true
  | (key, part) :: parts =>
    (fields.lookup key).any (fun held => contains held part) && containsFields fields parts

end

theorem contains_scalar {part : Jsonb} (h : part.isScalar = true) (whole : Jsonb) :
    whole.contains part = decide (whole = part) := by
  cases part with
  | null | bool | number | string => rw [contains]
  | array | object => simp [isScalar] at h

theorem containsItems_iff (items parts : List Jsonb) :
    containsItems items parts = true ↔
      ∀ part ∈ parts, ∃ item ∈ items, item.contains part = true := by
  induction parts with
  | nil => simp [containsItems]
  | cons part parts ih => simp [containsItems, ih]

theorem containsFields_iff (fields parts : List (Str × Jsonb)) :
    containsFields fields parts = true ↔
      ∀ part ∈ parts, ∃ held, fields.lookup part.1 = some held ∧
        held.contains part.2 = true := by
  induction parts with
  | nil => simp [containsFields]
  | cons part parts ih =>
      obtain ⟨key, part⟩ := part
      simp [containsFields, ih, Option.any_eq_true]

theorem array_contains (items parts : List Jsonb) :
    (Jsonb.array items).contains (.array parts) = true ↔
      ∀ part ∈ parts, ∃ item ∈ items, item.contains part = true := by
  rw [contains]
  exact containsItems_iff items parts

theorem object_contains (fields parts : List (Str × Jsonb)) :
    (Jsonb.object fields).contains (.object parts) = true ↔
      ∀ part ∈ parts, ∃ held, fields.lookup part.1 = some held ∧
        held.contains part.2 = true := by
  rw [contains]
  exact containsFields_iff fields parts

theorem keyLt_irrefl (key : Str) : keyLt key key = false := by
  simp [keyLt]

theorem keyLt_of_byteLen {left right : Str} (h : Utf8.byteLen left < Utf8.byteLen right) :
    keyLt left right = true := by
  simp [keyLt, h]

-- Each key of the store is found with the value that stands beside it.
theorem lookup_of_sorted {fields : List (Str × Jsonb)}
    (hkeys : fields.Pairwise fun a b => keyLt a.1 b.1 = true) :
    ∀ field ∈ fields, fields.lookup field.1 = some field.2 := by
  induction fields with
  | nil => simp
  | cons first rest ih =>
      obtain ⟨hfirst, hrest⟩ := List.pairwise_cons.mp hkeys
      obtain ⟨firstKey, firstValue⟩ := first
      intro field hmem
      rcases List.mem_cons.mp hmem with rfl | hmem
      · rw [List.lookup_cons, beq_self_eq_true]
      · have hne : (field.1 == firstKey) = false := by
          refine beq_eq_false_iff_ne.mpr fun heq => ?_
          have hlt := hfirst field hmem
          rw [heq, keyLt_irrefl] at hlt
          cases hlt
        rw [List.lookup_cons, hne]
        exact ih hrest field hmem

-- What an extended object held before, it still holds.
theorem lookup_append_of_some {fields : List (Str × Jsonb)} {key : Str} {held : Jsonb}
    (h : fields.lookup key = some held) (more : List (Str × Jsonb)) :
    (fields ++ more).lookup key = some held := by
  rw [List.lookup_append, h]
  rfl

theorem contains_self {json : Jsonb} (h : json.Valid) : json.contains json = true := by
  induction h with
  | scalar h => simp [contains_scalar h]
  | array _ ih => exact (array_contains _ _).mpr fun part hpart => ⟨part, hpart, ih part hpart⟩
  | object hkeys _ ih =>
      exact (object_contains _ _).mpr fun part hpart =>
        ⟨part.2, lookup_of_sorted hkeys part hpart, ih part hpart⟩

-- The number of bytes of the longest key.
def longest (fields : List (Str × Jsonb)) : Nat :=
  fields.foldr (fun field bound => max (Utf8.byteLen field.1) bound) 0

theorem byteLen_le_longest (fields : List (Str × Jsonb)) :
    ∀ field ∈ fields, Utf8.byteLen field.1 ≤ longest fields := by
  induction fields with
  | nil => simp
  | cons first rest ih =>
      intro field hmem
      simp only [longest, List.foldr_cons]
      rcases List.mem_cons.mp hmem with rfl | hmem
      · omega
      · have := ih field hmem
        simp only [longest] at this
        omega

-- A key that no field has yet and that the store puts last.
def freshKey (fields : List (Str × Jsonb)) : Str :=
  List.replicate (longest fields + 1) 'x'

theorem byteLen_replicate (count : Nat) : Utf8.byteLen (List.replicate count 'x') = count := by
  induction count with
  | zero => rfl
  | succ count ih =>
      have hsize : 'x'.utf8Size = 1 := by decide
      rw [List.replicate_succ, Utf8.byteLen_cons, ih, hsize]
      omega

-- A value with one more field, or one more item.
def extended : Jsonb → Jsonb
  | .array items => .array (.null :: items)
  | .object fields => .object (fields ++ [(freshKey fields, .null)])
  | json => json

theorem extended_valid {json : Jsonb} (h : json.Valid) : json.extended.Valid := by
  cases h with
  | @scalar json h =>
      have hsame : json.extended = json := by
        cases json with
        | null | bool | number | string => rfl
        | array | object => simp [isScalar] at h
      rw [hsame]
      exact .scalar h
  | array hitems =>
      refine .array fun item hitem => ?_
      rcases List.mem_cons.mp hitem with rfl | hitem
      · exact .scalar rfl
      · exact hitems item hitem
  | @object fields hkeys hfields =>
      refine .object (List.pairwise_append.mpr ⟨hkeys, by simp, fun field hfield last hlast => ?_⟩)
        fun field hfield => ?_
      · rw [List.mem_singleton.mp hlast]
        apply keyLt_of_byteLen
        have := byteLen_le_longest fields field hfield
        rw [freshKey, byteLen_replicate]
        omega
      · rcases List.mem_append.mp hfield with hfield | hfield
        · exact hfields field hfield
        · rw [List.mem_singleton.mp hfield]
          exact .scalar rfl

theorem extended_contains {json : Jsonb} (h : json.Valid) :
    json.extended.contains json = true := by
  cases h with
  | @scalar json h =>
      rw [contains_scalar h]
      cases json with
      | null | bool | number | string => simp [extended]
      | array | object => simp [isScalar] at h
  | array hitems =>
      exact (array_contains _ _).mpr fun part hpart =>
        ⟨part, List.mem_cons_of_mem _ hpart, contains_self (hitems part hpart)⟩
  | object hkeys hfields =>
      exact (object_contains _ _).mpr fun part hpart =>
        ⟨part.2, lookup_append_of_some (lookup_of_sorted hkeys part hpart) _,
          contains_self (hfields part hpart)⟩

theorem extended_ne {json : Jsonb} (h : json.isScalar = false) : json.extended ≠ json := by
  cases json with
  | null | bool | number | string => simp [isScalar] at h
  | array items =>
      intro heq
      have := congrArg List.length (Jsonb.array.inj heq)
      simp at this
  | object fields =>
      intro heq
      have := congrArg List.length (Jsonb.object.inj heq)
      simp at this

-- Nothing but the value itself contains a scalar, and something else contains
-- every other value.
theorem contained_only_iff {part : Jsonb} (h : part.Valid) :
    (∀ whole : Jsonb, whole.Valid → whole.contains part = true → whole = part) ↔
      part.isScalar = true := by
  constructor
  · intro honly
    by_contra hscalar
    have hne := extended_ne (Bool.eq_false_iff.mpr hscalar)
    exact hne (honly _ (extended_valid h) (extended_contains h))
  · intro hscalar whole _ hcontains
    simpa [contains_scalar hscalar] using hcontains

end Saps.Auth.Jsonb
