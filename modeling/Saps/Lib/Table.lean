import Mathlib.Data.List.Nodup

-- Rows with a key, in no particular order.
namespace Table

variable {ρ κ : Type*} [DecidableEq κ] (key : ρ → κ)

-- `UPDATE .. WHERE key = id`.
def update (id : κ) (change : ρ → ρ) (table : List ρ) : List ρ :=
  table.map fun row => if key row = id then change row else row

-- `SELECT .. WHERE key = id`.
def lookup (id : κ) (table : List ρ) : Option ρ :=
  table.find? (key · = id)

variable {key}

theorem mem_update {id : κ} {change : ρ → ρ} {table : List ρ} {left : ρ} :
    left ∈ update key id change table ↔
      (∃ row ∈ table, key row = id ∧ left = change row) ∨ (left ∈ table ∧ key left ≠ id) := by
  unfold update
  rw [List.mem_map]
  constructor
  · rintro ⟨row, hrow, rfl⟩
    by_cases h : key row = id
    · exact .inl ⟨row, hrow, h, if_pos h⟩
    · rw [if_neg h]
      exact .inr ⟨hrow, h⟩
  · rintro (⟨row, hrow, h, rfl⟩ | ⟨hleft, h⟩)
    · exact ⟨row, hrow, if_pos h⟩
    · exact ⟨left, hleft, if_neg h⟩

theorem update_keys (id : κ) {change : ρ → ρ} (hkey : ∀ row, key (change row) = key row)
    (table : List ρ) : (update key id change table).map key = table.map key := by
  unfold update
  rw [List.map_map]
  refine List.map_congr_left fun row _ => ?_
  by_cases h : key row = id
  · simp [h, hkey]
  · simp [h]

theorem update_missing {id : κ} {table : List ρ} (h : id ∉ table.map key) (change : ρ → ρ) :
    update key id change table = table := by
  refine (List.map_congr_left fun row hrow => ?_).trans (List.map_id table)
  exact if_neg fun hkey => h (List.mem_map.mpr ⟨row, hrow, hkey⟩)

theorem lookup_mem {id : κ} {table : List ρ} {row : ρ} (h : lookup key id table = some row) :
    row ∈ table ∧ key row = id := by
  refine ⟨List.mem_of_find?_eq_some h, ?_⟩
  simpa using List.find?_some h

theorem lookup_none {id : κ} {table : List ρ} :
    lookup key id table = none ↔ id ∉ table.map key := by
  simp [lookup, List.find?_eq_none]

-- Where the keys are unique a row is found by its own.
theorem lookup_of_mem {table : List ρ} (hkeys : (table.map key).Nodup) {row : ρ}
    (hrow : row ∈ table) : lookup key (key row) table = some row := by
  cases h : lookup key (key row) table with
  | none => exact absurd (List.mem_map_of_mem hrow) (lookup_none.mp h)
  | some found =>
      obtain ⟨hfound, hkey⟩ := lookup_mem h
      rw [List.inj_on_of_nodup_map hkeys hfound hrow hkey]

theorem lookup_update (id other : κ) {change : ρ → ρ} (hkey : ∀ row, key (change row) = key row)
    (table : List ρ) : lookup key other (update key id change table) =
      (lookup key other table).map fun row => if key row = id then change row else row := by
  unfold lookup update
  rw [List.find?_map]
  congr 2
  funext row
  by_cases h : key row = id
  · simp [h, hkey]
  · simp [h]

-- Fewer elements have the stronger property if one has only the weaker.
theorem countP_lt {strong weak : ρ → Bool} {items : List ρ}
    (hle : ∀ item ∈ items, strong item = true → weak item = true) {item : ρ} (hitem : item ∈ items)
    (hweak : weak item = true) (hstrong : strong item = false) :
    items.countP strong < items.countP weak := by
  obtain ⟨front, back, rfl⟩ := List.append_of_mem hitem
  have hfront : front.countP strong ≤ front.countP weak :=
    List.countP_mono_left fun other hother => hle other (by simp [hother])
  have hback : back.countP strong ≤ back.countP weak :=
    List.countP_mono_left fun other hother => hle other (by simp [hother])
  simp only [List.countP_append, List.countP_cons, hweak, hstrong]
  simp
  omega

end Table
