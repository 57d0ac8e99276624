import Mathlib.Data.List.DropRight
import Mathlib.Data.List.TakeWhile

-- Lists trimmed at both ends, and cut at the first place an item stands.
namespace Trim

variable {α : Type*}

def trim (blank : α → Bool) (items : List α) : List α :=
  (items.dropWhile blank).rdropWhile blank

theorem dropWhile_pivot {blank : α → Bool} {pivot : α} (h : blank pivot = false)
    (front back : List α) :
    (front ++ pivot :: back).dropWhile blank = front.dropWhile blank ++ pivot :: back := by
  induction front with
  | nil => simp [h]
  | cons first front ih =>
      by_cases hfirst : blank first = true
      · simp [hfirst, ih]
      · simp [hfirst]

theorem rdropWhile_pivot {blank : α → Bool} {pivot : α} (h : blank pivot = false)
    (front back : List α) :
    (front ++ pivot :: back).rdropWhile blank = front ++ pivot :: back.rdropWhile blank := by
  simp [List.rdropWhile, dropWhile_pivot h]

-- What is no blank parts the two ends.
theorem trim_pivot {blank : α → Bool} {pivot : α} (h : blank pivot = false)
    (front back : List α) :
    trim blank (front ++ pivot :: back) =
      front.dropWhile blank ++ pivot :: back.rdropWhile blank := by
  rw [trim, dropWhile_pivot h, rdropWhile_pivot h]

theorem trim_blank {blank : α → Bool} {items : List α} (h : ∀ item ∈ items, blank item = true) :
    trim blank items = [] := by
  simp [trim, List.dropWhile_eq_nil_iff.mpr h]

-- Trimming one end first does not matter.
theorem trim_dropWhile (blank : α → Bool) (items : List α) :
    trim blank (items.dropWhile blank) = trim blank items := by
  simp [trim, List.dropWhile_idempotent]

theorem trim_rdropWhile (blank : α → Bool) (items : List α) :
    trim blank (items.rdropWhile blank) = trim blank items := by
  by_cases h : ∀ item ∈ items, blank item = true
  · rw [List.rdropWhile_eq_nil_iff.mpr h, trim_blank h]
    rfl
  · push Not at h
    obtain ⟨pivot, hmem, hpivot⟩ := h
    obtain ⟨front, back, rfl⟩ := List.append_of_mem hmem
    have hblank : blank pivot = false := by simpa using hpivot
    rw [rdropWhile_pivot hblank, trim_pivot hblank, trim_pivot hblank, List.rdropWhile_idempotent]

theorem trim_subset (blank : α → Bool) (items : List α) : trim blank items ⊆ items :=
  List.Subset.trans (List.rdropWhile_prefix _ _).subset (List.dropWhile_suffix _).subset

theorem trim_plain {blank : α → Bool} {items : List α} (h : ∀ item ∈ items, blank item = false) :
    trim blank items = items := by
  cases items with
  | nil => rfl
  | cons first items =>
      have hfirst : blank first = false := h first List.mem_cons_self
      rw [trim, List.dropWhile_cons_of_neg (by simp [hfirst]), List.rdropWhile_eq_self_iff]
      intro hne hlast
      rw [h _ (List.getLast_mem hne)] at hlast
      contradiction

-- Blanks at the ends do not matter.
theorem trim_between {blank : α → Bool} {before after : List α}
    (hbefore : ∀ item ∈ before, blank item = true) (hafter : ∀ item ∈ after, blank item = true)
    (items : List α) : trim blank (before ++ (items ++ after)) = trim blank items := by
  have hfront : (before ++ (items ++ after)).dropWhile blank = (items ++ after).dropWhile blank :=
    List.dropWhile_append_of_pos hbefore
  have hback : (items ++ after).rdropWhile blank = items.rdropWhile blank := by
    rw [List.rdropWhile, List.reverse_append, List.dropWhile_append_of_pos, ← List.rdropWhile]
    intro item hitem
    exact hafter item (List.mem_reverse.mp hitem)
  calc trim blank (before ++ (items ++ after)) = trim blank (items ++ after) := by
        rw [← trim_dropWhile, hfront, trim_dropWhile]
    _ = trim blank items := by
        rw [← trim_rdropWhile, hback, trim_rdropWhile]

-- And nothing else is taken away.
theorem exists_trim (blank : α → Bool) (items : List α) :
    ∃ before after, items = before ++ (trim blank items ++ after) ∧
      (∀ item ∈ before, blank item = true) ∧ ∀ item ∈ after, blank item = true := by
  refine ⟨items.takeWhile blank, (items.dropWhile blank).rtakeWhile blank, ?_,
    fun item hitem => List.mem_takeWhile_imp hitem, fun item hitem => List.mem_rtakeWhile_imp hitem⟩
  rw [trim, List.rdropWhile_append_rtakeWhile, List.takeWhile_append_dropWhile]

theorem trim_trim (blank : α → Bool) (items : List α) :
    trim blank (trim blank items) = trim blank items := by
  obtain ⟨before, after, hitems, hbefore, hafter⟩ := exists_trim blank items
  calc trim blank (trim blank items) = trim blank (before ++ (trim blank items ++ after)) :=
        (trim_between hbefore hafter _).symm
    _ = trim blank items := by rw [← hitems]

variable [DecidableEq α]

def splitOnce (separator : α) (items : List α) : Option (List α × List α) :=
  if separator ∈ items then
    some (items.takeWhile (· ≠ separator), (items.dropWhile (· ≠ separator)).tail)
  else none

theorem splitOnce_pivot {separator : α} {front : List α} (h : separator ∉ front) (back : List α) :
    splitOnce separator (front ++ separator :: back) = some (front, back) := by
  have hfront : ∀ item ∈ front, decide (item ≠ separator) = true := by
    intro item hitem
    have hne : item ≠ separator := fun heq => h (heq ▸ hitem)
    simpa using hne
  rw [splitOnce, if_pos (by simp), List.takeWhile_append_of_pos hfront,
    List.dropWhile_append_of_pos hfront]
  simp

theorem splitOnce_missing {separator : α} {items : List α} (h : separator ∉ items) :
    splitOnce separator items = none :=
  if_neg h

theorem splitOnce_some {separator : α} {items front back : List α}
    (h : splitOnce separator items = some (front, back)) :
    items = front ++ separator :: back ∧ separator ∉ front := by
  by_cases hmem : separator ∈ items
  · obtain ⟨first, rest, rfl, hfirst⟩ := List.eq_append_cons_of_mem hmem
    rw [splitOnce_pivot hfirst] at h
    obtain ⟨rfl, rfl⟩ := Prod.mk.inj (Option.some.inj h)
    exact ⟨rfl, hfirst⟩
  · rw [splitOnce_missing hmem] at h
    cases h

end Trim
