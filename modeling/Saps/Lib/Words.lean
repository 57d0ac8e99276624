import Mathlib.Data.List.TakeWhile

-- The words of a list: what stands between its blanks.
namespace Words

variable {α : Type*} (blank : α → Bool)

def words (items : List α) : List (List α) :=
  (items.splitOnP blank).filter fun word => !word.isEmpty

def IsGap (gap : List α) : Prop :=
  ∀ item ∈ gap, blank item = true

structure IsWord (word : List α) : Prop where
  nonempty : word ≠ []
  solid : ∀ item ∈ word, blank item = false

-- Nothing more belongs to the word in front.
def Ends (rest : List α) : Prop :=
  ∀ item ∈ rest.head?, blank item = true

variable {blank}

theorem words_blank {item : α} (h : blank item = true) (items : List α) :
    words blank (item :: items) = words blank items := by
  simp [words, List.splitOnP_cons_eq_if_modifyHead, h]

theorem words_gap {gap : List α} (h : IsGap blank gap) (items : List α) :
    words blank (gap ++ items) = words blank items := by
  induction gap with
  | nil => rfl
  | cons item gap ih =>
      rw [List.cons_append, words_blank (h item List.mem_cons_self)]
      exact ih fun other hother => h other (List.mem_cons_of_mem _ hother)

theorem words_word {word rest : List α} (h : IsWord blank word) (hends : Ends blank rest) :
    words blank (word ++ rest) = word :: words blank rest := by
  have hempty : word.isEmpty = false := by simpa using h.nonempty
  cases rest with
  | nil => simp [words, List.splitOnP_eq_singleton h.solid, List.splitOnP_nil, hempty]
  | cons separator rest =>
      have hseparator : blank separator = true := hends separator rfl
      rw [words_blank hseparator, words, words, List.splitOnP_append_cons _ _ hseparator,
        List.splitOnP_eq_singleton h.solid]
      simp [hempty]

-- Anything is a gap, or a gap in front of a word.
theorem gap_or_word (items : List α) :
    IsGap blank items ∨ ∃ gap word rest, items = gap ++ (word ++ rest) ∧ IsGap blank gap ∧
      IsWord blank word ∧ Ends blank rest := by
  have hgap : IsGap blank (items.takeWhile blank) :=
    fun item hitem => List.mem_takeWhile_imp hitem
  cases hrest : items.dropWhile blank with
  | nil => exact .inl (List.dropWhile_eq_nil_iff.mp hrest)
  | cons first rest =>
      right
      have hfirst : blank first = false := by
        have h := List.head?_dropWhile_not blank items
        rw [hrest] at h
        simpa using h
      refine ⟨items.takeWhile blank, (first :: rest).takeWhile fun item => !blank item,
        (first :: rest).dropWhile fun item => !blank item, ?_, hgap, ⟨?_, ?_⟩, ?_⟩
      · rw [List.takeWhile_append_dropWhile, ← hrest, List.takeWhile_append_dropWhile]
      · simp [hfirst]
      · intro item hitem
        simpa using List.mem_takeWhile_imp hitem
      · intro item hitem
        have h := List.head?_dropWhile_not (fun item => !blank item) (first :: rest)
        rw [Option.mem_def.mp hitem] at h
        simpa using h

-- The first word stands behind a gap, and what stands behind it has the other words.
theorem words_eq_cons_iff {items word : List α} {others : List (List α)} :
    words blank items = word :: others ↔
      ∃ gap rest, items = gap ++ (word ++ rest) ∧ IsGap blank gap ∧ IsWord blank word ∧
        Ends blank rest ∧ words blank rest = others := by
  constructor
  · intro h
    rcases gap_or_word items with hgap | ⟨gap, first, rest, rfl, hgap, hword, hends⟩
    · have hnil := words_gap hgap []
      rw [List.append_nil, h] at hnil
      cases hnil
    · rw [words_gap hgap, words_word hword hends] at h
      obtain ⟨rfl, hrest⟩ := List.cons.inj h
      exact ⟨gap, rest, rfl, hgap, hword, hends, hrest⟩
  · rintro ⟨gap, rest, rfl, hgap, hword, hends, rfl⟩
    rw [words_gap hgap, words_word hword hends]

end Words
