import Saps.Files.Edits

-- What a transaction means: a text is its characters, and a cursor is one of
-- their positions.
namespace Saps.Files.TextSpec

-- The position just past the newline that ends line `line - 1`, or the end of
-- the text when there is no such line.
def lineStart : Nat → Str → Nat
  | 0, _ => 0
  | _ + 1, [] => 0
  | line + 1, c :: text => 1 + lineStart (if c = '\n' then line else line + 1) text

def charIndex (text : Str) (position : CursorIndex) : Nat :=
  min (lineStart position.line text + position.col) text.length

-- The next `length` characters from `index` on, or as many as remain, become `content`.
def replace (text : Str) (index length : Nat) (content : Str) : Str :=
  text.take index ++ content ++ text.drop (index + min length (text.length - index))

def apply (text : Str) : Operation → Str
  | .insert position content => replace text (charIndex text position) 0 content
  | .delete position length => replace text (charIndex text position) length []
  | .swap position length content => replace text (charIndex text position) length content

def applyAll (text : Str) (operations : List Operation) : Str :=
  operations.foldl apply text

-- An insert and a delete alone.
def applyEdit (text : Str) : Edit → Str
  | .insert position content => replace text (charIndex text position) 0 content
  | .delete position length => replace text (charIndex text position) length []

theorem charIndex_le (text : Str) (position : CursorIndex) :
    charIndex text position ≤ text.length :=
  Nat.min_le_right _ _

-- Deleting past the end deletes what remains.
theorem replace_eq (text : Str) (index length : Nat) (content : Str) :
    replace text index length content =
      text.take index ++ content ++ text.drop (index + length) := by
  unfold replace
  by_cases h : length ≤ text.length - index
  · rw [Nat.min_eq_left h]
  · have hmin : min length (text.length - index) = text.length - index := by omega
    rw [hmin, List.drop_eq_nil_of_le (by omega : text.length ≤ index + length),
      List.drop_eq_nil_of_le (by omega : text.length ≤ index + (text.length - index))]

theorem replace_nil_at_end (text : Str) (length : Nat) :
    replace text text.length length [] = text := by
  rw [replace_eq, List.drop_eq_nil_of_le (by omega)]
  simp

-- The start of a line that the text has depends on the text before it alone.
theorem lineStart_take (line : Nat) (text rest : Str) (index : Nat)
    (hindex : lineStart line text ≤ index) (hline : lineStart line text < text.length) :
    lineStart line (text.take index ++ rest) = lineStart line text := by
  induction text generalizing line index with
  | nil => simp at hline
  | cons c text ih =>
      cases line with
      | zero => simp [lineStart]
      | succ line =>
          simp only [lineStart] at hindex hline ⊢
          obtain ⟨index, rfl⟩ : ∃ rest, index = rest + 1 := ⟨index - 1, by omega⟩
          rw [List.take_succ_cons, List.cons_append, lineStart]
          rw [ih _ _ (by omega) (by simp at hline; omega)]

-- Resolving a cursor again after a delete at it gives the same place.
theorem charIndex_delete (text : Str) (position : CursorIndex) (length : Nat) :
    charIndex (replace text (charIndex text position) length []) position =
      charIndex text position := by
  by_cases hend : charIndex text position = text.length
  · rw [hend, replace_nil_at_end, hend]
  · have hlt : charIndex text position < text.length := by
      have h := charIndex_le text position
      omega
    have hindex : charIndex text position = lineStart position.line text + position.col := by
      unfold charIndex at hlt ⊢
      omega
    have hline := lineStart_take position.line text
      (text.drop (charIndex text position + length)) (charIndex text position)
      (by omega) (by omega)
    rw [replace_eq, List.append_nil]
    unfold charIndex at hline ⊢
    rw [hline, List.length_append, List.length_take]
    omega

-- An insert where a delete was puts the content in place of what is gone.
theorem replace_delete_insert (text : Str) (index length : Nat) (content : Str)
    (hindex : index ≤ text.length) :
    replace (replace text index length []) index 0 content =
      replace text index length content := by
  have hlen : (text.take index).length = index := by simp [hindex]
  rw [replace_eq (replace _ _ _ _), replace_eq text, replace_eq text, List.append_nil,
    List.take_left' hlen, Nat.add_zero, List.drop_left' hlen]

theorem apply_eq_edits (text : Str) (operation : Operation) :
    apply text operation = operation.edits.foldl applyEdit text := by
  cases operation with
  | insert position content => rfl
  | delete position length => rfl
  | swap position length content =>
      simp only [apply, Operation.edits, List.foldl_cons, List.foldl_nil, applyEdit]
      rw [charIndex_delete, replace_delete_insert _ _ _ _ (charIndex_le text position)]

theorem byteLen_replace_nil_le (text : Str) (index length : Nat) :
    Utf8.byteLen (replace text index length []) ≤ Utf8.byteLen text := by
  rw [replace_eq, List.append_nil, Utf8.byteLen_append]
  have hwhole := Utf8.byteLen_take_add_drop text index
  have hdrop := Utf8.byteLen_take_add_drop (text.drop index) length
  rw [List.drop_drop] at hdrop
  omega

end Saps.Files.TextSpec
