import Mathlib.Data.List.Basic
import Mathlib.Algebra.Order.Ring.Nat

-- Text as a list of characters, addressed by UTF-8 byte offsets.
namespace Utf8

-- The number of bytes `text` takes in UTF-8.
def byteLen (text : List Char) : Nat :=
  (text.map Char.utf8Size).sum

-- The text from byte `offset` on. An offset inside a character skips it.
def dropBytes : Nat → List Char → List Char
  | 0, text => text
  | _ + 1, [] => []
  | offset + 1, c :: text => dropBytes (offset + 1 - c.utf8Size) text

-- The text before byte `offset`. An offset inside a character keeps it.
def takeBytes : Nat → List Char → List Char
  | 0, _ => []
  | _ + 1, [] => []
  | offset + 1, c :: text => c :: takeBytes (offset + 1 - c.utf8Size) text

-- Byte `offset` lies between two characters of `text`, or at one of its ends.
def Boundary (text : List Char) (offset : Nat) : Prop :=
  ∃ count ≤ text.length, offset = byteLen (text.take count)

-- Replaces `removed` bytes at byte `offset` by `inserted`.
def splice (text : List Char) (offset removed : Nat) (inserted : List Char) : List Char :=
  takeBytes offset text ++ inserted ++ dropBytes (offset + removed) text

@[simp] theorem byteLen_nil : byteLen [] = 0 := rfl

@[simp] theorem byteLen_cons (c : Char) (text : List Char) :
    byteLen (c :: text) = c.utf8Size + byteLen text := by
  simp [byteLen]

@[simp] theorem byteLen_append (left right : List Char) :
    byteLen (left ++ right) = byteLen left + byteLen right := by
  simp [byteLen]

theorem byteLen_eq_zero (text : List Char) (h : byteLen text = 0) : text = [] := by
  cases text with
  | nil => rfl
  | cons c text =>
      have hc := c.utf8Size_pos
      rw [byteLen_cons] at h
      omega

theorem byteLen_take_add_drop (text : List Char) (count : Nat) :
    byteLen (text.take count) + byteLen (text.drop count) = byteLen text := by
  rw [← byteLen_append, List.take_append_drop]

theorem byteLen_take_le (text : List Char) (count : Nat) :
    byteLen (text.take count) ≤ byteLen text := by
  have h := byteLen_take_add_drop text count
  omega

theorem dropBytes_byteLen_append (left right : List Char) :
    dropBytes (byteLen left) (left ++ right) = right := by
  induction left with
  | nil => simp [dropBytes]
  | cons c left ih =>
      have hc := c.utf8Size_pos
      obtain ⟨n, hn⟩ : ∃ n, byteLen (c :: left) = n + 1 :=
        ⟨byteLen (c :: left) - 1, by simp; omega⟩
      have hrest : n + 1 - c.utf8Size = byteLen left := by simp at hn; omega
      rw [hn, List.cons_append, dropBytes, hrest, ih]

theorem takeBytes_byteLen_append (left right : List Char) :
    takeBytes (byteLen left) (left ++ right) = left := by
  induction left with
  | nil => simp [takeBytes]
  | cons c left ih =>
      have hc := c.utf8Size_pos
      obtain ⟨n, hn⟩ : ∃ n, byteLen (c :: left) = n + 1 :=
        ⟨byteLen (c :: left) - 1, by simp; omega⟩
      have hrest : n + 1 - c.utf8Size = byteLen left := by simp at hn; omega
      rw [hn, List.cons_append, takeBytes, hrest, ih]

theorem dropBytes_byteLen_take (text : List Char) (count : Nat) :
    dropBytes (byteLen (text.take count)) text = text.drop count := by
  have h := dropBytes_byteLen_append (text.take count) (text.drop count)
  rwa [List.take_append_drop] at h

theorem takeBytes_byteLen_take (text : List Char) (count : Nat) :
    takeBytes (byteLen (text.take count)) text = text.take count := by
  have h := takeBytes_byteLen_append (text.take count) (text.drop count)
  rwa [List.take_append_drop] at h

theorem boundary_byteLen_take (text : List Char) (count : Nat) :
    Boundary text (byteLen (text.take count)) := by
  refine ⟨min count text.length, Nat.min_le_right _ _, ?_⟩
  rw [List.take_eq_take_min]

-- The bytes of the next `count` characters from a boundary end at a boundary.
theorem byteLen_take_drop (text : List Char) (start count : Nat) :
    byteLen (text.take start) + byteLen ((text.drop start).take count) =
      byteLen (text.take (start + count)) := by
  rw [← byteLen_append, List.take_add]

-- At character boundaries a byte splice is a splice of characters.
theorem splice_boundary (text inserted : List Char) (start count : Nat) :
    splice text (byteLen (text.take start)) (byteLen ((text.drop start).take count)) inserted =
      text.take start ++ inserted ++ text.drop (start + count) := by
  unfold splice
  rw [byteLen_take_drop, takeBytes_byteLen_take, dropBytes_byteLen_take]

end Utf8
