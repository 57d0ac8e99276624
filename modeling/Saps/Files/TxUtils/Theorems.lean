import Saps.Files.TextSpec

namespace Saps.Files.TxUtils

open Utf8 TextSpec

theorem scanNewlines_eq (line : Nat) (text : Str) (index seen : Nat) (h : seen < line) :
    (scanNewlines line text index seen).getD (index + byteLen text) =
      index + byteLen (text.take (lineStart (line - seen) text)) := by
  induction text generalizing index seen with
  | nil => simp [scanNewlines]
  | cons c text ih =>
      obtain ⟨left, hleft⟩ : ∃ left, line - seen = left + 1 := ⟨line - seen - 1, by omega⟩
      rw [hleft, lineStart, Nat.add_comm 1, List.take_succ_cons, byteLen_cons, byteLen_cons,
        ← Nat.add_assoc, ← Nat.add_assoc]
      unfold scanNewlines
      by_cases hc : c = '\n'
      · rw [if_pos hc, if_pos hc]
        by_cases hlast : seen + 1 = line
        · have hzero : left = 0 := by omega
          simp [hlast, hzero, lineStart]
        · have hstep := ih (index + c.utf8Size) (seen + 1) (by omega)
          have hsub : line - (seen + 1) = left := by omega
          rw [if_neg hlast, hstep, hsub]
      · have hstep := ih (index + c.utf8Size) seen h
        rw [if_neg hc, if_neg hc, hstep, hleft]

theorem lineStartByte_eq (text : Str) (line : Nat) :
    lineStartByte text line = byteLen (text.take (lineStart line text)) := by
  unfold lineStartByte
  by_cases h : line = 0
  · simp [h, lineStart]
  · have hscan := scanNewlines_eq line text 0 0 (by omega)
    rw [if_neg h]
    simpa using hscan

theorem advance_eq (byte : Nat) (run : Str) : advance byte run = byte + byteLen run := by
  unfold advance
  induction run generalizing byte with
  | nil => rfl
  | cons c run ih => rw [List.foldl_cons, ih, byteLen_cons, Nat.add_assoc]

-- Below 4 GiB every offset fits the 32 bits that `yrs` takes.
theorem toNat_toUInt32 {text : Str} (hsize : byteLen text < 2 ^ 32) (count : Nat) :
    (byteLen (text.take count)).toUInt32.toNat = byteLen (text.take count) := by
  have h := byteLen_take_le text count
  rw [Nat.toUInt32, UInt32.toNat_ofNat']
  exact Nat.mod_eq_of_lt (by omega)

theorem lineColToByte_eq (text : Str) (position : CursorIndex) :
    lineColToByte text position = (byteLen (text.take (charIndex text position))).toUInt32 := by
  unfold lineColToByte charIndex
  simp only [lineStartByte_eq, advance_eq, dropBytes_byteLen_take, byteLen_take_drop]
  rw [Nat.min_eq_left (byteLen_take_le _ _), ← List.take_eq_take_min]

-- The bytes of the next `length` characters from the cursor on.
theorem byteSpan_eq {text : Str} (hsize : byteLen text < 2 ^ 32) (position : CursorIndex)
    (length : Nat) :
    byteSpan text position length =
      ((byteLen (text.take (charIndex text position))).toUInt32,
        (byteLen ((text.drop (charIndex text position)).take length)).toUInt32) := by
  unfold byteSpan
  simp only [lineColToByte_eq, toNat_toUInt32 hsize, advance_eq, dropBytes_byteLen_take]
  rw [Nat.add_sub_cancel_left]

theorem toNat_span {text : Str} (hsize : byteLen text < 2 ^ 32) (index length : Nat) :
    (byteLen ((text.drop index).take length)).toUInt32.toNat =
      byteLen ((text.drop index).take length) := by
  have h := byteLen_take_drop text index length
  have hle := byteLen_take_le text (index + length)
  rw [Nat.toUInt32, UInt32.toNat_ofNat']
  exact Nat.mod_eq_of_lt (by omega)

theorem boundary_toUInt32 {text : Str} (hsize : byteLen text < 2 ^ 32) (count : Nat) :
    Boundary text (byteLen (text.take count)).toUInt32.toNat := by
  rw [toNat_toUInt32 hsize]
  exact boundary_byteLen_take text count

theorem boundary_span {text : Str} (hsize : byteLen text < 2 ^ 32) (index length : Nat) :
    Boundary text ((byteLen (text.take index)).toUInt32.toNat +
      (byteLen ((text.drop index).take length)).toUInt32.toNat) := by
  rw [toNat_toUInt32 hsize, toNat_span hsize, byteLen_take_drop]
  exact boundary_byteLen_take text (index + length)

-- An empty span covers no characters.
theorem replace_empty_span {text : Str} (hsize : byteLen text < 2 ^ 32) (index length : Nat)
    (hempty : ¬0 < (byteLen ((text.drop index).take length)).toUInt32) :
    replace text index length [] = text := by
  rw [UInt32.lt_iff_toNat_lt, toNat_span hsize, UInt32.toNat_zero] at hempty
  have hnil := byteLen_eq_zero ((text.drop index).take length) (by omega)
  have hdrop := List.take_append_drop length (text.drop index)
  rw [hnil, List.nil_append, List.drop_drop] at hdrop
  rw [replace_eq, hdrop, List.append_nil, List.take_append_drop]

variable {Doc : Type} [Yrs Doc] [LawfulYrs Doc]

theorem getString_insertText (doc : Doc) (position : CursorIndex) (content : Str)
    (hsize : byteLen (Yrs.getString doc) < 2 ^ 32) :
    Yrs.getString (insertText (Yrs.getString doc) doc position content) =
      replace (Yrs.getString doc) (charIndex (Yrs.getString doc) position) 0 content := by
  have hsplice := splice_boundary (Yrs.getString doc) content
    (charIndex (Yrs.getString doc) position) 0
  unfold insertText
  rw [lineColToByte_eq, LawfulYrs.getString_insert _ _ _ (boundary_toUInt32 hsize _),
    toNat_toUInt32 hsize, replace_eq]
  simpa using hsplice

theorem getString_deleteRange (doc : Doc) (position : CursorIndex) (length : Nat)
    (hsize : byteLen (Yrs.getString doc) < 2 ^ 32) :
    Yrs.getString (deleteRange (Yrs.getString doc) doc position length) =
      replace (Yrs.getString doc) (charIndex (Yrs.getString doc) position) length [] := by
  simp only [deleteRange, byteSpan_eq hsize]
  split
  · rw [LawfulYrs.getString_removeRange _ _ _ (boundary_toUInt32 hsize _)
      (boundary_span hsize _ _), toNat_toUInt32 hsize, toNat_span hsize, splice_boundary,
      replace_eq]
  · next hempty => rw [replace_empty_span hsize _ _ hempty]

-- An edit of the document is the edit of its characters.
theorem getString_applyDoc (edit : Edit) (doc : Doc)
    (hsize : byteLen (Yrs.getString doc) < 2 ^ 32) :
    Yrs.getString (edit.applyDoc doc) = applyEdit (Yrs.getString doc) edit := by
  cases edit with
  | insert position content =>
      rcases content with _ | ⟨first, _ | ⟨second, rest⟩⟩
      · simp [Edit.applyDoc, applyEdit, replace_eq]
      · exact getString_insertText doc position [first] hsize
      · exact getString_insertText doc position (first :: second :: rest) hsize
  | delete position length =>
      rcases length with _ | _ | length
      · simp [Edit.applyDoc, applyEdit, replace_eq]
      · exact getString_deleteRange doc position 1 hsize
      · exact getString_deleteRange doc position (length + 2) hsize

theorem getString_applyOperation (operation : Operation) (doc : Doc)
    (hsize : byteLen (Yrs.getString doc) < 2 ^ 32) :
    Yrs.getString (Edit.applyAll doc operation.edits) =
      TextSpec.apply (Yrs.getString doc) operation := by
  rw [apply_eq_edits]
  cases operation with
  | insert position content => exact getString_applyDoc (.insert position content) doc hsize
  | delete position length => exact getString_applyDoc (.delete position length) doc hsize
  | swap position length content =>
      have hdelete := getString_applyDoc (.delete position length) doc hsize
      have hsmaller := byteLen_replace_nil_le (Yrs.getString doc)
        (charIndex (Yrs.getString doc) position) length
      have hinsert := getString_applyDoc (.insert position content)
        ((Edit.delete position length).applyDoc doc) (by
          rw [hdelete]
          exact Nat.lt_of_le_of_lt hsmaller hsize)
      rw [hdelete] at hinsert
      exact hinsert

end Saps.Files.TxUtils
