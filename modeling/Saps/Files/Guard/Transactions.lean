import Saps.Files.Guard
import Saps.Files.OpLog
import Saps.Files.Recorded
import Saps.Files.TxUtils.Theorems

namespace Saps.Files.MemFileGuard

open TextSpec Utf8 Recorded

variable {Doc : Type} [Yrs Doc] {Store : Type} [FileIo Store]

-- A transaction on a path runs its edits on the path's buffer and puts it back.
theorem applyTransaction_eq (guard loaded : MemFileGuard Doc) (store mid : Store)
    (path : Path .file) (transaction : Transaction) (file : MemFile Doc)
    (hload : guard.getFile store path = (.ok file, loaded, mid)) :
    guard.applyTransaction store path transaction =
      match file.applyEdits mid transaction.edits with
      | (.ok (), buffer, after) =>
        (buffer.encodeDiff file.stateVector, loaded.putFile path buffer, after)
      | (.error error, buffer, after) => (.error error, loaded.putFile path buffer, after) := by
  have hrun := MemFile.applyTransactionOps_eq file mid transaction.operations
  simp only [applyTransaction, hload, hrun]
  rfl

-- While the store takes its writes, a transaction makes all of its edits.
theorem applyTransaction_ok [LawfulYrs Doc] (guard loaded : MemFileGuard Doc)
    (store mid : Store) (path : Path .file) (transaction : Transaction) (file : MemFile Doc)
    (hload : guard.getFile store path = (.ok file, loaded, mid))
    (hwrite : ∀ (store : Store) data, (FileIo.writeFile store file.path data).1 = .ok ()) :
    ∃ update buffer after, guard.applyTransaction store path transaction =
      (.ok update, loaded.putFile path buffer, after) ∧
        MemFile.Stays file.path file.flushOnDrop mid
          (Edit.applyAll file.doc transaction.edits) (.ok (), buffer, after) := by
  have hok := MemFile.applyEdits_ok file mid transaction.edits hwrite
  obtain ⟨made, _, hstays, hmade⟩ := MemFile.applyEdits_stays file mid transaction.edits
  obtain rfl := hmade hok
  rw [applyTransaction_eq guard loaded store mid path transaction file hload]
  rcases hresult : file.applyEdits mid transaction.edits with ⟨result, buffer, after⟩
  rw [hresult] at hok hstays
  obtain rfl : result = .ok () := hok
  obtain ⟨update, hupdate⟩ := LawfulYrs.encodeDiff_stateVector buffer.doc file.doc
  refine ⟨update, buffer, after, ?_, hstays⟩
  simp only [MemFile.encodeDiff, MemFile.stateVector, hupdate]

theorem applyAll_append (doc : Doc) (front back : List Edit) :
    Edit.applyAll doc (front ++ back) = Edit.applyAll (Edit.applyAll doc front) back :=
  List.foldl_append

-- The document of a buffer under a transaction holds what the operations mean.
theorem getString_applyOperations [LawfulYrs Doc] (doc : Doc) (operations : List Operation)
    (hsize : ∀ front, front <+: operations →
      byteLen (TextSpec.applyAll (Yrs.getString doc) front) < 2 ^ 32) :
    Yrs.getString (Edit.applyAll doc (operations.flatMap Operation.edits)) =
      TextSpec.applyAll (Yrs.getString doc) operations := by
  induction operations generalizing doc with
  | nil => rfl
  | cons operation operations ih =>
      have hhead := TxUtils.getString_applyOperation operation doc (hsize [] List.nil_prefix)
      rw [List.flatMap_cons, applyAll_append, ih, hhead]
      · rfl
      · intro front hfront
        rw [hhead]
        exact hsize (operation :: front) (List.prefix_cons_inj operation |>.mpr hfront)

theorem insertText_aligns (recorded : Recorded Doc) (position : CursorIndex) (content : Str)
    (hsize : byteLen (Yrs.getString recorded) < 2 ^ 32) :
    Aligns recorded
      (TxUtils.insertText (Yrs.getString recorded) recorded position content) := by
  refine ⟨[.insert (Yrs.getString recorded) _ content], rfl, ?_⟩
  intro call hcall
  obtain rfl := List.mem_singleton.mp hcall
  unfold YrsCall.Aligned
  rw [TxUtils.lineColToByte_eq]
  exact TxUtils.boundary_toUInt32 hsize _

theorem deleteRange_aligns (recorded : Recorded Doc) (position : CursorIndex) (length : Nat)
    (hsize : byteLen (Yrs.getString recorded) < 2 ^ 32) :
    Aligns recorded
      (TxUtils.deleteRange (Yrs.getString recorded) recorded position length) := by
  simp only [TxUtils.deleteRange, TxUtils.byteSpan_eq hsize]
  split
  · refine ⟨[.removeRange (Yrs.getString recorded) _ _], rfl, ?_⟩
    intro call hcall
    obtain rfl := List.mem_singleton.mp hcall
    exact ⟨TxUtils.boundary_toUInt32 hsize _, TxUtils.boundary_span hsize _ _⟩
  · exact .refl recorded

theorem applyDoc_aligns (edit : Edit) (recorded : Recorded Doc)
    (hsize : byteLen (Yrs.getString recorded) < 2 ^ 32) :
    Aligns recorded (edit.applyDoc recorded) := by
  cases edit with
  | insert position content =>
      match content with
      | [] => exact .refl recorded
      | [character] => exact insertText_aligns recorded position [character] hsize
      | first :: second :: rest =>
          exact insertText_aligns recorded position (first :: second :: rest) hsize
  | delete position length =>
      match length with
      | 0 => exact .refl recorded
      | 1 => exact deleteRange_aligns recorded position 1 hsize
      | length + 2 => exact deleteRange_aligns recorded position (length + 2) hsize

theorem applyOperation_aligns [LawfulYrs Doc] (operation : Operation) (recorded : Recorded Doc)
    (hsize : byteLen (Yrs.getString recorded) < 2 ^ 32) :
    Aligns recorded (Edit.applyAll recorded operation.edits) := by
  cases operation with
  | insert position content => exact applyDoc_aligns (.insert position content) recorded hsize
  | delete position length => exact applyDoc_aligns (.delete position length) recorded hsize
  | swap position length content =>
      have hdelete := TxUtils.getString_applyDoc (.delete position length) recorded hsize
      have hsmaller := byteLen_replace_nil_le (Yrs.getString recorded)
        (charIndex (Yrs.getString recorded) position) length
      refine (applyDoc_aligns (.delete position length) recorded hsize).trans
        (applyDoc_aligns (.insert position content) _ ?_)
      rw [hdelete]
      exact Nat.lt_of_le_of_lt hsmaller hsize

theorem applyOperations_aligns [LawfulYrs Doc] (recorded : Recorded Doc)
    (operations : List Operation)
    (hsize : ∀ front, front <+: operations →
      byteLen (TextSpec.applyAll (Yrs.getString recorded) front) < 2 ^ 32) :
    Aligns recorded (Edit.applyAll recorded (operations.flatMap Operation.edits)) := by
  induction operations generalizing recorded with
  | nil => exact .refl recorded
  | cons operation operations ih =>
      have hstart := hsize [] List.nil_prefix
      have hhead := TxUtils.getString_applyOperation operation recorded hstart
      rw [List.flatMap_cons, applyAll_append]
      refine (applyOperation_aligns operation recorded hstart).trans (ih _ ?_)
      intro front hfront
      rw [hhead]
      exact hsize (operation :: front) (List.prefix_cons_inj operation |>.mpr hfront)

-- A transaction leaves the buffer with what its operations mean, one after the
-- other, and hands only character boundaries to `yrs`.
theorem applyTransaction_correct [LawfulYrs Doc] (guard loaded : MemFileGuard (Recorded Doc))
    (store mid : Store) (path : Path .file) (transaction : Transaction)
    (file : MemFile (Recorded Doc))
    (hload : guard.getFile store path = (.ok file, loaded, mid))
    (hwrite : ∀ (store : Store) data, (FileIo.writeFile store file.path data).1 = .ok ())
    (hsize : ∀ front, front <+: transaction.operations →
      byteLen (TextSpec.applyAll file.contents front) < 2 ^ 32) :
    ∃ update after stored buffer,
      guard.applyTransaction store path transaction = (.ok update, after, stored) ∧
        after.fileMap.lookup path.key = some buffer ∧
        buffer.contents = TextSpec.applyAll file.contents transaction.operations ∧
        ∃ made, buffer.doc.calls = file.doc.calls ++ made ∧ ∀ call ∈ made, call.Aligned := by
  obtain ⟨update, buffer, stored, heq, hstays⟩ :=
    applyTransaction_ok guard loaded store mid path transaction file hload hwrite
  refine ⟨update, loaded.putFile path buffer, stored, buffer, heq, ?_, ?_, ?_⟩
  · simp [putFile]
  · unfold MemFile.contents
    rw [hstays.doc]
    exact getString_applyOperations file.doc transaction.operations hsize
  · rw [hstays.doc]
    exact applyOperations_aligns file.doc transaction.operations hsize

-- The newline becomes `bc`, behind a character of two bytes.
theorem applyTransaction_correct_swap :
    let path : Path .file := Path.new ['a']
    let text : Str := ['é', '\n', 'x']
    let store : BlockingMemIo := ⟨HashMap.new.insert path.key text⟩
    let guard : MemFileGuard (Recorded OpLog) := .new
    let transaction : Transaction := ⟨[.swap ⟨1, 0⟩ 1 ['b', 'c']]⟩
    ∃ update after stored buffer,
      guard.applyTransaction store path transaction = (.ok update, after, stored) ∧
        after.fileMap.lookup path.key = some buffer ∧
        buffer.contents = TextSpec.applyAll text transaction.operations ∧
        ∃ made, buffer.doc.calls = [.insert [] 0 text] ++ made ∧
          ∀ call ∈ made, call.Aligned := by
  intro path text store guard transaction
  refine applyTransaction_correct guard _ store store path transaction
    (MemFile.fromString path text) rfl (fun _ _ => rfl) ?_
  intro front hfront
  rcases List.prefix_cons_iff.mp hfront with rfl | ⟨rest, rfl, hrest⟩
  · decide
  · obtain rfl := List.prefix_nil.mp hrest
    decide

end Saps.Files.MemFileGuard
