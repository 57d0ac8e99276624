import Saps.Files.MemFile

namespace Saps.Files

-- The two edits a buffer knows. A swap is one of each.
inductive Edit where
  | insert (position : CursorIndex) (content : Str)
  | delete (position : CursorIndex) (length : Nat)
  deriving DecidableEq, Repr

def Operation.edits : Operation → List Edit
  | .insert position content => [.insert position content]
  | .delete position length => [.delete position length]
  | .swap position length content => [.delete position length, .insert position content]

def Transaction.edits (transaction : Transaction) : List Edit :=
  transaction.operations.flatMap Operation.edits

variable {Doc : Type} [Yrs Doc] {Store : Type} [FileIo Store]

-- What an edit does to the document, its saves left out.
def Edit.applyDoc (doc : Doc) : Edit → Doc
  | .insert _ [] => doc
  | .insert position [character] =>
      TxUtils.insertChar (Yrs.getString doc) doc position character
  | .insert position content => TxUtils.insertText (Yrs.getString doc) doc position content
  | .delete _ 0 => doc
  | .delete position 1 => TxUtils.deleteChar (Yrs.getString doc) doc position
  | .delete position length => TxUtils.deleteRange (Yrs.getString doc) doc position length

def Edit.applyAll (doc : Doc) (edits : List Edit) : Doc :=
  edits.foldl Edit.applyDoc doc

-- What an edit makes of the text depends on the text alone.
theorem Edit.applyDoc_congr [LawfulYrs Doc] (edit : Edit) (doc other : Doc)
    (h : Yrs.getString doc = Yrs.getString other) :
    Yrs.getString (edit.applyDoc doc) = Yrs.getString (edit.applyDoc other) := by
  have hinsert := LawfulYrs.insert_congr doc other
  have hremove := LawfulYrs.removeRange_congr doc other
  cases edit with
  | insert position content =>
      match content with
      | [] => exact h
      | [_] => simp only [applyDoc, TxUtils.insertChar, h, hinsert _ _ h]
      | _ :: _ :: _ => simp only [applyDoc, TxUtils.insertText, h, hinsert _ _ h]
  | delete position length =>
      match length with
      | 0 => exact h
      | 1 =>
          simp only [applyDoc, TxUtils.deleteChar, h]
          split
          · exact hremove _ _ h
          · exact h
      | _ + 2 =>
          simp only [applyDoc, TxUtils.deleteRange, h]
          split
          · exact hremove _ _ h
          · exact h

theorem Edit.applyAll_congr [LawfulYrs Doc] (edits : List Edit) (doc other : Doc)
    (h : Yrs.getString doc = Yrs.getString other) :
    Yrs.getString (Edit.applyAll doc edits) = Yrs.getString (Edit.applyAll other edits) := by
  induction edits generalizing doc other with
  | nil => exact h
  | cons edit edits ih => exact ih _ _ (edit.applyDoc_congr doc other h)

-- What an edit does to the buffer and the store.
def MemFile.applyEdit (file : MemFile Doc) (store : Store) :
    Edit → Except FileError Unit × MemFile Doc × Store
  | .insert position content => file.applyInsert store position content
  | .delete position length => file.applyDelete store position length

-- The stores that writes at one path can lead to.
inductive WritesAt (path : Path .file) (store : Store) : Store → Prop
  | refl : WritesAt path store store
  | write {mid : Store} (data : Str) (writes : WritesAt path store mid) :
      WritesAt path store (FileIo.writeFile mid path data).2

theorem WritesAt.trans {path : Path .file} {first second third : Store}
    (left : WritesAt path first second) (right : WritesAt path second third) :
    WritesAt path first third := by
  induction right with
  | refl => exact left
  | write data _ ih => exact .write data ih

-- What every method that edits or saves a buffer keeps, whatever it answers: the
-- buffer stays the one of its path, and the store is written at that path only.
structure MemFile.Stays (path : Path .file) (flushOnDrop : Bool) (store : Store) (doc : Doc)
    (after : Except FileError Unit × MemFile Doc × Store) : Prop where
  doc : after.2.1.doc = doc
  writes : WritesAt path store after.2.2
  path : after.2.1.path = path
  flushOnDrop : after.2.1.flushOnDrop = flushOnDrop

namespace MemFile

theorem save_stays (file : MemFile Doc) (store : Store) :
    Stays file.path file.flushOnDrop store file.doc (file.save store) := by
  have hwrite : WritesAt file.path store (FileIo.writeFile store file.path file.contents).2 :=
    .write _ .refl
  unfold save
  split
  · next h => exact ⟨rfl, by simpa [h] using hwrite, rfl, rfl⟩
  · next h => exact ⟨rfl, by simpa [h] using hwrite, rfl, rfl⟩

theorem recordSingleEdit_stays (file : MemFile Doc) (store : Store) :
    Stays file.path file.flushOnDrop store file.doc (file.recordSingleEdit store) := by
  simp only [recordSingleEdit]
  split
  · exact save_stays { file with opsSinceSave := file.opsSinceSave + 1 } store
  · exact ⟨rfl, .refl, rfl, rfl⟩

theorem applyEdit_stays (file : MemFile Doc) (store : Store) (edit : Edit) :
    Stays file.path file.flushOnDrop store (edit.applyDoc file.doc)
      (file.applyEdit store edit) := by
  have hsave := save_stays { file with doc := edit.applyDoc file.doc } store
  have hrecord := recordSingleEdit_stays { file with doc := edit.applyDoc file.doc } store
  cases edit with
  | insert position content =>
      match content with
      | [] => exact ⟨rfl, .refl, rfl, rfl⟩
      | [_] => exact hrecord
      | _ :: _ :: _ => exact hsave
  | delete position length =>
      match length with
      | 0 => exact ⟨rfl, .refl, rfl, rfl⟩
      | 1 => exact hrecord
      | _ + 2 => exact hsave

-- A run of edits, ended by the first one that fails.
def applyEdits (file : MemFile Doc) (store : Store) :
    List Edit → Except FileError Unit × MemFile Doc × Store
  | [] => (.ok (), file, store)
  | edit :: edits =>
    match file.applyEdit store edit with
    | (.ok (), file, store) => file.applyEdits store edits
    | (.error error, file, store) => (.error error, file, store)

theorem applyEdits_append (file : MemFile Doc) (store : Store) (front back : List Edit) :
    file.applyEdits store (front ++ back) =
      match file.applyEdits store front with
      | (.ok (), file, store) => file.applyEdits store back
      | (.error error, file, store) => (.error error, file, store) := by
  induction front generalizing file store with
  | nil => rfl
  | cons edit front ih =>
      simp only [List.cons_append, applyEdits]
      split
      · exact ih _ _
      · rfl

theorem applyEdits_singleton (file : MemFile Doc) (store : Store) (edit : Edit) :
    file.applyEdits store [edit] = file.applyEdit store edit := by
  simp only [applyEdits]
  split <;> simp_all

theorem applyOperation_eq (file : MemFile Doc) (store : Store) (operation : Operation) :
    file.applyOperation store operation = file.applyEdits store operation.edits := by
  cases operation with
  | insert position content =>
      exact (applyEdits_singleton file store (.insert position content)).symm
  | delete position length =>
      exact (applyEdits_singleton file store (.delete position length)).symm
  | swap position length content =>
      have happend := applyEdits_append file store [.delete position length]
        [.insert position content]
      simp only [applyEdits_singleton] at happend
      exact happend.symm

-- A transaction is the run of its operations' edits.
theorem applyTransactionOps_eq (file : MemFile Doc) (store : Store)
    (operations : List Operation) :
    file.applyTransactionOps store operations =
      file.applyEdits store (operations.flatMap Operation.edits) := by
  induction operations generalizing file store with
  | nil => rfl
  | cons operation operations ih =>
      rw [List.flatMap_cons, applyEdits_append, ← applyOperation_eq, applyTransactionOps]
      rcases file.applyOperation store operation with ⟨_ | _, after, mid⟩
      · rfl
      · exact ih after mid

-- The document after a run of edits is what the edits made before the first
-- failure left, the failing one included.
theorem applyEdits_stays (file : MemFile Doc) (store : Store) (edits : List Edit) :
    ∃ made, made <+: edits ∧
      Stays file.path file.flushOnDrop store (Edit.applyAll file.doc made)
        (file.applyEdits store edits) ∧
        ((file.applyEdits store edits).1 = .ok () → made = edits) := by
  induction edits generalizing file store with
  | nil => exact ⟨[], List.nil_prefix, ⟨rfl, .refl, rfl, rfl⟩, fun _ => rfl⟩
  | cons edit edits ih =>
      have hstep := applyEdit_stays file store edit
      unfold applyEdits
      split
      · next after mid heq =>
        rw [heq] at hstep
        obtain ⟨made, hmade, hstays, hok⟩ := ih after mid
        refine ⟨edit :: made, ?_, ?_, ?_⟩
        · obtain ⟨rest, rfl⟩ := hmade
          exact ⟨rest, rfl⟩
        · refine ⟨?_, ?_, ?_, ?_⟩
          · rw [hstays.doc, hstep.doc]
            rfl
          · have hpath : after.path = file.path := hstep.path
            exact hstep.writes.trans (hpath ▸ hstays.writes)
          · rw [hstays.path, hstep.path]
          · rw [hstays.flushOnDrop, hstep.flushOnDrop]
        · intro h
          rw [hok h]
      · next heq =>
        rw [heq] at hstep
        exact ⟨[edit], ⟨edits, rfl⟩, hstep, by simp⟩

-- While the store takes every write at the path of the buffer, no edit fails.
theorem applyEdit_ok (file : MemFile Doc) (store : Store) (edit : Edit)
    (hwrite : ∀ (store : Store) data, (FileIo.writeFile store file.path data).1 = .ok ()) :
    (file.applyEdit store edit).1 = .ok () := by
  have hsave : ∀ buffer : MemFile Doc, buffer.path = file.path → (buffer.save store).1 = .ok () := by
    intro buffer hpath
    have h := hwrite store buffer.contents
    unfold save
    rw [hpath]
    split
    · rfl
    · next heq => simp [heq] at h
  have hrecord : ∀ buffer : MemFile Doc, buffer.path = file.path →
      (buffer.recordSingleEdit store).1 = .ok () := by
    intro buffer hpath
    simp only [recordSingleEdit]
    split
    · exact hsave { buffer with opsSinceSave := buffer.opsSinceSave + 1 } hpath
    · rfl
  cases edit with
  | insert position content =>
      match content with
      | [] => rfl
      | [_] => exact hrecord { file with doc := _ } rfl
      | _ :: _ :: _ => exact hsave { file with doc := _ } rfl
  | delete position length =>
      match length with
      | 0 => rfl
      | 1 => exact hrecord { file with doc := _ } rfl
      | _ + 2 => exact hsave { file with doc := _ } rfl

theorem applyEdits_ok (file : MemFile Doc) (store : Store) (edits : List Edit)
    (hwrite : ∀ (store : Store) data, (FileIo.writeFile store file.path data).1 = .ok ()) :
    (file.applyEdits store edits).1 = .ok () := by
  induction edits generalizing file store with
  | nil => rfl
  | cons edit edits ih =>
      have hok := applyEdit_ok file store edit hwrite
      have hpath := (applyEdit_stays file store edit).path
      unfold applyEdits
      split
      · next after mid heq =>
        rw [heq] at hpath
        exact ih after mid (by rw [hpath]; exact hwrite)
      · next heq => simp [heq] at hok

end MemFile

end Saps.Files
