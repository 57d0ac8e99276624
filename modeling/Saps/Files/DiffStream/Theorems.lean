import Saps.Files.BlockingMem
import Saps.Files.DiffStream
import Saps.Files.Guard.Transactions
import Saps.Lib.Transition

namespace Saps.Files.DiffStream

open Transition

variable {Doc : Type} [Yrs Doc] {Store : Type}

-- What a run of edits comes to, told from the first save that is refused.
def Ended (file : MemFile Doc) (edits : List Edit) (first : Option (List Edit))
    (after : Except FileError Unit × MemFile Doc × Store) : Prop :=
  match first with
  | none => after.1 = .ok () ∧ after.2.1.doc = Edit.applyAll file.doc edits
  | some made => (∃ error, after.1 = .error error) ∧ after.2.1.doc = Edit.applyAll file.doc made

theorem Ended.cons {file buffer : MemFile Doc} {edit : Edit} {edits : List Edit}
    {first : Option (List Edit)} {after : Except FileError Unit × MemFile Doc × Store}
    (hdoc : buffer.doc = edit.applyDoc file.doc) (h : Ended buffer edits first after) :
    Ended file (edit :: edits) (first.map (edit :: ·)) after := by
  cases first with
  | none =>
      refine ⟨h.1, h.2.trans ?_⟩
      rw [hdoc]
      rfl
  | some made =>
      refine ⟨h.1, h.2.trans ?_⟩
      rw [hdoc]
      rfl

variable [FileIo Store]

-- An edit saves by its size: nothing at once, one character after some more, and
-- a longer text always.
theorem applyEdit_eq (file : MemFile Doc) (store : Store) (edit : Edit) :
    file.applyEdit store edit =
      match edit.size with
      | 0 => (.ok (), file, store)
      | 1 => MemFile.recordSingleEdit { file with doc := edit.applyDoc file.doc } store
      | _ + 2 => MemFile.save { file with doc := edit.applyDoc file.doc } store := by
  cases edit with
  | insert position content => rcases content with _ | ⟨first, _ | ⟨second, rest⟩⟩ <;> rfl
  | delete position length => rcases length with _ | _ | length <;> rfl

theorem applyDoc_of_size (doc : Doc) {edit : Edit} (h : edit.size = 0) :
    edit.applyDoc doc = doc := by
  cases edit with
  | insert position content =>
      obtain rfl := List.length_eq_zero_iff.mp h
      rfl
  | delete position length =>
      obtain rfl : length = 0 := h
      rfl

theorem refused_map (doc : Doc) (path : Path .file) (store : Store) (edit : Edit)
    (points : List (List Edit)) :
    refused doc path store (points.map (edit :: ·)) =
      (refused (edit.applyDoc doc) path store points).map (edit :: ·) := by
  induction points generalizing store with
  | nil => rfl
  | cons made points ih =>
      rw [List.map_cons, refused, refused]
      have happly : Edit.applyAll doc (edit :: made) = Edit.applyAll (edit.applyDoc doc) made := rfl
      rw [happly]
      rcases FileIo.writeFile store path (Yrs.getString (Edit.applyAll (edit.applyDoc doc) made)) with
        ⟨_ | _, after⟩
      · rfl
      · exact ih after

theorem save_eq (file : MemFile Doc) (store : Store) :
    file.save store =
      match FileIo.writeFile store file.path file.contents with
      | (.ok (), store) => (.ok (), { file with opsSinceSave := 0 }, store)
      | (.error error, store) => (.error error, file, store) := rfl

-- A run whose first edit is saved at once.
theorem applyEdits_saved (file buffer : MemFile Doc) (store : Store) (edit : Edit)
    (edits : List Edit) (hpath : buffer.path = file.path)
    (hdoc : buffer.doc = edit.applyDoc file.doc)
    (hedit : file.applyEdit store edit = buffer.save store)
    (ih : ∀ (file : MemFile Doc) (store : Store), Ended file edits
      (refused file.doc file.path store (saves file.opsSinceSave edits)) (file.applyEdits store edits)) :
    Ended file (edit :: edits)
      (refused file.doc file.path store ([edit] :: (saves 0 edits).map (edit :: ·)))
      (file.applyEdits store (edit :: edits)) := by
  have hcontents : buffer.contents = Yrs.getString (Edit.applyAll file.doc [edit]) :=
    congrArg Yrs.getString hdoc
  unfold refused MemFile.applyEdits
  rw [hedit, save_eq, hpath, hcontents]
  rcases FileIo.writeFile store file.path (Yrs.getString (Edit.applyAll file.doc [edit])) with
    ⟨_ | _, after⟩
  · exact ⟨⟨_, rfl⟩, hdoc⟩
  · dsimp only
    rw [refused_map, ← hdoc, ← hpath]
    exact (ih { buffer with opsSinceSave := 0 } after).cons hdoc

-- A run of edits ends with the first save that is refused, if there is one.
theorem applyEdits_ended (file : MemFile Doc) (store : Store) (edits : List Edit) :
    Ended file edits (refused file.doc file.path store (saves file.opsSinceSave edits))
      (file.applyEdits store edits) := by
  induction edits generalizing file store with
  | nil => exact ⟨rfl, rfl⟩
  | cons edit edits ih =>
      have hedit := applyEdit_eq file store edit
      unfold saves
      rcases hsize : edit.size with _ | _ | size
      · have hdoc : file.doc = edit.applyDoc file.doc := (applyDoc_of_size file.doc hsize).symm
        rw [hsize] at hedit
        have hrun : file.applyEdits store (edit :: edits) = file.applyEdits store edits := by
          rw [MemFile.applyEdits, hedit]
        dsimp only
        rw [hrun, refused_map, ← hdoc]
        exact (ih file store).cons hdoc
      · rw [hsize] at hedit
        dsimp only at hedit ⊢
        unfold MemFile.recordSingleEdit at hedit
        dsimp only at hedit
        by_cases hdue : SAVE_THRESHOLD ≤ file.opsSinceSave + 1
        · rw [if_pos hdue] at hedit ⊢
          let buffer : MemFile Doc :=
            ⟨edit.applyDoc file.doc, file.path, file.opsSinceSave + 1, file.flushOnDrop⟩
          exact applyEdits_saved file buffer store edit edits rfl rfl hedit ih
        · rw [if_neg hdue] at hedit ⊢
          let buffer : MemFile Doc :=
            ⟨edit.applyDoc file.doc, file.path, file.opsSinceSave + 1, file.flushOnDrop⟩
          have hrun : file.applyEdits store (edit :: edits) = buffer.applyEdits store edits := by
            rw [MemFile.applyEdits, hedit]
          rw [hrun, refused_map]
          exact (ih buffer store).cons rfl
      · rw [hsize] at hedit
        let buffer : MemFile Doc := { file with doc := edit.applyDoc file.doc }
        exact applyEdits_saved file buffer store edit edits rfl rfl hedit ih

-- Edits only add to the log.
theorem applyDoc_extends (log : OpLog) (edit : Edit) :
    log.entries <+: (edit.applyDoc log).entries := by
  have hpush (entry : LogEntry) : log.entries <+: (log.push entry).entries :=
    List.prefix_append _ _
  cases edit with
  | insert position content =>
      rcases content with _ | ⟨first, _ | ⟨second, rest⟩⟩
      · exact List.prefix_refl _
      · exact hpush _
      · exact hpush _
  | delete position length =>
      rcases length with _ | _ | length
      · exact List.prefix_refl _
      · simp only [Edit.applyDoc, TxUtils.deleteChar]
        split
        · exact hpush _
        · exact List.prefix_refl _
      · simp only [Edit.applyDoc, TxUtils.deleteRange]
        split
        · exact hpush _
        · exact List.prefix_refl _

theorem applyAll_extends (log : OpLog) (edits : List Edit) :
    log.entries <+: (Edit.applyAll log edits).entries := by
  induction edits generalizing log with
  | nil => exact List.prefix_refl _
  | cons edit edits ih => exact (applyDoc_extends log edit).trans (ih (edit.applyDoc log))

-- A replica that is up to date is so again after the diff.
theorem applyUpdate_diff {log after : OpLog} (h : log.entries <+: after.entries) :
    log.applyUpdate ⟨log.entries.length, after.entries.drop log.entries.length⟩ = after := by
  obtain ⟨rest, hrest⟩ := h
  cases after with
  | mk entries =>
      obtain rfl : log.entries ++ rest = entries := hrest
      simp [OpLog.applyUpdate]

theorem applyUpdate_encodeState (file : MemFile OpLog) :
    (Yrs.new : OpLog).applyUpdate file.encodeState = file.doc := by
  change (OpLog.mk []).applyUpdate ⟨0, file.doc.entries⟩ = file.doc
  simp [OpLog.applyUpdate]

-- The replica is where the document of the buffer is.
def Current (path : Path .file) (state : State Store) : Prop :=
  ∃ file, state.buffer path = some file ∧ state.replica = file.doc

omit [FileIo Store] in
theorem Seeded.current {path : Path .file} {state : State Store} (h : Seeded path state) :
    Current path state := by
  obtain ⟨file, hfile, hreplica⟩ := h
  exact ⟨file, hfile, hreplica.trans (applyUpdate_encodeState file)⟩

theorem transact_cases {path : Path .file} {before : State Store} {file : MemFile OpLog}
    (hfile : before.buffer path = some file) (transaction : Transaction) :
    ∃ buffer store,
      (refused file.doc file.path before.store (saves file.opsSinceSave transaction.edits) = none ∧
        buffer.doc = Edit.applyAll file.doc transaction.edits ∧
        transact path before transaction =
          (.ok ⟨file.doc.entries.length, buffer.doc.entries.drop file.doc.entries.length⟩,
            ⟨before.guard.putFile path buffer, store, before.replica.applyUpdate
              ⟨file.doc.entries.length, buffer.doc.entries.drop file.doc.entries.length⟩⟩)) ∨
      ∃ made error,
        refused file.doc file.path before.store (saves file.opsSinceSave transaction.edits) =
          some made ∧ buffer.doc = Edit.applyAll file.doc made ∧
        transact path before transaction =
          (.error error, ⟨before.guard.putFile path buffer, store, before.replica⟩) := by
  have hload : before.guard.getFile before.store path = (.ok file, before.guard, before.store) := by
    have hlookup : before.guard.fileMap.lookup path.key = some file := hfile
    unfold MemFileGuard.getFile
    rw [hlookup]
  have heq := MemFileGuard.applyTransaction_eq _ _ _ _ path transaction file hload
  have hended := applyEdits_ended file before.store transaction.edits
  rcases hresult : file.applyEdits before.store transaction.edits with ⟨result, buffer, store⟩
  rw [hresult] at heq hended
  refine ⟨buffer, store, ?_⟩
  cases hfirst : refused file.doc file.path before.store
      (saves file.opsSinceSave transaction.edits) with
  | none =>
      rw [hfirst] at hended
      obtain ⟨hok, hdoc⟩ := hended
      obtain rfl : result = .ok () := hok
      refine .inl ⟨rfl, hdoc, ?_⟩
      unfold transact
      rw [heq]
      rfl
  | some made =>
      rw [hfirst] at hended
      obtain ⟨⟨error, herror⟩, hdoc⟩ := hended
      obtain rfl : result = .error error := herror
      refine .inr ⟨made, error, rfl, hdoc, ?_⟩
      unfold transact
      rw [heq]

-- A transaction that succeeds brings the replica up to date, and one that fails does
-- what is asked of it exactly when nothing was edited at the refused save.
theorem step_complete {path : Path .file} {before after : State Store} {label : Label}
    (h : Current path before) (hstep : Step path before label after) :
    (Complete path before label after ↔ Spared path before label.1) ∧
      (Complete path before label after → Current path after) := by
  obtain ⟨file, hfile, hreplica⟩ := h
  obtain ⟨transaction, outcome⟩ := label
  have hput (buffer : MemFile OpLog) (store : Store) (replica : OpLog) :
      (State.mk (before.guard.putFile path buffer) store replica).buffer path = some buffer := by
    simp [State.buffer, MemFileGuard.putFile]
  obtain ⟨buffer, store, hcases⟩ := transact_cases hfile transaction
  rcases hcases with ⟨hnone, hdoc, heq⟩ | ⟨made, error, hsome, hdoc, heq⟩
  · obtain ⟨rfl, rfl⟩ := Prod.mk.inj (heq.symm.trans hstep)
    have hcurrent : before.replica.applyUpdate
        ⟨file.doc.entries.length, buffer.doc.entries.drop file.doc.entries.length⟩ = buffer.doc := by
      rw [hreplica]
      apply applyUpdate_diff
      rw [hdoc]
      exact applyAll_extends file.doc transaction.edits
    rw [hcurrent]
    refine ⟨iff_of_true ?_ ?_, fun _ => ⟨buffer, hput _ _ _, rfl⟩⟩
    · unfold Complete
      rw [hput]
      rfl
    · intro other made hother hrefused
      obtain rfl : file = other := Option.some.inj (hfile.symm.trans hother)
      rw [hnone] at hrefused
      contradiction
  · obtain ⟨rfl, rfl⟩ := Prod.mk.inj (heq.symm.trans hstep)
    have hcomplete : Complete path before (transaction, .error error)
        ⟨before.guard.putFile path buffer, store, before.replica⟩ ↔ buffer.doc = file.doc := by
      unfold Complete
      dsimp only
      rw [hput, hfile]
      exact Option.some_inj
    refine ⟨hcomplete.trans ?_, ?_⟩
    · rw [hdoc]
      constructor
      · intro hsame other point hother hrefused
        obtain rfl : file = other := Option.some.inj (hfile.symm.trans hother)
        obtain rfl : made = point := Option.some.inj (hsome.symm.trans hrefused)
        exact hsame
      · intro hspared
        exact hspared file made hfile hsome
    · intro hkept
      exact ⟨buffer, hput _ _ _, hreplica.trans (hcomplete.mp hkept).symm⟩

-- The diffs of a run bring the replica wherever the buffer is, and failures leave
-- the document alone, exactly when no save is refused after an edit of its transaction.
theorem diff_stream_iff (path : Path .file) (start : State Store) (hstart : Seeded path start)
    (trace : List Label) (finish : State Store) :
    Run (fun before label after => Step path before label after ∧ Complete path before label after)
        start trace finish ↔
      Run (fun before label after => Step path before label after ∧ Spared path before label.1)
        start trace finish :=
  Run.restrict_iff (Current path) hstart.current fun _ _ _ h hstep => step_complete h hstep

-- An engine in memory that refuses some of the writes to come.
abbrev Refusing :=
  Failing BlockingMemIo

def file : Path .file :=
  Path.new ['a']

-- An empty file, loaded, whose first save is refused.
def loaded : State Refusing where
  guard := MemFileGuard.new.putFile file (MemFile.fromString file [])
  store := ⟨⟨HashMap.new.insert file.key []⟩, [true]⟩
  replica := (Yrs.new : OpLog)

theorem loaded_buffer : loaded.buffer file = some (MemFile.fromString file []) := by
  simp [State.buffer, loaded, MemFileGuard.putFile]

theorem loaded_seeded : Seeded file loaded :=
  ⟨MemFile.fromString file [], loaded_buffer, by decide +kernel⟩

def insertAt (text : Str) : Transaction :=
  ⟨[.insert ⟨0, 0⟩ text]⟩

-- Nothing is there to delete, so the refused save loses nothing.
def deleteAhead : Transaction :=
  ⟨[.delete ⟨0, 0⟩ 2]⟩

def afterDelete : State Refusing :=
  (transact file loaded deleteAhead).2

theorem diff_stream_iff_spared :
    (transact file loaded deleteAhead).1.isOk = false ∧
    Run (fun before label after => Step file before label after ∧ Complete file before label after)
      loaded [(deleteAhead, (transact file loaded deleteAhead).1)] afterDelete := by
  refine ⟨by decide +kernel, (diff_stream_iff file loaded loaded_seeded _ afterDelete).mpr ?_⟩
  refine .snoc .nil ⟨rfl, ?_⟩
  intro buffer made hbuffer hrefused
  obtain rfl : MemFile.fromString file [] = buffer :=
    Option.some.inj (loaded_buffer.symm.trans hbuffer)
  obtain rfl : [Edit.delete ⟨0, 0⟩ 2] = made := by
    have hmade : refused (MemFile.fromString file [] : MemFile OpLog).doc
        (MemFile.fromString file [] : MemFile OpLog).path loaded.store
        (saves (MemFile.fromString file [] : MemFile OpLog).opsSinceSave deleteAhead.edits) =
          some [Edit.delete ⟨0, 0⟩ 2] := by decide +kernel
    exact Option.some.inj (hmade.symm.trans hrefused)
  decide +kernel

def afterInsert : State Refusing :=
  (transact file loaded (insertAt ['a', 'b'])).2

-- The refused text stays in the buffer, and the next diff does not tell of it.
theorem diff_stream_missed :
    Seeded file loaded ∧
      Step file loaded (insertAt ['a', 'b'], (transact file loaded (insertAt ['a', 'b'])).1)
        afterInsert ∧
      Step file afterInsert (insertAt ['c'], .ok ⟨1, [.insert 0 ['c']]⟩)
        (transact file afterInsert (insertAt ['c'])).2 ∧
      ¬Complete file loaded (insertAt ['a', 'b'], (transact file loaded (insertAt ['a', 'b'])).1)
        afterInsert ∧
      ¬Complete file afterInsert (insertAt ['c'], .ok ⟨1, [.insert 0 ['c']]⟩)
        (transact file afterInsert (insertAt ['c'])).2 := by
  refine ⟨loaded_seeded, rfl, ?_, ?_, ?_⟩
  · refine Prod.ext ?_ rfl
    decide +kernel
  · change ¬(afterInsert.buffer file).map MemFile.doc = (loaded.buffer file).map MemFile.doc
    decide +kernel
  · change ¬((transact file afterInsert (insertAt ['c'])).2.buffer file).map MemFile.contents =
      some (transact file afterInsert (insertAt ['c'])).2.replica.getString
    decide +kernel

end Saps.Files.DiffStream
