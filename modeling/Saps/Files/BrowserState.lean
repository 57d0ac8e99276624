import Saps.Files.Edits
import Saps.Lib.HashMap
import Saps.Lib.Transition
import Mathlib.Logic.Function.Basic

-- The open files of the browser session, and the calls that await a save.
namespace Saps.Files

variable {Doc : Type} [Yrs Doc]

-- The asynchronous write path of a buffer. Each method stops where it awaits a
-- save, and says whether it does.
namespace AsyncMemFile

def recordSingleEdit (file : MemFile Doc) : MemFile Doc × Bool :=
  let file := { file with opsSinceSave := file.opsSinceSave + 1 }
  (file, SAVE_THRESHOLD ≤ file.opsSinceSave)

def insertChar (file : MemFile Doc) (position : CursorIndex) (character : Char) :
    MemFile Doc × Bool :=
  recordSingleEdit { file with
    doc := TxUtils.insertChar file.contents file.doc position character }

def deleteChar (file : MemFile Doc) (position : CursorIndex) : MemFile Doc × Bool :=
  recordSingleEdit { file with doc := TxUtils.deleteChar file.contents file.doc position }

def deleteRange (file : MemFile Doc) (position : CursorIndex) (delta : Nat) :
    MemFile Doc × Bool :=
  ({ file with doc := TxUtils.deleteRange file.contents file.doc position delta }, true)

def insertText (file : MemFile Doc) (position : CursorIndex) (data : Str) : MemFile Doc × Bool :=
  ({ file with doc := TxUtils.insertText file.contents file.doc position data }, true)

def applyInsert (file : MemFile Doc) (position : CursorIndex) (content : Str) :
    MemFile Doc × Bool :=
  match content with
  | [] => (file, false)
  | [character] => insertChar file position character
  | _ :: _ :: _ => insertText file position content

def applyDelete (file : MemFile Doc) (position : CursorIndex) (length : Nat) :
    MemFile Doc × Bool :=
  match length with
  | 0 => (file, false)
  | 1 => deleteChar file position
  | _ + 2 => deleteRange file position length

def applyEdit (file : MemFile Doc) : Edit → MemFile Doc × Bool
  | .insert position content => applyInsert file position content
  | .delete position length => applyDelete file position length

-- The edits up to the first one that awaits a save, and those behind it.
def applyUpToSave (file : MemFile Doc) : List Edit → MemFile Doc × Option (List Edit)
  | [] => (file, none)
  | edit :: edits =>
    let (file, saves) := applyEdit file edit
    if saves then (file, some edits) else applyUpToSave file edits

-- The buffer after a save that was answered.
def afterSave (file : MemFile Doc) (answer : Except FileError Unit) : MemFile Doc :=
  match answer with
  | .ok () => { file with opsSinceSave := 0 }
  | .error _ => file

def applyUpdate (file : MemFile Doc) (update : Yrs.Update Doc) :
    Except FileError (MemFile Doc) :=
  match Yrs.applyUpdate file.doc update with
  | .ok doc => .ok { file with doc := doc }
  | .error message => .error (.memFile file.path.fullPath.text message)

def fromState (path : Path .file) (state : Yrs.Update Doc) : Except FileError (MemFile Doc) :=
  match Yrs.applyUpdate (Yrs.new : Doc) state with
  | .ok doc => .ok ⟨doc, path, 0, true⟩
  | .error message => .error (.memFile path.fullPath.text message)

theorem applyEdit_doc (file : MemFile Doc) (edit : Edit) :
    (applyEdit file edit).1.doc = edit.applyDoc file.doc := by
  cases edit with
  | insert position content =>
      match content with
      | [] => rfl
      | [_] => rfl
      | _ :: _ :: _ => rfl
  | delete position length =>
      match length with
      | 0 => rfl
      | 1 => rfl
      | _ + 2 => rfl

omit [Yrs Doc] in
@[simp] theorem afterSave_doc (file : MemFile Doc) (answer : Except FileError Unit) :
    (afterSave file answer).doc = file.doc := by
  unfold afterSave
  split <;> rfl

-- The edits that were made are those that are not left over.
theorem applyUpToSave_doc (file : MemFile Doc) (edits : List Edit) :
    ∃ made, edits = made ++ (applyUpToSave file edits).2.getD [] ∧
      (applyUpToSave file edits).1.doc = Edit.applyAll file.doc made := by
  induction edits generalizing file with
  | nil => exact ⟨[], rfl, rfl⟩
  | cons edit edits ih =>
      have hdoc := applyEdit_doc file edit
      simp only [applyUpToSave]
      split
      · exact ⟨[edit], rfl, hdoc⟩
      · obtain ⟨made, hmade, hafter⟩ := ih (applyEdit file edit).1
        refine ⟨edit :: made, by rw [List.cons_append, ← hmade], ?_⟩
        rw [hafter, hdoc]
        rfl

end AsyncMemFile

namespace BrowserState

abbrev Result := Except FileError Unit

def notConfigured : FileError :=
  .memFile [] "persistence not configured; call configure_persistence first".toList

def notOpen (path : Str) (action : String) : FileError :=
  .memFile path ("file not open to ".toList ++ action.toList)

-- The functions that await.
inductive Call (Doc : Type) [Yrs Doc] where
  | insertFileFromState (path : Str) (state : Yrs.Update Doc)
  | insertFileFromString (path contents : Str)
  | writeTransactionToFile (path : Str) (transaction : Transaction)
  | applyUpdateToFile (path : Str) (update : Yrs.Update Doc)
  | flushAll

-- A call that awaits a save, with what it holds: the new buffer; the buffer that
-- was taken out and the edits that are left; the buffer with the update in it; all
-- the buffers, the keys of those that are not saved yet and the result so far.
inductive Suspended (Doc : Type) where
  | inserting (path : Str) (file : MemFile Doc)
  | writing (path : Str) (file : MemFile Doc) (edits : List Edit)
  | merging (path : Str) (file : MemFile Doc)
  | flushing (files : HashMap Str (MemFile Doc)) (keys : List Str) (result : Result)

-- What a call comes to until it awaits a save or returns.
inductive Progress (Doc : Type) where
  | awaits (call : Suspended Doc)
  | returns (result : Result)

namespace Progress

def suspended : Progress Doc → Option (Suspended Doc)
  | awaits call => some call
  | returns _ => none

def result : Progress Doc → Option Result
  | awaits _ => none
  | returns result => some result

end Progress

-- `FILE_STATE`.
abbrev FileState (Doc : Type) := HashMap Str (MemFile Doc)

def writeOn (path : Str) (files : FileState Doc) :
    MemFile Doc × Option (List Edit) → Progress Doc × FileState Doc
  | (file, some edits) => (.awaits (.writing path file edits), files)
  | (file, none) => (.returns (.ok ()), files.insert path file)

def flushOn (taken : FileState Doc) (keys : List Str) (result : Result) (files : FileState Doc) :
    Progress Doc × FileState Doc :=
  match keys with
  | [] => (.returns result, files.extend taken)
  | _ :: _ => (.awaits (.flushing taken keys result), files)

-- An insert up to its save, with the buffer that it builds.
def insertSeed (configured : Bool) (path : Str) (seed : Except FileError (MemFile Doc)) :
    Progress Doc :=
  if configured then
    match seed with
    | .ok file => .awaits (.inserting path file)
    | .error error => .returns (.error error)
  else .returns (.error notConfigured)

-- A call up to its first await. `configured` says that `STORE` is set.
def start (configured : Bool) (files : FileState Doc) (call : Call Doc) :
    Progress Doc × FileState Doc :=
  match call with
  | .insertFileFromState path state =>
    (insertSeed configured path (AsyncMemFile.fromState (Path.new path) state), files)
  | .insertFileFromString path contents =>
    (insertSeed configured path (.ok (MemFile.fromString (Path.new path) contents)), files)
  | .writeTransactionToFile path transaction =>
    match files.lookup path with
    | none => (.returns (.error (notOpen path "apply a transaction to")), files)
    | some file =>
      writeOn path (files.erase path) (AsyncMemFile.applyUpToSave file transaction.edits)
  | .applyUpdateToFile path update =>
    match files.lookup path with
    | none => (.returns (.error (notOpen path "apply an update to")), files)
    | some file =>
      match AsyncMemFile.applyUpdate file update with
      | .ok file => (.awaits (.merging path file), files.erase path)
      | .error error => (.returns (.error error), (files.erase path).insert path file)
  | .flushAll => flushOn files files.keys (.ok ()) .new

-- A call from the answer to its save up to the next await.
def resume (answer : Result) (files : FileState Doc) :
    Suspended Doc → Progress Doc × FileState Doc
  | .inserting path file =>
    match answer with
    | .ok () => (.returns (.ok ()), files.insert path (AsyncMemFile.afterSave file answer))
    | .error error => (.returns (.error error), files)
  | .writing path file edits =>
    match answer with
    | .ok () =>
      writeOn path files (AsyncMemFile.applyUpToSave (AsyncMemFile.afterSave file answer) edits)
    | .error error => (.returns (.error error), files.insert path file)
  | .merging path file =>
    (.returns answer, files.insert path (AsyncMemFile.afterSave file answer))
  | .flushing taken [] result => (.returns result, files.extend taken)
  | .flushing taken (key :: keys) result =>
    match answer with
    | .ok () =>
      match taken.lookup key with
      | some file =>
        flushOn (taken.insert key (AsyncMemFile.afterSave file answer)) keys result files
      | none => flushOn taken keys result files
    | .error error => flushOn taken keys (.error error) files

def removeFile (path : Str) (files : FileState Doc) : FileState Doc :=
  files.erase path

def readFile (path : Str) (files : FileState Doc) : Option Str :=
  (files.lookup path).map MemFile.contents

structure State (Doc : Type) where
  configured : Bool
  files : FileState Doc
  calls : Nat → Option (Suspended Doc)

-- A call starts under a number that is free, and its save is answered at any time.
inductive Label (Doc : Type) [Yrs Doc] where
  | start (id : Nat) (call : Call Doc) (result : Option Result)
  | resume (id : Nat) (answer : Result) (result : Option Result)
  | removeFile (path : Str)
  | wipeState
  | readFile (path : Str) (contents : Option Str)

def State.progressed (id : Nat) (progress : Progress Doc × FileState Doc) (state : State Doc) :
    State Doc :=
  { state with
    files := progress.2
    calls := Function.update state.calls id progress.1.suspended }

inductive Step (before : State Doc) : Label Doc → State Doc → Prop
  | start (id : Nat) (call : Call Doc) (hfree : before.calls id = none) :
      Step before (.start id call (start before.configured before.files call).1.result)
        (before.progressed id (start before.configured before.files call))
  | resume (id : Nat) (call : Suspended Doc) (hcall : before.calls id = some call)
      (answer : Result) :
      Step before (.resume id answer (resume answer before.files call).1.result)
        (before.progressed id (resume answer before.files call))
  | removeFile (path : Str) :
      Step before (.removeFile path) { before with files := removeFile path before.files }
  | wipeState : Step before .wipeState { before with files := .new }
  | readFile (path : Str) :
      Step before (.readFile path (readFile path before.files)) before

end BrowserState

end Saps.Files
