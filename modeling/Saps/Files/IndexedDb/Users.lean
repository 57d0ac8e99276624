import Saps.Files.Relocation

-- Users of one browser store, each in the middle of some call, and the redb store.
namespace Saps.Files.IndexedDbIo

open FlatEngines (Outcome done listed kvCall)
open TwoPhase (State Label)

def readFile (io : IndexedDbIo) (path : Path .file) : Except FileError Str :=
  match io.get path.fullPath.text with
  | some contents => .ok contents
  | none => .error (fileNotFound path.fullPath.text)

def fileExists (io : IndexedDbIo) (path : Path .file) : Bool :=
  (io.get path.fullPath.text).isSome

def childFiles (io : IndexedDbIo) (path : Path .folder) : Except FileError (List (Path .file)) :=
  let keys := io.allKeys.filter fun key =>
    (KvBlockingIo.keyPath key).components.parent = some path.fullPath.components
  .ok (keys.map Path.new)

def allChildFiles (io : IndexedDbIo) (path : Path .folder) :
    Except FileError (List (Path .file)) :=
  .ok ((io.allKeys.filter (under path)).map Path.new)

def childFolders (_ : IndexedDbIo) (_ : Path .folder) : Except FileError (List (Path .folder)) :=
  .ok []

def createFolder (_ : IndexedDbIo) (_ : Path .folder) : Except FileError Unit :=
  .ok ()

def folderExists (io : IndexedDbIo) (path : Path .folder) : Bool :=
  io.allKeys.any (under path)

-- What a caller finds that no other one gets between.
instance : FileIo IndexedDbIo where
  readFile := readFile
  fileExists := fileExists
  writeFile io path data := ops.alone io (.writeFile path data)
  deleteFile io path := ops.alone io (.deleteFile path)
  moveFile io source target := ops.alone io (.moveFile source target)
  copyFile io source target := ops.alone io (.copyFile source target)

instance : FolderIo IndexedDbIo where
  folderExists := folderExists
  deleteFolder io path := ops.alone io (.deleteFolder path)
  moveFolder io source target := ops.alone io (.moveFolder source target)
  copyFolder io source target := ops.alone io (.copyFolder source target)

-- The calls that change nothing, with one reading transaction or none.
def answer (io : IndexedDbIo) : FlatEngines.Op → Option Outcome
  | .readFile path => some ((io.readFile path).map .text)
  | .fileExists path => some (.ok (.bool (io.fileExists path)))
  | .childFiles path => some (listed (io.childFiles path))
  | .allChildFiles path => some (listed (io.allChildFiles path))
  | .childFolders path => some (listed (io.childFolders path))
  | .createFolder path => some (done (io.createFolder path))
  | .folderExists path => some (.ok (.bool (io.folderExists path)))
  | .writeFile _ _ | .deleteFile _ | .moveFile _ _ | .copyFile _ _ | .deleteFolder _
  | .moveFolder _ _ | .copyFolder _ _ => none

-- The other calls, as they stand in the interface of the engines.
def Op.call : Op → FlatEngines.Op
  | writeFile path data => .writeFile path data
  | deleteFile path => .deleteFile path
  | moveFile source target => .moveFile source target
  | copyFile source target => .copyFile source target
  | deleteFolder path => .deleteFolder path
  | moveFolder source target => .moveFolder source target
  | copyFolder source target => .copyFolder source target

namespace Users

inductive Event where
  | answered (op : FlatEngines.Op) (outcome : Outcome)
  | changing (label : Label Op FileError)

-- The call that an event completes, and what it returns.
def Event.completed : Event → Option (FlatEngines.Op × Outcome)
  | answered op outcome => some (op, outcome)
  | changing label => label.completed.map fun finished => (finished.1.call, done finished.2)

inductive Step (before : State ops) : Event → State ops → Prop
  | answer (op : FlatEngines.Op) (outcome : Outcome)
      (hanswer : before.store.answer op = some outcome) :
      Step before (.answered op outcome) before
  | change (label : Label Op FileError) (after : State ops)
      (step : TwoPhase.Step ops before label after) : Step before (.changing label) after

-- A file goes to another name. The files of a folder that land on one name hold one
-- text, and none lands on another file of the folder, or it has its text and stays.
def Fits (io : IndexedDbIo) : Op → Prop
  | .moveFile source target =>
    io.fileExists source = true → source.fullPath.text ≠ target.fullPath.text
  | .moveFolder source target =>
    HashMap.Agree (Relocation.newName source target) (Relocation.namesUnder io source)
        io.files.lookup ∧
      ∀ key ∈ Relocation.namesUnder io source,
        Relocation.newName source target key ∉ Relocation.namesUnder io source
  | .copyFolder source target =>
    HashMap.Agree (Relocation.newName source target) (Relocation.namesUnder io source)
        io.files.lookup ∧
      ∀ key ∈ Relocation.namesUnder io source,
        Relocation.newName source target key ∈ Relocation.namesUnder io source →
          io.files.lookup (Relocation.newName source target key) = io.files.lookup key
  | .writeFile _ _ | .deleteFile _ | .copyFile _ _ | .deleteFolder _ => True

-- Whoever acts on what it saw sees it still, and what takes effect fits.
def Settled (before : State ops) : Event → Prop
  | .answered _ _ => True
  | .changing label =>
    (∀ seen, before.flights label.id = some ⟨label.op, seen⟩ →
      UpToDate before.store label.op seen) ∧
      ∀ finished, label.completed = some finished → Fits before.store label.op

def SettledStep (before : State ops) (event : Event) (after : State ops) : Prop :=
  Step before event after ∧ Settled before event

-- The redb store, one call after the other.
def KvStep (before : KvBlockingIo) (label : FlatEngines.Op × Outcome) (after : KvBlockingIo) :
    Prop :=
  kvCall before label.1 = (label.2, after)

-- The engines list the same files, each in the order of its keys.
def Alike : Outcome → Outcome → Prop
  | .ok (.paths left), .ok (.paths right) => left.Perm right
  | left, right => left = right

end Users

end Saps.Files.IndexedDbIo
