import Saps.Files.Api
import Saps.Files.Edits
import Saps.Lib.Overlay
import Saps.Lib.Transition

-- An editing session: a guard over the in-memory store, driven by calls.
namespace Saps.Files

variable {Doc : Type} [Yrs Doc]

-- The text of every buffer the guard holds.
def MemFileGuard.text (guard : MemFileGuard Doc) (key : PathBuf.Key) : Option Str :=
  (guard.fileMap.lookup key).map MemFile.contents

-- Every buffer stands under its own path and flushes when it is dropped.
def MemFileGuard.WellFormed (guard : MemFileGuard Doc) : Prop :=
  ∀ key file, guard.fileMap.lookup key = some file →
    file.path.key = key ∧ file.flushOnDrop = true

namespace Session

abbrev View := PathBuf.Key → Option Str

-- What the session sees: the store with every buffer laid over it.
def view (guard : MemFileGuard Doc) (store : BlockingMemIo) : View :=
  Overlay.through guard.text store.files.lookup

structure State (Doc : Type) where
  guard : MemFileGuard Doc
  store : BlockingMemIo

def State.view (state : State Doc) : View :=
  Session.view state.guard state.store

inductive Call where
  | read (path : Path .file)
  | write (path : Path .file) (data : Str)
  | delete (path : Path .file)
  | moveFile (source target : Path .file)
  | copy (source target : Path .file)
  | fileExists (path : Path .file)
  | applyTransaction (path : Path .file) (transaction : Transaction)
  | extractPath (rootPath relPath : Str)
  | copyFolder (source target : Path .folder)
  | moveFolder (source target : Path .folder)
  | deleteFolder (path : Path .folder)
  | dropFile (path : Path .file)
  | dropDir (dir : Path .folder)
  | snapshot
  | resetFile (path : Path .file) (contents : Str)
  deriving DecidableEq, Repr

inductive Output where
  | unit
  | text (contents : Str)
  | bool (answer : Bool)
  | path (path : Path .file)
  deriving DecidableEq, Repr

abbrev Outcome := Except FileError Output

-- A result without a value, and one whose value the caller does not see.
def done {α : Type} (result : Except FileError α) : Outcome :=
  result.map fun _ => .unit

def call (state : State Doc) : Call → Outcome × State Doc
  | .read path =>
    let (result, guard, store) := Api.read state.guard state.store path
    (result.map .text, ⟨guard, store⟩)
  | .write path data =>
    let (result, guard, store) := Api.write state.guard state.store path data
    (done result, ⟨guard, store⟩)
  | .delete path =>
    let (result, guard, store) := Api.delete state.guard state.store path
    (done result, ⟨guard, store⟩)
  | .moveFile source target =>
    let (result, guard, store) := Api.moveFile state.guard state.store source target
    (done result, ⟨guard, store⟩)
  | .copy source target =>
    let (result, guard, store) := Api.copy state.guard state.store source target
    (done result, ⟨guard, store⟩)
  | .fileExists path => (.ok (.bool (Api.fileExists state.guard state.store path)), state)
  | .applyTransaction path transaction =>
    let (result, guard, store) := state.guard.applyTransaction state.store path transaction
    (done result, ⟨guard, store⟩)
  | .extractPath rootPath relPath =>
    ((Api.extractPath state.guard state.store rootPath relPath).map .path, state)
  | .copyFolder source target =>
    let (result, guard, store) := Api.copyFolder state.guard state.store source target
    (done result, ⟨guard, store⟩)
  | .moveFolder source target =>
    let (result, guard, store) := Api.moveFolder state.guard state.store source target
    (done result, ⟨guard, store⟩)
  | .deleteFolder path =>
    let (result, guard, store) := Api.deleteFolder state.guard state.store path
    (done result, ⟨guard, store⟩)
  | .dropFile path =>
    let (guard, store) := state.guard.dropFile state.store path
    (.ok .unit, ⟨guard, store⟩)
  | .dropDir dir =>
    let (guard, store) := state.guard.dropDir state.store dir
    (.ok .unit, ⟨guard, store⟩)
  | .snapshot =>
    let (result, guard, store) := state.guard.snapshot state.store
    (done result, ⟨guard, store⟩)
  | .resetFile path contents => (.ok .unit, ⟨state.guard.resetFile path contents, state.store⟩)

-- The text a transaction makes of `contents`, edited in a document of its own.
def edited (Doc : Type) [Yrs Doc] (path : Path .file) (contents : Str)
    (transaction : Transaction) : Str :=
  Yrs.getString (Edit.applyAll (MemFile.fromString path contents : MemFile Doc).doc
    transaction.edits)

-- The same calls on a plain map of files: no buffers, so nothing to flush. The folder
-- calls meet the keys in the order of the map, as the store does.
def plain (Doc : Type) [Yrs Doc] (io : BlockingMemIo) : Call → Outcome × BlockingMemIo
  | .read path =>
    match io.files.lookup path.key with
    | some contents => (.ok (.text contents), io)
    | none => (.error (BlockingMemIo.fileNotFound path.fullPath), io)
  | .write path data | .resetFile path data => (.ok .unit, ⟨io.files.insert path.key data⟩)
  | .delete path =>
    match io.files.lookup path.key with
    | some _ => (.ok .unit, ⟨io.files.erase path.key⟩)
    | none => (.error (BlockingMemIo.fileNotFound path.fullPath), io)
  | .moveFile source target =>
    match io.files.lookup source.key with
    | some contents => (.ok .unit, ⟨(io.files.erase source.key).insert target.key contents⟩)
    | none => (.error (BlockingMemIo.fileNotFound source.fullPath), io)
  | .copy source target =>
    match io.files.lookup source.key with
    | some contents => (.ok .unit, ⟨io.files.insert target.key contents⟩)
    | none => (.error (BlockingMemIo.fileNotFound source.fullPath), io)
  | .fileExists path => (.ok (.bool (io.files.lookup path.key).isSome), io)
  | .applyTransaction path transaction =>
    match io.files.lookup path.key with
    | some contents =>
      (.ok .unit, ⟨io.files.insert path.key (edited Doc path contents transaction)⟩)
    | none => (.error (BlockingMemIo.fileNotFound path.fullPath), io)
  | .extractPath rootPath relPath =>
    let present (path : Path .file) := (io.files.lookup path.key).isSome
    ((Api.ExtractPath.resolve present rootPath relPath).map .path, io)
  | .copyFolder source target =>
    let (result, io) := io.copyFolder source target
    (done result, io)
  | .moveFolder source target =>
    let (result, io) := io.moveFolder source target
    (done result, io)
  | .deleteFolder path =>
    let (result, io) := io.deleteFolder path
    (done result, io)
  | .dropFile _ | .dropDir _ | .snapshot => (.ok .unit, io)

-- Two states that differ in the iteration order of their maps at most.
structure Reordered (before after : State Doc) : Prop where
  buffers : after.guard.fileMap.lookup = before.guard.fileMap.lookup
  files : after.store.files.lookup = before.store.files.lookup

-- A call with its outcome. What order the maps are iterated in is not known.
def Step (before : State Doc) (label : Call × Outcome) (after : State Doc) : Prop :=
  ∃ state, Reordered before state ∧ call state label.1 = (label.2, after)

-- A call on the view, as the plain map does it in some iteration order.
def PlainStep (Doc : Type) [Yrs Doc] (before : View) (label : Call × Outcome) (after : View) :
    Prop :=
  ∃ io io' : BlockingMemIo, io.files.lookup = before ∧ plain Doc io label.1 = (label.2, io') ∧
    io'.files.lookup = after

end Session

end Saps.Files
