import Saps.Files.MemFile
import Saps.Lib.Transition
import Mathlib.Data.List.DropRight

-- A buffer that is edited over a store whose writes may fail. The async buffers
-- save by the same rules over the same interface, with awaited writes.
namespace Saps.Files

-- What a caller knows of such a store: a write that succeeds can be read back, and
-- one that fails leaves the stored text as it was.
class WritesSettle (Store : Type) [FileIo Store] : Prop where
  read_written {store after : Store} {path : Path .file} {data : Str}
    (h : FileIo.writeFile store path data = (.ok (), after)) :
    FileIo.readFile after path = .ok data
  read_refused {store after : Store} {path : Path .file} {data : Str} {error : FileError}
    (h : FileIo.writeFile store path data = (.error error, after)) :
    FileIo.readFile after path = FileIo.readFile store path

-- A store that keeps what its writes were answered.
structure Logged (Store : Type) where
  store : Store
  writes : List (Except FileError Unit)

namespace Logged

variable {Store : Type} [FileIo Store]

def update (logged : Logged Store) (change : Except FileError Unit × Store) :
    Except FileError Unit × Logged Store :=
  (change.1, { logged with store := change.2 })

instance : FileIo (Logged Store) where
  readFile logged := FileIo.readFile logged.store
  fileExists logged := FileIo.fileExists logged.store
  writeFile logged path data :=
    let (result, store) := FileIo.writeFile logged.store path data
    (result, ⟨store, logged.writes ++ [result]⟩)
  deleteFile logged path := logged.update (FileIo.deleteFile logged.store path)
  moveFile logged source target := logged.update (FileIo.moveFile logged.store source target)
  copyFile logged source target := logged.update (FileIo.copyFile logged.store source target)

end Logged

namespace Durability

variable {Doc : Type} [Yrs Doc] {Store : Type} [FileIo Store]

inductive Call where
  | insertChar (position : CursorIndex) (character : Char)
  | deleteChar (position : CursorIndex)
  | insertText (position : CursorIndex) (data : Str)
  | deleteRange (position : CursorIndex) (delta : Nat)
  | save

structure State (Doc Store : Type) where
  file : MemFile Doc
  store : Logged Store

def State.stored (state : State Doc Store) : Except FileError Str :=
  FileIo.readFile state.store state.file.path

namespace Call

def run (file : MemFile Doc) (store : Logged Store) :
    Call → Except FileError Unit × MemFile Doc × Logged Store
  | insertChar position character => file.insertChar store position character
  | deleteChar position => file.deleteChar store position
  | insertText position data => file.insertText store position data
  | deleteRange position delta => file.deleteRange store position delta
  | save => file.save store

-- An edit of a single character, which may turn out to delete nothing.
def Single : Call → Prop
  | insertChar _ _ | deleteChar _ => True
  | insertText _ _ | deleteRange _ _ | save => False

instance (call : Call) : Decidable call.Single := by
  unfold Single
  split <;> infer_instance

-- The edit of a call, its saves left out.
def edit (doc : Doc) : Call → Doc
  | insertChar position character =>
    TxUtils.insertChar (Yrs.getString doc) doc position character
  | deleteChar position => TxUtils.deleteChar (Yrs.getString doc) doc position
  | insertText position data => TxUtils.insertText (Yrs.getString doc) doc position data
  | deleteRange position delta => TxUtils.deleteRange (Yrs.getString doc) doc position delta
  | save => doc

end Call

-- A call with its result, what its writes were answered, and the contents of the
-- buffer after it.
structure Label where
  call : Call
  result : Except FileError Unit
  writes : List (Except FileError Unit)
  contents : Str

def Label.wrote (label : Label) : Bool :=
  label.writes.any Except.isOk

def Step (before : State Doc Store) (label : Label) (after : State Doc Store) : Prop :=
  label.call.run before.file before.store = (label.result, after.file, after.store) ∧
    after.store.writes = before.store.writes ++ label.writes ∧
    label.contents = after.file.contents

-- A buffer that has just been filled with its stored text.
def Loaded (state : State Doc Store) : Prop :=
  state.stored = .ok state.file.contents ∧ state.file.opsSinceSave = 0

-- The calls since the most recent successful write.
def since (trace : List Label) : List Label :=
  trace.rtakeWhile fun label => !label.wrote

-- The contents of the buffer at the most recent successful write.
def written (start : Str) (trace : List Label) : Str :=
  ((trace.filter Label.wrote).getLast?.map Label.contents).getD start

structure Lags (start : Str) (trace : List Label) (state : State Doc Store) : Prop where
  stored : state.stored = .ok (written start trace)
  counted : (∀ label ∈ since trace, label.result = .ok ()) →
    (∀ label ∈ since trace, label.call.Single) ∧
      (since trace).length = state.file.opsSinceSave ∧ state.file.opsSinceSave ≤ 4

-- A call that fails leaves the stored text alone and its edit in the buffer.
def Kept (before : State Doc Store) (label : Label) (after : State Doc Store) : Prop :=
  ∀ error, label.result = .error error →
    after.stored = before.stored ∧ after.file.doc = label.call.edit before.file.doc

-- Dropping the buffer stores its contents, if the flush succeeds.
def Flushes (state : State Doc Store) : Prop :=
  state.file.flushOnDrop = true →
    (FileIo.writeFile state.store state.file.path state.file.contents).1 = .ok () →
    FileIo.readFile (state.file.drop state.store) state.file.path = .ok state.file.contents

end Durability

end Saps.Files
