import Saps.Files.Edits
import Saps.Files.Guard
import Saps.Files.OpLog

-- A replica of one buffer that is fed with the diffs of its transactions.
namespace Saps.Files.DiffStream

variable {Store : Type} [FileIo Store]

structure State (Store : Type) where
  guard : MemFileGuard OpLog
  store : Store
  replica : OpLog

def State.buffer (state : State Store) (path : Path .file) : Option (MemFile OpLog) :=
  state.guard.fileMap.lookup path.key

-- A transaction on the path. The replica applies the diff, if it gets one.
def transact (path : Path .file) (state : State Store) (transaction : Transaction) :
    Except FileError LogUpdate × State Store :=
  let (result, guard, store) := state.guard.applyTransaction state.store path transaction
  let replica := match result with
    | .ok update => state.replica.applyUpdate update
    | .error _ => state.replica
  (result, ⟨guard, store, replica⟩)

abbrev Label := Transaction × Except FileError LogUpdate

def Step (path : Path .file) (before : State Store) (label : Label) (after : State Store) : Prop :=
  transact path before label.1 = (label.2, after)

-- The replica starts from the whole state of the buffer.
def Seeded (path : Path .file) (state : State Store) : Prop :=
  ∃ file, state.buffer path = some file ∧ state.replica = (Yrs.new : OpLog).applyUpdate file.encodeState

-- After a diff the replica holds what the buffer holds, and a transaction that
-- fails leaves the document of the buffer as it was.
def Complete (path : Path .file) (before : State Store) (label : Label) (after : State Store) :
    Prop :=
  match label.2 with
  | .ok _ => (after.buffer path).map MemFile.contents = some after.replica.getString
  | .error _ => (after.buffer path).map MemFile.doc = (before.buffer path).map MemFile.doc

end Saps.Files.DiffStream

namespace Saps.Files

def Edit.size : Edit → Nat
  | .insert _ content => content.length
  | .delete _ length => length

namespace DiffStream

variable {Doc : Type} [Yrs Doc] {Store : Type} [FileIo Store]

-- What has been edited at each of the saves of a run of edits, none of them refused.
def saves (opsSinceSave : Nat) : List Edit → List (List Edit)
  | [] => []
  | edit :: edits =>
    match edit.size with
    | 0 => (saves opsSinceSave edits).map (edit :: ·)
    | 1 =>
      if SAVE_THRESHOLD ≤ opsSinceSave + 1 then [edit] :: (saves 0 edits).map (edit :: ·)
      else (saves (opsSinceSave + 1) edits).map (edit :: ·)
    | _ + 2 => [edit] :: (saves 0 edits).map (edit :: ·)

-- What has been edited at the first save that the store refuses.
def refused (doc : Doc) (path : Path .file) (store : Store) : List (List Edit) → Option (List Edit)
  | [] => none
  | made :: rest =>
    match FileIo.writeFile store path (Yrs.getString (Edit.applyAll doc made)) with
    | (.ok (), store) => refused doc path store rest
    | (.error _, _) => some made

-- Where the store refuses a save of the transaction, nothing has been edited yet.
def Spared (path : Path .file) (before : State Store) (transaction : Transaction) : Prop :=
  ∀ file made, before.buffer path = some file →
    refused file.doc file.path before.store (saves file.opsSinceSave transaction.edits) =
      some made → Edit.applyAll file.doc made = file.doc

end DiffStream

end Saps.Files
