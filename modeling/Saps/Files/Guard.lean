import Saps.Files.MemFile
import Saps.Files.BlockingMem

namespace Saps.Files

-- Every buffer stands under its own path.
def MemFile.Filed {Doc : Type} (buffers : HashMap PathBuf.Key (MemFile Doc)) : Prop :=
  ∀ key file, buffers.lookup key = some file → file.path.key = key

theorem MemFile.Filed.new {Doc : Type} : Filed (HashMap.new : HashMap PathBuf.Key (MemFile Doc)) := by
  intro key file h
  simp at h

theorem MemFile.Filed.insert {Doc : Type} {buffers : HashMap PathBuf.Key (MemFile Doc)}
    (h : Filed buffers) {key : PathBuf.Key} {file : MemFile Doc} (hpath : file.path.key = key) :
    Filed (buffers.insert key file) := by
  intro other buffer hlookup
  rw [HashMap.lookup_insert] at hlookup
  split at hlookup
  · next heq =>
    obtain rfl := Option.some.inj hlookup
    exact hpath.trans heq.symm
  · exact h other buffer hlookup

structure MemFileGuard (Doc : Type) where
  fileMap : HashMap PathBuf.Key (MemFile Doc)

namespace MemFileGuard

variable {Doc : Type} [Yrs Doc] {Store : Type} [FileIo Store]

def new : MemFileGuard Doc :=
  ⟨.new⟩

def isResident (guard : MemFileGuard Doc) (path : Path .file) : Bool :=
  (guard.fileMap.lookup path.key).isSome

-- `HashMap::remove` on a key, with the drop of the buffer it held.
def evict (key : PathBuf.Key) (guard : MemFileGuard Doc) (store : Store) :
    MemFileGuard Doc × Store :=
  match guard.fileMap.lookup key with
  | some file => (⟨guard.fileMap.erase key⟩, file.drop store)
  | none => (guard, store)

def evictAll (keys : List PathBuf.Key) (guard : MemFileGuard Doc) (store : Store) :
    MemFileGuard Doc × Store :=
  keys.foldl (fun state key => evict key state.1 state.2) (guard, store)

-- The map's `insert` drops the buffer it replaces, after the new one is read.
def addFile (guard : MemFileGuard Doc) (store : Store) (path : Path .file) :
    Except FileError Unit × MemFileGuard Doc × Store :=
  match MemFile.fromFile path store with
  | .error error => (.error error, guard, store)
  | .ok file =>
    let store := match guard.fileMap.lookup path.key with
      | some old => old.drop store
      | none => store
    (.ok (), ⟨guard.fileMap.insert path.key file⟩, store)

def loadAll (guard : MemFileGuard Doc) (store : Store) (paths : List (Path .file)) :
    MemFileGuard Doc × Store :=
  paths.foldl (fun state path => (addFile state.1 state.2 path).2) (guard, store)

-- The buffer handed back is the one in the map; a caller that changes it puts
-- it back with `putFile`.
def getFile (guard : MemFileGuard Doc) (store : Store) (path : Path .file) :
    Except FileError (MemFile Doc) × MemFileGuard Doc × Store :=
  match guard.fileMap.lookup path.key with
  | some file => (.ok file, guard, store)
  | none =>
    match MemFile.fromFile path store with
    | .error error => (.error error, guard, store)
    | .ok file => (.ok file, ⟨guard.fileMap.insert path.key file⟩, store)

def putFile (guard : MemFileGuard Doc) (path : Path .file) (file : MemFile Doc) :
    MemFileGuard Doc :=
  ⟨guard.fileMap.insert path.key file⟩

-- The old buffer is dropped with its flush turned off, so it writes nothing.
def resetFile (guard : MemFileGuard Doc) (path : Path .file) (contents : Str) :
    MemFileGuard Doc :=
  ⟨(guard.fileMap.erase path.key).insert path.key (MemFile.fromString path contents)⟩

def dropFile (guard : MemFileGuard Doc) (store : Store) (path : Path .file) :
    MemFileGuard Doc × Store :=
  evict path.key guard store

def dropDir (guard : MemFileGuard Doc) (store : Store) (dir : Path .folder) :
    MemFileGuard Doc × Store :=
  evictAll (guard.fileMap.keys.filter (PathBuf.Key.startsWith · dir.key)) guard store

def applyTransaction (guard : MemFileGuard Doc) (store : Store) (path : Path .file)
    (transaction : Transaction) :
    Except FileError (Yrs.Update Doc) × MemFileGuard Doc × Store :=
  match getFile guard store path with
  | (.error error, guard, store) => (.error error, guard, store)
  | (.ok file, guard, store) =>
    let before := file.stateVector
    match file.applyTransactionOps store transaction.operations with
    | (.ok (), file, store) => (file.encodeDiff before, guard.putFile path file, store)
    | (.error error, file, store) => (.error error, guard.putFile path file, store)

-- Saves the buffers under `keys` in turn; the first failure ends the pass.
def saveAll : List PathBuf.Key → MemFileGuard Doc → Store →
    Except FileError Unit × MemFileGuard Doc × Store
  | [], guard, store => (.ok (), guard, store)
  | key :: keys, guard, store =>
    match guard.fileMap.lookup key with
    | none => saveAll keys guard store
    | some file =>
      match file.save store with
      | (.ok (), file, store) => saveAll keys ⟨guard.fileMap.insert key file⟩ store
      | (.error error, file, store) => (.error error, ⟨guard.fileMap.insert key file⟩, store)

def snapshot (guard : MemFileGuard Doc) (store : Store) :
    Except FileError Unit × MemFileGuard Doc × Store :=
  saveAll guard.fileMap.keys guard store

-- Dropping the guard drops its map and with it every buffer.
def drop (guard : MemFileGuard Doc) (store : Store) : Store :=
  (evictAll guard.fileMap.keys guard store).2

end MemFileGuard

end Saps.Files
