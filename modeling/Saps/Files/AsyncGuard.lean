import Saps.Files.Api
import Saps.Files.AsyncMem

namespace Saps.Files

-- The buffers of an async session. Dropping one of them flushes nothing. The editing
-- methods of `tx_async.rs` are those of `tx_blocking.rs` up to the `await` of the save, so
-- the ones of `MemFile` stand for both.
structure AsyncMemFileGuard (Doc : Type) where
  fileMap : HashMap PathBuf.Key (MemFile Doc)

namespace AsyncMemFileGuard

variable {Doc : Type} [Yrs Doc] {Store : Type} [FileIo Store]

def new : AsyncMemFileGuard Doc :=
  ⟨.new⟩

def isResident (guard : AsyncMemFileGuard Doc) (path : Path .file) : Bool :=
  (guard.fileMap.lookup path.key).isSome

def getFile (guard : AsyncMemFileGuard Doc) (store : Store) (path : Path .file) :
    Except FileError (MemFile Doc) × AsyncMemFileGuard Doc × Store :=
  match guard.fileMap.lookup path.key with
  | some file => (.ok file, guard, store)
  | none =>
    match MemFile.fromFile path store with
    | .error error => (.error error, guard, store)
    | .ok file => (.ok file, ⟨guard.fileMap.insert path.key file⟩, store)

def putFile (guard : AsyncMemFileGuard Doc) (path : Path .file) (file : MemFile Doc) :
    AsyncMemFileGuard Doc :=
  ⟨guard.fileMap.insert path.key file⟩

def resetFile (guard : AsyncMemFileGuard Doc) (path : Path .file) (contents : Str) :
    AsyncMemFileGuard Doc :=
  ⟨guard.fileMap.insert path.key (MemFile.fromString path contents)⟩

-- The buffer is taken out, saved and dropped. The result of the save is ignored.
def evict (key : PathBuf.Key) (guard : AsyncMemFileGuard Doc) (store : Store) :
    AsyncMemFileGuard Doc × Store :=
  match guard.fileMap.lookup key with
  | some file => (⟨guard.fileMap.erase key⟩, (file.save store).2.2)
  | none => (guard, store)

def evictAll (keys : List PathBuf.Key) (guard : AsyncMemFileGuard Doc) (store : Store) :
    AsyncMemFileGuard Doc × Store :=
  keys.foldl (fun state key => evict key state.1 state.2) (guard, store)

def dropFile (guard : AsyncMemFileGuard Doc) (store : Store) (path : Path .file) :
    AsyncMemFileGuard Doc × Store :=
  evict path.key guard store

def dropDir (guard : AsyncMemFileGuard Doc) (store : Store) (dir : Path .folder) :
    AsyncMemFileGuard Doc × Store :=
  evictAll (guard.fileMap.keys.filter (PathBuf.Key.startsWith · dir.key)) guard store

def applyTransaction (guard : AsyncMemFileGuard Doc) (store : Store) (path : Path .file)
    (transaction : Transaction) :
    Except FileError (Yrs.Update Doc) × AsyncMemFileGuard Doc × Store :=
  match getFile guard store path with
  | (.error error, guard, store) => (.error error, guard, store)
  | (.ok file, guard, store) =>
    let before := file.stateVector
    match file.applyTransactionOps store transaction.operations with
    | (.ok (), file, store) => (file.encodeDiff before, guard.putFile path file, store)
    | (.error error, file, store) => (.error error, guard.putFile path file, store)

def saveAll : List PathBuf.Key → AsyncMemFileGuard Doc → Store →
    Except FileError Unit × AsyncMemFileGuard Doc × Store
  | [], guard, store => (.ok (), guard, store)
  | key :: keys, guard, store =>
    match guard.fileMap.lookup key with
    | none => saveAll keys guard store
    | some file =>
      match file.save store with
      | (.ok (), file, store) => saveAll keys ⟨guard.fileMap.insert key file⟩ store
      | (.error error, file, store) => (.error error, ⟨guard.fileMap.insert key file⟩, store)

def snapshot (guard : AsyncMemFileGuard Doc) (store : Store) :
    Except FileError Unit × AsyncMemFileGuard Doc × Store :=
  saveAll guard.fileMap.keys guard store

end AsyncMemFileGuard

-- The `memfile_asynchronous` endpoint of each module under `api/`.
namespace AsyncApi

variable {Doc : Type} [Yrs Doc] {Store : Type} [FileIo Store]

def read (guard : AsyncMemFileGuard Doc) (store : Store) (path : Path .file) :
    Except FileError Str × AsyncMemFileGuard Doc × Store :=
  match guard.getFile store path with
  | (.ok file, guard, store) => (.ok file.contents, guard, store)
  | (.error error, guard, store) => (.error error, guard, store)

-- `guard.get_file(path).await?.save().await`.
def saveFile (guard : AsyncMemFileGuard Doc) (store : Store) (path : Path .file) :
    Except FileError Unit × AsyncMemFileGuard Doc × Store :=
  match guard.getFile store path with
  | (.error error, guard, store) => (.error error, guard, store)
  | (.ok file, guard, store) =>
    let (result, file, store) := file.save store
    (result, guard.putFile path file, store)

def write (guard : AsyncMemFileGuard Doc) (store : Store) (path : Path .file) (data : Str) :
    Except FileError Unit × AsyncMemFileGuard Doc × Store :=
  saveFile (guard.resetFile path data) store path

def delete (guard : AsyncMemFileGuard Doc) (store : Store) (path : Path .file) :
    Except FileError Unit × AsyncMemFileGuard Doc × Store :=
  let (guard, store) := guard.dropFile store path
  let (result, store) := FileIo.deleteFile store path
  (result, guard, store)

def moveFile (guard : AsyncMemFileGuard Doc) (store : Store) (source target : Path .file) :
    Except FileError Unit × AsyncMemFileGuard Doc × Store :=
  let (guard, store) := guard.dropFile store source
  let (guard, store) := guard.dropFile store target
  let (result, store) := FileIo.moveFile store source target
  (result, guard, store)

def copy (guard : AsyncMemFileGuard Doc) (store : Store) (source target : Path .file) :
    Except FileError Unit × AsyncMemFileGuard Doc × Store :=
  match saveFile guard store source with
  | (.error error, guard, store) => (.error error, guard, store)
  | (.ok (), guard, store) =>
    let (guard, store) := guard.dropFile store target
    let (result, store) := FileIo.copyFile store source target
    (result, guard, store)

def fileExists (guard : AsyncMemFileGuard Doc) (store : Store) (path : Path .file) : Bool :=
  guard.isResident path || FileIo.fileExists store path

def extractPath (guard : AsyncMemFileGuard Doc) (store : Store) (rootPath relPath : Str) :
    Except FileError (Path .file) :=
  Api.ExtractPath.resolve (fileExists guard store) rootPath relPath

def moveFolder [FolderMoves Store] (guard : AsyncMemFileGuard Doc) (store : Store)
    (source target : Path .folder) : Except FileError Unit × AsyncMemFileGuard Doc × Store :=
  let (guard, store) := guard.dropDir store source
  let (guard, store) := guard.dropDir store target
  let (result, store) := FolderMoves.moveFolder store source target
  (result, guard, store)

end AsyncApi

end Saps.Files
