import Saps.Files.Guard

-- The `memfile_blocking` endpoint of each module under `api/`.
namespace Saps.Files.Api

variable {Doc : Type} [Yrs Doc] {Store : Type} [FileIo Store]

def read (guard : MemFileGuard Doc) (store : Store) (path : Path .file) :
    Except FileError Str × MemFileGuard Doc × Store :=
  match guard.getFile store path with
  | (.ok file, guard, store) => (.ok file.contents, guard, store)
  | (.error error, guard, store) => (.error error, guard, store)

-- `guard.get_file(path)?.save()`, with the saved buffer back in the map.
def saveFile (guard : MemFileGuard Doc) (store : Store) (path : Path .file) :
    Except FileError Unit × MemFileGuard Doc × Store :=
  match guard.getFile store path with
  | (.error error, guard, store) => (.error error, guard, store)
  | (.ok file, guard, store) =>
    let (result, file, store) := file.save store
    (result, guard.putFile path file, store)

def write (guard : MemFileGuard Doc) (store : Store) (path : Path .file) (data : Str) :
    Except FileError Unit × MemFileGuard Doc × Store :=
  saveFile (guard.resetFile path data) store path

def delete (guard : MemFileGuard Doc) (store : Store) (path : Path .file) :
    Except FileError Unit × MemFileGuard Doc × Store :=
  let (guard, store) := guard.dropFile store path
  let (result, store) := FileIo.deleteFile store path
  (result, guard, store)

def moveFile (guard : MemFileGuard Doc) (store : Store) (source target : Path .file) :
    Except FileError Unit × MemFileGuard Doc × Store :=
  let (guard, store) := guard.dropFile store source
  let (guard, store) := guard.dropFile store target
  let (result, store) := FileIo.moveFile store source target
  (result, guard, store)

def copy (guard : MemFileGuard Doc) (store : Store) (source target : Path .file) :
    Except FileError Unit × MemFileGuard Doc × Store :=
  match saveFile guard store source with
  | (.error error, guard, store) => (.error error, guard, store)
  | (.ok (), guard, store) =>
    let (guard, store) := guard.dropFile store target
    let (result, store) := FileIo.copyFile store source target
    (result, guard, store)

def fileExists (guard : MemFileGuard Doc) (store : Store) (path : Path .file) : Bool :=
  guard.isResident path || FileIo.fileExists store path

def deleteFolder [FolderIo Store] (guard : MemFileGuard Doc) (store : Store)
    (path : Path .folder) : Except FileError Unit × MemFileGuard Doc × Store :=
  let (guard, store) := guard.dropDir store path
  let (result, store) := FolderIo.deleteFolder store path
  (result, guard, store)

def moveFolder [FolderMoves Store] (guard : MemFileGuard Doc) (store : Store)
    (source target : Path .folder) : Except FileError Unit × MemFileGuard Doc × Store :=
  let (guard, store) := guard.dropDir store source
  let (guard, store) := guard.dropDir store target
  let (result, store) := FolderMoves.moveFolder store source target
  (result, guard, store)

def copyFolder [FolderIo Store] (guard : MemFileGuard Doc) (store : Store)
    (source target : Path .folder) : Except FileError Unit × MemFileGuard Doc × Store :=
  match guard.snapshot store with
  | (.error error, guard, store) => (.error error, guard, store)
  | (.ok (), guard, store) =>
    let (guard, store) := guard.dropDir store target
    let (result, store) := FolderIo.copyFolder store source target
    (result, guard, store)

namespace ExtractPath

def cadSuffix : Str := ".cad".toList

-- The two places a `mod` declaration can live, in probe order.
def candidates (rootPath relPath : Str) : Path .file × Path .file :=
  let stem := if cadSuffix.isSuffixOf relPath then
      relPath.take (relPath.length - cadSuffix.length) else relPath
  (Path.build rootPath (stem ++ cadSuffix), Path.build rootPath (stem ++ "/mod.cad".toList))

-- The escape of one character in `{:?}`, for all but the rarer unprintable ones.
def debugChar (c : Char) : Str :=
  if c = '"' ∨ c = '\\' then ['\\', c]
  else if c = '\n' then ['\\', 'n']
  else if c = '\r' then ['\\', 'r']
  else if c = '\t' then ['\\', 't']
  else if c.toNat = 0 then ['\\', '0']
  else if c.toNat < 0x20 ∨ 0x7f ≤ c.toNat ∧ c.toNat < 0xa0 then
    ['\\', 'u', '\x7b'] ++ Nat.toDigits 16 c.toNat ++ ['\x7d']
  else [c]

-- `{:?}` of a path.
def debugText (path : PathBuf) : Str :=
  '"' :: path.text.flatMap debugChar ++ ['"']

def notFound (relPath : Str) (direct module : Path .file) : FileError :=
  .path relPath ("declared mod file not found: neither ".toList ++ debugText direct.fullPath ++
    " nor ".toList ++ debugText module.fullPath ++ " exists".toList)

-- The endpoint, over the probe that tells which files exist.
def resolve (present : Path .file → Bool) (rootPath relPath : Str) :
    Except FileError (Path .file) :=
  let (direct, module) := candidates rootPath relPath
  if present direct then .ok direct
  else if present module then .ok module
  else .error (notFound relPath direct module)

end ExtractPath

def extractPath (guard : MemFileGuard Doc) (store : Store) (rootPath relPath : Str) :
    Except FileError (Path .file) :=
  ExtractPath.resolve (fileExists guard store) rootPath relPath

end Saps.Files.Api
