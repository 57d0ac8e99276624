import Saps.Files.Paths

namespace Saps.Files

-- The blocking store of files. A method that writes also returns the store it
-- leaves behind, which a failed write may have changed.
class FileIo (Store : Type) where
  readFile : Store → Path .file → Except FileError Str
  fileExists : Store → Path .file → Bool
  writeFile : Store → Path .file → Str → Except FileError Unit × Store
  deleteFile : Store → Path .file → Except FileError Unit × Store
  moveFile : Store → Path .file → Path .file → Except FileError Unit × Store
  copyFile : Store → Path .file → Path .file → Except FileError Unit × Store

-- Moving a folder is all that a move through the buffers asks for.
class FolderMoves (Store : Type) where
  moveFolder : Store → Path .folder → Path .folder → Except FileError Unit × Store

class FolderIo (Store : Type) extends FolderMoves Store where
  folderExists : Store → Path .folder → Bool
  deleteFolder : Store → Path .folder → Except FileError Unit × Store
  copyFolder : Store → Path .folder → Path .folder → Except FileError Unit × Store

-- An engine whose next writes are refused as the list says. A refused write leaves the
-- engine as it was.
structure Failing (Store : Type) where
  io : Store
  refusals : List Bool

namespace Failing

variable {Store : Type} [FileIo Store]

def writeFile (store : Failing Store) (path : Path .file) (data : Str) :
    Except FileError Unit × Failing Store :=
  match store.refusals with
  | true :: rest =>
    (.error (.io path.fullPath.text "No space left on device (os error 28)".toList),
      ⟨store.io, rest⟩)
  | _ => (FileIo.writeFile store.io path data).map id (⟨·, store.refusals.tail⟩)

instance : FileIo (Failing Store) where
  readFile store := FileIo.readFile store.io
  fileExists store := FileIo.fileExists store.io
  writeFile := writeFile
  deleteFile store path := (FileIo.deleteFile store.io path).map id (⟨·, store.refusals⟩)
  moveFile store source target :=
    (FileIo.moveFile store.io source target).map id (⟨·, store.refusals⟩)
  copyFile store source target :=
    (FileIo.copyFile store.io source target).map id (⟨·, store.refusals⟩)

instance [FolderMoves Store] : FolderMoves (Failing Store) where
  moveFolder store source target :=
    (FolderMoves.moveFolder store.io source target).map id (⟨·, store.refusals⟩)

end Failing

end Saps.Files
