import Saps.Files.Io
import Saps.Lib.HashMap

namespace Saps.Files

-- The in-memory store: the text of every file under its full path.
structure BlockingMemIo where
  files : HashMap PathBuf.Key Str

namespace BlockingMemIo

def new : BlockingMemIo :=
  ⟨.new⟩

def fileNotFound (path : PathBuf) : FileError :=
  .io path.text "file not found".toList

def folderNotFound (path : PathBuf) : FileError :=
  .io path.text "folder not found".toList

def readFile (io : BlockingMemIo) (path : Path .file) : Except FileError Str :=
  match io.files.lookup path.key with
  | some contents => .ok contents
  | none => .error (fileNotFound path.fullPath)

def fileExists (io : BlockingMemIo) (path : Path .file) : Bool :=
  (io.files.lookup path.key).isSome

def writeFile (io : BlockingMemIo) (path : Path .file) (data : Str) :
    Except FileError Unit × BlockingMemIo :=
  (.ok (), ⟨io.files.insert path.key data⟩)

def deleteFile (io : BlockingMemIo) (path : Path .file) : Except FileError Unit × BlockingMemIo :=
  match io.files.lookup path.key with
  | some _ => (.ok (), ⟨io.files.erase path.key⟩)
  | none => (.error (fileNotFound path.fullPath), io)

def moveFile (io : BlockingMemIo) (source target : Path .file) :
    Except FileError Unit × BlockingMemIo :=
  match io.files.lookup source.key with
  | some contents => (.ok (), ⟨(io.files.erase source.key).insert target.key contents⟩)
  | none => (.error (fileNotFound source.fullPath), io)

def copyFile (io : BlockingMemIo) (source target : Path .file) :
    Except FileError Unit × BlockingMemIo :=
  match io.files.lookup source.key with
  | some contents => (.ok (), ⟨io.files.insert target.key contents⟩)
  | none => (.error (fileNotFound source.fullPath), io)

-- The stored keys under a folder, in iteration order.
def keysUnder (io : BlockingMemIo) (folder : Path .folder) : List PathBuf.Key :=
  io.files.keys.filter (PathBuf.Key.startsWith · folder.key)

-- A listed path is known by its key, which is all that paths are compared by.
def childFiles (io : BlockingMemIo) (path : Path .folder) : Except FileError (List PathBuf.Key) :=
  .ok (io.files.keys.filter fun key => key.components.parent = some path.key.components)

def allChildFiles (io : BlockingMemIo) (path : Path .folder) :
    Except FileError (List PathBuf.Key) :=
  .ok (io.keysUnder path)

def childFolders (_ : BlockingMemIo) (_ : Path .folder) : Except FileError (List PathBuf.Key) :=
  .ok []

def createFolder (io : BlockingMemIo) (_ : Path .folder) : Except FileError Unit × BlockingMemIo :=
  (.ok (), io)

def folderExists (io : BlockingMemIo) (path : Path .folder) : Bool :=
  io.files.keys.any (PathBuf.Key.startsWith · path.key)

def deleteFolder (io : BlockingMemIo) (path : Path .folder) :
    Except FileError Unit × BlockingMemIo :=
  let keys := io.keysUnder path
  if keys = [] then (.error (folderNotFound path.fullPath), io)
  else (.ok (), ⟨keys.foldl (fun files key => files.erase key) io.files⟩)

-- One turn of the loop of `moveFolder`. No turn meets the missing cases, where
-- the source has its `unwrap`s.
def moveKey (source target : PathBuf.Key) (files : HashMap PathBuf.Key Str)
    (key : PathBuf.Key) : HashMap PathBuf.Key Str :=
  match key.stripPrefix source, files.lookup key with
  | some relative, some contents => (files.erase key).insert (target.join relative) contents
  | _, _ => files

def moveFolder (io : BlockingMemIo) (source target : Path .folder) :
    Except FileError Unit × BlockingMemIo :=
  let keys := io.keysUnder source
  if keys = [] then (.error (folderNotFound source.fullPath), io)
  else (.ok (), ⟨keys.foldl (moveKey source.key target.key) io.files⟩)

-- One turn of the loop of `copyFolder`.
def copyKey (source target : PathBuf.Key) (files : HashMap PathBuf.Key Str)
    (key : PathBuf.Key) : HashMap PathBuf.Key Str :=
  match key.stripPrefix source, files.lookup key with
  | some relative, some contents => files.insert (target.join relative) contents
  | _, _ => files

def copyFolder (io : BlockingMemIo) (source target : Path .folder) :
    Except FileError Unit × BlockingMemIo :=
  let keys := io.keysUnder source
  if keys = [] then (.error (folderNotFound source.fullPath), io)
  else (.ok (), ⟨keys.foldl (copyKey source.key target.key) io.files⟩)

instance : FileIo BlockingMemIo where
  readFile := readFile
  fileExists := fileExists
  writeFile := writeFile
  deleteFile := deleteFile
  moveFile := moveFile
  copyFile := copyFile

instance : FolderIo BlockingMemIo where
  folderExists := folderExists
  deleteFolder := deleteFolder
  moveFolder := moveFolder
  copyFolder := copyFolder

end BlockingMemIo

end Saps.Files
