import Saps.Files.Io
import Saps.Files.PathText
import Saps.Lib.Rekey
import Mathlib.Data.List.Lex
import Mathlib.Data.List.Sort
import Mathlib.Data.Char

namespace Saps.Files

-- The redb store: one table from the string of a path to the text of the file.
structure KvBlockingIo where
  files : HashMap Str Str

namespace KvBlockingIo

-- redb iterates a table in the order of its keys.
def keyOrder : Order Str where
  arrange keys := keys.insertionSort (· ≤ ·)
  arrange_perm keys := List.perm_insertionSort _ keys

def new : KvBlockingIo :=
  ⟨⟨∅, keyOrder⟩⟩

def fileNotFound (key : Str) : FileError :=
  .io key "file not found".toList

def folderNotFound (folder : Str) : FileError :=
  .io folder "folder not found".toList

def readFile (io : KvBlockingIo) (path : Path .file) : Except FileError Str :=
  match io.files.lookup path.fullPath.text with
  | some contents => .ok contents
  | none => .error (fileNotFound path.fullPath.text)

def fileExists (io : KvBlockingIo) (path : Path .file) : Bool :=
  (io.files.lookup path.fullPath.text).isSome

def writeFile (io : KvBlockingIo) (path : Path .file) (data : Str) :
    Except FileError Unit × KvBlockingIo :=
  (.ok (), ⟨io.files.insert path.fullPath.text data⟩)

def deleteFile (io : KvBlockingIo) (path : Path .file) : Except FileError Unit × KvBlockingIo :=
  match io.files.lookup path.fullPath.text with
  | some _ => (.ok (), ⟨io.files.erase path.fullPath.text⟩)
  | none => (.error (fileNotFound path.fullPath.text), io)

def moveFile (io : KvBlockingIo) (source target : Path .file) :
    Except FileError Unit × KvBlockingIo :=
  match io.files.lookup source.fullPath.text with
  | some contents =>
    (.ok (), ⟨(io.files.erase source.fullPath.text).insert target.fullPath.text contents⟩)
  | none => (.error (fileNotFound source.fullPath.text), io)

def copyFile (io : KvBlockingIo) (source target : Path .file) :
    Except FileError Unit × KvBlockingIo :=
  match io.files.lookup source.fullPath.text with
  | some contents => (.ok (), ⟨io.files.insert target.fullPath.text contents⟩)
  | none => (.error (fileNotFound source.fullPath.text), io)

-- `PathBuf::from` of a stored key.
def keyPath (key : Str) : PathBuf :=
  ⟨key⟩

def childFiles (io : KvBlockingIo) (path : Path .folder) : Except FileError (List (Path .file)) :=
  let keys := io.files.keys.filter fun key =>
    (keyPath key).components.parent = some path.fullPath.components
  .ok (keys.map Path.new)

-- The stored keys under a folder, in iteration order.
def matchingKeys (io : KvBlockingIo) (folder : Path .folder) : List Str :=
  io.files.keys.filter fun key => (keyPath key).components.startsWith folder.fullPath.components

def allChildFiles (io : KvBlockingIo) (path : Path .folder) :
    Except FileError (List (Path .file)) :=
  .ok ((io.matchingKeys path).map Path.new)

def childFolders (_ : KvBlockingIo) (_ : Path .folder) : Except FileError (List (Path .folder)) :=
  .ok []

def createFolder (io : KvBlockingIo) (_ : Path .folder) : Except FileError Unit × KvBlockingIo :=
  (.ok (), io)

def folderExists (io : KvBlockingIo) (path : Path .folder) : Bool :=
  io.files.keys.any fun key => (keyPath key).components.startsWith path.fullPath.components

def deleteFolder (io : KvBlockingIo) (path : Path .folder) : Except FileError Unit × KvBlockingIo :=
  let keys := io.matchingKeys path
  if keys = [] then (.error (folderNotFound path.fullPath.text), io)
  else (.ok (), ⟨keys.foldl (fun files key => files.erase key) io.files⟩)

-- No caller passes a key without the prefix, where the source has its `unwrap`.
def swapPrefix (source target : PathBuf) (key : Str) : Str :=
  match (keyPath key).stripPrefix source with
  | some relative => (target.join relative).text
  | none => key

def moveFolder (io : KvBlockingIo) (source target : Path .folder) :
    Except FileError Unit × KvBlockingIo :=
  let keys := io.matchingKeys source
  if keys = [] then (.error (folderNotFound source.fullPath.text), io)
  else (.ok (), ⟨keys.foldl (HashMap.rekey (swapPrefix source.fullPath target.fullPath)) io.files⟩)

def copyFolder (io : KvBlockingIo) (source target : Path .folder) :
    Except FileError Unit × KvBlockingIo :=
  let keys := io.matchingKeys source
  if keys = [] then (.error (folderNotFound source.fullPath.text), io)
  else
    (.ok (), ⟨keys.foldl (HashMap.duplicate (swapPrefix source.fullPath target.fullPath)) io.files⟩)

instance : FileIo KvBlockingIo where
  readFile := readFile
  fileExists := fileExists
  writeFile := writeFile
  deleteFile := deleteFile
  moveFile := moveFile
  copyFile := copyFile

instance : FolderIo KvBlockingIo where
  folderExists := folderExists
  deleteFolder := deleteFolder
  moveFolder := moveFolder
  copyFolder := copyFolder

end KvBlockingIo

end Saps.Files
