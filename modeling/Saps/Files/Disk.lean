import Mathlib.Data.List.DropRight
import Saps.Files.Io
import Saps.Files.PathText
import Saps.Lib.Rekey
import Saps.Lib.FileTree

namespace Saps.Files

abbrev Location := List Str

-- What the operating system answers when a call fails.
inductive IoError where
  | notFound
  | notADirectory
  | isADirectory
  | alreadyExists
  | directoryNotEmpty
  | invalidArgument
  | busy
  | nulByte
  | notAFile
  deriving DecidableEq, Repr

def IoError.message : IoError → Str
  | notFound => "No such file or directory (os error 2)".toList
  | notADirectory => "Not a directory (os error 20)".toList
  | isADirectory => "Is a directory (os error 21)".toList
  | alreadyExists => "File exists (os error 17)".toList
  | directoryNotEmpty => "Directory not empty (os error 39)".toList
  | invalidArgument => "Invalid argument (os error 22)".toList
  | busy => "Device or resource busy (os error 16)".toList
  | nulByte => "file name contained an unexpected NUL byte".toList
  | notAFile => "the source path is neither a regular file nor a symlink to a regular file".toList

-- The filesystem a process sees: a tree without links, and the folder that
-- relative paths start from.
structure Disk where
  tree : FileTree Str Str
  cwd : Location

namespace Disk

def nul : Char :=
  Char.ofNat 0

def advance (here : Location) (segment : Str) : Location :=
  if PathBuf.skipped segment then here
  else if segment = ['.', '.'] then here.dropLast else here ++ [segment]

-- One segment of a path, read in the folder that the ones before it lead to.
def step (disk : Disk) (here : Location) (segment : Str) : Except IoError Location :=
  match disk.tree.kind here with
  | none => .error .notFound
  | some (.file _) => .error .notADirectory
  | some .folder => .ok (advance here segment)

def start (disk : Disk) (text : Str) : Location :=
  if PathBuf.hasRoot text then [] else disk.cwd

def walk (disk : Disk) (text : Str) (segments : List Str) : Except IoError Location :=
  if nul ∈ text then .error .nulByte
  else if text = [] then .error .notFound
  else segments.foldlM disk.step (disk.start text)

-- Where a path leads. The last name on it need not exist.
def resolve (disk : Disk) (text : Str) : Except IoError Location :=
  disk.walk text (text.splitOn '/')

-- Where a path puts an entry: the slashes behind the last name are not walked.
def entry (disk : Disk) (text : Str) : Except IoError Location :=
  disk.walk text ((text.splitOn '/').rdropWhile (· = []))

-- A path that ends in a slash asks for a folder.
def slashed (path : PathBuf) : Bool :=
  (path.text.splitOn '/').getLast? = some []

-- The name an entry is taken by. Trailing slashes do not count.
def lastSegment (path : PathBuf) : Option Str :=
  ((path.text.splitOn '/').filter (· ≠ [])).getLast?

-- An entry does not move by the names `.` and `..`, and neither does the root.
def movable (path : PathBuf) : Bool :=
  match lastSegment path with
  | none | some ['.'] | some ['.', '.'] => false
  | some _ => true

-- `fs::read_to_string`, which finds valid UTF-8 in every file.
def readToString (disk : Disk) (path : PathBuf) : Except IoError Str :=
  match disk.resolve path.text with
  | .error error => .error error
  | .ok location =>
    match disk.tree.kind location with
    | none => .error .notFound
    | some .folder => .error .isADirectory
    | some (.file contents) => .ok contents

-- `Path::is_file`.
def isFile (disk : Disk) (path : PathBuf) : Bool :=
  (disk.readToString path).isOk

-- `fs::write`.
def write (disk : Disk) (path : PathBuf) (data : Str) : Except IoError Unit × Disk :=
  match disk.entry path.text with
  | .error error => (.error error, disk)
  | .ok location =>
    if slashed path then (.error .isADirectory, disk)
    else
      match disk.tree.kind location with
      | some .folder => (.error .isADirectory, disk)
      | _ => (.ok (), { disk with tree := disk.tree.put location (.file data) })

-- `fs::remove_file`.
def removeFile (disk : Disk) (path : PathBuf) : Except IoError Unit × Disk :=
  match disk.resolve path.text with
  | .error error => (.error error, disk)
  | .ok location =>
    match disk.tree.kind location with
    | none => (.error .notFound, disk)
    | some .folder => (.error .isADirectory, disk)
    | some (.file _) => (.ok (), { disk with tree := disk.tree.remove location })

-- What `rename` does with a folder: all that stands under it moves along.
def renameFolder (disk : Disk) (source target : Location) : Except IoError Unit × Disk :=
  let moved : Disk := { disk with tree := ⟨
    (disk.tree.entries.keys.filter fun location => source.isPrefixOf location).foldl
      (HashMap.rekey fun location => target ++ location.drop source.length) disk.tree.entries⟩ }
  if source = target then (.ok (), disk)
  else if source.isPrefixOf target then (.error .invalidArgument, disk)
  else
    match disk.tree.kind target with
    | none => (.ok (), moved)
    | some (.file _) => (.error .notADirectory, disk)
    | some .folder =>
      if disk.tree.entries.keys.any fun location => location ≠ target ∧ target.isPrefixOf location
      then (.error .directoryNotEmpty, disk) else (.ok (), moved)

-- What `rename` does with a file, which no folder gives way to, least of all one that the
-- file is in.
def renameFile (disk : Disk) (source target : Location) (contents : Str) :
    Except IoError Unit × Disk :=
  match disk.tree.kind target with
  | some .folder =>
    (.error (if target.isPrefixOf source then .directoryNotEmpty else .isADirectory), disk)
  | _ => (.ok (), { disk with tree := (disk.tree.remove source).put target (.file contents) })

-- `fs::rename`. Both paths are converted before either is walked.
def rename (disk : Disk) (source target : PathBuf) : Except IoError Unit × Disk :=
  if nul ∈ source.text ∨ nul ∈ target.text then (.error .nulByte, disk)
  else
    match disk.entry source.text, disk.entry target.text with
    | .error error, _ => (.error error, disk)
    | _, .error error => (.error error, disk)
    | .ok old, .ok new =>
      if movable source ∧ movable target then
        match disk.tree.kind old with
        | none => (.error .notFound, disk)
        | some .folder => disk.renameFolder old new
        | some (.file contents) =>
          if slashed source ∨ slashed target then (.error .notADirectory, disk)
          else disk.renameFile old new contents
      else (.error .busy, disk)

-- `fs::copy` opens the source, then creates or truncates the target, and only
-- then reads on.
def copy (disk : Disk) (source target : PathBuf) : Except IoError Unit × Disk :=
  match disk.readToString source with
  | .error .isADirectory => (.error .notAFile, disk)
  | .error error => (.error error, disk)
  | .ok _ =>
    match disk.write target [] with
    | (.error error, disk) => (.error error, disk)
    | (.ok (), opened) =>
      match opened.readToString source with
      | .error error => (.error error, opened)
      | .ok contents => opened.write target contents

-- The folders along the components of a path, made where they are missing.
def makeFolders (disk : Disk) (here : Location) : Components → Except IoError Unit × Disk
  | [] => (.ok (), disk)
  | .rootDir :: rest => makeFolders disk [] rest
  | .curDir :: rest => makeFolders disk here rest
  | .parentDir :: rest => makeFolders disk here.dropLast rest
  | .normal name :: rest =>
    match disk.tree.kind (here ++ [name]) with
    | some .folder => makeFolders disk (here ++ [name]) rest
    | some (.file _) =>
      (.error (if rest = [] then .alreadyExists else .notADirectory), disk)
    | none =>
      makeFolders { disk with tree := disk.tree.put (here ++ [name]) .folder } (here ++ [name]) rest

-- `fs::create_dir_all`.
def createDirAll (disk : Disk) (path : PathBuf) : Except IoError Unit × Disk :=
  if nul ∈ path.text then (.error .nulByte, disk)
  else disk.makeFolders disk.cwd path.components

end Disk

-- The engine holds no state of its own: what it works on is the disk.
namespace BlockingDiskIo

def ioError (path : PathBuf) (error : IoError) : FileError :=
  .io path.text error.message

def tagged (path : PathBuf) (result : Except IoError Unit × Disk) :
    Except FileError Unit × Disk :=
  (result.1.mapError (ioError path), result.2)

def readFile (disk : Disk) (path : Path .file) : Except FileError Str :=
  (disk.readToString path.fullPath).mapError (ioError path.fullPath)

def fileExists (disk : Disk) (path : Path .file) : Bool :=
  disk.isFile path.fullPath

def makeParent (disk : Disk) (path : PathBuf) : Except FileError Unit × Disk :=
  match path.parent with
  | none => (.ok (), disk)
  | some parent => tagged parent (disk.createDirAll parent)

def writeFile (disk : Disk) (path : Path .file) (data : Str) : Except FileError Unit × Disk :=
  match makeParent disk path.fullPath with
  | (.error error, disk) => (.error error, disk)
  | (.ok (), disk) => tagged path.fullPath (disk.write path.fullPath data)

def deleteFile (disk : Disk) (path : Path .file) : Except FileError Unit × Disk :=
  tagged path.fullPath (disk.removeFile path.fullPath)

def moveFile (disk : Disk) (source target : Path .file) : Except FileError Unit × Disk :=
  tagged source.fullPath (disk.rename source.fullPath target.fullPath)

def copyFile (disk : Disk) (source target : Path .file) : Except FileError Unit × Disk :=
  tagged source.fullPath (disk.copy source.fullPath target.fullPath)

instance : FileIo Disk where
  readFile := readFile
  fileExists := fileExists
  writeFile := writeFile
  deleteFile := deleteFile
  moveFile := moveFile
  copyFile := copyFile

end BlockingDiskIo

end Saps.Files
