import Saps.Files.Disk
import Saps.Lib.TreeCopy

-- The folder operations of the disk engine that walk a tree.
namespace Saps.Files

namespace Disk

-- `Path::is_dir`.
def isDir (disk : Disk) (path : PathBuf) : Bool :=
  match disk.resolve path.text with
  | .error _ => false
  | .ok location => disk.tree.kind location = some .folder

-- `fs::read_dir`, with all that is there when it is called.
def readDir (disk : Disk) (path : PathBuf) : Except IoError (List Str) :=
  match disk.resolve path.text with
  | .error error => .error error
  | .ok location =>
    match disk.tree.kind location with
    | none => .error .notFound
    | some (.file _) => .error .notADirectory
    | some .folder => .ok (disk.tree.children location)

end Disk

namespace BlockingDiskIo

-- A listed path keeps the root of the folder that is asked for, and is relative to it
-- if it can be.
def typedFile (root entry : PathBuf) : Path .file :=
  Path.build root.text ((entry.stripPrefix root).getD entry).text

section Collect

variable (disk : Disk) (root : PathBuf)
  (recur : PathBuf → List (Path .file) → Option (Except FileError (List (Path .file))))

def collectEntries (dir : PathBuf) :
    List Str → List (Path .file) → Option (Except FileError (List (Path .file)))
  | [], out => some (.ok out)
  | name :: names, out =>
    let entryPath := dir.join ⟨name⟩
    if disk.isDir entryPath then
      match recur entryPath out with
      | some (.ok out) => collectEntries dir names out
      | stopped => stopped
    else if disk.isFile entryPath then
      collectEntries dir names (out ++ [typedFile root entryPath])
    else collectEntries dir names out

end Collect

-- The fuel bounds the depth of the recursion. There is no answer without enough of it.
def collectFiles (disk : Disk) (root : PathBuf) :
    Nat → PathBuf → List (Path .file) → Option (Except FileError (List (Path .file)))
  | 0, _, _ => none
  | fuel + 1, dir, out =>
    match disk.readDir dir with
    | .error error => some (.error (ioError dir error))
    | .ok names => collectEntries disk root (collectFiles disk root fuel) dir names out

def allChildFiles (fuel : Nat) (disk : Disk) (path : Path .folder) :
    Option (Except FileError (List (Path .file))) :=
  collectFiles disk path.rootPath fuel path.fullPath []

section Copy

variable (recur : Disk → PathBuf → PathBuf → Option (Except FileError Unit × Disk))
  (src dst : PathBuf)

def copyEntry (disk : Disk) (name : Str) : Option (Except FileError Unit × Disk) :=
  let entryPath := src.join ⟨name⟩
  let destination := dst.join ⟨name⟩
  if disk.isDir entryPath then recur disk entryPath destination
  else some (tagged entryPath (disk.copy entryPath destination))

def copyEntries (disk : Disk) : List Str → Option (Except FileError Unit × Disk)
  | [] => some (.ok (), disk)
  | name :: names =>
    match copyEntry recur src dst disk name with
    | some (.ok (), disk) => copyEntries disk names
    | stopped => stopped

end Copy

def copyDirAll : Nat → Disk → PathBuf → PathBuf → Option (Except FileError Unit × Disk)
  | 0, _, _, _ => none
  | fuel + 1, disk, src, dst =>
    match disk.createDirAll dst with
    | (.error error, disk) => some (.error (ioError dst error), disk)
    | (.ok (), disk) =>
      match disk.readDir src with
      | .error error => some (.error (ioError src error), disk)
      | .ok names => copyEntries (copyDirAll fuel) src dst disk names

def copyFolder (fuel : Nat) (disk : Disk) (source target : Path .folder) :
    Option (Except FileError Unit × Disk) :=
  copyDirAll fuel disk source.fullPath target.fullPath

end BlockingDiskIo

end Saps.Files
