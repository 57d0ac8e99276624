import Saps.Files.DiskFolders
import Saps.Lib.TreeMove

-- The folder operations of the disk engine that do not walk a tree themselves.
namespace Saps.Files

namespace Disk

-- All that stands in a folder is gone, and the folder is still there.
def cleared (disk : Disk) (location : Location) : Disk where
  tree := (disk.tree.children location).foldl (fun tree name => tree.prune (location ++ [name]))
    disk.tree
  cwd := disk.cwd

-- `fs::remove_dir_all` takes away what is in the folder before the folder itself, which
-- the system does not give up under the names `.` and `..`, nor as the root.
def removeDirAll (disk : Disk) (path : PathBuf) : Except IoError Unit × Disk :=
  match disk.resolve path.text with
  | .error error => (.error error, disk)
  | .ok location =>
    match disk.tree.kind location with
    | none => (.error .notFound, disk)
    | some (.file _) => (.error .notADirectory, disk)
    | some .folder =>
      match lastSegment path with
      | none | some ['.'] => (.error .invalidArgument, disk.cleared location)
      | some ['.', '.'] => (.error .directoryNotEmpty, disk.cleared location)
      | some _ => (.ok (), { disk with tree := disk.tree.prune location })

end Disk

namespace BlockingDiskIo

def typedFolder (root entry : PathBuf) : Path .folder :=
  Path.build root.text ((entry.stripPrefix root).getD entry).text

def childFiles (disk : Disk) (path : Path .folder) : Except FileError (List (Path .file)) :=
  match disk.readDir path.fullPath with
  | .error error => .error (ioError path.fullPath error)
  | .ok names =>
    let entries := names.map fun name => path.fullPath.join ⟨name⟩
    .ok ((entries.filter disk.isFile).map (typedFile path.rootPath))

def childFolders (disk : Disk) (path : Path .folder) : Except FileError (List (Path .folder)) :=
  match disk.readDir path.fullPath with
  | .error error => .error (ioError path.fullPath error)
  | .ok names =>
    let entries := names.map fun name => path.fullPath.join ⟨name⟩
    .ok ((entries.filter disk.isDir).map (typedFolder path.rootPath))

def createFolder (disk : Disk) (path : Path .folder) : Except FileError Unit × Disk :=
  tagged path.fullPath (disk.createDirAll path.fullPath)

def folderExists (disk : Disk) (path : Path .folder) : Bool :=
  disk.isDir path.fullPath

def deleteFolder (disk : Disk) (path : Path .folder) : Except FileError Unit × Disk :=
  tagged path.fullPath (disk.removeDirAll path.fullPath)

def moveFolder (disk : Disk) (source target : Path .folder) : Except FileError Unit × Disk :=
  tagged source.fullPath (disk.rename source.fullPath target.fullPath)

instance : FolderMoves Disk where
  moveFolder := moveFolder

end BlockingDiskIo

end Saps.Files
