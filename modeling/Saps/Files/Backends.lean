import Saps.Files.DiskFolderOps
import Saps.Files.DiskFolders.Theorems
import Saps.Files.FlatEngines
import Saps.Files.Interchange
import Saps.Lib.TreeCopy.Beside

-- The disk engine and the in-memory one, driven by the same file and folder operations.
namespace Saps.Files.Backends

open FlatEngines (Op Outcome done listed memCall)
open Interchange (Engines Stored)

-- The fuel is for the two operations that walk a tree.
def diskCall (fuel : Nat) (disk : Disk) : Op → Option (Outcome × Disk)
  | .readFile path => some ((BlockingDiskIo.readFile disk path).map .text, disk)
  | .writeFile path data => some ((BlockingDiskIo.writeFile disk path data).map done id)
  | .fileExists path => some (.ok (.bool (BlockingDiskIo.fileExists disk path)), disk)
  | .deleteFile path => some ((BlockingDiskIo.deleteFile disk path).map done id)
  | .moveFile source target => some ((BlockingDiskIo.moveFile disk source target).map done id)
  | .copyFile source target => some ((BlockingDiskIo.copyFile disk source target).map done id)
  | .childFiles path => some (listed (BlockingDiskIo.childFiles disk path), disk)
  | .allChildFiles path =>
    (BlockingDiskIo.allChildFiles fuel disk path).map fun result => (listed result, disk)
  | .childFolders path => some (listed (BlockingDiskIo.childFolders disk path), disk)
  | .createFolder path => some ((BlockingDiskIo.createFolder disk path).map done id)
  | .folderExists path => some (.ok (.bool (BlockingDiskIo.folderExists disk path)), disk)
  | .deleteFolder path => some ((BlockingDiskIo.deleteFolder disk path).map done id)
  | .moveFolder source target => some ((BlockingDiskIo.moveFolder disk source target).map done id)
  | .copyFolder source target =>
    (BlockingDiskIo.copyFolder fuel disk source target).map fun answer => answer.map done id

-- Errors carry the message of the engine they come from, and listings their order.
def Alike : Outcome → Outcome → Prop
  | .ok (.paths left), .ok (.paths right) => left.Perm right
  | .ok left, .ok right => left = right
  | .error _, .error _ => True
  | _, _ => False

-- In what order folders are listed and the map is iterated is not known.
def Step (before : Engines) (label : Op × Outcome × Outcome) (after : Engines) : Prop :=
  ∃ order fuel, ∃ mem : BlockingMemIo, mem.files.lookup = before.mem.files.lookup ∧
    diskCall fuel (before.disk.listed order) label.1 = some (label.2.1, after.disk) ∧
    memCall mem label.1 = (label.2.2, after.mem)

-- No file is on the way from the working directory, nor where the way ends.
def Passable (disk : Disk) (names : Location) : Prop :=
  ∀ front, front <+: names → disk.tree.file (disk.cwd ++ front) = none

-- A folder with a file somewhere in it, or nothing at all.
structure Filled (disk : Disk) (path : PathBuf) : Prop where
  file : disk.tree.file (disk.located path) = none
  inner : disk.tree.kind (disk.located path) = some .folder →
    ∃ rest, (disk.tree.file (disk.located path ++ rest)).isSome

structure Listable (disk : Disk) (path : Path .folder) : Prop where
  relative : path.fullPath.Relative
  built : ∃ root rel, path = Path.build root rel
  folder : disk.isDir path.fullPath = true

-- Where the in-memory engine, which has files only, does what the disk does: files do
-- not take the places of folders, the folders that are asked for have files, and a
-- folder moves or is copied to a place beside it where it fits.
def Fits (disk : Disk) : Op → Prop
  | .readFile path | .fileExists path | .deleteFile path =>
    path.fullPath.Relative ∧ (Stored disk path → path.fullPath.Usable)
  | .writeFile path _ =>
    path.fullPath.Relative ∧ path.fullPath.Usable ∧
      disk.tree.kind (disk.located path.fullPath) ≠ some .folder ∧
      Passable disk path.fullPath.nameSegments.dropLast
  | .moveFile source target =>
    source.fullPath.Relative ∧ target.fullPath.Relative ∧
      disk.tree.kind (disk.located source.fullPath) ≠ some .folder ∧
      (Stored disk source → source.fullPath.Usable ∧ disk.Writable target.fullPath)
  | .copyFile source target =>
    source.fullPath.Relative ∧ target.fullPath.Relative ∧
      (Stored disk source → source.fullPath.Usable ∧ disk.Writable target.fullPath ∧
        (disk.located source.fullPath = disk.located target.fullPath →
          disk.tree.file (disk.located source.fullPath) = some []))
  | .childFiles path | .allChildFiles path => Listable disk path
  | .childFolders path => Listable disk path ∧
    ∀ name, disk.tree.kind (disk.located path.fullPath ++ [name]) ≠ some .folder
  | .createFolder path => path.fullPath.Relative ∧ Disk.nul ∉ path.fullPath.text ∧
    Passable disk path.fullPath.nameSegments
  | .folderExists path => path.fullPath.Relative ∧ path.fullPath.text ≠ [] ∧
    Filled disk path.fullPath
  | .deleteFolder path => path.fullPath.Relative ∧ path.fullPath.text ≠ [] ∧
    Filled disk path.fullPath ∧ Disk.lastSegment path.fullPath ≠ some ['.']
  | .moveFolder source target =>
    source.fullPath.Relative ∧ target.fullPath.Relative ∧ source.fullPath.text ≠ [] ∧
      Filled disk source.fullPath ∧ Disk.lastSegment source.fullPath ≠ some ['.'] ∧
      (disk.tree.kind (disk.located source.fullPath) = some .folder →
        target.fullPath.Usable ∧
          disk.tree.kind (disk.parentOf target.fullPath) = some .folder ∧
          (disk.located source.fullPath = disk.located target.fullPath ∨
            Beside (disk.located source.fullPath) (disk.located target.fullPath) ∧
              disk.tree.Vacant (disk.located target.fullPath)))
  | .copyFolder source target =>
    source.fullPath.Relative ∧ target.fullPath.Relative ∧ source.fullPath.text ≠ [] ∧
      Filled disk source.fullPath ∧ Disk.nul ∉ target.fullPath.text ∧
      Passable disk target.fullPath.nameSegments ∧
      Beside (disk.located source.fullPath) (disk.located target.fullPath) ∧
      (disk.tree.kind (disk.located source.fullPath) = some .folder →
        disk.tree.Mergeable (disk.located source.fullPath) (disk.located target.fullPath))

def FittingStep (before : Engines) (label : Op × Outcome × Outcome) (after : Engines) : Prop :=
  Step before label after ∧ Fits before.disk label.1

end Saps.Files.Backends
