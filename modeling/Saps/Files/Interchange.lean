import Saps.Files.BlockingMem
import Saps.Files.Disk.Theorems
import Saps.Lib.Transition

-- The disk engine and the in-memory one, driven by the same file operations.
namespace Saps.Files.Interchange

open PathBuf (Relative Usable)

inductive Op where
  | readFile (path : Path .file)
  | writeFile (path : Path .file) (data : Str)
  | fileExists (path : Path .file)
  | deleteFile (path : Path .file)
  | moveFile (source target : Path .file)
  | copyFile (source target : Path .file)

def Op.paths : Op → List (Path .file)
  | readFile path | writeFile path _ | fileExists path | deleteFile path => [path]
  | moveFile source target | copyFile source target => [source, target]

inductive Output where
  | unit
  | text (contents : Str)
  | bool (answer : Bool)
  deriving DecidableEq

abbrev Outcome := Except FileError Output

def done (result : Except FileError Unit) : Outcome :=
  result.map fun _ => .unit

def call {Store : Type} [FileIo Store] (store : Store) : Op → Outcome × Store
  | .readFile path => ((FileIo.readFile store path).map .text, store)
  | .writeFile path data => (FileIo.writeFile store path data).map done id
  | .fileExists path => (.ok (.bool (FileIo.fileExists store path)), store)
  | .deleteFile path => (FileIo.deleteFile store path).map done id
  | .moveFile source target => (FileIo.moveFile store source target).map done id
  | .copyFile source target => (FileIo.copyFile store source target).map done id

-- Errors carry the message of the engine they come from.
def Same : Outcome → Outcome → Prop
  | .ok left, .ok right => left = right
  | .error _, .error _ => True
  | _, _ => False

structure Engines where
  disk : Disk
  mem : BlockingMemIo

def Step (before : Engines) (label : Op × Outcome × Outcome) (after : Engines) : Prop :=
  call before.disk label.1 = (label.2.1, after.disk) ∧
    call before.mem label.1 = (label.2.2, after.mem)

-- The working directory is empty, and so is the map.
structure Starts (engines : Engines) : Prop where
  rooted : engines.disk.tree.Rooted
  cwd : engines.disk.tree.kind engines.disk.cwd = some .folder
  nothing : ∀ names, names ≠ [] → engines.disk.tree.kind (engines.disk.cwd ++ names) = none
  mem : engines.mem = .new

-- Relative paths of names, none of which leads on from another one.
structure Admissible (paths : List (Path .file)) : Prop where
  relative : ∀ path ∈ paths, path.fullPath.Relative
  unnested : ∀ path ∈ paths, ∀ other ∈ paths,
    path.fullPath.components <+: other.fullPath.components →
      path.fullPath.components = other.fullPath.components

def Stored (disk : Disk) (path : Path .file) : Prop :=
  (disk.tree.file (disk.located path.fullPath)).isSome

-- What the disk can put a file at: a path that ends in a name, in a folder that exists.
def Reachable (disk : Disk) (path : Path .file) : Prop :=
  path.fullPath.Usable ∧ disk.tree.kind (disk.parentOf path.fullPath) = some .folder

-- A path to a stored file ends in a name; the target of a move or copy has a folder
-- to go to; and no file with a text is copied onto itself.
def Fits (disk : Disk) : Op → Prop
  | .readFile path | .fileExists path | .deleteFile path =>
    Stored disk path → path.fullPath.Usable
  | .writeFile path _ => path.fullPath.Usable
  | .moveFile source target =>
    Stored disk source → source.fullPath.Usable ∧ Reachable disk target
  | .copyFile source target =>
    Stored disk source → source.fullPath.Usable ∧ Reachable disk target ∧
      (disk.located source.fullPath = disk.located target.fullPath →
        disk.tree.file (disk.located source.fullPath) = some [])

end Saps.Files.Interchange
