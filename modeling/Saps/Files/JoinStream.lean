import Saps.Files.Guard
import Saps.Files.Beneath
import Saps.Files.DiskFolders

-- The stream of the open buffers by which a replica joins a session.
namespace Saps.Files

namespace MemFileStreamer

variable {Doc : Type} [Yrs Doc]

def count (guard : MemFileGuard Doc) : Nat :=
  guard.fileMap.keys.length

def states (guard : MemFileGuard Doc) : List (Str × Yrs.Update Doc) :=
  guard.fileMap.values.map fun file => (file.path.relativeString, file.encodeState)

theorem length_states (guard : MemFileGuard Doc) : (states guard).length = count guard := by
  unfold states count
  rw [List.length_map, HashMap.length_values]

end MemFileStreamer

namespace PathBuf

-- A path seen from the root, or as it is where it does not lie under the root.
def Key.relativeTo (root path : Key) : Key :=
  (path.stripPrefix root).getD path

-- The path of an entry further down, one name after the other.
def below (path : PathBuf) (names : List Str) : PathBuf :=
  names.foldl (fun path name => path.join ⟨name⟩) path

end PathBuf

-- The in-memory store with the spelling of its keys, which its listings hand out.
structure SpelledMem where
  io : BlockingMemIo
  text : PathBuf.Key → PathBuf
  spells : ∀ key, (io.files.lookup key).isSome → (text key).key = key

def SpelledMem.allChildFiles (store : SpelledMem) (folder : Path .folder) :
    Except FileError (List (Path .file)) :=
  (store.io.allChildFiles folder).map fun keys => keys.map fun key => Path.new (store.text key).text

namespace JoinStream

-- The state of a buffer that was loaded from this text.
def stateOf (Doc : Type) [Yrs Doc] (contents : Str) : Yrs.Update Doc :=
  (MemFile.fromString (Path.new []) contents : MemFile Doc).encodeState

-- Where a client stores what it gets under this key.
def placeOf (root key : Str) : PathBuf.Key :=
  (PathBuf.join ⟨root⟩ ⟨key⟩).key

-- One pair for each file, whose key is the path of the file relative to the root.
structure Streams (Doc : Type) [Yrs Doc] (root : Str) (files : List (PathBuf.Key × Str))
    (pairs : List (Str × Yrs.Update Doc)) : Prop where
  placed : (pairs.map fun pair => (placeOf root pair.1, pair.2)).Perm
    (files.map fun file => (file.1, stateOf Doc file.2))
  relative : ∀ pair ∈ pairs,
    (PathBuf.mk pair.1).key = (PathBuf.mk root).key.relativeTo (placeOf root pair.1)
  distinct : (pairs.map fun pair => placeOf root pair.1).Nodup

-- A fresh guard streams the files of a folder once it has loaded the listing of the folder.
def Joins (Doc : Type) [Yrs Doc] {Store : Type} [FileIo Store] (store : Store) (root : Str)
    (files : List (PathBuf.Key × Str)) (listing : Except FileError (List (Path .file))) : Prop :=
  ∀ paths, listing = .ok paths → Streams Doc root files
    (MemFileStreamer.states (MemFileGuard.new.loadAll store paths : MemFileGuard Doc × Store).1)

section Flat

variable {Name : Type} [DecidableEq Name] (files : HashMap Name Str) (meaning : Name → PathBuf.Key)

-- The files beneath a folder, of a store that maps names to texts.
def filesBeneath (folder : Path .folder) : List (PathBuf.Key × Str) :=
  (files.keys.filter fun name => folder.Beneath (meaning name)).filterMap fun name =>
    (files.lookup name).map fun contents => (meaning name, contents)

-- No file stands at the folder's own path, no two names of files beneath it mean one path,
-- and the root is empty where files beneath the folder lie under the root.
structure Fits (root rel : Str) : Prop where
  own : ∀ name, (files.lookup name).isSome → meaning name ≠ (Path.build root rel : Path .folder).key
  single : ∀ name other, (files.lookup name).isSome → (files.lookup other).isSome →
    (Path.build root rel : Path .folder).Beneath (meaning name) → meaning name = meaning other →
      name = other
  outside : ∀ name, (files.lookup name).isSome →
    (Path.build root rel : Path .folder).Beneath (meaning name) →
      root = [] ∨ (meaning name).startsWith (PathBuf.mk root).key = false

end Flat

-- The files below a location of the disk, whose path is the one that is asked for.
def filesBelow (disk : Disk) (path : PathBuf) (location : Location) : List (PathBuf.Key × Str) :=
  ((disk.tree.entries.keys.filter fun entry => location.isPrefixOf entry).map
      fun entry => entry.drop location.length).filterMap fun rest =>
    (disk.tree.file (location ++ rest)).map fun contents => ((path.below rest).key, contents)

end JoinStream

end Saps.Files
