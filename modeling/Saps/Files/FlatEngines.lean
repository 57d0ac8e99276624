import Saps.Files.BlockingKv
import Saps.Files.BlockingMem
import Saps.Lib.Naming
import Saps.Lib.Transition

-- The two flat engines, driven by the same operations.
namespace Saps.Files.FlatEngines

open Naming (Spelled)

inductive Op where
  | readFile (path : Path .file)
  | writeFile (path : Path .file) (data : Str)
  | fileExists (path : Path .file)
  | deleteFile (path : Path .file)
  | moveFile (source target : Path .file)
  | copyFile (source target : Path .file)
  | childFiles (path : Path .folder)
  | allChildFiles (path : Path .folder)
  | childFolders (path : Path .folder)
  | createFolder (path : Path .folder)
  | folderExists (path : Path .folder)
  | deleteFolder (path : Path .folder)
  | moveFolder (source target : Path .folder)
  | copyFolder (source target : Path .folder)

inductive Output where
  | unit
  | text (contents : Str)
  | bool (answer : Bool)
  | paths (keys : List PathBuf.Key)
  deriving DecidableEq

abbrev Outcome := Except FileError Output

def done (result : Except FileError Unit) : Outcome :=
  result.map fun _ => .unit

def listed {kind : PathType} (result : Except FileError (List (Path kind))) : Outcome :=
  result.map fun paths => .paths (paths.map Path.key)

def memCall (io : BlockingMemIo) : Op → Outcome × BlockingMemIo
  | .readFile path => ((io.readFile path).map .text, io)
  | .writeFile path data => (io.writeFile path data).map done id
  | .fileExists path => (.ok (.bool (io.fileExists path)), io)
  | .deleteFile path => (io.deleteFile path).map done id
  | .moveFile source target => (io.moveFile source target).map done id
  | .copyFile source target => (io.copyFile source target).map done id
  | .childFiles path => ((io.childFiles path).map .paths, io)
  | .allChildFiles path => ((io.allChildFiles path).map .paths, io)
  | .childFolders path => ((io.childFolders path).map .paths, io)
  | .createFolder path => (io.createFolder path).map done id
  | .folderExists path => (.ok (.bool (io.folderExists path)), io)
  | .deleteFolder path => (io.deleteFolder path).map done id
  | .moveFolder source target => (io.moveFolder source target).map done id
  | .copyFolder source target => (io.copyFolder source target).map done id

def kvCall (io : KvBlockingIo) : Op → Outcome × KvBlockingIo
  | .readFile path => ((io.readFile path).map .text, io)
  | .writeFile path data => (io.writeFile path data).map done id
  | .fileExists path => (.ok (.bool (io.fileExists path)), io)
  | .deleteFile path => (io.deleteFile path).map done id
  | .moveFile source target => (io.moveFile source target).map done id
  | .copyFile source target => (io.copyFile source target).map done id
  | .childFiles path => (listed (io.childFiles path), io)
  | .allChildFiles path => (listed (io.allChildFiles path), io)
  | .childFolders path => (listed (io.childFolders path), io)
  | .createFolder path => (io.createFolder path).map done id
  | .folderExists path => (.ok (.bool (io.folderExists path)), io)
  | .deleteFolder path => (io.deleteFolder path).map done id
  | .moveFolder source target => (io.moveFolder source target).map done id
  | .copyFolder source target => (io.copyFolder source target).map done id

-- Listings count as sets.
def Same : Outcome → Outcome → Prop
  | .ok (.paths left), .ok (.paths right) => ∀ key, key ∈ left ↔ key ∈ right
  | left, right => left = right

structure Engines where
  mem : BlockingMemIo
  kv : KvBlockingIo

def Engines.new : Engines :=
  ⟨.new, .new⟩

-- The same operation on both engines, with the two outcomes. In what order the
-- in-memory map is iterated is not known.
def Step (before : Engines) (label : Op × Outcome × Outcome) (after : Engines) : Prop :=
  ∃ mem : BlockingMemIo, mem.files.lookup = before.mem.files.lookup ∧
    memCall mem label.1 = (label.2.1, after.mem) ∧
    kvCall before.kv label.1 = (label.2.2, after.kv)

-- What a string stands for in the other engine.
def meaning (key : Str) : PathBuf.Key :=
  (KvBlockingIo.keyPath key).key

-- Where a folder operation puts a key, on the components alone.
def newKey (source target key : PathBuf.Key) : PathBuf.Key :=
  match key.stripPrefix source with
  | some relative => target.join relative
  | none => key

-- The new keys of a folder's files are apart from each other and from the old
-- ones, so that it does not matter in which order the files are taken.
def FolderApart (kv : KvBlockingIo) (source target : Path .folder) : Prop :=
  HashMap.Apart (newKey source.key target.key) ((kv.matchingKeys source).map meaning)

-- No file the operation reads or leaves behind is stored under another spelling
-- of its path.
def Fits (kv : KvBlockingIo) : Op → Prop
  | .readFile path | .writeFile path _ | .fileExists path | .deleteFile path =>
    Spelled meaning kv.files path.fullPath.text
  | .moveFile source target => Spelled meaning kv.files source.fullPath.text ∧
    (kv.fileExists source = true →
      Spelled meaning (kv.files.erase source.fullPath.text) target.fullPath.text)
  | .copyFile source target => Spelled meaning kv.files source.fullPath.text ∧
    (kv.fileExists source = true → Spelled meaning kv.files target.fullPath.text)
  | .moveFolder source target => FolderApart kv source target ∧
    ∀ key ∈ kv.matchingKeys source, ∀ other ∈ kv.files.keys, other ∉ kv.matchingKeys source →
      meaning other = meaning (KvBlockingIo.swapPrefix source.fullPath target.fullPath key) →
      other = KvBlockingIo.swapPrefix source.fullPath target.fullPath key
  | .copyFolder source target => FolderApart kv source target ∧
    ∀ key ∈ kv.matchingKeys source, Spelled meaning kv.files
      (KvBlockingIo.swapPrefix source.fullPath target.fullPath key)
  | .childFiles _ | .allChildFiles _ | .childFolders _ | .createFolder _ | .folderExists _
  | .deleteFolder _ => True

end Saps.Files.FlatEngines
