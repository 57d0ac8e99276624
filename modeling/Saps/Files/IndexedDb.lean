import Saps.Files.BlockingKv
import Saps.Lib.TwoPhase

namespace Saps.Files

-- The object store of the browser: from the string of a path to the text.
structure IndexedDbIo where
  files : HashMap Str Str

namespace IndexedDbIo

-- The code units of a JavaScript string, by which IndexedDB orders its keys.
def utf16 (text : Str) : List Nat :=
  text.flatMap fun c =>
    if c.toNat < 0x10000 then [c.toNat]
    else [0xD800 + (c.toNat - 0x10000) / 0x400, 0xDC00 + (c.toNat - 0x10000) % 0x400]

def keyOrder : Order Str where
  arrange keys := keys.insertionSort fun left right => utf16 left ≤ utf16 right
  arrange_perm keys := List.perm_insertionSort _ keys

def new : IndexedDbIo :=
  ⟨⟨∅, keyOrder⟩⟩

def fileNotFound (key : Str) : FileError :=
  .io key "file not found".toList

def folderNotFound (folder : Str) : FileError :=
  .io folder "folder not found".toList

def get (io : IndexedDbIo) (key : Str) : Option Str :=
  io.files.lookup key

def allKeys (io : IndexedDbIo) : List Str :=
  io.files.keys

def allEntries (io : IndexedDbIo) : List (Str × Str) :=
  io.allKeys.map fun key => (key, (io.files.lookup key).getD [])

def under (folder : Path .folder) (key : Str) : Bool :=
  (KvBlockingIo.keyPath key).components.startsWith folder.fullPath.components

def swapPrefix (source target : PathBuf) (key : Str) : Str :=
  KvBlockingIo.swapPrefix source target key

inductive Op where
  | writeFile (path : Path .file) (data : Str)
  | deleteFile (path : Path .file)
  | moveFile (source target : Path .file)
  | copyFile (source target : Path .file)
  | deleteFolder (path : Path .folder)
  | moveFolder (source target : Path .folder)
  | copyFolder (source target : Path .folder)

-- What an operation takes along from its reading transaction.
def Op.Seen : Op → Type
  | writeFile _ _ | deleteFile _ => Unit
  | moveFile _ _ | copyFile _ _ => Str
  | deleteFolder _ => List Str
  | moveFolder _ _ | copyFolder _ _ => List (Str × Str)

-- The reading transaction, with the checks that follow it.
def look (io : IndexedDbIo) : (op : Op) → Except FileError op.Seen
  | .writeFile _ _ => .ok ()
  | .deleteFile path =>
    if (io.get path.fullPath.text).isNone then .error (fileNotFound path.fullPath.text) else .ok ()
  | .moveFile source _ | .copyFile source _ =>
    match io.get source.fullPath.text with
    | some contents => .ok contents
    | none => .error (fileNotFound source.fullPath.text)
  | .deleteFolder path =>
    let keys := io.allKeys.filter (under path)
    if keys = [] then .error (folderNotFound path.fullPath.text) else .ok keys
  | .moveFolder source _ | .copyFolder source _ =>
    let entries := io.allEntries.filter fun entry => under source entry.1
    if entries = [] then .error (folderNotFound source.fullPath.text) else .ok entries

-- The writing transaction. All its requests are issued before any is awaited.
def act (io : IndexedDbIo) : (op : Op) → op.Seen → IndexedDbIo
  | .writeFile path data, _ => ⟨io.files.insert path.fullPath.text data⟩
  | .deleteFile path, _ => ⟨io.files.erase path.fullPath.text⟩
  | .moveFile source target, (contents : Str) =>
    ⟨(io.files.insert target.fullPath.text contents).erase source.fullPath.text⟩
  | .copyFile _ target, (contents : Str) => ⟨io.files.insert target.fullPath.text contents⟩
  | .deleteFolder _, (keys : List Str) => ⟨keys.foldl (fun files key => files.erase key) io.files⟩
  | .moveFolder source target, (entries : List (Str × Str)) =>
    ⟨entries.foldl (fun files entry =>
      (files.insert (swapPrefix source.fullPath target.fullPath entry.1) entry.2).erase entry.1)
      io.files⟩
  | .copyFolder source target, (entries : List (Str × Str)) =>
    ⟨entries.foldl (fun files entry =>
      files.insert (swapPrefix source.fullPath target.fullPath entry.1) entry.2) io.files⟩

-- Only a write needs no reading transaction.
def single : Op → Bool
  | .writeFile _ _ => true
  | _ => false

def ops : TwoPhase IndexedDbIo Op FileError where
  Seen := Op.Seen
  look := look
  act := act
  single := single

-- What an operation has seen is still so: the file is there; it holds the same
-- text; the folder has files, and they were all seen; it has the same files with
-- the same texts.
def UpToDate (io : IndexedDbIo) : (op : Op) → op.Seen → Prop
  | .writeFile _ _, _ => True
  | .deleteFile path, _ => (io.get path.fullPath.text).isSome
  | .moveFile source _, (contents : Str) | .copyFile source _, (contents : Str) =>
    io.get source.fullPath.text = some contents
  | .deleteFolder path, (keys : List Str) =>
    (∃ key ∈ io.allKeys, under path key) ∧ ∀ key ∈ io.allKeys, under path key ↔ key ∈ keys
  | .moveFolder source _, (entries : List (Str × Str))
  | .copyFolder source _, (entries : List (Str × Str)) =>
    entries ≠ [] ∧ io.allEntries.filter (fun entry => under source entry.1) = entries

end IndexedDbIo

end Saps.Files
