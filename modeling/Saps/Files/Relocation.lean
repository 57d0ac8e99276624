import Saps.Files.FlatEngines
import Saps.Files.IndexedDb
import Saps.Lib.AtOnce

-- Moves and copies of folders in the flat engines, which take the files one by
-- one, measured against taking them all at once.
namespace Saps.Files.Relocation

open FlatEngines (meaning newKey)
open HashMap (AtOnce Agree)

-- What a string under the folder `source` becomes: its rest, joined to `target`.
def newName (source target : Path .folder) : Str → Str :=
  KvBlockingIo.swapPrefix source.fullPath target.fullPath

-- Neither folder lies at or under the other one.
def Unnested (left right : Path .folder) : Prop :=
  left.key.startsWith right.key = false ∧ right.key.startsWith left.key = false

section Mem

variable (keep : Prop)
  (op : BlockingMemIo → Path .folder → Path .folder → Except FileError Unit × BlockingMemIo)
  (io : BlockingMemIo) (source target : Path .folder)

-- In whatever order the map is iterated, the files of the folder go to their places at
-- once or nothing is changed, and the order makes no difference.
structure MemRelocates : Prop where
  done : ∀ other : BlockingMemIo, other.files.lookup = io.files.lookup →
    (op other source target).1 = .ok () → AtOnce keep (newKey source.key target.key)
      (io.keysUnder source) io.files.lookup (op other source target).2.files.lookup
  refused : ∀ other : BlockingMemIo, other.files.lookup = io.files.lookup →
    ∀ error, (op other source target).1 = .error error → (op other source target).2 = other
  ordered : ∀ other : BlockingMemIo, other.files.lookup = io.files.lookup →
    (op other source target).1 = (op io source target).1 ∧
      (op other source target).2.files.lookup = (op io source target).2.files.lookup

-- Files that land on one place hold one text, and what lands on a file of the folder
-- lands on one that the move leaves where it is.
def MemMoveFits : Prop :=
  Agree (newKey source.key target.key) (io.keysUnder source) io.files.lookup ∧
    ∀ key ∈ io.keysUnder source, newKey source.key target.key key ∈ io.keysUnder source →
      newKey source.key target.key (newKey source.key target.key key) =
        newKey source.key target.key key

-- Files that land on one place hold one text, also where a file of the folder is.
def MemCopyFits : Prop :=
  Agree (newKey source.key target.key) (io.keysUnder source) io.files.lookup ∧
    ∀ key ∈ io.keysUnder source, newKey source.key target.key key ∈ io.keysUnder source →
      io.files.lookup (newKey source.key target.key key) = io.files.lookup key

end Mem

section Tables

variable (keep : Prop) (keys : List Str) (source target : Path .folder)
  (before after : HashMap Str Str)

-- The same for a table keyed by strings, where nothing else may be found at the new
-- places under another spelling.
structure TableRelocates : Prop where
  atOnce : AtOnce keep (newName source target) keys before.lookup after.lookup
  spelled : ∀ key ∈ keys, ∀ name text, meaning name = meaning (newName source target key) →
    after.lookup name = some text →
      ∃ other ∈ keys, meaning (newName source target other) = meaning name ∧
        before.lookup other = some text

-- No file that stays is stored under another spelling of a new place, unless with a
-- text that lands there.
def Unaliased : Prop :=
  ∀ key ∈ keys, ∀ name ∈ before.keys, (∀ other ∈ keys, newName source target other ≠ name) →
    keep ∨ name ∉ keys → meaning name = meaning (newName source target key) →
    ∃ other ∈ keys, meaning (newName source target other) = meaning name ∧
      before.lookup other = before.lookup name

-- No two files land on one place.
def Distinct : Prop :=
  ∀ left ∈ keys, ∀ right ∈ keys,
    newName source target left = newName source target right → left = right

end Tables

section Kv

variable (keep : Prop)
  (op : KvBlockingIo → Path .folder → Path .folder → Except FileError Unit × KvBlockingIo)
  (io : KvBlockingIo) (source target : Path .folder)

structure KvRelocates : Prop where
  done : (op io source target).1 = .ok () →
    TableRelocates keep (io.matchingKeys source) source target io.files (op io source target).2.files
  refused : ∀ error, (op io source target).1 = .error error → (op io source target).2 = io

-- The table is iterated in one order, so a file may land on another one that has been
-- taken before it.
def KvMoveFits : Prop :=
  Agree (newName source target) (io.matchingKeys source) io.files.lookup ∧
    ((io.matchingKeys source).Pairwise fun key later =>
      newName source target key = later → newName source target later = later) ∧
    Unaliased False (io.matchingKeys source) source target io.files

def KvCopyFits : Prop :=
  Agree (newName source target) (io.matchingKeys source) io.files.lookup ∧
    ((io.matchingKeys source).Pairwise fun key later =>
      newName source target key = later → io.files.lookup key = io.files.lookup later) ∧
    Unaliased True (io.matchingKeys source) source target io.files

end Kv

section IndexedDb

variable (io : IndexedDbIo)

-- An operation with no other one in flight.
def alone (op : IndexedDbIo.Op) : Except FileError Unit × IndexedDbIo :=
  IndexedDbIo.ops.alone io op

variable (source target : Path .folder)

def namesUnder : List Str :=
  io.allKeys.filter (IndexedDbIo.under source)

def IndexedDbMovesFile (source target : Path .file) : Prop :=
  (alone io (.moveFile source target)).1 = .ok () →
    AtOnce False (fun _ => target.fullPath.text) [source.fullPath.text] io.files.lookup
      (alone io (.moveFile source target)).2.files.lookup

def IndexedDbMovesFolder : Prop :=
  (alone io (.moveFolder source target)).1 = .ok () →
    AtOnce False (newName source target) (namesUnder io source) io.files.lookup
      (alone io (.moveFolder source target)).2.files.lookup

-- What lands on a file of the folder lands there after that file's own turn.
def IndexedDbMoveFits : Prop :=
  Agree (newName source target) (namesUnder io source) io.files.lookup ∧
    ∀ key ∈ namesUnder io source, newName source target key ∈ namesUnder io source →
      ∃ other ∈ namesUnder io source, newName source target other = newName source target key ∧
        HashMap.Before (namesUnder io source) (newName source target key) other

def IndexedDbCopies : Prop :=
  (alone io (.copyFolder source target)).1 = .ok () →
    TableRelocates True (namesUnder io source) source target io.files
      (alone io (.copyFolder source target)).2.files

def IndexedDbCopyFits : Prop :=
  Agree (newName source target) (namesUnder io source) io.files.lookup ∧
    Unaliased True (namesUnder io source) source target io.files

end IndexedDb

-- A table keyed by strings and a map keyed by components hold the same texts.
def Shows (table : HashMap Str Str) (files : HashMap PathBuf.Key Str) : Prop :=
  ∀ key text, files.lookup key = some text ↔
    ∃ name, meaning name = key ∧ table.lookup name = some text

-- Engines that hold the same files answer a copy alike and hold the same files after it.
def CopyAlike (mem : BlockingMemIo) (kv : KvBlockingIo) (io : IndexedDbIo)
    (source target : Path .folder) : Prop :=
  Shows kv.files mem.files → Shows io.files mem.files →
    (kv.copyFolder source target).1 = (mem.copyFolder source target).1 ∧
    (alone io (.copyFolder source target)).1 = (mem.copyFolder source target).1 ∧
    Shows (kv.copyFolder source target).2.files (mem.copyFolder source target).2.files ∧
    Shows (alone io (.copyFolder source target)).2.files (mem.copyFolder source target).2.files

end Saps.Files.Relocation
