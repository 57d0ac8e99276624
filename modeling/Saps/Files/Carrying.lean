import Saps.Files.AsyncGuard
import Saps.Files.Relocation

-- Moves through the buffers of a session, over a store that may refuse its writes.
namespace Saps.Files

section Shelves

variable {Store : Type} [FileIo Store]

def FileIo.text (store : Store) (path : Path .file) : Option Str :=
  (FileIo.readFile store path).toOption

-- A store that tells the files that are known apart by their slots: a write goes to one
-- of them, a refused write changes no file, and what is moved takes its text along.
structure Shelves (Store : Type) [FileIo Store] {Slot : Type} [DecidableEq Slot]
    (fits : Store → Prop) (known : Path .file → Prop) (slot : Path .file → Slot) : Prop where
  slot_key {path other : Path .file} (hpath : known path) (hother : known other)
    (h : slot path = slot other) : path.key = other.key
  written {store after : Store} {path : Path .file} {data : Str} (hfits : fits store)
    (hpath : known path) (h : FileIo.writeFile store path data = (.ok (), after)) :
    fits after ∧ ∀ other, known other → FileIo.text after other =
      if slot other = slot path then some data else FileIo.text store other
  refused {store after : Store} {path : Path .file} {data : Str} {error : FileError}
    (hfits : fits store) (hpath : known path)
    (h : FileIo.writeFile store path data = (.error error, after)) :
    fits after ∧ ∀ other, known other → FileIo.text after other = FileIo.text store other
  moved {store after : Store} {source target : Path .file} (hfits : fits store)
    (hsource : known source) (htarget : known target) (hne : source.key ≠ target.key)
    (h : FileIo.moveFile store source target = (.ok (), after)) :
    FileIo.text after target = FileIo.text store source

-- Where no file of the moved folder comes to stand, nothing has changed.
structure FolderShelves (Store : Type) [FileIo Store] [FolderMoves Store] {Slot : Type}
    [DecidableEq Slot] (fits : Store → Prop) (known : Path .file → Prop)
    (slot : Path .file → Slot) (relocates : Path .folder → Path .folder → Prop) : Prop
    extends Shelves Store fits known slot where
  moved_folder {store after : Store} {source target : Path .folder} (hfits : fits store)
    (hrelocates : relocates source target)
    (h : FolderMoves.moveFolder store source target = (.ok (), after)) {path place : Path .file}
    (hpath : known path) (hknown : known place)
    (hunder : path.key.startsWith source.key = true)
    (hplace : place.key = FlatEngines.newKey source.key target.key path.key) :
    FileIo.text after place = (FileIo.text store path).or (FileIo.text store place)

end Shelves

namespace Carrying

variable {Doc : Type} [Yrs Doc] {Store : Type} [FileIo Store]

abbrev Buffers (Doc : Type) := HashMap PathBuf.Key (MemFile Doc)

-- What the session holds for a file: the text of its buffer, or else the stored text.
def held (buffers : Buffers Doc) (store : Store) (path : Path .file) : Option Str :=
  match buffers.lookup path.key with
  | some file => some file.contents
  | none => FileIo.text store path

-- How a guard parts with a buffer: what it makes of the store, and whether the text of
-- the buffer has been written.
structure Closing (Doc Store : Type) where
  close : MemFile Doc → Store → Store
  writes : MemFile Doc → Store → Bool

-- The blocking buffers write in their `Drop`, unless they are told not to.
def dropping : Closing Doc Store where
  close := MemFile.drop
  writes file store := file.flushOnDrop && (FileIo.writeFile store file.path file.contents).1.isOk

-- The async buffers are saved before they are dropped.
def saving : Closing Doc Store where
  close file store := (file.save store).2.2
  writes file store := (FileIo.writeFile store file.path file.contents).1.isOk

-- The files of the buffers are known.
def Among (known : Path .file → Prop) (buffers : Buffers Doc) : Prop :=
  ∀ key file, buffers.lookup key = some file → known file.path

variable {Slot : Type} (slot : Path .file → Slot) (known : Path .file → Prop)
  (closing : Closing Doc Store) (buffers : Buffers Doc)

-- The store once the buffers under `keys` are closed, one after another.
def Closing.closeAll (keys : List PathBuf.Key) (store : Store) : Store :=
  keys.foldl (fun store key => (buffers.lookup key).elim store (closing.close · store)) store

-- The turn of the buffer comes, and its text is written, which goes to the file.
def Written (keys : List PathBuf.Key) (store : Store) (path : Path .file) (file : MemFile Doc) :
    Prop :=
  slot path = slot file.path ∧ ∃ front back, keys = front ++ path.key :: back ∧
    closing.writes file (closing.closeAll buffers front store) = true

-- The text is written for a buffer of the file, or is stored already where no buffer of
-- it is written.
def Settles (keys : List PathBuf.Key) (store : Store) (path : Path .file) (text : Str) : Prop :=
  (∃ file, buffers.lookup path.key = some file ∧
    Written slot closing buffers keys store path file ∧ file.contents = text) ∨
  (∀ file, buffers.lookup path.key = some file →
    ¬Written slot closing buffers keys store path file) ∧ FileIo.text store path = some text

-- The open buffers under a folder, in the order of the map.
def openUnder (folder : Path .folder) : List PathBuf.Key :=
  buffers.keys.filter (PathBuf.Key.startsWith · folder.key)

-- The buffers that a move of a folder closes: first the old place's, then the new one's.
def closed (source target : Path .folder) : List PathBuf.Key :=
  openUnder buffers source ++
    openUnder ((openUnder buffers source).foldl (fun left key => left.erase key) buffers) target

-- After the move the text that the session held is at the new place.
def FileCarried (store after : Store) (source target : Path .file) : Prop :=
  ∀ text, held buffers store source = some text → FileIo.text after target = some text

def FolderCarried (store after : Store) (source target : Path .folder) : Prop :=
  ∀ path place : Path .file, known path → known place → path.key.startsWith source.key = true →
    place.key = FlatEngines.newKey source.key target.key path.key →
    ∀ text, held buffers store path = some text → FileIo.text after place = some text

-- The buffer of the file, if it is open, goes to the file and is written, or holds the
-- stored text anyway.
def FileCarries (store : Store) (source : Path .file) : Prop :=
  ∀ file, buffers.lookup source.key = some file →
    (slot source = slot file.path ∧ closing.writes file store = true) ∨
      FileIo.text store source = some file.contents

-- The same for every buffer under the folder. The text of a file that has never been
-- stored may also happen to be at its new place.
def FolderCarries (store : Store) (source target : Path .folder) : Prop :=
  ∀ path place : Path .file, known path → known place → path.key.startsWith source.key = true →
    place.key = FlatEngines.newKey source.key target.key path.key →
    ∀ file, buffers.lookup path.key = some file →
      Settles slot closing buffers (closed buffers source target) store path file.contents ∨
      FileIo.text store path = none ∧
        Settles slot closing buffers (closed buffers source target) store place file.contents

section Moves

variable {Guard : Type} (fileMap : Guard → Buffers Doc) (fits : Store → Prop)

-- A move of a file that succeeds has brought along what the session held exactly where
-- no refused or misplaced write of a closed buffer has left another text behind.
def FilesCarry (move : Guard → Store → Path .file → Path .file →
    Except FileError Unit × Guard × Store) : Prop :=
  ∀ guard store, MemFile.Filed (fileMap guard) → Among known (fileMap guard) → fits store →
    ∀ source target, known source → known target → source.key ≠ target.key →
      (move guard store source target).1 = .ok () →
        (FileCarried (fileMap guard) store (move guard store source target).2.2 source target ↔
          FileCarries slot closing (fileMap guard) store source)

def FoldersCarry (relocates : Path .folder → Path .folder → Prop)
    (move : Guard → Store → Path .folder → Path .folder →
      Except FileError Unit × Guard × Store) : Prop :=
  ∀ guard store, MemFile.Filed (fileMap guard) → Among known (fileMap guard) → fits store →
    ∀ source target, relocates source target →
      (move guard store source target).1 = .ok () →
        (FolderCarried known (fileMap guard) store (move guard store source target).2.2 source
            target ↔
          FolderCarries slot known closing (fileMap guard) store source target)

end Moves

end Carrying

end Saps.Files
