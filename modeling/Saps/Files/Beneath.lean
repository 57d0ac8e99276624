import Saps.Files.FlatEngines
import Saps.Lib.Overlay

-- Which files the folder operations of a flat engine read and change.
namespace Saps.Files

-- Under the folder, and not the file that is stored at the folder's own path.
def Path.Beneath (folder : Path .folder) (key : PathBuf.Key) : Prop :=
  key.startsWith folder.key = true ∧ key ≠ folder.key

instance (folder : Path .folder) (key : PathBuf.Key) : Decidable (folder.Beneath key) :=
  inferInstanceAs (Decidable (_ ∧ _))

namespace Beneath

-- The folder operations of an engine over a map whose names mean paths.
structure Engine (Io Name Listed : Type) where
  files : Io → HashMap Name Str
  meaning : Name → PathBuf.Key
  folderExists : Io → Path .folder → Bool
  childFiles : Io → Path .folder → Except FileError (List Listed)
  allChildFiles : Io → Path .folder → Except FileError (List Listed)
  deleteFolder : Io → Path .folder → Except FileError Unit × Io
  moveFolder : Io → Path .folder → Path .folder → Except FileError Unit × Io
  copyFolder : Io → Path .folder → Path .folder → Except FileError Unit × Io

def memEngine : Engine BlockingMemIo PathBuf.Key PathBuf.Key where
  files io := io.files
  meaning := id
  folderExists := BlockingMemIo.folderExists
  childFiles := BlockingMemIo.childFiles
  allChildFiles := BlockingMemIo.allChildFiles
  deleteFolder := BlockingMemIo.deleteFolder
  moveFolder := BlockingMemIo.moveFolder
  copyFolder := BlockingMemIo.copyFolder

def kvEngine : Engine KvBlockingIo Str (Path .file) where
  files io := io.files
  meaning := FlatEngines.meaning
  folderExists := KvBlockingIo.folderExists
  childFiles := KvBlockingIo.childFiles
  allChildFiles := KvBlockingIo.allChildFiles
  deleteFolder := KvBlockingIo.deleteFolder
  moveFolder := KvBlockingIo.moveFolder
  copyFolder := KvBlockingIo.copyFolder

namespace Engine

variable {Io Name Listed : Type} [DecidableEq Name] (engine : Engine Io Name Listed)

-- A store with the files beneath the folder and no others, met in the same order.
structure Part (folder : Path .folder) (io part : Io) : Prop where
  keys : (engine.files part).keys =
    (engine.files io).keys.filter fun name => folder.Beneath (engine.meaning name)
  lookup : ∀ name, folder.Beneath (engine.meaning name) →
    (engine.files part).lookup name = (engine.files io).lookup name

-- The files that are not beneath the folder.
def outside (folder : Path .folder) (io : Io) (name : Name) : Option Str :=
  if folder.Beneath (engine.meaning name) then none else (engine.files io).lookup name

-- An operation answers and acts as it does on the files beneath the folder, and leaves
-- the other files as they are where nothing is put over them.
def ActsOn (folder : Path .folder) (op : Io → Except FileError Unit × Io) (io part : Io) : Prop :=
  (op io).1 = (op part).1 ∧ (engine.files (op io).2).lookup =
    Overlay.through (engine.files (op part).2).lookup (engine.outside folder io)

structure OnlyBeneath (io : Io) (folder : Path .folder) : Prop where
  folderExists : ∀ part, engine.Part folder io part →
    engine.folderExists io folder = engine.folderExists part folder
  childFiles : ∀ part, engine.Part folder io part →
    engine.childFiles io folder = engine.childFiles part folder
  allChildFiles : ∀ part, engine.Part folder io part →
    engine.allChildFiles io folder = engine.allChildFiles part folder
  deleteFolder : ∀ part, engine.Part folder io part →
    engine.ActsOn folder (engine.deleteFolder · folder) io part
  moveFolder : ∀ part, engine.Part folder io part → ∀ target,
    engine.ActsOn folder (engine.moveFolder · folder target) io part
  copyFolder : ∀ part, engine.Part folder io part → ∀ target,
    engine.ActsOn folder (engine.copyFolder · folder target) io part

end Engine

end Beneath

end Saps.Files
