import Saps.Files.Guard.Parametric
import Saps.Files.Relocation

-- A session over the redb store.
namespace Saps.Files.KvSession

open FlatEngines (meaning)
open Session (Call Outcome View)

structure State (Doc : Type) where
  guard : MemFileGuard Doc
  store : KvBlockingIo

-- The text of the file at a place, under whatever spelling it is stored.
def shown (kv : KvBlockingIo) : View := fun key =>
  (kv.files.keys.find? fun name => meaning name = key).bind kv.files.lookup

variable {Doc : Type} [Yrs Doc]

def State.view (state : State Doc) : View :=
  Overlay.through state.guard.text (shown state.store)

-- A call with its outcome. What order the buffers are iterated in is not known.
def Step (before : State Doc) (label : Call × Outcome) (after : State Doc) : Prop :=
  ∃ guard : MemFileGuard Doc, guard.fileMap.lookup = before.guard.fileMap.lookup ∧
    Parametric.call guard before.store label.1 = (label.2, after.guard, after.store)

-- The path is spelled in one of the ways.
def Known (names : Set Str) (path : Path .file) : Prop :=
  path.fullPath.text ∈ names

-- One folder goes beside another one, to spellings that are known as well.
def Relocates (names : Set Str) (source target : Path .folder) : Prop :=
  Relocation.Unnested source target ∧
    ∀ name ∈ names, (meaning name).startsWith source.key = true →
      Relocation.newName source target name ∈ names

def KnownStep (names : Set Str) (before : State Doc) (label : Call × Outcome) (after : State Doc) :
    Prop :=
  Step before label after ∧ Parametric.Knows (Known names) (Relocates names) label.1

end Saps.Files.KvSession
