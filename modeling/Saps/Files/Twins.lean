import Saps.Files.AsyncGuard
import Saps.Files.Session

-- A blocking and an async session that are driven by the same calls.
namespace Saps.Files.Twins

variable {Doc : Type} [Yrs Doc]

inductive Call where
  | read (path : Path .file)
  | write (path : Path .file) (data : Str)
  | delete (path : Path .file)
  | moveFile (source target : Path .file)
  | copy (source target : Path .file)
  | fileExists (path : Path .file)
  | applyTransaction (path : Path .file) (transaction : Transaction)
  | extractPath (rootPath relPath : Str)
  | resetFile (path : Path .file) (contents : Str)
  | dropFile (path : Path .file)
  | dropDir (dir : Path .folder)
  | snapshot

inductive Output (Doc : Type) [Yrs Doc] where
  | unit
  | text (contents : Str)
  | bool (answer : Bool)
  | path (path : Path .file)
  | update (update : Yrs.Update Doc)

abbrev Outcome (Doc : Type) [Yrs Doc] := Except FileError (Output Doc)

-- A session on either side: its guard and its store.
structure Blocking (Doc : Type) where
  guard : MemFileGuard Doc
  store : BlockingMemIo

structure Async (Doc : Type) where
  guard : AsyncMemFileGuard Doc
  store : AsyncMemIo

def Blocking.call (state : Blocking Doc) : Call → Outcome Doc × Blocking Doc
  | .read path =>
    let (result, guard, store) := Api.read state.guard state.store path
    (result.map .text, ⟨guard, store⟩)
  | .write path data =>
    let (result, guard, store) := Api.write state.guard state.store path data
    (result.map fun _ => .unit, ⟨guard, store⟩)
  | .delete path =>
    let (result, guard, store) := Api.delete state.guard state.store path
    (result.map fun _ => .unit, ⟨guard, store⟩)
  | .moveFile source target =>
    let (result, guard, store) := Api.moveFile state.guard state.store source target
    (result.map fun _ => .unit, ⟨guard, store⟩)
  | .copy source target =>
    let (result, guard, store) := Api.copy state.guard state.store source target
    (result.map fun _ => .unit, ⟨guard, store⟩)
  | .fileExists path => (.ok (.bool (Api.fileExists state.guard state.store path)), state)
  | .applyTransaction path transaction =>
    let (result, guard, store) := state.guard.applyTransaction state.store path transaction
    (result.map .update, ⟨guard, store⟩)
  | .extractPath rootPath relPath =>
    ((Api.extractPath state.guard state.store rootPath relPath).map .path, state)
  | .resetFile path contents => (.ok .unit, ⟨state.guard.resetFile path contents, state.store⟩)
  | .dropFile path =>
    let (guard, store) := state.guard.dropFile state.store path
    (.ok .unit, ⟨guard, store⟩)
  | .dropDir dir =>
    let (guard, store) := state.guard.dropDir state.store dir
    (.ok .unit, ⟨guard, store⟩)
  | .snapshot =>
    let (result, guard, store) := state.guard.snapshot state.store
    (result.map fun _ => .unit, ⟨guard, store⟩)

def Async.call (state : Async Doc) : Call → Outcome Doc × Async Doc
  | .read path =>
    let (result, guard, store) := AsyncApi.read state.guard state.store path
    (result.map .text, ⟨guard, store⟩)
  | .write path data =>
    let (result, guard, store) := AsyncApi.write state.guard state.store path data
    (result.map fun _ => .unit, ⟨guard, store⟩)
  | .delete path =>
    let (result, guard, store) := AsyncApi.delete state.guard state.store path
    (result.map fun _ => .unit, ⟨guard, store⟩)
  | .moveFile source target =>
    let (result, guard, store) := AsyncApi.moveFile state.guard state.store source target
    (result.map fun _ => .unit, ⟨guard, store⟩)
  | .copy source target =>
    let (result, guard, store) := AsyncApi.copy state.guard state.store source target
    (result.map fun _ => .unit, ⟨guard, store⟩)
  | .fileExists path => (.ok (.bool (AsyncApi.fileExists state.guard state.store path)), state)
  | .applyTransaction path transaction =>
    let (result, guard, store) := state.guard.applyTransaction state.store path transaction
    (result.map .update, ⟨guard, store⟩)
  | .extractPath rootPath relPath =>
    ((AsyncApi.extractPath state.guard state.store rootPath relPath).map .path, state)
  | .resetFile path contents => (.ok .unit, ⟨state.guard.resetFile path contents, state.store⟩)
  | .dropFile path =>
    let (guard, store) := state.guard.dropFile state.store path
    (.ok .unit, ⟨guard, store⟩)
  | .dropDir dir =>
    let (guard, store) := state.guard.dropDir state.store dir
    (.ok .unit, ⟨guard, store⟩)
  | .snapshot =>
    let (result, guard, store) := state.guard.snapshot state.store
    (result.map fun _ => .unit, ⟨guard, store⟩)

structure Pair (Doc : Type) where
  blocking : Blocking Doc
  async : Async Doc

-- The two sides as they may be iterated next. What order a map is iterated in
-- is not known, on either side.
structure Reordered (before after : Pair Doc) : Prop where
  buffers : after.blocking.guard.fileMap.lookup = before.blocking.guard.fileMap.lookup
  files : after.blocking.store.files.lookup = before.blocking.store.files.lookup
  asyncBuffers : after.async.guard.fileMap.lookup = before.async.guard.fileMap.lookup
  asyncFiles : after.async.store.files.lookup = before.async.store.files.lookup

-- The same call on both sides, with the two outcomes.
def Step (before : Pair Doc) (label : Call × Outcome Doc × Outcome Doc) (after : Pair Doc) : Prop :=
  ∃ pair, Reordered before pair ∧
    pair.blocking.call label.1 = (label.2.1, after.blocking) ∧
    pair.async.call label.1 = (label.2.2, after.async)

-- The same buffers with the same counters, and the same files in the stores.
structure Agree (pair : Pair Doc) : Prop where
  buffers : pair.blocking.guard.fileMap.lookup = pair.async.guard.fileMap.lookup
  files : pair.blocking.store.files.lookup = pair.async.store.files.lookup

-- Two new guards over stores with the same content.
def Starts (pair : Pair Doc) : Prop :=
  pair.blocking.guard = .new ∧ pair.async.guard = .new ∧
    pair.blocking.store.files.lookup = pair.async.store.files.lookup

end Saps.Files.Twins
