import Saps.Files.Session
import Saps.Files.Spots

-- An editing session on a disk, with any spellings of its paths, and what it is
-- meant to be: one text in memory for each location.
namespace Saps.Files.DiskSession

open Session (Output Outcome done)

variable {Doc : Type} [Yrs Doc]

structure State (Doc : Type) where
  guard : MemFileGuard Doc
  disk : Disk

inductive Call where
  | read (path : Path .file)
  | applyTransaction (path : Path .file) (transaction : Transaction)
  | write (path : Path .file) (data : Str)
  | dropFile (path : Path .file)
  | snapshot
  deriving DecidableEq, Repr

def Call.path : Call → Option (Path .file)
  | .read path | .applyTransaction path _ | .write path _ | .dropFile path => some path
  | .snapshot => none

def call (state : State Doc) : Call → Outcome × State Doc
  | .read path =>
    let (result, guard, disk) := Api.read state.guard state.disk path
    (result.map .text, ⟨guard, disk⟩)
  | .applyTransaction path transaction =>
    let (result, guard, disk) := state.guard.applyTransaction state.disk path transaction
    (done result, ⟨guard, disk⟩)
  | .write path data =>
    let (result, guard, disk) := Api.write state.guard state.disk path data
    (done result, ⟨guard, disk⟩)
  | .dropFile path =>
    let (guard, disk) := state.guard.dropFile state.disk path
    (.ok .unit, ⟨guard, disk⟩)
  | .snapshot =>
    let (result, guard, disk) := state.guard.snapshot state.disk
    (done result, ⟨guard, disk⟩)

-- A call with its outcome. What order the buffers are iterated in is not known.
def Step (before : State Doc) (label : Call × Outcome) (after : State Doc) : Prop :=
  ∃ guard : MemFileGuard Doc, guard.fileMap.lookup = before.guard.fileMap.lookup ∧
    call ⟨guard, before.disk⟩ label.1 = (label.2, after)

abbrev Trace := List (Call × Outcome)

def Trace.paths (trace : Trace) : List (Path .file) :=
  trace.filterMap fun label => label.1.path

-- The text that edits make of a text, in a document of its own.
def edited (Doc : Type) [Yrs Doc] (contents : Str) (edits : List Edit) : Str :=
  Yrs.getString (Edit.applyAll (MemFile.fromString (Path.new []) contents : MemFile Doc).doc edits)

-- One text for each location that has one in memory, and the files of the disk.
structure Live where
  texts : Spot → Option Str
  files : Location → Option Str

namespace Live

-- The text that a path to a location finds.
def found (live : Live) (cwd : Location) (spot : Spot) : Option Str :=
  (live.texts spot).or (live.files (spot.place cwd))

def put (live : Live) (spot : Spot) (contents : Option Str) : Live :=
  { live with texts := Function.update live.texts spot contents }

def store (live : Live) (cwd : Location) (spot : Spot) (contents : Str) : Live :=
  { live with files := Function.update live.files (spot.place cwd) (some contents) }

-- A flush stores the one text of a location.
def flush (live : Live) (cwd : Location) (spot : Spot) : Live :=
  match live.texts spot with
  | some contents => live.store cwd spot contents
  | none => live

end Live

-- A path that no text is found by is not opened.
def Missed (before : Live) (spot : Spot) (outcome : Outcome) (after : Live) : Prop :=
  before.texts spot = none ∧ (∃ error, outcome = .error error) ∧ after = before

-- The calls on one text for each location. Whatever is stored there is that text,
-- or what it was after some of the edits of the call. The disk may fail any write.
def LiveStep (Doc : Type) [Yrs Doc] (cwd : Location) (before : Live) (label : Call × Outcome)
    (after : Live) : Prop :=
  match label.1 with
  | .read path => Missed before path.spot label.2 after ∨
      ∃ contents, before.found cwd path.spot = some contents ∧
        label.2 = .ok (.text contents) ∧ after = before.put path.spot (some contents)
  | .applyTransaction path transaction => Missed before path.spot label.2 after ∨
      ∃ contents made, before.found cwd path.spot = some contents ∧
        made <+: transaction.edits ∧ (label.2 = .ok .unit → made = transaction.edits) ∧
        ∃ stored : Live, (stored = before ∨ ∃ front, front <+: made ∧
          stored = before.store cwd path.spot (edited Doc contents front)) ∧
        after = stored.put path.spot (some (edited Doc contents made))
  | .write path data => ((∃ error, label.2 = .error error) ∧
        after = before.put path.spot (some data)) ∨
      (label.2 = .ok .unit ∧ after = (before.put path.spot (some data)).flush cwd path.spot)
  | .dropFile path => label.2 = .ok .unit ∧
      ∃ stored : Live, (stored = before ∨ stored = before.flush cwd path.spot) ∧
        after = stored.put path.spot none
  | .snapshot => ∃ spots : List Spot, after = spots.foldl (fun live spot => live.flush cwd spot) before ∧
      (label.2 = .ok .unit → ∀ spot, (before.texts spot).isSome → spot ∈ spots)

-- The buffers of a session are the texts, and no location has two of them.
structure Mirrors (state : State Doc) (live : Live) : Prop where
  files : state.disk.tree.file = live.files
  texts : ∀ spot contents, live.texts spot = some contents ↔ ∃ key file,
    state.guard.fileMap.lookup key = some file ∧ key.spot = spot ∧ file.contents = contents
  alone : ∀ key other, (state.guard.fileMap.lookup key).isSome →
    (state.guard.fileMap.lookup other).isSome → key.spot = other.spot → key = other

-- Paths to one location are equal and share one buffer, so every call finds what
-- the last one left, however the location was spelled.
def OneBuffer (disk : Disk) (trace : Trace) (finish : State Doc) : Prop :=
  (∀ path ∈ trace.paths, ∀ other ∈ trace.paths, path.spot = other.spot → path.key = other.key) ∧
    ∃ live, Transition.Run (LiveStep Doc disk.cwd) ⟨fun _ => none, disk.tree.file⟩ trace live ∧
      Mirrors finish live

-- A location that is spelled with a leading `.` or a `..` is spelled in no other way.
def OneSpelling (trace : Trace) : Prop :=
  ∀ path ∈ trace.paths, ∀ other ∈ trace.paths, path.spot = other.spot → path.key.Dotted →
    path.key = other.key

end Saps.Files.DiskSession
