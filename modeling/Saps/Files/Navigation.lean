import Mathlib.Algebra.Ring.Int.Defs
import Saps.Files.Spots
import Saps.Lib.Transition

-- Walking from a file to its folder and from a folder to what is in it.
namespace Saps.Files

-- The loop of `escapes_root`, from a depth on. Its `i32` counter is that of
-- `Components.climbsFrom`, which agrees on fewer than `2 ^ 31` components.
def climbs (depth : Int) : Components → Bool
  | [] => false
  | .normal _ :: rest => climbs (depth + 1) rest
  | .parentDir :: rest => if depth - 1 < 0 then true else climbs (depth - 1) rest
  | .curDir :: rest => climbs depth rest
  | .rootDir :: _ => true

def escapesRoot (rel : PathBuf) : Bool :=
  climbs 0 rel.components

namespace Path

def escapes (path : Path .file) : FileError :=
  .path path.fullPath.text "parent folder escapes the root path".toList

def intoParentFolder (path : Path .file) : Except FileError (Path .folder) :=
  match path.relPath.parent with
  | none => .error path.escapes
  | some relParent =>
    if escapesRoot relParent then .error path.escapes
    else .ok ⟨relParent, path.rootPath, path.rootPath.join relParent⟩

-- `into_child_file` and `into_child_folder`, which differ in their type alone.
def child (path : Path .folder) (kind : PathType) (name : Str) : Path kind where
  relPath := path.relPath.join ⟨name⟩
  rootPath := path.rootPath
  fullPath := path.fullPath.join ⟨name⟩

def intoChildFile (path : Path .folder) (file : Str) : Except FileError (Path .file) :=
  .ok (path.child .file file)

def intoChildFolder (path : Path .folder) (folder : Str) : Except FileError (Path .folder) :=
  .ok (path.child .folder folder)

end Path

namespace Navigation

-- A path of either kind.
inductive Node where
  | file (path : Path .file)
  | folder (path : Path .folder)

namespace Node

def relPath : Node → PathBuf
  | file path => path.relPath
  | folder path => path.relPath

def rootPath : Node → PathBuf
  | file path => path.rootPath
  | folder path => path.rootPath

def fullPath : Node → PathBuf
  | file path => path.fullPath
  | folder path => path.fullPath

end Node

inductive Move where
  | parentFolder
  | childFile (name : Str)
  | childFolder (name : Str)
  deriving DecidableEq, Repr

inductive Step : Node → Move → Node → Prop
  | parentFolder (path : Path .file) (folder : Path .folder)
      (h : path.intoParentFolder = .ok folder) : Step (.file path) .parentFolder (.folder folder)
  | childFile (path : Path .folder) (name : Str) (file : Path .file)
      (h : path.intoChildFile name = .ok file) : Step (.folder path) (.childFile name) (.file file)
  | childFolder (path : Path .folder) (name : Str) (folder : Path .folder)
      (h : path.intoChildFolder name = .ok folder) :
      Step (.folder path) (.childFolder name) (.folder folder)

-- A file or a folder built from a root and a path that does not escape it.
inductive Starts (root : Str) : Node → Prop
  | file (rel : Str) (h : escapesRoot ⟨rel⟩ = false) : Starts root (.file (Path.build root rel))
  | folder (rel : Str) (h : escapesRoot ⟨rel⟩ = false) : Starts root (.folder (Path.build root rel))

end Navigation

-- At or under another location.
def Spot.Under (spot root : Spot) : Prop :=
  spot.absolute = root.absolute ∧ spot.ups = root.ups ∧ root.names <+: spot.names

namespace Navigation

def Confined (root : PathBuf) (node : Node) : Prop :=
  node.rootPath = root ∧ escapesRoot node.relPath = false ∧
    node.fullPath.key.spot.Under root.key.spot

-- How far a component leads down.
def level : Component → Int
  | .normal _ => 1
  | .parentDir => -1
  | .curDir | .rootDir => 0

-- How far a path leads down, less how far it leads up.
def levels (components : Components) : Int :=
  (components.map level).sum

-- A name that is not absolute and that never leads further up than it and the
-- folder it is put behind have led down.
def Stays (rel : PathBuf) (name : Str) : Prop :=
  .rootDir ∉ (PathBuf.mk name).components ∧
    ∀ front, front <+: (PathBuf.mk name).components → 0 ≤ levels rel.components + levels front

def Move.Stays (before : Node) : Move → Prop
  | .parentFolder => True
  | .childFile name | .childFolder name => Navigation.Stays before.relPath name

end Navigation

end Saps.Files
