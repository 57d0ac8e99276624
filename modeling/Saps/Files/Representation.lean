import Saps.Files.Navigation

-- The three fields of a path, with `set_extension` among its operations.
namespace Saps.Files

namespace PathBuf

-- `Path::file_name`.
def fileName (path : PathBuf) : Option Str :=
  match path.components.getLast? with
  | some (.normal name) => some name
  | _ => none

-- `rsplit_file_at_dot`: what stands before the last dot and what stands behind it.
def rsplitFileAtDot (file : Str) : Option Str × Option Str :=
  if file = ['.', '.'] then (some file, none)
  else if '.' ∉ file then (none, some file)
  else
    let before := (file.rdropWhile (· ≠ '.')).dropLast
    if before = [] then (some file, none) else (some before, some (file.rtakeWhile (· ≠ '.')))

-- `before.or(after)`.
def stemOf (file : Str) : Option Str :=
  (rsplitFileAtDot file).1.or (rsplitFileAtDot file).2

-- `before.and(after)`.
def extensionOf (file : Str) : Option Str :=
  (rsplitFileAtDot file).1.bind fun _ => (rsplitFileAtDot file).2

-- `Path::file_stem`.
def fileStem (path : PathBuf) : Option Str :=
  path.fileName.bind stemOf

-- `Path::extension`.
def extension (path : PathBuf) : Option Str :=
  path.fileName.bind extensionOf

-- The text is cut off behind the stem, and the new extension is put there.
def withExtension (path : PathBuf) (stem ext : Str) : PathBuf :=
  let front := (trimRight (path.text.splitOn '/')).dropLast
  ⟨ofSegments (front ++ [if ext = [] then stem else stem ++ '.' :: ext])⟩

-- `PathBuf::set_extension`, with `none` for its panic.
def setExtension (path : PathBuf) (ext : Str) : Option PathBuf :=
  if '/' ∈ ext then none
  else
    match path.fileStem with
    | none => some path
    | some stem => some (path.withExtension stem ext)

end PathBuf

namespace Path

def extension (path : Path .file) : Option Str :=
  path.fullPath.extension

def setExtension (path : Path .file) (ext : Str) : Option (Path .file) :=
  (path.fullPath.setExtension ext).map fun fullPath => { path with fullPath := fullPath }

end Path

namespace Representation

open Navigation (Node)

inductive Move where
  | walk (move : Navigation.Move)
  | setExtension (ext : Str)
  deriving DecidableEq, Repr

inductive Step : Node → Move → Node → Prop
  | walk {before after : Node} {move : Navigation.Move} (h : Navigation.Step before move after) :
      Step before (.walk move) after
  | setExtension (path : Path .file) (ext : Str) (changed : Path .file)
      (h : path.setExtension ext = some changed) :
      Step (.file path) (.setExtension ext) (.file changed)

-- What `new`, `build` and `try_from` make.
inductive Built : Node → Prop
  | file (root rel : Str) : Built (.file (Path.build root rel))
  | folder (root rel : Str) : Built (.folder (Path.build root rel))

-- The full path is the one that the root and the relative path join to.
def Joined (node : Node) : Prop :=
  node.fullPath.key = (node.rootPath.join node.relPath).key

-- An extension is set where there is no name to have one, or the same one again.
def Move.Keeps (before : Node) : Move → Prop
  | .walk _ => True
  | .setExtension ext =>
    before.fullPath.fileName = none ∨
      before.fullPath.extension = if ext = [] then none else some ext

end Representation

end Saps.Files
