import Saps.Files.Io
import Saps.Files.TxUtils

namespace Saps.Files

def SAVE_THRESHOLD : Nat := 5

-- A buffer of the blocking write path. Its backend, the store, is passed to
-- the methods that reach it.
structure MemFile (Doc : Type) where
  doc : Doc
  path : Path .file
  opsSinceSave : Nat
  flushOnDrop : Bool

namespace MemFile

variable {Doc : Type} [Yrs Doc] {Store : Type} [FileIo Store]

def contents (file : MemFile Doc) : Str :=
  Yrs.getString file.doc

def stateVector (file : MemFile Doc) : Yrs.StateVector Doc :=
  Yrs.stateVector file.doc

def encodeState (file : MemFile Doc) : Yrs.Update Doc :=
  Yrs.encodeState file.doc

def encodeDiff (file : MemFile Doc) (before : Yrs.StateVector Doc) :
    Except FileError (Yrs.Update Doc) :=
  match Yrs.encodeDiff file.doc before with
  | .ok update => .ok update
  | .error message => .error (.memFile file.path.relativeString message)

def fromString (path : Path .file) (contents : Str) : MemFile Doc where
  doc := if contents = [] then Yrs.new else Yrs.insert Yrs.new 0 contents
  path := path
  opsSinceSave := 0
  flushOnDrop := true

def fromFile (path : Path .file) (store : Store) : Except FileError (MemFile Doc) :=
  match FileIo.readFile store path with
  | .ok contents => .ok (fromString path contents)
  | .error error => .error error

def save (file : MemFile Doc) (store : Store) : Except FileError Unit × MemFile Doc × Store :=
  match FileIo.writeFile store file.path file.contents with
  | (.ok (), store) => (.ok (), { file with opsSinceSave := 0 }, store)
  | (.error error, store) => (.error error, file, store)

-- `Drop`, with `drop_flush` of the blocking backend: the write's result is ignored.
def drop (file : MemFile Doc) (store : Store) : Store :=
  if file.flushOnDrop then (FileIo.writeFile store file.path file.contents).2 else store

def recordSingleEdit (file : MemFile Doc) (store : Store) :
    Except FileError Unit × MemFile Doc × Store :=
  let file := { file with opsSinceSave := file.opsSinceSave + 1 }
  if SAVE_THRESHOLD ≤ file.opsSinceSave then file.save store else (.ok (), file, store)

def insertChar (file : MemFile Doc) (store : Store) (position : CursorIndex) (character : Char) :
    Except FileError Unit × MemFile Doc × Store :=
  let doc := TxUtils.insertChar file.contents file.doc position character
  recordSingleEdit { file with doc } store

def deleteChar (file : MemFile Doc) (store : Store) (position : CursorIndex) :
    Except FileError Unit × MemFile Doc × Store :=
  let doc := TxUtils.deleteChar file.contents file.doc position
  recordSingleEdit { file with doc } store

def deleteRange (file : MemFile Doc) (store : Store) (position : CursorIndex) (delta : Nat) :
    Except FileError Unit × MemFile Doc × Store :=
  let doc := TxUtils.deleteRange file.contents file.doc position delta
  save { file with doc } store

def insertText (file : MemFile Doc) (store : Store) (position : CursorIndex) (data : Str) :
    Except FileError Unit × MemFile Doc × Store :=
  let doc := TxUtils.insertText file.contents file.doc position data
  save { file with doc } store

def applyInsert (file : MemFile Doc) (store : Store) (position : CursorIndex) (content : Str) :
    Except FileError Unit × MemFile Doc × Store :=
  match content with
  | [] => (.ok (), file, store)
  | [character] => file.insertChar store position character
  | _ :: _ :: _ => file.insertText store position content

def applyDelete (file : MemFile Doc) (store : Store) (position : CursorIndex) (length : Nat) :
    Except FileError Unit × MemFile Doc × Store :=
  match length with
  | 0 => (.ok (), file, store)
  | 1 => file.deleteChar store position
  | _ + 2 => file.deleteRange store position length

def applyOperation (file : MemFile Doc) (store : Store) :
    Operation → Except FileError Unit × MemFile Doc × Store
  | .insert position content => file.applyInsert store position content
  | .delete position length => file.applyDelete store position length
  | .swap position length content =>
    match file.applyDelete store position length with
    | (.ok (), file, store) => file.applyInsert store position content
    | (.error error, file, store) => (.error error, file, store)

def applyTransactionOps (file : MemFile Doc) (store : Store) :
    List Operation → Except FileError Unit × MemFile Doc × Store
  | [] => (.ok (), file, store)
  | operation :: operations =>
    match file.applyOperation store operation with
    | (.ok (), file, store) => file.applyTransactionOps store operations
    | (.error error, file, store) => (.error error, file, store)

end MemFile

end Saps.Files
