import Saps.Files.Io
import Saps.Lib.HashMap

namespace Saps.Files

-- The async twin of the in-memory store. Each of its futures is one operation
-- on the map, and a session awaits a future before it goes on.
structure AsyncMemIo where
  files : HashMap PathBuf.Key Str

namespace AsyncMemIo

def new : AsyncMemIo :=
  ⟨.new⟩

def notFound (path : PathBuf) : FileError :=
  .io path.text "file not found".toList

def readFile (io : AsyncMemIo) (path : Path .file) : Except FileError Str :=
  match io.files.lookup path.key with
  | some contents => .ok contents
  | none => .error (notFound path.fullPath)

def fileExists (io : AsyncMemIo) (path : Path .file) : Bool :=
  (io.files.lookup path.key).isSome

def writeFile (io : AsyncMemIo) (path : Path .file) (data : Str) :
    Except FileError Unit × AsyncMemIo :=
  (.ok (), ⟨io.files.insert path.key data⟩)

def deleteFile (io : AsyncMemIo) (path : Path .file) : Except FileError Unit × AsyncMemIo :=
  match io.files.lookup path.key with
  | some _ => (.ok (), ⟨io.files.erase path.key⟩)
  | none => (.error (notFound path.fullPath), io)

def moveFile (io : AsyncMemIo) (source target : Path .file) :
    Except FileError Unit × AsyncMemIo :=
  match io.files.lookup source.key with
  | some contents => (.ok (), ⟨(io.files.erase source.key).insert target.key contents⟩)
  | none => (.error (notFound source.fullPath), io)

def copyFile (io : AsyncMemIo) (source target : Path .file) :
    Except FileError Unit × AsyncMemIo :=
  match io.files.lookup source.key with
  | some contents => (.ok (), ⟨io.files.insert target.key contents⟩)
  | none => (.error (notFound source.fullPath), io)

-- `AsyncFileIo` has the methods of `FileIo`, as futures. The write path of the
-- async buffers is that of the blocking ones over it.
instance : FileIo AsyncMemIo where
  readFile := readFile
  fileExists := fileExists
  writeFile := writeFile
  deleteFile := deleteFile
  moveFile := moveFile
  copyFile := copyFile

end AsyncMemIo

end Saps.Files
