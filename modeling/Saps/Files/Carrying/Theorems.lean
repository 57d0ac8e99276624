import Saps.Files.Carrying.Disk
import Saps.Files.Carrying.Engines
import Saps.Files.Carrying.Moves
import Saps.Files.OpLog

namespace Saps.Files.Carrying

open FlatEngines (meaning)
open KvSession (Known Relocates)
open Relocation (Unnested)

section Sessions

variable (Doc : Type) [Yrs Doc] {Store Slot : Type} [FileIo Store] (slot : Path .file → Slot)
  (known : Path .file → Prop) (fits : Store → Prop)
  (relocates : Path .folder → Path .folder → Prop)

def BlockingFiles : Prop :=
  FilesCarry slot known dropping (@MemFileGuard.fileMap Doc) fits Api.moveFile

def AsyncFiles : Prop :=
  FilesCarry slot known saving (@AsyncMemFileGuard.fileMap Doc) fits AsyncApi.moveFile

def BlockingFolders [FolderMoves Store] : Prop :=
  FoldersCarry slot known dropping (@MemFileGuard.fileMap Doc) fits relocates Api.moveFolder

def AsyncFolders [FolderMoves Store] : Prop :=
  FoldersCarry slot known saving (@AsyncMemFileGuard.fileMap Doc) fits relocates AsyncApi.moveFolder

end Sessions

variable {Doc : Type} [Yrs Doc]

-- A move that succeeds has brought along what the session held exactly where no refused
-- write of a closed buffer has left another text behind. That is so of every store that
-- tells its files apart, and of each engine when some of its writes are refused: redb and
-- the browser store by the spelling of a path, the disk where paths have no dots.
theorem move_carries_iff :
    (∀ (Store Slot : Type) [FileIo Store] [DecidableEq Slot] (fits : Store → Prop)
      (known : Path .file → Prop) (slot : Path .file → Slot), Shelves Store fits known slot →
        BlockingFiles Doc slot known fits ∧ AsyncFiles Doc slot known fits) ∧
    (∀ (Store Slot : Type) [FileIo Store] [FolderMoves Store] [DecidableEq Slot]
      (fits : Store → Prop) (known : Path .file → Prop) (slot : Path .file → Slot)
      (relocates : Path .folder → Path .folder → Prop),
        FolderShelves Store fits known slot relocates →
          BlockingFolders Doc slot known fits relocates ∧ AsyncFolders Doc slot known fits relocates) ∧
    (BlockingFiles Doc Path.key (fun _ => True) (fun _ : Failing BlockingMemIo => True) ∧
      BlockingFolders Doc Path.key (fun _ => True) (fun _ : Failing BlockingMemIo => True)
        Unnested) ∧
    (BlockingFiles Doc Path.name (fun _ => True) (fun _ : Failing KvBlockingIo => True) ∧
      ∀ names : Set Str, Set.InjOn meaning names →
        BlockingFolders Doc Path.name (Known names)
          (fun store : Failing KvBlockingIo => store.io.NamedIn names) (Relocates names)) ∧
    (∀ (cwd : Location) (keys : Set PathBuf.Key), Disk.Spelled cwd keys →
      BlockingFiles Doc Path.key (Disk.Names keys)
          (fun store : Failing Disk => store.io.Stands cwd) ∧
        BlockingFolders Doc Path.key (Disk.Names keys)
          (fun store : Failing Disk => store.io.Stands cwd) (Disk.Apart cwd)) ∧
    AsyncFiles Doc Path.key (fun _ => True) (fun _ : Failing AsyncMemIo => True) ∧
    AsyncFiles Doc Path.name (fun _ => True) (fun _ : Failing IndexedDbIo => True) ∧
      ∀ names : Set Str, Set.InjOn meaning names →
        AsyncFolders Doc Path.name (Known names)
          (fun store : Failing IndexedDbIo => store.io.NamedIn names) (Relocates names) := by
  have mem := Failing.folderShelves BlockingMemIo.shelves
  refine ⟨fun Store Slot _ _ fits known slot h => ⟨filesCarry_dropping h, filesCarry_saving h⟩,
    fun Store Slot _ _ _ fits known slot relocates h =>
      ⟨foldersCarry_dropping h, foldersCarry_saving h⟩,
    ⟨filesCarry_dropping mem.toShelves, foldersCarry_dropping mem⟩,
    ⟨filesCarry_dropping (Failing.shelves KvBlockingIo.shelves), fun names hnames => ?_⟩,
    fun cwd keys hspelled => ?_, filesCarry_saving (Failing.shelves AsyncMemIo.shelves),
    filesCarry_saving (Failing.shelves IndexedDbIo.shelves), fun names hnames => ?_⟩
  · exact foldersCarry_dropping (Failing.folderShelves (KvBlockingIo.folderShelves hnames))
  · have disk := Failing.folderShelves (Disk.folderShelves hspelled)
    exact ⟨filesCarry_dropping disk.toShelves, foldersCarry_dropping disk⟩
  · exact foldersCarry_saving (Failing.folderShelves (IndexedDbIo.folderShelves hnames))

-- A stored file, with a letter typed into it that has not been saved, on a disk and in
-- the browser, which may refuse the next write.
def source : Path .file :=
  Path.new "a/x".toList

def target : Path .file :=
  Path.new "b/x".toList

def folderA : Path .folder :=
  Path.new "a".toList

def folderB : Path .folder :=
  Path.new "b".toList

def onDisk (refusals : List Bool) : Failing Disk :=
  ⟨⟨((FileTree.empty.put [['a']] .folder).put [['a'], ['x']] (.file ['1'])).put [['b']] .folder, []⟩,
    refusals⟩

def inBrowser (refusals : List Bool) : Failing IndexedDbIo :=
  ⟨⟨IndexedDbIo.new.files.insert source.name ['1']⟩, refusals⟩

def typed : MemFile OpLog :=
  ((MemFile.fromString source ['1']).insertChar (onDisk []) ⟨0, 0⟩ '2').2.1

def desk : Buffers OpLog :=
  HashMap.new.insert source.key typed

theorem filed_desk : MemFile.Filed desk :=
  MemFile.Filed.new.insert (by decide +kernel)

def diskMoved (refusals : List Bool) : Except FileError Unit × MemFileGuard OpLog × Failing Disk :=
  Api.moveFile ⟨desk⟩ (onDisk refusals) source target

def browserMoved (refusals : List Bool) :
    Except FileError Unit × AsyncMemFileGuard OpLog × Failing IndexedDbIo :=
  AsyncApi.moveFile ⟨desk⟩ (inBrowser refusals) source target

def diskMovedFolder (refusals : List Bool) :
    Except FileError Unit × MemFileGuard OpLog × Failing Disk :=
  Api.moveFolder ⟨desk⟩ (onDisk refusals) folderA folderB

def browserMovedFolder (refusals : List Bool) :
    Except FileError Unit × AsyncMemFileGuard OpLog × Failing IndexedDbIo :=
  AsyncApi.moveFolder ⟨desk⟩ (inBrowser refusals) folderA folderB

def spellings : Set Str :=
  {source.name, target.name}

theorem meaning_injOn : Set.InjOn meaning spellings := by
  have hne : meaning source.name ≠ meaning target.name := by decide +kernel
  rintro left (rfl | rfl) right (rfl | rfl) heq
  · rfl
  · exact absurd heq hne
  · exact absurd heq.symm hne
  · rfl

theorem relocates_folders : Relocates spellings folderA folderB := by
  refine ⟨⟨by decide +kernel, by decide +kernel⟩, ?_⟩
  rintro name (rfl | rfl) hunder
  · exact .inr (by decide +kernel)
  · have houtside : (meaning target.name).startsWith folderA.key = false := by decide +kernel
    rw [houtside] at hunder
    cases hunder

theorem spelled_paths : Disk.Spelled [] {source.key, target.key} := by
  have hne : source.spot.place [] ≠ target.spot.place [] := by decide +kernel
  constructor
  · rintro key (rfl | rfl)
    · decide +kernel
    · decide +kernel
  · rintro left (rfl | rfl) right (rfl | rfl) heq
    · rfl
    · exact absurd heq hne
    · exact absurd heq.symm hne
    · rfl

theorem stands_onDisk : (onDisk []).io.Stands [] := by
  have hroot : FileTree.Rooted (FileTree.empty : FileTree Str Str) := FileTree.rooted_empty
  have hfolder : (FileTree.empty.put ([] ++ [['a']]) .folder : FileTree Str Str).Rooted :=
    hroot.put rfl (.inl rfl)
  have hfile : ((FileTree.empty.put [['a']] .folder).put ([['a']] ++ [['x']])
      (.file ['1'])).Rooted := hfolder.put rfl (.inr (by decide +kernel))
  have hboth : (((FileTree.empty.put [['a']] .folder).put [['a'], ['x']] (.file ['1'])).put
      ([] ++ [['b']]) .folder).Rooted := hfile.put rfl (.inl rfl)
  exact ⟨rfl, hboth, rfl⟩

theorem lookup_desk {key : PathBuf.Key} {file : MemFile OpLog} (h : desk.lookup key = some file) :
    key = source.key ∧ file = typed := by
  unfold desk at h
  rw [HashMap.lookup_insert] at h
  split at h
  · next heq => exact ⟨heq, (Option.some.inj h).symm⟩
  · simp at h

-- The typed letter goes along on the disk, and with the whole folder in the browser.
theorem move_carries_iff_typed :
    FileCarried desk (onDisk []) (diskMoved []).2.2 source target ∧
      FolderCarried (Known spellings) desk (inBrowser []) (browserMovedFolder []).2.2 folderA
        folderB := by
  obtain ⟨_, _, _, _, hdisk, _, _, hbrowser⟩ := @move_carries_iff OpLog _
  have hsource : Disk.Names {source.key, target.key} source :=
    ⟨Disk.usable_of_last ['x'] (by decide +kernel) (by decide +kernel) (by decide), .inl rfl⟩
  have htarget : Disk.Names {source.key, target.key} target :=
    ⟨Disk.usable_of_last ['x'] (by decide +kernel) (by decide +kernel) (by decide), .inr rfl⟩
  constructor
  · refine ((hdisk [] _ spelled_paths).1 ⟨desk⟩ (onDisk []) filed_desk ?_ stands_onDisk source target
      hsource htarget (by decide +kernel) (by decide +kernel)).mpr ?_
    · intro key file hfile
      rw [(lookup_desk hfile).2]
      exact hsource
    · intro file hfile
      rw [(lookup_desk hfile).2]
      exact .inl (by decide +kernel)
  · refine (hbrowser spellings meaning_injOn ⟨desk⟩ (inBrowser []) filed_desk ?_ ?_ folderA folderB
      relocates_folders (by decide +kernel)).mpr ?_
    · intro key file hfile
      rw [(lookup_desk hfile).2]
      exact .inl (by decide +kernel)
    · intro name hname
      have hkeys : (inBrowser []).io.files.keys = [source.name] := by decide +kernel
      rw [hkeys] at hname
      exact .inl (List.mem_singleton.mp hname)
    · intro path place hpath _ _ _ file hfile
      obtain ⟨hkey, rfl⟩ := lookup_desk hfile
      refine .inl (.inl ⟨typed, hfile, ⟨?_, [], [], ?_, by decide +kernel⟩, rfl⟩)
      · have htyped : typed.path.name = source.name := by decide +kernel
        rw [htyped]
        exact meaning_injOn hpath (.inl rfl) hkey
      · rw [hkey]
        decide +kernel

-- With the write refused every one of the four moves succeeds with the old text.
theorem move_carries_stale :
    held desk (onDisk [true]) source = some ['2', '1'] ∧
    ((diskMoved [true]).1 = .ok () ∧
      FileIo.text (diskMoved [true]).2.2 target = some ['1']) ∧
    ((browserMoved [true]).1 = .ok () ∧
      FileIo.text (browserMoved [true]).2.2 target = some ['1']) ∧
    ((diskMovedFolder [true]).1 = .ok () ∧
      FileIo.text (diskMovedFolder [true]).2.2 target = some ['1']) ∧
    ((browserMovedFolder [true]).1 = .ok () ∧
      FileIo.text (browserMovedFolder [true]).2.2 target = some ['1']) ∧
    ¬∀ (guard : MemFileGuard OpLog) (store : Failing Disk), MemFile.Filed guard.fileMap →
      ∀ source target, source.key ≠ target.key → (Api.moveFile guard store source target).1 = .ok () →
        FileCarried guard.fileMap store (Api.moveFile guard store source target).2.2 source
          target := by
  have hheld : held desk (onDisk [true]) source = some ['2', '1'] := by decide +kernel
  have hok : (diskMoved [true]).1 = .ok () := by decide +kernel
  have htext : FileIo.text (diskMoved [true]).2.2 target = some ['1'] := by decide +kernel
  refine ⟨hheld, ⟨hok, htext⟩, by decide +kernel, by decide +kernel, by decide +kernel, ?_⟩
  intro h
  have hcarried := h ⟨desk⟩ (onDisk [true]) filed_desk source target (by decide +kernel) hok _ hheld
  have hsame := htext.symm.trans hcarried
  exact absurd hsame (by decide)

end Saps.Files.Carrying
