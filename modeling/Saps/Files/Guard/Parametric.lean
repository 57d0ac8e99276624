import Saps.Files.Session

-- What a guard makes of two stores that answer alike.
namespace Saps.Files.Parametric

variable {Doc : Type} [Yrs Doc] {Store Store' : Type} [FileIo Store] [FileIo Store']

-- The same result and the same memory, which is as it should be, beside stores that
-- answer alike.
structure Same {α β : Type} (R : Store → Store' → Prop) (keeps : β → Prop) (left : α × β × Store)
    (right : α × β × Store') : Prop where
  result : left.1 = right.1
  memory : left.2.1 = right.2.1
  keeps : keeps left.2.1
  stores : R left.2.2 right.2.2

omit [FileIo Store] [FileIo Store'] in
theorem Same.cases {α β : Type} {R : Store → Store' → Prop} {keeps : β → Prop}
    {left : α × β × Store} {right : α × β × Store'} (h : Same R keeps left right) :
    ∃ result memory store store', left = (result, memory, store) ∧
      right = (result, memory, store') ∧ keeps memory ∧ R store store' := by
  obtain ⟨result, memory, store⟩ := left
  obtain ⟨result', memory', store'⟩ := right
  obtain ⟨hresult, hmemory, hkeeps, hstores⟩ := h
  obtain rfl : result = result' := hresult
  obtain rfl : memory = memory' := hmemory
  exact ⟨result, memory, store, store', rfl, rfl, hkeeps, hstores⟩

-- Stores that answer alike do so after each operation on files that they know.
structure AlikeFiles (R : Store → Store' → Prop) (known : Path .file → Prop) : Prop where
  readFile : ∀ {store store'}, R store store' → ∀ {path}, known path →
    FileIo.readFile store path = FileIo.readFile store' path
  fileExists : ∀ {store store'}, R store store' → ∀ {path}, known path →
    FileIo.fileExists store path = FileIo.fileExists store' path
  writeFile : ∀ {store store'}, R store store' → ∀ {path}, known path → ∀ data,
    (FileIo.writeFile store path data).1 = (FileIo.writeFile store' path data).1 ∧
      R (FileIo.writeFile store path data).2 (FileIo.writeFile store' path data).2
  deleteFile : ∀ {store store'}, R store store' → ∀ {path}, known path →
    (FileIo.deleteFile store path).1 = (FileIo.deleteFile store' path).1 ∧
      R (FileIo.deleteFile store path).2 (FileIo.deleteFile store' path).2
  moveFile : ∀ {store store'}, R store store' → ∀ {source target}, known source → known target →
    (FileIo.moveFile store source target).1 = (FileIo.moveFile store' source target).1 ∧
      R (FileIo.moveFile store source target).2 (FileIo.moveFile store' source target).2
  copyFile : ∀ {store store'}, R store store' → ∀ {source target}, known source → known target →
    (FileIo.copyFile store source target).1 = (FileIo.copyFile store' source target).1 ∧
      R (FileIo.copyFile store source target).2 (FileIo.copyFile store' source target).2

-- And after each operation on folders, where files only come to places that they know.
structure AlikeFolders [FolderIo Store] [FolderIo Store'] (R : Store → Store' → Prop)
    (relocates : Path .folder → Path .folder → Prop) : Prop where
  deleteFolder : ∀ {store store'}, R store store' → ∀ path,
    (FolderIo.deleteFolder store path).1 = (FolderIo.deleteFolder store' path).1 ∧
      R (FolderIo.deleteFolder store path).2 (FolderIo.deleteFolder store' path).2
  moveFolder : ∀ {store store'}, R store store' → ∀ {source target}, relocates source target →
    (FolderMoves.moveFolder store source target).1 =
        (FolderMoves.moveFolder store' source target).1 ∧
      R (FolderMoves.moveFolder store source target).2
        (FolderMoves.moveFolder store' source target).2
  copyFolder : ∀ {store store'}, R store store' → ∀ {source target}, relocates source target →
    (FolderIo.copyFolder store source target).1 = (FolderIo.copyFolder store' source target).1 ∧
      R (FolderIo.copyFolder store source target).2 (FolderIo.copyFolder store' source target).2

-- Every buffer is one of a file that the stores know.
def Holds (known : Path .file → Prop) (guard : MemFileGuard Doc) : Prop :=
  ∀ key file, guard.fileMap.lookup key = some file → known file.path

omit [Yrs Doc] in
theorem holds_new (known : Path .file → Prop) : Holds known (MemFileGuard.new : MemFileGuard Doc) := by
  intro key file h
  simp [MemFileGuard.new] at h

section Files

variable {R : Store → Store' → Prop} {known : Path .file → Prop} (alike : AlikeFiles R known)
  {store : Store} {store' : Store'} (h : R store store')

include alike h

theorem save_same (file : MemFile Doc) (hfile : known file.path) :
    Same R (known ·.path) (file.save store) (file.save store') := by
  obtain ⟨hresult, hstores⟩ := alike.writeFile h hfile file.contents
  unfold MemFile.save
  cases hleft : FileIo.writeFile store file.path file.contents with
  | mk result after =>
      cases hright : FileIo.writeFile store' file.path file.contents with
      | mk result' after' =>
          rw [hleft, hright] at hresult hstores
          obtain rfl : result = result' := hresult
          cases result with
          | ok => exact ⟨rfl, rfl, hfile, hstores⟩
          | error error => exact ⟨rfl, rfl, hfile, hstores⟩

theorem drop_same (file : MemFile Doc) (hfile : known file.path) :
    R (file.drop store) (file.drop store') := by
  unfold MemFile.drop
  split
  · exact (alike.writeFile h hfile file.contents).2
  · exact h

theorem recordSingleEdit_same (file : MemFile Doc) (hfile : known file.path) :
    Same R (known ·.path) (file.recordSingleEdit store) (file.recordSingleEdit store') := by
  unfold MemFile.recordSingleEdit
  dsimp only
  split
  · exact save_same alike h { file with opsSinceSave := file.opsSinceSave + 1 } hfile
  · exact ⟨rfl, rfl, hfile, h⟩

theorem applyInsert_same (file : MemFile Doc) (hfile : known file.path) (position : CursorIndex)
    (content : Str) : Same R (known ·.path) (file.applyInsert store position content)
      (file.applyInsert store' position content) := by
  match content with
  | [] => exact ⟨rfl, rfl, hfile, h⟩
  | [character] =>
      let doc := TxUtils.insertChar file.contents file.doc position character
      exact recordSingleEdit_same alike h { file with doc } hfile
  | first :: second :: rest =>
      let doc := TxUtils.insertText file.contents file.doc position (first :: second :: rest)
      exact save_same alike h { file with doc } hfile

theorem applyDelete_same (file : MemFile Doc) (hfile : known file.path) (position : CursorIndex)
    (length : Nat) : Same R (known ·.path) (file.applyDelete store position length)
      (file.applyDelete store' position length) := by
  match length with
  | 0 => exact ⟨rfl, rfl, hfile, h⟩
  | 1 =>
      let doc := TxUtils.deleteChar file.contents file.doc position
      exact recordSingleEdit_same alike h { file with doc } hfile
  | length + 2 =>
      let doc := TxUtils.deleteRange file.contents file.doc position (length + 2)
      exact save_same alike h { file with doc } hfile

theorem applyOperation_same (file : MemFile Doc) (hfile : known file.path) (operation : Operation) :
    Same R (known ·.path) (file.applyOperation store operation)
      (file.applyOperation store' operation) := by
  cases operation with
  | insert position content => exact applyInsert_same alike h file hfile position content
  | delete position length => exact applyDelete_same alike h file hfile position length
  | swap position length content =>
      obtain ⟨result, after, mid, mid', hleft, hright, hknown, hmid⟩ :=
        (applyDelete_same alike h file hfile position length).cases
      simp only [MemFile.applyOperation, hleft, hright]
      cases result with
      | ok => exact applyInsert_same alike hmid after hknown position content
      | error error => exact ⟨rfl, rfl, hknown, hmid⟩

omit h in
theorem applyTransactionOps_same (operations : List Operation) (file : MemFile Doc)
    (hfile : known file.path) {store : Store} {store' : Store'} (h : R store store') :
    Same R (known ·.path) (file.applyTransactionOps store operations)
      (file.applyTransactionOps store' operations) := by
  induction operations generalizing file store store' with
  | nil => exact ⟨rfl, rfl, hfile, h⟩
  | cons operation operations ih =>
      obtain ⟨result, after, mid, mid', hleft, hright, hknown, hmid⟩ :=
        (applyOperation_same alike h file hfile operation).cases
      simp only [MemFile.applyTransactionOps, hleft, hright]
      cases result with
      | ok => exact ih after hknown hmid
      | error error => exact ⟨rfl, rfl, hknown, hmid⟩

end Files

section Guards

variable {R : Store → Store' → Prop} {known : Path .file → Prop} {guard : MemFileGuard Doc}

omit [Yrs Doc] in
theorem Holds.insert (hguard : Holds known guard) (key : PathBuf.Key) {file : MemFile Doc}
    (hfile : known file.path) : Holds known ⟨guard.fileMap.insert key file⟩ := by
  intro other found hfound
  rw [HashMap.lookup_insert] at hfound
  split at hfound
  · obtain rfl := Option.some.inj hfound
    exact hfile
  · exact hguard other found hfound

omit [Yrs Doc] in
theorem Holds.erase (hguard : Holds known guard) (key : PathBuf.Key) :
    Holds known ⟨guard.fileMap.erase key⟩ := by
  intro other found hfound
  rw [HashMap.lookup_erase] at hfound
  split at hfound
  · cases hfound
  · exact hguard other found hfound

theorem Holds.resetFile (hguard : Holds known guard) {path : Path .file} (hpath : known path)
    (contents : Str) : Holds known (guard.resetFile path contents) :=
  (hguard.erase path.key).insert path.key hpath

variable (alike : AlikeFiles R known) {store : Store} {store' : Store'} (h : R store store')

include alike h

theorem evict_same (hguard : Holds known guard) (key : PathBuf.Key) :
    Same R (Holds known) ((), guard.evict key store) ((), guard.evict key store') := by
  unfold MemFileGuard.evict
  cases hfound : guard.fileMap.lookup key with
  | none => exact ⟨rfl, rfl, hguard, h⟩
  | some file =>
      exact ⟨rfl, rfl, hguard.erase key, drop_same alike h file (hguard key file hfound)⟩

omit h in
theorem evictAll_same (keys : List PathBuf.Key) {guard : MemFileGuard Doc}
    (hguard : Holds known guard) {store : Store} {store' : Store'} (h : R store store') :
    Same R (Holds known) ((), guard.evictAll keys store) ((), guard.evictAll keys store') := by
  induction keys generalizing guard store store' with
  | nil => exact ⟨rfl, rfl, hguard, h⟩
  | cons key keys ih =>
      obtain ⟨_, mid, left, right, hleft, hright, hmid, hstores⟩ := (evict_same alike h hguard key).cases
      simp only [MemFileGuard.evictAll, List.foldl_cons, (Prod.mk.inj hleft).2,
        (Prod.mk.inj hright).2]
      exact ih hmid hstores

theorem getFile_same (hguard : Holds known guard) {path : Path .file} (hpath : known path) :
    Same R (Holds known) (guard.getFile store path) (guard.getFile store' path) ∧
      ∀ file, (guard.getFile store path).1 = .ok file → known file.path := by
  unfold MemFileGuard.getFile MemFile.fromFile
  rw [← alike.readFile h hpath]
  cases hfound : guard.fileMap.lookup path.key with
  | some file =>
      refine ⟨⟨rfl, rfl, hguard, h⟩, ?_⟩
      intro other hother
      cases hother
      exact hguard path.key file hfound
  | none =>
      cases FileIo.readFile store path with
      | error error => exact ⟨⟨rfl, rfl, hguard, h⟩, fun file hfile => by cases hfile⟩
      | ok contents =>
          refine ⟨⟨rfl, rfl, hguard.insert path.key hpath, h⟩, ?_⟩
          intro file hfile
          cases hfile
          exact hpath

theorem applyTransaction_same (hguard : Holds known guard) {path : Path .file}
    (hpath : known path) (transaction : Transaction) :
    Same R (Holds known) (guard.applyTransaction store path transaction)
      (guard.applyTransaction store' path transaction) := by
  obtain ⟨hload, hfile⟩ := getFile_same alike h hguard hpath
  obtain ⟨result, loaded, mid, mid', hleft, hright, hheld, hmid⟩ := hload.cases
  rw [hleft] at hfile
  simp only [MemFileGuard.applyTransaction, hleft, hright]
  cases result with
  | error error => exact ⟨rfl, rfl, hheld, hmid⟩
  | ok file =>
      obtain ⟨result, after, last, last', hleft, hright, hknown, hlast⟩ :=
        (applyTransactionOps_same alike transaction.operations file (hfile file rfl) hmid).cases
      simp only [hleft, hright]
      cases result with
      | ok => exact ⟨rfl, rfl, hheld.insert path.key hknown, hlast⟩
      | error error => exact ⟨rfl, rfl, hheld.insert path.key hknown, hlast⟩

omit h in
theorem saveAll_same (keys : List PathBuf.Key) {guard : MemFileGuard Doc}
    (hguard : Holds known guard) {store : Store} {store' : Store'} (h : R store store') :
    Same R (Holds known) (MemFileGuard.saveAll keys guard store)
      (MemFileGuard.saveAll keys guard store') := by
  induction keys generalizing guard store store' with
  | nil => exact ⟨rfl, rfl, hguard, h⟩
  | cons key keys ih =>
      unfold MemFileGuard.saveAll
      cases hfound : guard.fileMap.lookup key with
      | none => exact ih hguard h
      | some file =>
          obtain ⟨result, after, mid, mid', hleft, hright, hknown, hmid⟩ :=
            (save_same alike h file (hguard key file hfound)).cases
          simp only [hleft, hright]
          cases result with
          | ok => exact ih (hguard.insert key hknown) hmid
          | error error => exact ⟨rfl, rfl, hguard.insert key hknown, hmid⟩

theorem saveFile_same (hguard : Holds known guard) {path : Path .file} (hpath : known path) :
    Same R (Holds known) (Api.saveFile guard store path) (Api.saveFile guard store' path) := by
  obtain ⟨hload, hfile⟩ := getFile_same alike h hguard hpath
  obtain ⟨result, loaded, mid, mid', hleft, hright, hheld, hmid⟩ := hload.cases
  rw [hleft] at hfile
  simp only [Api.saveFile, hleft, hright]
  cases result with
  | error error => exact ⟨rfl, rfl, hheld, hmid⟩
  | ok file =>
      obtain ⟨result, after, last, last', hleft, hright, hknown, hlast⟩ :=
        (save_same alike hmid file (hfile file rfl)).cases
      simp only [hleft, hright]
      exact ⟨rfl, rfl, hheld.insert path.key hknown, hlast⟩

theorem dropFile_same (hguard : Holds known guard) (path : Path .file) :
    ∃ after left right, guard.dropFile store path = (after, left) ∧
      guard.dropFile store' path = (after, right) ∧ Holds known after ∧ R left right := by
  obtain ⟨_, after, left, right, hleft, hright, hafter, hstores⟩ :=
    (evict_same alike h hguard path.key).cases
  exact ⟨after, left, right, (Prod.mk.inj hleft).2, (Prod.mk.inj hright).2, hafter, hstores⟩

theorem dropDir_same (hguard : Holds known guard) (dir : Path .folder) :
    ∃ after left right, guard.dropDir store dir = (after, left) ∧
      guard.dropDir store' dir = (after, right) ∧ Holds known after ∧ R left right := by
  obtain ⟨_, after, left, right, hleft, hright, hafter, hstores⟩ :=
    (evictAll_same alike (guard.fileMap.keys.filter (PathBuf.Key.startsWith · dir.key)) hguard h).cases
  exact ⟨after, left, right, (Prod.mk.inj hleft).2, (Prod.mk.inj hright).2, hafter, hstores⟩

omit [Yrs Doc] in
theorem fileExists_same (guard : MemFileGuard Doc) {path : Path .file} (hpath : known path) :
    Api.fileExists guard store path = Api.fileExists guard store' path := by
  unfold Api.fileExists
  rw [alike.fileExists h hpath]

end Guards

section Calls

open Session (Call Outcome done)

-- A call of a session on a store of any engine.
def call {Doc : Type} [Yrs Doc] {Store : Type} [FileIo Store] [FolderIo Store]
    (guard : MemFileGuard Doc) (store : Store) : Call → Outcome × MemFileGuard Doc × Store
  | .read path =>
    let (result, guard, store) := Api.read guard store path
    (result.map .text, guard, store)
  | .write path data =>
    let (result, guard, store) := Api.write guard store path data
    (done result, guard, store)
  | .delete path =>
    let (result, guard, store) := Api.delete guard store path
    (done result, guard, store)
  | .moveFile source target =>
    let (result, guard, store) := Api.moveFile guard store source target
    (done result, guard, store)
  | .copy source target =>
    let (result, guard, store) := Api.copy guard store source target
    (done result, guard, store)
  | .fileExists path => (.ok (.bool (Api.fileExists guard store path)), guard, store)
  | .applyTransaction path transaction =>
    let (result, guard, store) := guard.applyTransaction store path transaction
    (done result, guard, store)
  | .extractPath rootPath relPath =>
    ((Api.extractPath guard store rootPath relPath).map .path, guard, store)
  | .copyFolder source target =>
    let (result, guard, store) := Api.copyFolder guard store source target
    (done result, guard, store)
  | .moveFolder source target =>
    let (result, guard, store) := Api.moveFolder guard store source target
    (done result, guard, store)
  | .deleteFolder path =>
    let (result, guard, store) := Api.deleteFolder guard store path
    (done result, guard, store)
  | .dropFile path =>
    let (guard, store) := guard.dropFile store path
    (.ok .unit, guard, store)
  | .dropDir dir =>
    let (guard, store) := guard.dropDir store dir
    (.ok .unit, guard, store)
  | .snapshot =>
    let (result, guard, store) := guard.snapshot store
    (done result, guard, store)
  | .resetFile path contents => (.ok .unit, guard.resetFile path contents, store)

-- The files a call reaches are known, and folders go where the stores know the files.
def Knows (known : Path .file → Prop) (relocates : Path .folder → Path .folder → Prop) :
    Call → Prop
  | .read path | .write path _ | .delete path | .fileExists path | .applyTransaction path _
  | .resetFile path _ => known path
  | .moveFile source target | .copy source target => known source ∧ known target
  | .extractPath rootPath relPath =>
    known (Api.ExtractPath.candidates rootPath relPath).1 ∧
      known (Api.ExtractPath.candidates rootPath relPath).2
  | .copyFolder source target | .moveFolder source target => relocates source target
  | .deleteFolder _ | .dropFile _ | .dropDir _ | .snapshot => True

theorem call_eq (state : Session.State Doc) (command : Call) :
    Session.call state command =
      ((call state.guard state.store command).1, ⟨(call state.guard state.store command).2.1,
        (call state.guard state.store command).2.2⟩) := by
  cases command <;> rfl

variable [FolderIo Store] [FolderIo Store'] {R : Store → Store' → Prop}
  {known : Path .file → Prop} {relocates : Path .folder → Path .folder → Prop}
  {guard : MemFileGuard Doc} (files : AlikeFiles R known) (folders : AlikeFolders R relocates)
  {store : Store} {store' : Store'} (h : R store store') (hguard : Holds known guard)

include files h hguard

theorem read_same {path : Path .file} (hpath : known path) :
    Same R (Holds known) (call guard store (.read path)) (call guard store' (.read path)) := by
  obtain ⟨result, after, left, right, hleft, hright, hafter, hstores⟩ :=
    (getFile_same files h hguard hpath).1.cases
  simp only [call, Api.read, hleft, hright]
  cases result with
  | ok file => exact ⟨rfl, rfl, hafter, hstores⟩
  | error error => exact ⟨rfl, rfl, hafter, hstores⟩

theorem write_same {path : Path .file} (hpath : known path) (data : Str) :
    Same R (Holds known) (call guard store (.write path data))
      (call guard store' (.write path data)) := by
  obtain ⟨result, after, left, right, hleft, hright, hafter, hstores⟩ :=
    (saveFile_same files h (hguard.resetFile hpath data) hpath).cases
  simp only [call, Api.write, hleft, hright]
  exact ⟨rfl, rfl, hafter, hstores⟩

theorem delete_same {path : Path .file} (hpath : known path) :
    Same R (Holds known) (call guard store (.delete path)) (call guard store' (.delete path)) := by
  obtain ⟨after, left, right, hleft, hright, hafter, hstores⟩ := dropFile_same files h hguard path
  obtain ⟨hresult, hlast⟩ := files.deleteFile hstores hpath
  simp only [call, Api.delete, hleft, hright]
  exact ⟨congrArg done hresult, rfl, hafter, hlast⟩

theorem moveFile_same {source target : Path .file} (hsource : known source)
    (htarget : known target) :
    Same R (Holds known) (call guard store (.moveFile source target))
      (call guard store' (.moveFile source target)) := by
  obtain ⟨mid, left, right, hleft, hright, hmid, hstores⟩ := dropFile_same files h hguard source
  obtain ⟨after, last, last', hleft', hright', hafter, hlast⟩ :=
    dropFile_same files hstores hmid target
  obtain ⟨hresult, hmoved⟩ := files.moveFile hlast hsource htarget
  simp only [call, Api.moveFile, hleft, hright, hleft', hright']
  exact ⟨congrArg done hresult, rfl, hafter, hmoved⟩

theorem copy_same {source target : Path .file} (hsource : known source) (htarget : known target) :
    Same R (Holds known) (call guard store (.copy source target))
      (call guard store' (.copy source target)) := by
  obtain ⟨result, mid, left, right, hleft, hright, hmid, hstores⟩ :=
    (saveFile_same files h hguard hsource).cases
  simp only [call, Api.copy, hleft, hright]
  cases result with
  | error error => exact ⟨rfl, rfl, hmid, hstores⟩
  | ok =>
      obtain ⟨after, last, last', hleft', hright', hafter, hlast⟩ :=
        dropFile_same files hstores hmid target
      obtain ⟨hresult, hcopied⟩ := files.copyFile hlast hsource htarget
      simp only [hleft', hright']
      exact ⟨congrArg done hresult, rfl, hafter, hcopied⟩

include folders

theorem deleteFolder_same (path : Path .folder) :
    Same R (Holds known) (call guard store (.deleteFolder path))
      (call guard store' (.deleteFolder path)) := by
  obtain ⟨after, left, right, hleft, hright, hafter, hstores⟩ := dropDir_same files h hguard path
  obtain ⟨hresult, hlast⟩ := folders.deleteFolder hstores path
  simp only [call, Api.deleteFolder, hleft, hright]
  exact ⟨congrArg done hresult, rfl, hafter, hlast⟩

theorem moveFolder_same {source target : Path .folder} (hmoves : relocates source target) :
    Same R (Holds known) (call guard store (.moveFolder source target))
      (call guard store' (.moveFolder source target)) := by
  obtain ⟨mid, left, right, hleft, hright, hmid, hstores⟩ := dropDir_same files h hguard source
  obtain ⟨after, last, last', hleft', hright', hafter, hlast⟩ :=
    dropDir_same files hstores hmid target
  obtain ⟨hresult, hmoved⟩ := folders.moveFolder hlast hmoves
  simp only [call, Api.moveFolder, hleft, hright, hleft', hright']
  exact ⟨congrArg done hresult, rfl, hafter, hmoved⟩

theorem copyFolder_same {source target : Path .folder} (hcopies : relocates source target) :
    Same R (Holds known) (call guard store (.copyFolder source target))
      (call guard store' (.copyFolder source target)) := by
  obtain ⟨result, mid, left, right, hleft, hright, hmid, hstores⟩ :=
    (saveAll_same files guard.fileMap.keys hguard h).cases
  simp only [call, Api.copyFolder, MemFileGuard.snapshot, hleft, hright]
  cases result with
  | error error => exact ⟨rfl, rfl, hmid, hstores⟩
  | ok =>
      obtain ⟨after, last, last', hleft', hright', hafter, hlast⟩ :=
        dropDir_same files hstores hmid target
      obtain ⟨hresult, hcopied⟩ := folders.copyFolder hlast hcopies
      simp only [hleft', hright']
      exact ⟨congrArg done hresult, rfl, hafter, hcopied⟩

-- A guard does the same on stores that answer alike: its source names no engine.
theorem call_same (command : Call) (hknows : Knows known relocates command) :
    Same R (Holds known) (call guard store command) (call guard store' command) := by
  cases command with
  | read path => exact read_same files h hguard hknows
  | write path data => exact write_same files h hguard hknows data
  | delete path => exact delete_same files h hguard hknows
  | moveFile source target => exact moveFile_same files h hguard hknows.1 hknows.2
  | copy source target => exact copy_same files h hguard hknows.1 hknows.2
  | fileExists path =>
      have hexists := fileExists_same files h guard hknows
      exact ⟨congrArg (Except.ok ∘ Session.Output.bool) hexists, rfl, hguard, h⟩
  | applyTransaction path transaction =>
      obtain ⟨result, after, left, right, hleft, hright, hafter, hstores⟩ :=
        (applyTransaction_same files h hguard hknows transaction).cases
      simp only [call, hleft, hright]
      exact ⟨rfl, rfl, hafter, hstores⟩
  | extractPath rootPath relPath =>
      refine ⟨?_, rfl, hguard, h⟩
      simp only [call, Api.extractPath, Api.ExtractPath.resolve,
        fileExists_same files h guard hknows.1, fileExists_same files h guard hknows.2]
  | copyFolder source target => exact copyFolder_same files folders h hguard hknows
  | moveFolder source target => exact moveFolder_same files folders h hguard hknows
  | deleteFolder path => exact deleteFolder_same files folders h hguard path
  | dropFile path =>
      obtain ⟨after, left, right, hleft, hright, hafter, hstores⟩ :=
        dropFile_same files h hguard path
      simp only [call, hleft, hright]
      exact ⟨rfl, rfl, hafter, hstores⟩
  | dropDir dir =>
      obtain ⟨after, left, right, hleft, hright, hafter, hstores⟩ := dropDir_same files h hguard dir
      simp only [call, hleft, hright]
      exact ⟨rfl, rfl, hafter, hstores⟩
  | snapshot =>
      obtain ⟨result, after, left, right, hleft, hright, hafter, hstores⟩ :=
        (saveAll_same files guard.fileMap.keys hguard h).cases
      simp only [call, MemFileGuard.snapshot, hleft, hright]
      exact ⟨rfl, rfl, hafter, hstores⟩
  | resetFile path contents => exact ⟨rfl, rfl, hguard.resetFile hknows contents, h⟩

end Calls

end Saps.Files.Parametric
