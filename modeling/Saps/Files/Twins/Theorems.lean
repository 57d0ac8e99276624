import Saps.Files.Twins
import Saps.Files.Session.Buffers
import Saps.Files.OpLog

namespace Saps.Files.Twins

open Session Transition

variable {Doc : Type}

-- The two guards with their stores.
structure Same (guard : MemFileGuard Doc) (store : BlockingMemIo) (twin : AsyncMemFileGuard Doc)
    (other : AsyncMemIo) : Prop where
  buffers : guard.fileMap.lookup = twin.fileMap.lookup
  files : store.files.lookup = other.files.lookup
  wellFormed : guard.WellFormed

def SameCall {α : Type} (left : α × MemFileGuard Doc × BlockingMemIo)
    (right : α × AsyncMemFileGuard Doc × AsyncMemIo) : Prop :=
  left.1 = right.1 ∧ Same left.2.1 left.2.2 right.2.1 right.2.2

variable {guard : MemFileGuard Doc} {store : BlockingMemIo} {twin : AsyncMemFileGuard Doc}
  {other : AsyncMemIo}

-- A buffer under its own path, put into both maps.
theorem Same.put (same : Same guard store twin other) (key : PathBuf.Key) (file : MemFile Doc)
    (hpath : file.path.key = key) (hflush : file.flushOnDrop = true) {left : BlockingMemIo}
    {right : AsyncMemIo} (hfiles : left.files.lookup = right.files.lookup) :
    Same ⟨guard.fileMap.insert key file⟩ left ⟨twin.fileMap.insert key file⟩ right := by
  refine ⟨?_, hfiles, wellFormed_insert same.wellFormed key file hpath hflush⟩
  funext found
  rw [HashMap.lookup_insert, HashMap.lookup_insert, same.buffers]

theorem Same.keys_perm (same : Same guard store twin other) :
    guard.fileMap.keys.Perm twin.fileMap.keys :=
  HashMap.keys_perm _ _ fun key => by rw [same.buffers]

theorem Same.fileExists (same : Same guard store twin other) :
    Api.fileExists guard store = AsyncApi.fileExists twin other := by
  funext path
  change ((guard.fileMap.lookup path.key).isSome || (store.files.lookup path.key).isSome) =
    ((twin.fileMap.lookup path.key).isSome || (other.files.lookup path.key).isSome)
  rw [same.buffers, same.files]

variable [Yrs Doc]

-- An editing call on one buffer, over the two stores.
structure SameFile (left : Except FileError Unit × MemFile Doc × BlockingMemIo)
    (right : Except FileError Unit × MemFile Doc × AsyncMemIo) : Prop where
  result : left.1 = right.1
  file : left.2.1 = right.2.1
  files : left.2.2.files.lookup = right.2.2.files.lookup

theorem insert_same {store : BlockingMemIo} {other : AsyncMemIo}
    (h : store.files.lookup = other.files.lookup) (key : PathBuf.Key) (contents : Str) :
    (store.files.insert key contents).lookup = (other.files.insert key contents).lookup := by
  funext found
  rw [HashMap.lookup_insert, HashMap.lookup_insert, h]

theorem erase_same {store : BlockingMemIo} {other : AsyncMemIo}
    (h : store.files.lookup = other.files.lookup) (key : PathBuf.Key) :
    (store.files.erase key).lookup = (other.files.erase key).lookup := by
  funext found
  rw [HashMap.lookup_erase, HashMap.lookup_erase, h]

theorem save_same (file : MemFile Doc) {store : BlockingMemIo} {other : AsyncMemIo}
    (h : store.files.lookup = other.files.lookup) : SameFile (file.save store) (file.save other) :=
  ⟨rfl, rfl, insert_same h file.path.key file.contents⟩

theorem recordSingleEdit_same (file : MemFile Doc) {store : BlockingMemIo} {other : AsyncMemIo}
    (h : store.files.lookup = other.files.lookup) :
    SameFile (file.recordSingleEdit store) (file.recordSingleEdit other) := by
  unfold MemFile.recordSingleEdit
  dsimp only
  split
  · exact save_same _ h
  · exact ⟨rfl, rfl, h⟩

theorem applyEdit_same (file : MemFile Doc) {store : BlockingMemIo} {other : AsyncMemIo}
    (h : store.files.lookup = other.files.lookup) (edit : Edit) :
    SameFile (file.applyEdit store edit) (file.applyEdit other edit) := by
  cases edit with
  | insert position content =>
      match content with
      | [] => exact ⟨rfl, rfl, h⟩
      | [character] => exact recordSingleEdit_same _ h
      | _ :: _ :: _ => exact save_same _ h
  | delete position length =>
      match length with
      | 0 => exact ⟨rfl, rfl, h⟩
      | 1 => exact recordSingleEdit_same _ h
      | _ + 2 => exact save_same _ h

theorem applyEdits_same (file : MemFile Doc) {store : BlockingMemIo} {other : AsyncMemIo}
    (h : store.files.lookup = other.files.lookup) (edits : List Edit) :
    SameFile (file.applyEdits store edits) (file.applyEdits other edits) := by
  induction edits generalizing file store other with
  | nil => exact ⟨rfl, rfl, h⟩
  | cons edit edits ih =>
      have hedit := applyEdit_same file h edit
      unfold MemFile.applyEdits
      rcases hleft : file.applyEdit store edit with ⟨result, left, store'⟩
      rcases hright : file.applyEdit other edit with ⟨result', right, other'⟩
      rw [hleft, hright] at hedit
      obtain ⟨rfl, rfl, hfiles⟩ := hedit
      cases result with
      | ok _ => exact ih left hfiles
      | error e => exact ⟨rfl, rfl, hfiles⟩

theorem applyTransactionOps_same (file : MemFile Doc) {store : BlockingMemIo} {other : AsyncMemIo}
    (h : store.files.lookup = other.files.lookup) (operations : List Operation) :
    SameFile (file.applyTransactionOps store operations)
      (file.applyTransactionOps other operations) := by
  rw [MemFile.applyTransactionOps_eq, MemFile.applyTransactionOps_eq]
  exact applyEdits_same file h _

theorem readFile_same (h : store.files.lookup = other.files.lookup) (path : Path .file) :
    FileIo.readFile store path = FileIo.readFile other path := by
  change BlockingMemIo.readFile store path = AsyncMemIo.readFile other path
  unfold BlockingMemIo.readFile AsyncMemIo.readFile
  rw [h]
  rfl

theorem Same.getFile (same : Same guard store twin other) (path : Path .file) :
    SameCall (guard.getFile store path) (twin.getFile other path) ∧
      ∀ file, (guard.getFile store path).1 = .ok file →
        file.path.key = path.key ∧ file.flushOnDrop = true := by
  unfold MemFileGuard.getFile AsyncMemFileGuard.getFile MemFile.fromFile
  rw [← same.buffers, ← readFile_same same.files]
  cases hlookup : guard.fileMap.lookup path.key with
  | some file =>
      refine ⟨⟨rfl, same⟩, ?_⟩
      intro found hfound
      obtain rfl := Except.ok.inj hfound
      exact same.wellFormed path.key file hlookup
  | none =>
      cases FileIo.readFile store path with
      | error e => exact ⟨⟨rfl, same⟩, fun file h => by cases h⟩
      | ok contents =>
          let file : MemFile Doc := MemFile.fromString path contents
          have hput : Same ⟨guard.fileMap.insert path.key file⟩ store
              ⟨twin.fileMap.insert path.key file⟩ other := same.put path.key file rfl rfl same.files
          refine ⟨⟨rfl, hput⟩, ?_⟩
          intro found hfound
          obtain rfl := Except.ok.inj hfound
          exact ⟨rfl, rfl⟩

theorem Same.saveFile (same : Same guard store twin other) (path : Path .file) :
    SameCall (Api.saveFile guard store path) (AsyncApi.saveFile twin other path) := by
  obtain ⟨⟨hresult, hsame⟩, hpath⟩ := same.getFile path
  unfold Api.saveFile AsyncApi.saveFile
  rcases hleft : guard.getFile store path with ⟨result, left, store'⟩
  rcases hright : twin.getFile other path with ⟨result', right, other'⟩
  rw [hleft, hright] at hresult hsame
  rw [hleft] at hpath
  obtain rfl : result = result' := hresult
  cases result with
  | error e => exact ⟨rfl, hsame⟩
  | ok file =>
      obtain ⟨hkey, hflush⟩ := hpath file rfl
      have hsaved : Same ⟨left.fileMap.insert path.key { file with opsSinceSave := 0 }⟩ _
          ⟨right.fileMap.insert path.key { file with opsSinceSave := 0 }⟩ _ :=
        hsame.put path.key { file with opsSinceSave := 0 } hkey hflush
          (save_same file hsame.files).files
      exact ⟨rfl, hsaved⟩

theorem Same.resetFile (same : Same guard store twin other) (path : Path .file) (contents : Str) :
    Same (guard.resetFile path contents) store (twin.resetFile path contents) other := by
  let file : MemFile Doc := MemFile.fromString path contents
  refine ⟨?_, same.files, wellFormed_insert (wellFormed_erase same.wellFormed path.key) path.key
    file rfl rfl⟩
  funext found
  simp only [MemFileGuard.resetFile, AsyncMemFileGuard.resetFile, HashMap.lookup_insert,
    HashMap.lookup_erase, same.buffers]
  split <;> rfl

theorem Same.applyTransaction (same : Same guard store twin other) (path : Path .file)
    (transaction : Transaction) :
    SameCall (guard.applyTransaction store path transaction)
      (twin.applyTransaction other path transaction) := by
  obtain ⟨⟨hresult, hsame⟩, hpath⟩ := same.getFile path
  unfold MemFileGuard.applyTransaction AsyncMemFileGuard.applyTransaction
  rcases hleft : guard.getFile store path with ⟨result, left, store'⟩
  rcases hright : twin.getFile other path with ⟨result', right, other'⟩
  rw [hleft, hright] at hresult hsame
  rw [hleft] at hpath
  obtain rfl : result = result' := hresult
  cases result with
  | error e => exact ⟨rfl, hsame⟩
  | ok file =>
      obtain ⟨hkey, hflush⟩ := hpath file rfl
      have hops := applyTransactionOps_same file hsame.files transaction.operations
      obtain ⟨made, -, hstays, -⟩ := MemFile.applyEdits_stays file store'
        (transaction.operations.flatMap Operation.edits)
      rw [← MemFile.applyTransactionOps_eq] at hstays
      dsimp only
      rcases hrun : file.applyTransactionOps store' transaction.operations with
        ⟨result, edited, store''⟩
      rcases hrun' : file.applyTransactionOps other' transaction.operations with
        ⟨result', edited', other''⟩
      rw [hrun, hrun'] at hops
      rw [hrun] at hstays
      obtain ⟨rfl, rfl, hfiles⟩ := hops
      have hput : Same (left.putFile path edited) store'' (right.putFile path edited) other'' :=
        hsame.put path.key edited ((congrArg Path.key hstays.path).trans hkey)
          (hstays.flushOnDrop.trans hflush) hfiles
      cases result with
      | ok _ => exact ⟨rfl, hput⟩
      | error e => exact ⟨rfl, hput⟩

theorem Same.evict (same : Same guard store twin other) (key : PathBuf.Key) :
    Same (MemFileGuard.evict key guard store).1 (MemFileGuard.evict key guard store).2
      (AsyncMemFileGuard.evict key twin other).1 (AsyncMemFileGuard.evict key twin other).2 := by
  unfold MemFileGuard.evict AsyncMemFileGuard.evict
  rw [← same.buffers]
  cases hlookup : guard.fileMap.lookup key with
  | none => exact same
  | some file =>
      obtain ⟨hpath, hflush⟩ := same.wellFormed key file hlookup
      refine ⟨?_, ?_, wellFormed_erase same.wellFormed key⟩
      · funext found
        simp only [HashMap.lookup_erase, same.buffers]
      · simp only [MemFile.drop, hflush, ite_true]
        exact (save_same file same.files).files

theorem Same.dropFile (same : Same guard store twin other) (path : Path .file) :
    Same (guard.dropFile store path).1 (guard.dropFile store path).2
      (twin.dropFile other path).1 (twin.dropFile other path).2 :=
  same.evict path.key

theorem Same.evictAll (same : Same guard store twin other) (keys : List PathBuf.Key) :
    Same (MemFileGuard.evictAll keys guard store).1 (MemFileGuard.evictAll keys guard store).2
      (AsyncMemFileGuard.evictAll keys twin other).1
      (AsyncMemFileGuard.evictAll keys twin other).2 := by
  unfold MemFileGuard.evictAll AsyncMemFileGuard.evictAll
  induction keys generalizing guard store twin other with
  | nil => exact same
  | cons key keys ih => exact ih (same.evict key)

theorem evictAll_buffers (keys : List PathBuf.Key) (guard : MemFileGuard Doc)
    (store : BlockingMemIo) (key : PathBuf.Key) :
    (MemFileGuard.evictAll keys guard store).1.fileMap.lookup key =
      if key ∈ keys then none else guard.fileMap.lookup key := by
  unfold MemFileGuard.evictAll
  induction keys generalizing guard store with
  | nil => simp
  | cons first keys ih =>
      have hfirst : (MemFileGuard.evict first guard store).1.fileMap.lookup key =
          if key = first then none else guard.fileMap.lookup key := by
        unfold MemFileGuard.evict
        cases hlookup : guard.fileMap.lookup first with
        | none =>
            by_cases hkey : key = first
            · simp [hkey, hlookup]
            · simp [hkey]
        | some file => exact HashMap.lookup_erase _ _ _
      rw [List.foldl_cons, ih, hfirst]
      by_cases hkey : key = first
      · simp [hkey]
      · simp [hkey]

-- The keys that are evicted leave what the session saw at them, in any order.
theorem evictAll_files (keys : List PathBuf.Key) {guard : MemFileGuard Doc}
    (hguard : guard.WellFormed) (store : BlockingMemIo) (key : PathBuf.Key) :
    (MemFileGuard.evictAll keys guard store).2.files.lookup key =
      if key ∈ keys then view guard store key else store.files.lookup key := by
  have hevicted := evictAll_evicted hguard store keys
  by_cases hkey : key ∈ keys
  · rw [if_pos hkey]
    exact hevicted.lookup hkey
  · rw [if_neg hkey]
    unfold MemFileGuard.evictAll
    clear hevicted
    induction keys generalizing guard store with
    | nil => rfl
    | cons first keys ih =>
        obtain ⟨hne, hkeys⟩ := not_or.mp (mt List.mem_cons.mpr hkey)
        have hfirst : (MemFileGuard.evict first guard store).2.files.lookup key =
            store.files.lookup key := by
          unfold MemFileGuard.evict
          cases hlookup : guard.fileMap.lookup first with
          | none => rfl
          | some file =>
              obtain ⟨hpath, hflush⟩ := hguard first file hlookup
              simp only [MemFile.drop, hflush, writeFile_eq, hpath, ite_true, HashMap.lookup_insert,
                if_neg hne]
        rw [List.foldl_cons, ih (evict_evicted hguard store first).wellFormed _ hkeys, hfirst]

-- The same keys in two orders.
theorem evictAll_perm {left right : List PathBuf.Key} (hkeys : left.Perm right)
    (hguard : guard.WellFormed) (store : BlockingMemIo) :
    (MemFileGuard.evictAll left guard store).1.fileMap.lookup =
        (MemFileGuard.evictAll right guard store).1.fileMap.lookup ∧
      (MemFileGuard.evictAll left guard store).2.files.lookup =
        (MemFileGuard.evictAll right guard store).2.files.lookup := by
  refine ⟨?_, ?_⟩
  · funext key
    rw [evictAll_buffers, evictAll_buffers]
    simp only [hkeys.mem_iff]
  · funext key
    rw [evictAll_files _ hguard, evictAll_files _ hguard]
    simp only [hkeys.mem_iff]

theorem Same.dropDir (same : Same guard store twin other) (dir : Path .folder) :
    Same (guard.dropDir store dir).1 (guard.dropDir store dir).2
      (twin.dropDir other dir).1 (twin.dropDir other dir).2 := by
  let kept := fun key : PathBuf.Key => key.startsWith dir.key
  have hperm : (guard.fileMap.keys.filter kept).Perm (twin.fileMap.keys.filter kept) :=
    same.keys_perm.filter kept
  obtain ⟨hbuffers, hfiles⟩ := evictAll_perm hperm same.wellFormed store
  have hsame := same.evictAll (twin.fileMap.keys.filter kept)
  exact ⟨hbuffers.trans hsame.buffers, hfiles.trans hsame.files,
    (evictAll_evicted same.wellFormed store _).wellFormed⟩

-- A saved buffer starts to count anew.
theorem saveAll_eq (keys : List PathBuf.Key) {guard : MemFileGuard Doc}
    (hguard : guard.WellFormed) (store : BlockingMemIo) :
    ∃ after saved, MemFileGuard.saveAll keys guard store = (.ok (), after, saved) ∧
      (∀ key, after.fileMap.lookup key = if key ∈ keys then
        (guard.fileMap.lookup key).map fun file => { file with opsSinceSave := 0 }
        else guard.fileMap.lookup key) ∧
      ∀ key, saved.files.lookup key =
        if key ∈ keys then view guard store key else store.files.lookup key := by
  induction keys generalizing guard store with
  | nil => exact ⟨guard, store, rfl, fun key => by simp, fun key => by simp⟩
  | cons first keys ih =>
      cases hlookup : guard.fileMap.lookup first with
      | none =>
          obtain ⟨after, saved, heq, hbuffers, hfiles⟩ := ih hguard store
          have hview := view_of_text_none ((text_eq_none_iff guard first).mpr hlookup) store
          refine ⟨after, saved, by simp only [MemFileGuard.saveAll, hlookup, heq], ?_, ?_⟩
          · intro key
            rw [hbuffers]
            by_cases hkey : key = first
            · simp [hkey, hlookup]
            · simp [hkey]
          · intro key
            rw [hfiles]
            by_cases hkey : key = first
            · simp [hkey, hview]
            · simp [hkey]
      | some file =>
          obtain ⟨hhead, hstored⟩ := save_saved hguard store hlookup
          obtain ⟨after, saved, heq, hbuffers, hfiles⟩ := ih hhead.wellFormed
            ⟨store.files.insert file.path.key file.contents⟩
          have hpath := (hguard first file hlookup).1
          rw [hhead.view] at hfiles
          refine ⟨after, saved, by simp only [MemFileGuard.saveAll, hlookup, save_eq, heq], ?_, ?_⟩
          · intro key
            rw [hbuffers, HashMap.lookup_insert]
            by_cases hkey : key = first
            · simp [hkey, hlookup]
            · simp [hkey]
          · intro key
            rw [hfiles]
            by_cases hkey : key = first
            · subst hkey
              simp only [List.mem_cons_self, ite_true]
              split
              · rfl
              · exact hstored
            · simp [hkey, hpath]

theorem Same.saveAll (same : Same guard store twin other) (keys : List PathBuf.Key) :
    SameCall (MemFileGuard.saveAll keys guard store) (AsyncMemFileGuard.saveAll keys twin other) := by
  induction keys generalizing guard store twin other with
  | nil => exact ⟨rfl, same⟩
  | cons key keys ih =>
      unfold MemFileGuard.saveAll AsyncMemFileGuard.saveAll
      rw [← same.buffers]
      cases hlookup : guard.fileMap.lookup key with
      | none => exact ih same
      | some file =>
          obtain ⟨hpath, hflush⟩ := same.wellFormed key file hlookup
          exact ih (same.put key { file with opsSinceSave := 0 } hpath hflush
            (save_same file same.files).files)

theorem Same.snapshot (same : Same guard store twin other) :
    SameCall (guard.snapshot store) (twin.snapshot other) := by
  obtain ⟨after, saved, heq, hbuffers, hfiles⟩ := saveAll_eq guard.fileMap.keys same.wellFormed store
  obtain ⟨after', saved', heq', hbuffers', hfiles'⟩ :=
    saveAll_eq twin.fileMap.keys same.wellFormed store
  obtain ⟨hresult, hsame⟩ := same.saveAll twin.fileMap.keys
  have hwellFormed := (saveAll_saved same.wellFormed store guard.fileMap.keys)
  unfold MemFileGuard.snapshot AsyncMemFileGuard.snapshot
  rw [heq'] at hresult hsame
  rw [heq] at hwellFormed ⊢
  obtain ⟨_, _, hsaved, hall, -⟩ := hwellFormed
  obtain ⟨rfl, rfl⟩ := Prod.mk.inj (Prod.mk.inj hsaved).2
  refine ⟨hresult, ?_, ?_, hall.wellFormed⟩
  · refine Eq.trans ?_ hsame.buffers
    funext key
    rw [hbuffers, hbuffers']
    simp only [same.keys_perm.mem_iff]
  · refine Eq.trans ?_ hsame.files
    funext key
    rw [hfiles, hfiles']
    simp only [same.keys_perm.mem_iff]

-- A method of the two stores that looks a file up and writes.
def SameStore (left : Except FileError Unit × BlockingMemIo)
    (right : Except FileError Unit × AsyncMemIo) : Prop :=
  left.1 = right.1 ∧ left.2.files.lookup = right.2.files.lookup

theorem deleteFile_same (h : store.files.lookup = other.files.lookup) (path : Path .file) :
    SameStore (store.deleteFile path) (other.deleteFile path) := by
  unfold BlockingMemIo.deleteFile AsyncMemIo.deleteFile
  rw [← h]
  cases store.files.lookup path.key with
  | none => exact ⟨rfl, h⟩
  | some _ => exact ⟨rfl, erase_same h path.key⟩

theorem moveFile_same (h : store.files.lookup = other.files.lookup) (source target : Path .file) :
    SameStore (store.moveFile source target) (other.moveFile source target) := by
  unfold BlockingMemIo.moveFile AsyncMemIo.moveFile
  rw [← h]
  cases store.files.lookup source.key with
  | none => exact ⟨rfl, h⟩
  | some contents =>
      have herased : (⟨store.files.erase source.key⟩ : BlockingMemIo).files.lookup =
          (⟨other.files.erase source.key⟩ : AsyncMemIo).files.lookup := erase_same h source.key
      exact ⟨rfl, insert_same herased target.key contents⟩

theorem copyFile_same (h : store.files.lookup = other.files.lookup) (source target : Path .file) :
    SameStore (store.copyFile source target) (other.copyFile source target) := by
  unfold BlockingMemIo.copyFile AsyncMemIo.copyFile
  rw [← h]
  cases store.files.lookup source.key with
  | none => exact ⟨rfl, h⟩
  | some contents => exact ⟨rfl, insert_same h target.key contents⟩

theorem Same.read (same : Same guard store twin other) (path : Path .file) :
    SameCall (Api.read guard store path) (AsyncApi.read twin other path) := by
  obtain ⟨⟨hresult, hsame⟩, -⟩ := same.getFile path
  unfold Api.read AsyncApi.read
  rcases hleft : guard.getFile store path with ⟨result, left, store'⟩
  rcases hright : twin.getFile other path with ⟨result', right, other'⟩
  rw [hleft, hright] at hresult hsame
  obtain rfl : result = result' := hresult
  cases result with
  | error e => exact ⟨rfl, hsame⟩
  | ok file => exact ⟨rfl, hsame⟩

theorem Same.delete (same : Same guard store twin other) (path : Path .file) :
    SameCall (Api.delete guard store path) (AsyncApi.delete twin other path) := by
  have hdropped := same.dropFile path
  obtain ⟨hresult, hfiles⟩ := deleteFile_same hdropped.files path
  exact ⟨hresult, hdropped.buffers, hfiles, hdropped.wellFormed⟩

theorem Same.moveFile (same : Same guard store twin other) (source target : Path .file) :
    SameCall (Api.moveFile guard store source target) (AsyncApi.moveFile twin other source target) := by
  have hdropped := (same.dropFile source).dropFile target
  obtain ⟨hresult, hfiles⟩ := moveFile_same hdropped.files source target
  exact ⟨hresult, hdropped.buffers, hfiles, hdropped.wellFormed⟩

theorem Same.copy (same : Same guard store twin other) (source target : Path .file) :
    SameCall (Api.copy guard store source target) (AsyncApi.copy twin other source target) := by
  obtain ⟨hresult, hsame⟩ := same.saveFile source
  unfold Api.copy AsyncApi.copy
  rcases hleft : Api.saveFile guard store source with ⟨result, left, store'⟩
  rcases hright : AsyncApi.saveFile twin other source with ⟨result', right, other'⟩
  rw [hleft, hright] at hresult hsame
  obtain rfl : result = result' := hresult
  cases result with
  | error e => exact ⟨rfl, hsame⟩
  | ok _ =>
      have hdropped := hsame.dropFile target
      obtain ⟨hcopied, hfiles⟩ := copyFile_same hdropped.files source target
      exact ⟨hcopied, hdropped.buffers, hfiles, hdropped.wellFormed⟩

theorem call_same {blocking : Blocking Doc} {async : Async Doc}
    (same : Same blocking.guard blocking.store async.guard async.store) (call : Call) :
    (blocking.call call).1 = (async.call call).1 ∧
      Same (blocking.call call).2.guard (blocking.call call).2.store
        (async.call call).2.guard (async.call call).2.store := by
  cases call with
  | read path =>
      obtain ⟨hresult, hsame⟩ := same.read path
      exact ⟨congrArg (Except.map _) hresult, hsame⟩
  | write path data =>
      obtain ⟨hresult, hsame⟩ := (same.resetFile path data).saveFile path
      exact ⟨congrArg (Except.map _) hresult, hsame⟩
  | delete path =>
      obtain ⟨hresult, hsame⟩ := same.delete path
      exact ⟨congrArg (Except.map _) hresult, hsame⟩
  | moveFile source target =>
      obtain ⟨hresult, hsame⟩ := same.moveFile source target
      exact ⟨congrArg (Except.map _) hresult, hsame⟩
  | copy source target =>
      obtain ⟨hresult, hsame⟩ := same.copy source target
      exact ⟨congrArg (Except.map _) hresult, hsame⟩
  | fileExists path =>
      refine ⟨?_, same⟩
      simp only [Blocking.call, Async.call, same.fileExists]
  | applyTransaction path transaction =>
      obtain ⟨hresult, hsame⟩ := same.applyTransaction path transaction
      exact ⟨congrArg (Except.map _) hresult, hsame⟩
  | extractPath rootPath relPath =>
      refine ⟨?_, same⟩
      simp only [Blocking.call, Async.call, Api.extractPath, AsyncApi.extractPath, same.fileExists]
  | resetFile path contents => exact ⟨rfl, same.resetFile path contents⟩
  | dropFile path => exact ⟨rfl, same.dropFile path⟩
  | dropDir dir => exact ⟨rfl, same.dropDir dir⟩
  | snapshot =>
      obtain ⟨hresult, hsame⟩ := same.snapshot
      exact ⟨congrArg (Except.map _) hresult, hsame⟩

def Pair.Same (pair : Pair Doc) : Prop :=
  Twins.Same pair.blocking.guard pair.blocking.store pair.async.guard pair.async.store

theorem step_same (before : Pair Doc) (label : Call × Outcome Doc × Outcome Doc) (after : Pair Doc)
    (same : before.Same) (step : Step before label after) :
    after.Same ∧ label.2.1 = label.2.2 := by
  obtain ⟨pair, reordered, hblocking, hasync⟩ := step
  have hpair : pair.Same := by
    refine ⟨?_, ?_, ?_⟩
    · rw [reordered.buffers, reordered.asyncBuffers, same.buffers]
    · rw [reordered.files, reordered.asyncFiles, same.files]
    · unfold MemFileGuard.WellFormed
      rw [reordered.buffers]
      exact same.wellFormed
  obtain ⟨hresult, hsame⟩ := call_same hpair label.1
  rw [hblocking, hasync] at hresult hsame
  exact ⟨hsame, hresult⟩

-- Every call gives the same outcome on both sides, and leaves the same
-- buffers, counters and files behind.
theorem sessions_agree (start finish : Pair Doc) (trace : List (Call × Outcome Doc × Outcome Doc))
    (hstart : Starts start) (run : Run Step start trace finish) :
    Agree finish ∧ ∀ label ∈ trace, label.2.1 = label.2.2 := by
  have hsame : start.Same := by
    obtain ⟨hguard, hasync, hfiles⟩ := hstart
    refine ⟨?_, hfiles, ?_⟩
    · rw [hguard, hasync]
      rfl
    · rw [hguard]
      exact wellFormed_new
  obtain ⟨hfinish, houtcomes⟩ :=
    run.forall_label Pair.Same (fun label => label.2.1 = label.2.2) hsame step_same
  exact ⟨⟨hfinish.buffers, hfinish.files⟩, houtcomes⟩

def Pair.call (pair : Pair Doc) (command : Call) : (Outcome Doc × Outcome Doc) × Pair Doc :=
  (((pair.blocking.call command).1, (pair.async.call command).1),
    ⟨(pair.blocking.call command).2, (pair.async.call command).2⟩)

theorem step_call (pair : Pair Doc) (command : Call) :
    Step pair (command, (pair.call command).1) (pair.call command).2 :=
  ⟨pair, ⟨rfl, rfl, rfl, rfl⟩, rfl, rfl⟩

-- A file is edited in its buffer, moved in another spelling, edited again and evicted.
def script : List Call :=
  let edit : Transaction := ⟨[.insert ⟨0, 0⟩ ['y']]⟩
  [.write (Path.new "d/a".toList) ['x'], .applyTransaction (Path.new "d/a".toList) edit,
    .moveFile (Path.new "d//a".toList) (Path.new ['b']), .applyTransaction (Path.new ['b']) edit,
    .dropFile (Path.new ['b'])]

theorem sessions_agree_written :
    let sessions := played Pair.call (⟨⟨.new, .new⟩, ⟨.new, .new⟩⟩ : Pair OpLog) script
    sessions.2.async.store.files.lookup (Path.new ['b'] : Path .file).key = some "yyx".toList ∧
      Agree sessions.2 ∧ ∀ label ∈ sessions.1, label.2.1 = label.2.2 :=
  ⟨by decide +kernel, sessions_agree _ _ _ ⟨rfl, rfl, rfl⟩ (run_played step_call _ script)⟩

end Saps.Files.Twins
