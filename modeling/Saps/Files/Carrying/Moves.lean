import Saps.Files.Carrying
import Saps.Files.Session.Theorems

-- What is left in a store once a guard has closed its buffers for a move.
namespace Saps.Files.Carrying

variable {Doc Store Slot : Type} {slot : Path .file → Slot} {closing : Closing Doc Store}
  {buffers : Buffers Doc}

theorem closeAll_append (front back : List PathBuf.Key) (store : Store) :
    closing.closeAll buffers (front ++ back) store =
      closing.closeAll buffers back (closing.closeAll buffers front store) :=
  List.foldl_append

theorem written_snoc {keys : List PathBuf.Key} {last : PathBuf.Key} {store : Store}
    {path : Path .file} {file : MemFile Doc} :
    Written slot closing buffers (keys ++ [last]) store path file ↔
      Written slot closing buffers keys store path file ∨ slot path = slot file.path ∧
        path.key = last ∧ closing.writes file (closing.closeAll buffers keys store) = true := by
  constructor
  · rintro ⟨hslot, front, back, hkeys, hwrites⟩
    rcases List.eq_nil_or_concat' back with rfl | ⟨middle, final, rfl⟩
    · obtain ⟨rfl, hlast⟩ := List.append_inj' hkeys rfl
      exact .inr ⟨hslot, List.head_eq_of_cons_eq hlast.symm, hwrites⟩
    · rw [← List.cons_append, ← List.append_assoc] at hkeys
      obtain ⟨rfl, _⟩ := List.append_inj' hkeys rfl
      exact .inl ⟨hslot, front, middle, rfl, hwrites⟩
  · rintro (⟨hslot, front, back, rfl, hwrites⟩ | ⟨hslot, rfl, hwrites⟩)
    · exact ⟨hslot, front, back ++ [last], by simp, hwrites⟩
    · exact ⟨hslot, keys, [], rfl, hwrites⟩

theorem closeAll_congr {other : Buffers Doc} {keys : List PathBuf.Key}
    (h : ∀ key ∈ keys, buffers.lookup key = other.lookup key) (store : Store) :
    closing.closeAll buffers keys store = closing.closeAll other keys store := by
  unfold Closing.closeAll
  refine List.foldl_ext _ _ store fun _ key hkey => ?_
  rw [h key hkey]

-- How a guard gives up the buffer under a key.
structure Evicts {Guard : Type} (closing : Closing Doc Store) (fileMap : Guard → Buffers Doc)
    (evict : PathBuf.Key → Guard → Store → Guard × Store) : Prop where
  store : ∀ key guard store, (evict key guard store).2 =
    ((fileMap guard).lookup key).elim store (closing.close · store)
  buffers : ∀ key guard store, fileMap (evict key guard store).1 = (fileMap guard).erase key

-- Giving up the buffers under distinct keys closes each of them once.
theorem Evicts.all {Guard : Type} {fileMap : Guard → Buffers Doc}
    {evict : PathBuf.Key → Guard → Store → Guard × Store} (h : Evicts closing fileMap evict)
    {keys : List PathBuf.Key} (hnodup : keys.Nodup) (guard : Guard) (store : Store) :
    (keys.foldl (fun state key => evict key state.1 state.2) (guard, store)).2 =
        closing.closeAll (fileMap guard) keys store ∧
      fileMap (keys.foldl (fun state key => evict key state.1 state.2) (guard, store)).1 =
        keys.foldl (fun left key => left.erase key) (fileMap guard) := by
  induction keys using List.reverseRecOn with
  | nil => exact ⟨rfl, rfl⟩
  | append_singleton keys last ih =>
      obtain ⟨hkeys, _, hlast⟩ := List.nodup_append.mp hnodup
      obtain ⟨hstore, hbuffers⟩ := ih hkeys
      have hmem : last ∉ keys := fun hmem => hlast last hmem last (List.mem_singleton_self _) rfl
      rw [List.foldl_append, List.foldl_append, List.foldl_cons, List.foldl_cons, List.foldl_nil,
        List.foldl_nil, h.store, h.buffers, hbuffers, hstore, HashMap.lookup_foldl_erase, if_neg hmem,
        closeAll_append]
      exact ⟨rfl, rfl⟩

-- What a move of a folder does to the buffers first.
theorem Evicts.folders {Guard : Type} {fileMap : Guard → Buffers Doc}
    {evict : PathBuf.Key → Guard → Store → Guard × Store} (h : Evicts closing fileMap evict)
    (guard : Guard) (store : Store) (source target : Path .folder) :
    let dropDir (folder : Path .folder) (state : Guard × Store) :=
      (openUnder (fileMap state.1) folder).foldl (fun state key => evict key state.1 state.2) state
    (dropDir target (dropDir source (guard, store))).2 =
      closing.closeAll (fileMap guard) (closed (fileMap guard) source target) store := by
  intro dropDir
  have hnodup (buffers : Buffers Doc) (folder : Path .folder) : (openUnder buffers folder).Nodup :=
    buffers.keys_nodup.filter _
  obtain ⟨hstore, hbuffers⟩ := h.all (hnodup (fileMap guard) source) guard store
  obtain ⟨hlast, _⟩ := h.all (hnodup (fileMap (dropDir source (guard, store)).1) target)
    (dropDir source (guard, store)).1 (dropDir source (guard, store)).2
  rw [closed, closeAll_append, ← hstore, ← hbuffers]
  refine hlast.trans (closeAll_congr (fun key hkey => ?_) _)
  have hopen := (HashMap.mem_keys _ key).mp (List.mem_filter.mp hkey).1
  change ((fileMap (dropDir source (guard, store)).1).lookup key).isSome at hopen
  change (fileMap (dropDir source (guard, store)).1).lookup key = _
  rw [show fileMap (dropDir source (guard, store)).1 = _ from hbuffers,
    HashMap.lookup_foldl_erase] at hopen ⊢
  split at hopen
  · contradiction
  · next hfree => rw [if_neg hfree]

variable [Yrs Doc] [FileIo Store] [DecidableEq Slot] {fits : Store → Prop}
  {known : Path .file → Prop}

-- A closed buffer changes the stored text of its own file, and only if it is written.
def Lawful (fits : Store → Prop) (known : Path .file → Prop) (slot : Path .file → Slot)
    (closing : Closing Doc Store) : Prop :=
  ∀ file store, known file.path → fits store →
    fits (closing.close file store) ∧ ∀ path, known path →
      FileIo.text (closing.close file store) path =
        if closing.writes file store = true ∧ slot path = slot file.path then some file.contents
        else FileIo.text store path

theorem text_writeFile (h : Shelves Store fits known slot) {store : Store} (hfits : fits store)
    {path : Path .file} (hpath : known path) (data : Str) :
    fits (FileIo.writeFile store path data).2 ∧ ∀ other, known other →
      FileIo.text (FileIo.writeFile store path data).2 other =
        if (FileIo.writeFile store path data).1.isOk = true ∧ slot other = slot path then some data
        else FileIo.text store other := by
  rcases hwrite : FileIo.writeFile store path data with ⟨_ | _, after⟩
  · obtain ⟨hafter, htext⟩ := h.refused hfits hpath hwrite
    refine ⟨hafter, fun other hother => ?_⟩
    rw [if_neg (by simp [Except.isOk, Except.toBool])]
    exact htext other hother
  · obtain ⟨hafter, htext⟩ := h.written hfits hpath hwrite
    refine ⟨hafter, fun other hother => ?_⟩
    simp only [Except.isOk, Except.toBool, true_and]
    exact htext other hother

theorem lawful_dropping (h : Shelves Store fits known slot) :
    Lawful fits known slot (dropping : Closing Doc Store) := by
  intro file store hfile hfits
  change fits (file.drop store) ∧ ∀ path, known path → FileIo.text (file.drop store) path = _
  unfold MemFile.drop
  by_cases hflush : file.flushOnDrop = true
  · have hwrites : (dropping : Closing Doc Store).writes file store =
        (FileIo.writeFile store file.path file.contents).1.isOk := by simp [dropping, hflush]
    rw [if_pos hflush, hwrites]
    exact text_writeFile h hfits hfile file.contents
  · have hwrites : (dropping : Closing Doc Store).writes file store = false := by
      simp [dropping, hflush]
    rw [if_neg hflush, hwrites]
    exact ⟨hfits, by simp⟩

theorem lawful_saving (h : Shelves Store fits known slot) :
    Lawful fits known slot (saving : Closing Doc Store) := by
  intro file store hfile hfits
  have hsave : (file.save store).2.2 = (FileIo.writeFile store file.path file.contents).2 := by
    unfold MemFile.save
    rcases FileIo.writeFile store file.path file.contents with ⟨_ | _, after⟩ <;> rfl
  simp only [saving, hsave]
  exact text_writeFile h hfits hfile file.contents

omit [Yrs Doc] [FileIo Store] [DecidableEq Slot] in
theorem not_written_nil {store : Store} {path : Path .file} (file : MemFile Doc) :
    ¬Written slot closing buffers [] store path file := by
  rintro ⟨_, front, back, hkeys, _⟩
  simp at hkeys

omit [DecidableEq Slot] in
theorem settles_snoc_other {keys : List PathBuf.Key} {last : PathBuf.Key} {store : Store}
    {path : Path .file} {text : Str}
    (h : ∀ file, buffers.lookup path.key = some file → slot path = slot file.path →
      path.key = last → closing.writes file (closing.closeAll buffers keys store) = false) :
    Settles slot closing buffers (keys ++ [last]) store path text ↔
      Settles slot closing buffers keys store path text := by
  have hsame (file : MemFile Doc) (hfile : buffers.lookup path.key = some file) :
      Written slot closing buffers (keys ++ [last]) store path file ↔
        Written slot closing buffers keys store path file := by
    rw [written_snoc, or_iff_left]
    rintro ⟨hslot, hlast, hwrites⟩
    rw [h file hfile hslot hlast] at hwrites
    contradiction
  unfold Settles
  constructor
  · rintro (⟨file, hfile, hwritten, htext⟩ | ⟨hnot, htext⟩)
    · exact .inl ⟨file, hfile, (hsame file hfile).mp hwritten, htext⟩
    · exact .inr ⟨fun file hfile hwritten => hnot file hfile ((hsame file hfile).mpr hwritten), htext⟩
  · rintro (⟨file, hfile, hwritten, htext⟩ | ⟨hnot, htext⟩)
    · exact .inl ⟨file, hfile, (hsame file hfile).mpr hwritten, htext⟩
    · exact .inr ⟨fun file hfile hwritten => hnot file hfile ((hsame file hfile).mp hwritten), htext⟩

theorem fits_closeAll (hclosing : Lawful fits known slot closing) (hamong : Among known buffers)
    (keys : List PathBuf.Key) {store : Store} (hfits : fits store) :
    fits (closing.closeAll buffers keys store) := by
  induction keys using List.reverseRecOn with
  | nil => exact hfits
  | append_singleton keys last ih =>
      rw [closeAll_append]
      change fits ((buffers.lookup last).elim _ (closing.close · _))
      cases hlast : buffers.lookup last with
      | none => exact ih
      | some file => exact (hclosing file _ (hamong last file hlast) ih).1

section Settled

variable (hshelves : Shelves Store fits known slot) (hclosing : Lawful fits known slot closing)
  (hfiled : MemFile.Filed buffers) (hamong : Among known buffers) {store : Store}
  (hfits : fits store)

include hshelves hclosing hfiled hamong hfits

-- What is stored once the buffers are closed, told from the answers that they got.
theorem text_closeAll_iff (keys : List PathBuf.Key) {path : Path .file} (hpath : known path)
    (text : Str) : FileIo.text (closing.closeAll buffers keys store) path = some text ↔
      Settles slot closing buffers keys store path text := by
  induction keys using List.reverseRecOn with
  | nil => simp [Settles, not_written_nil, Closing.closeAll]
  | append_singleton keys last ih =>
      have hkept := fits_closeAll hclosing hamong keys hfits
      rw [closeAll_append]
      change FileIo.text ((buffers.lookup last).elim _ (closing.close · _)) path = _ ↔ _
      by_cases hturn : ∃ file, buffers.lookup path.key = some file ∧ slot path = slot file.path ∧
          path.key = last ∧ closing.writes file (closing.closeAll buffers keys store) = true
      · obtain ⟨file, hfile, hslot, rfl, hwrites⟩ := hturn
        have hwritten : Written slot closing buffers (keys ++ [path.key]) store path file :=
          written_snoc.mpr (.inr ⟨hslot, rfl, hwrites⟩)
        rw [hfile, Option.elim_some, (hclosing file _ (hamong _ _ hfile) hkept).2 path hpath,
          if_pos ⟨hwrites, hslot⟩]
        unfold Settles
        constructor
        · intro htext
          exact .inl ⟨file, hfile, hwritten, Option.some.inj htext⟩
        · rintro (⟨other, hother, _, rfl⟩ | ⟨hnot, _⟩)
          · rw [Option.some.inj (hfile.symm.trans hother)]
          · exact absurd hwritten (hnot file hfile)
      · rw [settles_snoc_other, ← ih]
        · cases hlast : buffers.lookup last with
          | none => rfl
          | some file =>
              rw [Option.elim_some, (hclosing file _ (hamong _ _ hlast) hkept).2 path hpath, if_neg]
              rintro ⟨hwrites, hslot⟩
              have hkey : path.key = last :=
                (hshelves.slot_key hpath (hamong _ _ hlast) hslot).trans (hfiled _ _ hlast)
              exact hturn ⟨file, hkey ▸ hlast, hslot, hkey, hwrites⟩
        · intro file hfile hslot hlast
          by_contra hwrites
          exact hturn ⟨file, hfile, hslot, hlast, by simpa using hwrites⟩

omit hshelves hclosing hfiled hamong hfits

omit [DecidableEq Slot] in
theorem settles_open_iff {keys : List PathBuf.Key} {path : Path .file} {file : MemFile Doc}
    (hfile : buffers.lookup path.key = some file) :
    Settles slot closing buffers keys store path file.contents ↔
      Written slot closing buffers keys store path file ∨
        FileIo.text store path = some file.contents := by
  unfold Settles
  constructor
  · rintro (⟨other, hother, hwritten, _⟩ | ⟨_, htext⟩)
    · rw [Option.some.inj (hfile.symm.trans hother)]
      exact .inl hwritten
    · exact .inr htext
  · intro h
    by_cases hwritten : Written slot closing buffers keys store path file
    · exact .inl ⟨file, hfile, hwritten, rfl⟩
    · refine .inr ⟨fun other hother => ?_, h.resolve_left hwritten⟩
      rwa [← Option.some.inj (hfile.symm.trans hother)]

omit [DecidableEq Slot] in
theorem settles_closed_iff {keys : List PathBuf.Key} {path : Path .file} {text : Str}
    (hfile : buffers.lookup path.key = none) :
    Settles slot closing buffers keys store path text ↔ FileIo.text store path = some text := by
  simp [Settles, hfile]

include hshelves hclosing hfiled hamong hfits

theorem fileCarried_iff {after : Store} {source target : Path .file} (hsource : known source)
    (htarget : known target) (hne : source.key ≠ target.key)
    (hmove : FileIo.moveFile (closing.closeAll buffers [source.key, target.key] store) source
      target = (.ok (), after)) :
    FileCarried buffers store after source target ↔
      FileCarries slot closing buffers store source := by
  have hkept := fits_closeAll hclosing hamong [source.key, target.key] hfits
  have hmoved (text : Str) : FileIo.text after target = some text ↔
      Settles slot closing buffers [source.key, target.key] store source text := by
    rw [hshelves.moved hkept hsource htarget hne hmove]
    exact text_closeAll_iff hshelves hclosing hfiled hamong hfits _ hsource _
  unfold FileCarried FileCarries held
  simp only [hmoved]
  cases hfile : buffers.lookup source.key with
  | none =>
      simp only [settles_closed_iff hfile]
      simp
  | some file =>
      have hwritten : Written slot closing buffers [source.key, target.key] store source file ↔
          slot source = slot file.path ∧ closing.writes file store = true := by
        rw [← List.singleton_append, written_snoc, or_iff_left (fun h => hne h.2.1),
          ← List.nil_append [source.key], written_snoc, or_iff_right (not_written_nil file)]
        exact ⟨fun ⟨hslot, _, hwrites⟩ => ⟨hslot, hwrites⟩,
          fun ⟨hslot, hwrites⟩ => ⟨hslot, rfl, hwrites⟩⟩
      have hsettles : Settles slot closing buffers [source.key, target.key] store source
          file.contents ↔ _ := settles_open_iff hfile
      simp only [Option.some.injEq, forall_eq', hsettles, hwritten]

omit hshelves

theorem folderCarried_iff [FolderMoves Store] {relocates : Path .folder → Path .folder → Prop}
    (hshelves : FolderShelves Store fits known slot relocates) {after : Store}
    {source target : Path .folder} (hrelocates : relocates source target)
    (hmove : FolderMoves.moveFolder
      (closing.closeAll buffers (closed buffers source target) store) source target =
        (.ok (), after)) :
    FolderCarried known buffers store after source target ↔
      FolderCarries slot known closing buffers store source target := by
  have hkept := fits_closeAll hclosing hamong (closed buffers source target) hfits
  have hsettles {path : Path .file} (hpath : known path) (text : Str) :=
    text_closeAll_iff hshelves.toShelves hclosing hfiled hamong hfits
      (closed buffers source target) hpath text
  unfold FolderCarried FolderCarries
  refine forall₂_congr fun path place => forall₄_congr fun hpath hknown hunder hplace => ?_
  have hmoved := hshelves.moved_folder hkept hrelocates hmove hpath hknown hunder hplace
  unfold held
  cases hfile : buffers.lookup path.key with
  | none =>
      simp only [reduceCtorEq, false_implies, implies_true, iff_true]
      intro text htext
      rw [hmoved, (hsettles hpath text).mpr ((settles_closed_iff hfile).mpr htext), Option.some_or]
  | some file =>
      simp only [Option.some.injEq, forall_eq']
      rw [hmoved, ← hsettles hknown]
      cases hland : FileIo.text (closing.closeAll buffers (closed buffers source target) store)
          path with
      | some text =>
          have hsettled := (hsettles hpath text).mp hland
          rw [Option.some_or]
          constructor
          · intro htext
            exact .inl (Option.some.inj htext ▸ hsettled)
          · rintro (hwritten | ⟨hnone, _⟩)
            · exact hland.symm.trans ((hsettles hpath _).mpr hwritten)
            · rcases hsettled with ⟨other, hother, _, rfl⟩ | ⟨_, htext⟩
              · rw [Option.some.inj (hfile.symm.trans hother)]
              · rw [hnone] at htext
                contradiction
      | none =>
          have hnot (text : Str) : ¬Settles slot closing buffers (closed buffers source target) store
              path text := by
            rw [← hsettles hpath, hland]
            simp
          rw [Option.none_or, or_iff_right (hnot _)]
          refine (and_iff_right ?_).symm
          -- A stored text would have stayed, or made way for the buffer's.
          by_contra hstored
          obtain ⟨text, htext⟩ := Option.ne_none_iff_exists'.mp hstored
          apply hnot text
          refine .inr ⟨fun other hother hwritten => ?_, htext⟩
          exact hnot _ ((settles_open_iff hother).mpr (.inl hwritten))

end Settled

theorem evicts_dropping :
    Evicts (dropping : Closing Doc Store) MemFileGuard.fileMap MemFileGuard.evict := by
  refine ⟨fun key guard store => ?_, fun key guard store => ?_⟩
  · unfold MemFileGuard.evict
    cases guard.fileMap.lookup key <;> rfl
  · unfold MemFileGuard.evict
    cases hlookup : guard.fileMap.lookup key with
    | none => exact (guard.fileMap.erase_absent hlookup).symm
    | some file => rfl

theorem evicts_saving :
    Evicts (saving : Closing Doc Store) AsyncMemFileGuard.fileMap AsyncMemFileGuard.evict := by
  refine ⟨fun key guard store => ?_, fun key guard store => ?_⟩
  · unfold AsyncMemFileGuard.evict
    cases guard.fileMap.lookup key <;> rfl
  · unfold AsyncMemFileGuard.evict
    cases hlookup : guard.fileMap.lookup key with
    | none => exact (guard.fileMap.erase_absent hlookup).symm
    | some file => rfl

section Guards

variable {Guard : Type} {fileMap : Guard → Buffers Doc}
  {evict : PathBuf.Key → Guard → Store → Guard × Store} (hevicts : Evicts closing fileMap evict)
  (hlawful : Lawful fits known slot closing)

include hevicts hlawful

-- Of a guard it only matters how it gives up its buffers.
theorem files_carry (h : Shelves Store fits known slot)
    {move : Guard → Store → Path .file → Path .file → Except FileError Unit × Guard × Store}
    (hmove : ∀ guard store source target, ((move guard store source target).1,
      (move guard store source target).2.2) = FileIo.moveFile
        ([source.key, target.key].foldl (fun state key => evict key state.1 state.2)
          (guard, store)).2 source target) :
    FilesCarry slot known closing fileMap fits move := by
  intro guard store hfiled hamong hfits source target hsource htarget hne hok
  have hnodup : [source.key, target.key].Nodup := by simpa using hne
  have hstore := (hevicts.all hnodup guard store).1
  apply fileCarried_iff h hlawful hfiled hamong hfits hsource htarget hne
  rw [← hstore, ← hmove, hok]

omit hevicts in
theorem folders_carry [FolderMoves Store] {relocates : Path .folder → Path .folder → Prop}
    (h : FolderShelves Store fits known slot relocates)
    {move : Guard → Store → Path .folder → Path .folder → Except FileError Unit × Guard × Store}
    (hmove : ∀ guard store source target, ((move guard store source target).1,
      (move guard store source target).2.2) = FolderMoves.moveFolder
        (closing.closeAll (fileMap guard) (closed (fileMap guard) source target) store) source
          target) :
    FoldersCarry slot known closing fileMap fits relocates move := by
  intro guard store hfiled hamong hfits source target hrelocates hok
  apply folderCarried_iff hlawful hfiled hamong hfits h hrelocates
  rw [← hmove, hok]

end Guards

theorem filesCarry_dropping (h : Shelves Store fits known slot) :
    FilesCarry slot known dropping (@MemFileGuard.fileMap Doc) fits Api.moveFile :=
  files_carry evicts_dropping (lawful_dropping h) h fun _ _ _ _ => rfl

theorem filesCarry_saving (h : Shelves Store fits known slot) :
    FilesCarry slot known saving (@AsyncMemFileGuard.fileMap Doc) fits AsyncApi.moveFile :=
  files_carry evicts_saving (lawful_saving h) h fun _ _ _ _ => rfl

variable [FolderMoves Store] {relocates : Path .folder → Path .folder → Prop}

theorem foldersCarry_dropping (h : FolderShelves Store fits known slot relocates) :
    FoldersCarry slot known dropping (@MemFileGuard.fileMap Doc) fits relocates
      Api.moveFolder := by
  refine folders_carry (lawful_dropping h.toShelves) h fun guard store source target => ?_
  rw [← evicts_dropping.folders guard store source target]
  rfl

theorem foldersCarry_saving (h : FolderShelves Store fits known slot relocates) :
    FoldersCarry slot known saving (@AsyncMemFileGuard.fileMap Doc) fits relocates
      AsyncApi.moveFolder := by
  refine folders_carry (lawful_saving h.toShelves) h fun guard store source target => ?_
  rw [← evicts_saving.folders guard store source target]
  rfl

end Saps.Files.Carrying
