import Saps.Files.Session.Buffers

-- The store's own calls, seen through the buffers: a call whose keys hold no
-- buffer does to the view what it does to a store that holds the view.
namespace Saps.Files.Session

open Overlay

theorem local_insert {keys : Set PathBuf.Key} {key : PathBuf.Key} (hkey : key ∈ keys)
    (value : Str) : Local (HashMap.lookup : HashMap PathBuf.Key Str → View) keys
      (fun files => files.insert key value) := by
  refine ⟨?_, ?_⟩
  · intro files other h found hfound
    simp only [HashMap.lookup_insert]
    rw [h hfound]
  · intro files found hfound
    have hne : found ≠ key := fun h => hfound (h ▸ hkey)
    simp [hne]

theorem local_erase {keys : Set PathBuf.Key} {key : PathBuf.Key} (hkey : key ∈ keys) :
    Local (HashMap.lookup : HashMap PathBuf.Key Str → View) keys
      (fun files => files.erase key) := by
  refine ⟨?_, ?_⟩
  · intro files other h found hfound
    simp only [HashMap.lookup_erase]
    rw [h hfound]
  · intro files found hfound
    have hne : found ≠ key := fun h => hfound (h ▸ hkey)
    simp [hne]

-- What a folder move can touch.
def area (source target : PathBuf.Key) : Set PathBuf.Key :=
  {key | key.startsWith source ∨ key.startsWith target}

theorem join_mem_area {key source relative : PathBuf.Key}
    (h : key.stripPrefix source = some relative) (hkey : key.startsWith source)
    (target : PathBuf.Key) : target.join relative ∈ area source target := by
  rcases PathBuf.Key.startsWith_join h target with hunder | ⟨_, hself⟩
  · exact .inr hunder
  · exact .inl (by rwa [hself])

theorem local_moveKey (source target key : PathBuf.Key) (hkey : key.startsWith source) :
    Local HashMap.lookup (area source target)
      (fun files => BlockingMemIo.moveKey source target files key) := by
  have hmem : key ∈ area source target := .inl hkey
  cases hstrip : key.stripPrefix source with
  | none =>
      have hid : (fun files => BlockingMemIo.moveKey source target files key) =
          fun files => files := by
        funext files
        simp [BlockingMemIo.moveKey, hstrip]
      exact hid ▸ Local.id
  | some relative =>
      have hto := join_mem_area hstrip hkey target
      refine ⟨?_, ?_⟩
      · intro files other h
        unfold BlockingMemIo.moveKey
        rw [hstrip, ← h hmem]
        cases files.lookup key with
        | none => exact h
        | some contents =>
            exact ((local_erase hmem).comp (local_insert hto contents)).congr _ _ h
      · intro files
        unfold BlockingMemIo.moveKey
        rw [hstrip]
        cases files.lookup key with
        | none => exact fun _ _ => rfl
        | some contents => exact ((local_erase hmem).comp (local_insert hto contents)).frame files

theorem mem_keysUnder (io : BlockingMemIo) (folder : Path .folder) (key : PathBuf.Key) :
    key ∈ io.keysUnder folder ↔ (io.files.lookup key).isSome ∧ key.startsWith folder.key := by
  unfold BlockingMemIo.keysUnder
  rw [List.mem_filter, HashMap.mem_keys]

theorem moveKey_keeps (source target key other : PathBuf.Key) (files : HashMap PathBuf.Key Str)
    (hother : other ≠ key) (h : (files.lookup other).isSome) :
    ((BlockingMemIo.moveKey source target files key).lookup other).isSome := by
  unfold BlockingMemIo.moveKey
  split
  · simp only [HashMap.lookup_insert, HashMap.lookup_erase, if_neg hother]
    split
    · rfl
    · exact h
  · exact h

-- No turn of a folder move meets a key without the prefix or without a file, so
-- neither `unwrap` of the loop can panic.
theorem moveFolder_unwrap (io : BlockingMemIo) (source target : Path .folder)
    (moved rest : List PathBuf.Key) (key : PathBuf.Key)
    (h : io.keysUnder source = moved ++ key :: rest) :
    (key.stripPrefix source.key).isSome ∧
      ((moved.foldl (BlockingMemIo.moveKey source.key target.key) io.files).lookup key).isSome := by
  have hnodup : (moved ++ key :: rest).Nodup := h ▸ io.files.keys_nodup.filter _
  have hmem : key ∈ io.keysUnder source := by simp [h]
  obtain ⟨hstored, hprefix⟩ := (mem_keysUnder io source key).mp hmem
  have hkeep : ∀ (moved : List PathBuf.Key) (files : HashMap PathBuf.Key Str), key ∉ moved →
      (files.lookup key).isSome →
      ((moved.foldl (BlockingMemIo.moveKey source.key target.key) files).lookup key).isSome := by
    intro moved
    induction moved with
    | nil => exact fun _ _ h => h
    | cons first moved ih =>
        intro files hnot hfile
        have hne : key ≠ first := fun heq => hnot (by simp [heq])
        have hlater : key ∉ moved := fun hmem => hnot (by simp [hmem])
        exact ih _ hlater (moveKey_keeps _ _ _ _ _ hne hfile)
  refine ⟨by simp [PathBuf.Key.stripPrefix, hprefix], hkeep moved io.files ?_ hstored⟩
  exact fun hmoved => (List.disjoint_of_nodup_append hnodup) hmoved (by simp)

-- A store that holds the view can meet the files of a folder in the order the
-- real store meets them, once the session sees there what is stored.
theorem exists_plain (store : BlockingMemIo) (seen : HashMap PathBuf.Key Str)
    (folder : Path .folder)
    (hfolder : ∀ key, key.startsWith folder.key → seen.lookup key = store.files.lookup key) :
    ∃ io : BlockingMemIo, io.files.lookup = seen.lookup ∧
      io.keysUnder folder = store.keysUnder folder := by
  let under := fun key : PathBuf.Key => key.startsWith folder.key
  have hunder : (store.keysUnder folder).Perm (seen.keys.filter under) := by
    unfold BlockingMemIo.keysUnder
    rw [List.perm_ext_iff_of_nodup (store.files.keys_nodup.filter _) (seen.keys_nodup.filter _)]
    intro key
    simp only [List.mem_filter, HashMap.mem_keys]
    constructor
    · rintro ⟨hstored, hkey⟩
      exact ⟨by rwa [hfolder key hkey], hkey⟩
    · rintro ⟨hseen, hkey⟩
      exact ⟨by rwa [← hfolder key hkey], hkey⟩
  have hperm := (hunder.append_right (seen.keys.filter (! under ·))).trans
    (List.filter_append_perm under seen.keys)
  obtain ⟨files, hlookup, hkeys⟩ := seen.exists_keys_eq _ hperm
  refine ⟨⟨files⟩, hlookup, ?_⟩
  unfold BlockingMemIo.keysUnder
  simp only [hkeys, List.filter_append, List.filter_filter]
  simp [under, BlockingMemIo.keysUnder]

variable {Doc : Type} [Yrs Doc]

-- What a store call does to the view, and what the same call does to a plain
-- store that holds the view.
def Mirrored (guard : MemFileGuard Doc) (store : BlockingMemIo)
    (op : BlockingMemIo → Except FileError Unit × BlockingMemIo) : Prop :=
  ∃ io io' : BlockingMemIo, io.files.lookup = view guard store ∧
    op io = ((op store).1, io') ∧ io'.files.lookup = view guard (op store).2

-- A folder call is a fold over the files of the folder.
theorem fold_mirrored {guard : MemFileGuard Doc} (hguard : guard.WellFormed)
    (store : BlockingMemIo) (folder : Path .folder) (keys : Set PathBuf.Key)
    (hgone : ∀ key ∈ keys, guard.text key = none)
    (hfolder : ∀ key, key.startsWith folder.key → key ∈ keys)
    (turn : HashMap PathBuf.Key Str → PathBuf.Key → HashMap PathBuf.Key Str)
    (hturn : ∀ key, key.startsWith folder.key → Local HashMap.lookup keys (turn · key))
    (error : FileError) :
    Mirrored guard store fun io =>
      if io.keysUnder folder = [] then (.error error, io)
      else (.ok (), ⟨(io.keysUnder folder).foldl turn io.files⟩) := by
  have hseen := drop_lookup hguard store
  obtain ⟨io, hio, hunder⟩ := exists_plain store (guard.drop store).files folder fun key hkey => by
    rw [hseen, view_of_text_none (hgone key (hfolder key hkey))]
  rw [hseen] at hio
  by_cases hempty : store.keysUnder folder = []
  · exact ⟨io, io, hio, by simp [hunder, hempty], by simpa [hempty] using hio⟩
  · have hfold := Local.foldl (store.keysUnder folder) fun key hkey =>
      hturn key ((mem_keysUnder store folder key).mp hkey).2
    refine ⟨io, _, hio, by simp [hunder, hempty]; rfl, ?_⟩
    simpa [hempty, view] using hfold.through guard.text hgone store.files io.files hio

theorem deleteFolder_mirrored {guard : MemFileGuard Doc} (hguard : guard.WellFormed)
    (store : BlockingMemIo) (path : Path .folder)
    (hgone : ∀ key, key.startsWith path.key → guard.text key = none) :
    Mirrored guard store (·.deleteFolder path) :=
  fold_mirrored hguard store path {key | key.startsWith path.key} hgone (fun _ h => h) _
    (fun _ hkey => local_erase hkey) _

theorem moveFolder_mirrored {guard : MemFileGuard Doc} (hguard : guard.WellFormed)
    (store : BlockingMemIo) (source target : Path .folder)
    (hgone : ∀ key ∈ area source.key target.key, guard.text key = none) :
    Mirrored guard store (·.moveFolder source target) :=
  fold_mirrored hguard store source (area source.key target.key) hgone (fun _ h => .inl h) _
    (fun key hkey => local_moveKey source.key target.key key hkey) _

-- A folder copy changes nothing outside the target, so buffers that are saved
-- may stay outside it.
theorem copyKey_lookup (source target key other : PathBuf.Key) (files : HashMap PathBuf.Key Str)
    (hother : ¬other.startsWith target) :
    (BlockingMemIo.copyKey source target files key).lookup other = files.lookup other := by
  unfold BlockingMemIo.copyKey
  split
  · next relative contents hstrip hlookup =>
    rw [HashMap.lookup_insert]
    split
    · next heq =>
      rcases PathBuf.Key.startsWith_join hstrip target with hunder | ⟨_, hself⟩
      · exact absurd (heq ▸ hunder) hother
      · rw [heq, hself, hlookup]
    · rfl
  · rfl

theorem copyFolder_lookup (io : BlockingMemIo) (source target : Path .folder)
    (other : PathBuf.Key) (hother : ¬other.startsWith target.key) :
    (io.copyFolder source target).2.files.lookup other = io.files.lookup other := by
  have hfold : ∀ (keys : List PathBuf.Key) (files : HashMap PathBuf.Key Str),
      (keys.foldl (BlockingMemIo.copyKey source.key target.key) files).lookup other =
        files.lookup other := by
    intro keys
    induction keys with
    | nil => exact fun _ => rfl
    | cons key keys ih =>
        intro files
        rw [List.foldl_cons, ih, copyKey_lookup _ _ _ _ _ hother]
  simp only [BlockingMemIo.copyFolder]
  split
  · rfl
  · exact hfold _ _

theorem copyFolder_mirrored (guard : MemFileGuard Doc) (store : BlockingMemIo)
    (source target : Path .folder)
    (hgone : ∀ key, key.startsWith target.key → guard.text key = none)
    (hsaved : view guard store = store.files.lookup) :
    Mirrored guard store (·.copyFolder source target) := by
  refine ⟨store, (store.copyFolder source target).2, hsaved.symm, rfl, ?_⟩
  funext key
  by_cases hkey : key.startsWith target.key
  · rw [view_of_text_none (hgone key hkey)]
  · have hkept := copyFolder_lookup store source target key hkey
    have hseen := congrFun hsaved key
    unfold view through at hseen ⊢
    rw [hkept, hseen]

-- A file call fails without its source, and is an update of a few keys with it.
theorem file_mirrored {guard : MemFileGuard Doc} (hguard : guard.WellFormed)
    (store : BlockingMemIo) (keys : Set PathBuf.Key)
    (hgone : ∀ key ∈ keys, guard.text key = none) (source : PathBuf.Key) (hsource : source ∈ keys)
    (op : BlockingMemIo → Except FileError Unit × BlockingMemIo) (error : FileError)
    (update : Str → HashMap PathBuf.Key Str → HashMap PathBuf.Key Str)
    (hnone : ∀ io, io.files.lookup source = none → op io = (.error error, io))
    (hsome : ∀ io contents, io.files.lookup source = some contents →
      op io = (.ok (), ⟨update contents io.files⟩))
    (hlocal : ∀ contents, Local HashMap.lookup keys (update contents)) :
    Mirrored guard store op := by
  have hseen := drop_lookup hguard store
  have hsame : (guard.drop store).files.lookup source = store.files.lookup source := by
    rw [hseen, view_of_text_none (hgone source hsource)]
  cases hstored : store.files.lookup source with
  | none =>
      refine ⟨guard.drop store, guard.drop store, hseen, ?_, ?_⟩
      · rw [hnone _ hstored, hnone _ (hsame.trans hstored)]
      · rw [hnone _ hstored, hseen]
  | some contents =>
      refine ⟨guard.drop store, ⟨update contents (guard.drop store).files⟩, hseen, ?_, ?_⟩
      · rw [hsome _ _ hstored, hsome _ _ (hsame.trans hstored)]
      · rw [hsome _ _ hstored]
        exact (hlocal contents).through guard.text hgone store.files _ hseen

theorem deleteFile_mirrored {guard : MemFileGuard Doc} (hguard : guard.WellFormed)
    (store : BlockingMemIo) (path : Path .file) (hgone : guard.text path.key = none) :
    Mirrored guard store (·.deleteFile path) := by
  refine file_mirrored hguard store {path.key} ?_ path.key rfl _
    (BlockingMemIo.fileNotFound path.fullPath) (fun _ files => files.erase path.key) ?_ ?_ ?_
  · rintro key rfl
    exact hgone
  · intro io h
    simp [BlockingMemIo.deleteFile, h]
  · intro io contents h
    simp [BlockingMemIo.deleteFile, h]
  · exact fun _ => local_erase rfl

theorem moveFile_mirrored {guard : MemFileGuard Doc} (hguard : guard.WellFormed)
    (store : BlockingMemIo) (source target : Path .file)
    (hgone : ∀ key ∈ ({source.key, target.key} : Set PathBuf.Key), guard.text key = none) :
    Mirrored guard store (·.moveFile source target) := by
  refine file_mirrored hguard store {source.key, target.key} hgone source.key (.inl rfl) _
    (BlockingMemIo.fileNotFound source.fullPath)
    (fun contents files => (files.erase source.key).insert target.key contents) ?_ ?_ ?_
  · intro io h
    simp [BlockingMemIo.moveFile, h]
  · intro io contents h
    simp [BlockingMemIo.moveFile, h]
  · exact fun contents => (local_erase (.inl rfl)).comp (local_insert (.inr rfl) contents)

end Saps.Files.Session
