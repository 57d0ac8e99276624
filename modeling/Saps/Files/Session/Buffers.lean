import Saps.Files.Session

-- What the buffers of a session do to its view: dropping one keeps it, loading
-- one keeps it, and an edited one changes it at its own path.
namespace Saps.Files.Session

open MemFileGuard

variable {Doc : Type}

theorem wellFormed_new : (MemFileGuard.new : MemFileGuard Doc).WellFormed := by
  intro key file h
  simp [MemFileGuard.new] at h

theorem wellFormed_insert {guard : MemFileGuard Doc} (hguard : guard.WellFormed)
    (key : PathBuf.Key) (file : MemFile Doc) (hpath : file.path.key = key)
    (hflush : file.flushOnDrop = true) :
    WellFormed ⟨guard.fileMap.insert key file⟩ := by
  intro other buffer h
  rw [HashMap.lookup_insert] at h
  split at h
  · next heq =>
    obtain rfl := Option.some.inj h
    exact ⟨hpath.trans heq.symm, hflush⟩
  · exact hguard other buffer h

theorem wellFormed_erase {guard : MemFileGuard Doc} (hguard : guard.WellFormed)
    (key : PathBuf.Key) : WellFormed (⟨guard.fileMap.erase key⟩ : MemFileGuard Doc) := by
  intro other buffer h
  rw [HashMap.lookup_erase] at h
  split at h
  · contradiction
  · exact hguard other buffer h

variable [Yrs Doc]

theorem writeFile_eq (io : BlockingMemIo) (path : Path .file) (data : Str) :
    FileIo.writeFile io path data = (.ok (), ⟨io.files.insert path.key data⟩) := rfl

theorem text_insert (guard : MemFileGuard Doc) (key other : PathBuf.Key) (file : MemFile Doc) :
    text ⟨guard.fileMap.insert key file⟩ other =
      if other = key then some file.contents else guard.text other := by
  unfold text
  rw [HashMap.lookup_insert]
  split <;> rfl

theorem text_erase (guard : MemFileGuard Doc) (key other : PathBuf.Key) :
    text (⟨guard.fileMap.erase key⟩ : MemFileGuard Doc) other =
      if other = key then none else guard.text other := by
  unfold text
  rw [HashMap.lookup_erase]
  split <;> rfl

theorem text_of_lookup {guard : MemFileGuard Doc} {key : PathBuf.Key} {file : MemFile Doc}
    (h : guard.fileMap.lookup key = some file) : guard.text key = some file.contents := by
  simp [text, h]

theorem text_eq_none_iff (guard : MemFileGuard Doc) (key : PathBuf.Key) :
    guard.text key = none ↔ guard.fileMap.lookup key = none := by
  simp [text]

theorem view_of_text {guard : MemFileGuard Doc} {key : PathBuf.Key} {contents : Str}
    (h : guard.text key = some contents) (store : BlockingMemIo) :
    view guard store key = some contents := by
  simp [view, Overlay.through, h]

theorem view_of_text_none {guard : MemFileGuard Doc} {key : PathBuf.Key}
    (h : guard.text key = none) (store : BlockingMemIo) :
    view guard store key = store.files.lookup key := by
  simp [view, Overlay.through, h]

-- The buffers under some keys are gone, and the session sees what it saw.
structure Evicted (keys : Set PathBuf.Key) (guard : MemFileGuard Doc) (store : BlockingMemIo)
    (after : MemFileGuard Doc × BlockingMemIo) : Prop where
  wellFormed : after.1.WellFormed
  view : Session.view after.1 after.2 = Session.view guard store
  gone : ∀ key ∈ keys, after.1.text key = none
  kept : ∀ key ∉ keys, after.1.text key = guard.text key
  settled : ∀ key, store.files.lookup key = Session.view guard store key →
    after.2.files.lookup key = Session.view guard store key

theorem Evicted.lookup {keys : Set PathBuf.Key} {guard : MemFileGuard Doc}
    {store : BlockingMemIo} {after : MemFileGuard Doc × BlockingMemIo}
    (h : Evicted keys guard store after) {key : PathBuf.Key} (hkey : key ∈ keys) :
    after.2.files.lookup key = Session.view guard store key := by
  rw [← h.view, view_of_text_none (h.gone key hkey)]

theorem Evicted.trans {left right : Set PathBuf.Key} {guard : MemFileGuard Doc}
    {store : BlockingMemIo} {mid after : MemFileGuard Doc × BlockingMemIo}
    (hleft : Evicted left guard store mid) (hright : Evicted right mid.1 mid.2 after) :
    Evicted (left ∪ right) guard store after := by
  refine ⟨hright.wellFormed, hright.view.trans hleft.view, ?_, ?_, ?_⟩
  · intro key hkey
    by_cases h : key ∈ right
    · exact hright.gone key h
    · rw [hright.kept key h]
      exact hleft.gone key (hkey.resolve_right h)
  · intro key hkey
    rw [hright.kept key fun h => hkey (.inr h), hleft.kept key fun h => hkey (.inl h)]
  · intro key hkey
    have hmid := hleft.settled key hkey
    rw [← hleft.view] at hmid ⊢
    exact hright.settled key hmid

-- The dropped buffer writes exactly what the session saw at its path.
theorem evict_evicted {guard : MemFileGuard Doc} (hguard : guard.WellFormed)
    (store : BlockingMemIo) (key : PathBuf.Key) :
    Evicted {key} guard store (evict key guard store) := by
  unfold evict
  cases hlookup : guard.fileMap.lookup key with
  | none =>
      refine ⟨hguard, rfl, ?_, fun _ _ => rfl, fun _ h => h⟩
      rintro other rfl
      exact (text_eq_none_iff guard other).mpr hlookup
  | some file =>
      obtain ⟨hpath, hflush⟩ := hguard key file hlookup
      have htext := text_of_lookup hlookup
      refine ⟨wellFormed_erase hguard key, ?_, ?_, ?_, ?_⟩
      · funext other
        simp only [view, Overlay.through, text_erase, MemFile.drop, hflush, writeFile_eq, hpath,
          ite_true, HashMap.lookup_insert]
        by_cases hother : other = key
        · simp [hother, htext]
        · simp [hother]
      · rintro other rfl
        simp [text_erase]
      · intro other hother
        have hne : other ≠ key := hother
        rw [text_erase, if_neg hne]
      · intro other hother
        simp only [MemFile.drop, hflush, writeFile_eq, hpath, ite_true, HashMap.lookup_insert]
        split
        · next heq => rw [heq, view_of_text htext]
        · exact hother

theorem evictAll_evicted {guard : MemFileGuard Doc} (hguard : guard.WellFormed)
    (store : BlockingMemIo) (keys : List PathBuf.Key) :
    Evicted {key | key ∈ keys} guard store (evictAll keys guard store) := by
  unfold evictAll
  induction keys generalizing guard store with
  | nil => exact ⟨hguard, rfl, fun _ h => by simp at h, fun _ _ => rfl, fun _ h => h⟩
  | cons key keys ih =>
      have hhead := evict_evicted hguard store key
      have htail := ih hhead.wellFormed (evict key guard store).2
      have hboth := hhead.trans htail
      have hset : ({key} : Set PathBuf.Key) ∪ {other | other ∈ keys} =
          {other | other ∈ key :: keys} := by
        ext other
        simp
      exact hset ▸ hboth

theorem dropFile_evicted {guard : MemFileGuard Doc} (hguard : guard.WellFormed)
    (store : BlockingMemIo) (path : Path .file) :
    Evicted {path.key} guard store (guard.dropFile store path) :=
  evict_evicted hguard store path.key

-- Only keys without a buffer are missing from what is evicted.
theorem Evicted.widen {keys wide : Set PathBuf.Key} {guard : MemFileGuard Doc}
    {store : BlockingMemIo} {after : MemFileGuard Doc × BlockingMemIo}
    (h : Evicted keys guard store after) (hkeys : keys ⊆ wide)
    (hwide : ∀ key ∈ wide, key ∉ keys → guard.text key = none) :
    Evicted wide guard store after := by
  refine ⟨h.wellFormed, h.view, ?_, ?_, h.settled⟩
  · intro key hkey
    by_cases hmem : key ∈ keys
    · exact h.gone key hmem
    · rw [h.kept key hmem, hwide key hkey hmem]
  · intro key hkey
    exact h.kept key fun hmem => hkey (hkeys hmem)

theorem text_none_of_not_mem {guard : MemFileGuard Doc} {key : PathBuf.Key}
    (h : key ∉ guard.fileMap.keys) : guard.text key = none := by
  rw [HashMap.mem_keys] at h
  simpa [text] using h

theorem dropDir_evicted {guard : MemFileGuard Doc} (hguard : guard.WellFormed)
    (store : BlockingMemIo) (dir : Path .folder) :
    Evicted {key | key.startsWith dir.key} guard store (guard.dropDir store dir) := by
  refine (evictAll_evicted hguard store _).widen ?_ ?_
  · intro key hkey
    exact (List.mem_filter.mp hkey).2
  · intro key hkey hmem
    refine text_none_of_not_mem fun hkeys => hmem ?_
    exact List.mem_filter.mpr ⟨hkeys, hkey⟩

-- Dropping the guard makes the store the view.
theorem drop_lookup {guard : MemFileGuard Doc} (hguard : guard.WellFormed)
    (store : BlockingMemIo) : (guard.drop store).files.lookup = view guard store := by
  have hall := (evictAll_evicted hguard store guard.fileMap.keys).widen (Set.subset_univ _)
    fun key _ h => text_none_of_not_mem h
  funext key
  exact hall.lookup (Set.mem_univ key)

theorem contents_fromString [LawfulYrs Doc] (path : Path .file) (contents : Str) :
    (MemFile.fromString path contents : MemFile Doc).contents = contents := by
  have hnew : Yrs.getString (Yrs.new : Doc) = [] := LawfulYrs.getString_new
  by_cases h : contents = []
  · simp [MemFile.fromString, MemFile.contents, h, hnew]
  · have hstart : Utf8.Boundary (Yrs.getString (Yrs.new : Doc)) (0 : UInt32).toNat :=
      Utf8.boundary_byteLen_take _ 0
    have hinsert := LawfulYrs.getString_insert (Yrs.new : Doc) 0 contents hstart
    simp [MemFile.fromString, MemFile.contents, h, hinsert, hnew, Utf8.splice, Utf8.takeBytes,
      Utf8.dropBytes]

theorem fromFile_some {store : BlockingMemIo} {path : Path .file} {contents : Str}
    (h : store.files.lookup path.key = some contents) :
    (MemFile.fromFile path store : Except FileError (MemFile Doc)) =
      .ok (MemFile.fromString path contents) := by
  simp [MemFile.fromFile, FileIo.readFile, BlockingMemIo.readFile, h]

theorem fromFile_none {store : BlockingMemIo} {path : Path .file}
    (h : store.files.lookup path.key = none) :
    (MemFile.fromFile path store : Except FileError (MemFile Doc)) =
      .error (BlockingMemIo.fileNotFound path.fullPath) := by
  simp [MemFile.fromFile, FileIo.readFile, BlockingMemIo.readFile, h]

-- A loaded file: its buffer shows what the session saw, and still sees.
structure Loaded (guard : MemFileGuard Doc) (store : BlockingMemIo) (path : Path .file)
    (file : MemFile Doc) (after : MemFileGuard Doc) : Prop where
  wellFormed : after.WellFormed
  view : Session.view after store = Session.view guard store
  lookup : after.fileMap.lookup path.key = some file
  contents : Session.view guard store path.key = some file.contents

theorem getFile_cases [LawfulYrs Doc] {guard : MemFileGuard Doc} (hguard : guard.WellFormed)
    (store : BlockingMemIo) (path : Path .file) :
    (∃ file after, guard.getFile store path = (.ok file, after, store) ∧
      Loaded guard store path file after) ∨
    (view guard store path.key = none ∧ guard.getFile store path =
      (.error (BlockingMemIo.fileNotFound path.fullPath), guard, store)) := by
  unfold getFile
  cases hlookup : guard.fileMap.lookup path.key with
  | some file =>
      have htext := text_of_lookup hlookup
      exact .inl ⟨file, guard, rfl, hguard, rfl, hlookup, view_of_text htext store⟩
  | none =>
      have hview := view_of_text_none ((text_eq_none_iff guard _).mpr hlookup) store
      cases hstored : store.files.lookup path.key with
      | none =>
          refine .inr ⟨hview.trans hstored, ?_⟩
          simp [MemFile.fromFile, FileIo.readFile, BlockingMemIo.readFile, hstored]
      | some contents =>
          let file : MemFile Doc := MemFile.fromString path contents
          have hcontents : file.contents = contents := contents_fromString path contents
          refine .inl ⟨file, ⟨guard.fileMap.insert path.key file⟩, ?_, ?_⟩
          · simp [MemFile.fromFile, FileIo.readFile, BlockingMemIo.readFile, hstored, file]
          · refine ⟨wellFormed_insert hguard _ _ rfl rfl, ?_, ?_, ?_⟩
            · funext key
              simp only [view, Overlay.through, text_insert]
              split
              · next hkey =>
                subst hkey
                simp [(text_eq_none_iff guard _).mpr hlookup, hstored, hcontents]
              · rfl
            · simp
            · rw [hview, hstored, hcontents]

theorem WritesAt.lookup_ne {path : Path .file} {store after : BlockingMemIo}
    (h : WritesAt path store after) {key : PathBuf.Key} (hkey : key ≠ path.key) :
    after.files.lookup key = store.files.lookup key := by
  induction h with
  | refl => rfl
  | write data _ ih => rw [writeFile_eq, HashMap.lookup_insert, if_neg hkey, ih]

-- A buffer put back after edits changes the view at its own path only.
theorem view_putFile (guard : MemFileGuard Doc) {store after : BlockingMemIo}
    {path written : Path .file} (file : MemFile Doc) (hwrites : WritesAt written store after)
    (hpath : written.key = path.key) (key : PathBuf.Key) :
    view (guard.putFile path file) after key =
      if key = path.key then some file.contents else view guard store key := by
  unfold putFile view Overlay.through
  rw [text_insert]
  split
  · rfl
  · next hkey => rw [WritesAt.lookup_ne hwrites (hpath ▸ hkey)]

theorem save_eq (file : MemFile Doc) (store : BlockingMemIo) :
    file.save store = (.ok (), { file with opsSinceSave := 0 },
      ⟨store.files.insert file.path.key file.contents⟩) := rfl

-- A saved buffer stays, and the store holds what it shows.
structure Saved (guard : MemFileGuard Doc) (store : BlockingMemIo)
    (after : MemFileGuard Doc) (saved : BlockingMemIo) : Prop where
  wellFormed : after.WellFormed
  view : Session.view after saved = Session.view guard store
  settled : ∀ key, store.files.lookup key = Session.view guard store key →
    saved.files.lookup key = Session.view guard store key

theorem save_saved {guard : MemFileGuard Doc} (hguard : guard.WellFormed)
    (store : BlockingMemIo) {key : PathBuf.Key} {file : MemFile Doc}
    (hlookup : guard.fileMap.lookup key = some file) :
    let buffer := { file with opsSinceSave := 0 }
    let after := ⟨store.files.insert file.path.key file.contents⟩
    Saved guard store ⟨guard.fileMap.insert key buffer⟩ after ∧
      after.files.lookup key = view guard store key := by
  obtain ⟨hpath, hflush⟩ := hguard key file hlookup
  have htext := text_of_lookup hlookup
  have hseen := view_of_text htext store
  have hkept : ∀ other, text ⟨guard.fileMap.insert key { file with opsSinceSave := 0 }⟩ other =
      guard.text other := by
    intro other
    rw [text_insert]
    split
    · next heq => rw [heq, htext]; rfl
    · rfl
  refine ⟨⟨wellFormed_insert hguard _ _ hpath hflush, ?_, ?_⟩, ?_⟩
  · funext other
    simp only [view, Overlay.through, hkept, hpath, HashMap.lookup_insert]
    split
    · next heq => simp [heq, htext]
    · rfl
  · intro other hother
    rw [hpath, HashMap.lookup_insert]
    split
    · next heq => rw [heq, hseen]
    · exact hother
  · rw [hpath, hseen]
    simp

theorem saveAll_saved {guard : MemFileGuard Doc} (hguard : guard.WellFormed)
    (store : BlockingMemIo) (keys : List PathBuf.Key) :
    ∃ after saved, saveAll keys guard store = (.ok (), after, saved) ∧
      Saved guard store after saved ∧
      ∀ key ∈ keys, saved.files.lookup key = view guard store key := by
  induction keys generalizing guard store with
  | nil => exact ⟨guard, store, rfl, ⟨hguard, rfl, fun _ h => h⟩, by simp⟩
  | cons key keys ih =>
      cases hlookup : guard.fileMap.lookup key with
      | none =>
          obtain ⟨after, saved, heq, hsaved, hkeys⟩ := ih hguard store
          refine ⟨after, saved, by simp only [saveAll, hlookup, heq], hsaved, ?_⟩
          intro other hother
          rcases List.mem_cons.mp hother with rfl | hmem
          · have hnone := (text_eq_none_iff guard other).mpr hlookup
            exact hsaved.settled other (view_of_text_none hnone store).symm
          · exact hkeys other hmem
      | some file =>
          obtain ⟨hhead, hstored⟩ := save_saved hguard store hlookup
          obtain ⟨after, saved, heq, htail, hkeys⟩ := ih hhead.wellFormed
            ⟨store.files.insert file.path.key file.contents⟩
          have hsettled := htail.settled
          rw [hhead.view] at hsettled hkeys
          refine ⟨after, saved, by simp only [saveAll, hlookup, save_eq, heq], ?_, ?_⟩
          · exact ⟨htail.wellFormed, htail.view.trans hhead.view,
              fun other hother => hsettled other (hhead.settled other hother)⟩
          · intro other hother
            rcases List.mem_cons.mp hother with rfl | hmem
            · exact hsettled other hstored
            · exact hkeys other hmem

-- A snapshot leaves no edit that only a buffer holds.
theorem snapshot_saved {guard : MemFileGuard Doc} (hguard : guard.WellFormed)
    (store : BlockingMemIo) :
    ∃ after saved, guard.snapshot store = (.ok (), after, saved) ∧
      Saved guard store after saved ∧ saved.files.lookup = view guard store := by
  obtain ⟨after, saved, heq, hsaved, hkeys⟩ := saveAll_saved hguard store guard.fileMap.keys
  refine ⟨after, saved, heq, hsaved, ?_⟩
  funext key
  by_cases hmem : key ∈ guard.fileMap.keys
  · exact hkeys key hmem
  · exact hsaved.settled key (view_of_text_none (text_none_of_not_mem hmem) store).symm

end Saps.Files.Session
