import Saps.Files.DiskFolders.Simulation
import Saps.Lib.TreeCopy.Above.Theorems

-- When the copy of a folder on the disk ends and mirrors the folder.
namespace Saps.Files

open FileTree (CopyResult CopySteps LayersAlike copyAll spine wayFirst)

namespace Disk

-- The same disk, whose folders are listed in another order.
def listed (order : Order Location) (disk : Disk) : Disk :=
  { disk with tree := disk.tree.listed order }

theorem makeFolders_listed (order : Order Location) (disk : Disk) (here : Location)
    (components : Components) :
    (disk.listed order).makeFolders here components =
      ((disk.makeFolders here components).1, (disk.makeFolders here components).2.listed order) := by
  induction components generalizing disk here with
  | nil => rfl
  | cons component components ih =>
      cases component with
      | rootDir => exact ih disk []
      | curDir => exact ih disk here
      | parentDir => exact ih disk here.dropLast
      | normal name =>
          have hkind : (disk.listed order).tree.kind = disk.tree.kind := rfl
          unfold makeFolders
          rw [hkind]
          split
          · exact ih disk _
          · rfl
          · exact ih { disk with tree := disk.tree.put (here ++ [name]) .folder } _

theorem createDirAll_listed (order : Order Location) (disk : Disk) (path : PathBuf) :
    (disk.listed order).createDirAll path =
      ((disk.createDirAll path).1, (disk.createDirAll path).2.listed order) := by
  unfold createDirAll
  split
  · rfl
  · exact makeFolders_listed order disk disk.cwd path.components

theorem readDir_listed (order : Order Location) {disk : Disk} {path : PathBuf} {error : IoError}
    (h : disk.readDir path = .error error) : (disk.listed order).readDir path = .error error := by
  have hresolve : (disk.listed order).resolve path.text = disk.resolve path.text := rfl
  have hkind : (disk.listed order).tree.kind = disk.tree.kind := rfl
  unfold readDir at h ⊢
  rw [hresolve]
  cases hlocation : disk.resolve path.text with
  | error found =>
      rw [hlocation] at h
      exact h
  | ok location =>
      rw [hlocation] at h
      dsimp only at h ⊢
      rw [hkind]
      rcases hentry : disk.tree.kind location with _ | (_ | contents)
      · rw [hentry] at h
        exact h
      · rw [hentry] at h
        contradiction
      · rw [hentry] at h
        exact h

theorem Leads.listed {disk : Disk} {path : PathBuf} {location : Location}
    (h : disk.Leads path location) (order : Order Location) :
    (disk.listed order).Leads path location :=
  ⟨h.nul, h.walk, h.folder⟩

theorem Leads.unique {disk : Disk} {path : PathBuf} {location other : Location}
    (h : disk.Leads path location) (h' : disk.Leads path other) : location = other :=
  Except.ok.inj (h.walk.symm.trans h'.walk)

-- Every file of the source as it was is at its place, and no other file outside the target
-- has changed.
structure Mirrored (before after : Disk) (src : PathBuf) (target : Location) : Prop where
  copied : ∀ source rest value, before.Leads src source →
    before.tree.file (source ++ rest) = some value → after.tree.file (target ++ rest) = some value
  outside : ∀ location, ¬target <+: location → after.tree.file location = before.tree.file location

-- In whatever order the folders are listed, the copy ends, and where it succeeds it
-- mirrors the source.
structure CopyMirrors (disk : Disk) (src dst : PathBuf) : Prop where
  ends : ∀ order, ∃ fuel, BlockingDiskIo.copyDirAll fuel (disk.listed order) src dst ≠ none
  mirrored : ∀ order fuel after,
    BlockingDiskIo.copyDirAll fuel (disk.listed order) src dst = some (.ok (), after) →
      ∃ target, after.Leads dst target ∧ Mirrored disk after src target

-- When it does, told from where the two paths lead once the folders on `dst` are made.
-- Onto itself only empty files can be copied, and below itself a folder only if a file on
-- the way stops the copy. From below the copy is read from as it is made.
structure Clear (disk made : Disk) (src : PathBuf) (source target : Location) : Prop where
  self : source = target → disk.Leads src source →
    ∀ rest value, disk.tree.file (source ++ rest) = some value → value = []
  below : ∀ way, way ≠ [] → target = source ++ way →
    ∃ count, (disk.tree.file (target ++ spine way count)).isSome
  above : ∀ way, way ≠ [] → source = target ++ way → disk.Leads src source →
    LayersAlike made.tree target way

-- The folders on `dst` are made, and `src` can be listed.
structure Starts (disk made : Disk) (src dst : PathBuf) (source target : Location) : Prop where
  make : disk.createDirAll dst = (.ok (), made)
  nonempty : src.text ≠ []
  source : made.Leads src source
  target : made.Leads dst target

section Started

variable {disk made : Disk} {src dst : PathBuf} {source target : Location}
  (hsound : disk.Sound) (h : disk.Starts made src dst source target)

include hsound h

theorem Starts.extended : disk.Extended made :=
  (createDirAll_leads hsound h.make).1

theorem Starts.answers (order : Order Location) (fuel : Nat) :
    Answers (made.listed order) (copyAll [] fuel (made.tree.listed order) source target)
      (BlockingDiskIo.copyDirAll fuel (disk.listed order) src dst) := by
  have hmake : (disk.listed order).createDirAll dst = (.ok (), made.listed order) := by
    rw [createDirAll_listed, h.make]
  exact copyDirAll_answers hmake (h.extended hsound).sound.named (h.source.listed order)
    (h.target.listed order) h.nonempty fuel

theorem Starts.ends (order : Order Location) (fuel : Nat) :
    BlockingDiskIo.copyDirAll fuel (disk.listed order) src dst ≠ none ↔
      copyAll [] fuel (made.tree.listed order) source target ≠ .outOfFuel := by
  have hanswers := h.answers hsound order fuel
  generalize copyAll [] fuel (made.tree.listed order) source target = result at hanswers ⊢
  generalize BlockingDiskIo.copyDirAll fuel (disk.listed order) src dst = answer at hanswers ⊢
  cases hanswers with
  | outOfFuel => simp
  | failed error after => simp
  | done tree => simp

theorem Starts.done (order : Order Location) (fuel : Nat) (after : Disk) :
    BlockingDiskIo.copyDirAll fuel (disk.listed order) src dst = some (.ok (), after) ↔
      copyAll [] fuel (made.tree.listed order) source target = .done after.tree ∧
        after.cwd = disk.cwd := by
  have hcwd := (h.extended hsound).cwd
  have hanswers := h.answers hsound order fuel
  generalize copyAll [] fuel (made.tree.listed order) source target = result at hanswers ⊢
  generalize BlockingDiskIo.copyDirAll fuel (disk.listed order) src dst = answer at hanswers ⊢
  obtain ⟨tree, cwd⟩ := after
  cases hanswers with
  | outOfFuel => simp
  | failed error after => simp
  | done tree => simp [listed, hcwd, eq_comm]

theorem Starts.leads {order : Order Location} {fuel : Nat} {after : Disk}
    (hafter : BlockingDiskIo.copyDirAll fuel (disk.listed order) src dst = some (.ok (), after)) :
    CopySteps [] source target (made.tree.listed order) after.tree ∧ after.Leads dst target := by
  have hextended := h.extended hsound
  obtain ⟨hdone, hcwd⟩ := (h.done hsound order fuel after).mp hafter
  have hplaced : (made.tree.listed order).Placed target :=
    FileTree.placed_of_kind hextended.sound.rooted (by rw [h.target.folder]; rfl)
  have hsource : (made.tree.listed order).kind source = some .folder := h.source.folder
  have hsteps := FileTree.copyAll_steps fuel hsource hplaced hdone
  have hgrows : (made.listed order).tree.Grows after.tree := FileTree.grows_of_steps hsteps
  exact ⟨hsteps, (h.target.listed order).grows hgrows (hcwd.trans hextended.cwd.symm)⟩

-- What the copy of the tree needs to do for the copy on the disk to mirror the source.
theorem Starts.mirrors
    (hends : ∀ order, ∃ fuel, copyAll [] fuel (made.tree.listed order) source target ≠ .outOfFuel)
    (hcopied : disk.Leads src source → ∀ order fuel after,
      copyAll [] fuel (made.tree.listed order) source target = .done after → ∀ rest value,
        made.tree.file (source ++ rest) = some value → after.file (target ++ rest) = some value) :
    CopyMirrors disk src dst := by
  have hextended := h.extended hsound
  refine ⟨fun order => ?_, fun order fuel after hafter => ?_⟩
  · obtain ⟨fuel, hfuel⟩ := hends order
    exact ⟨fuel, (h.ends hsound order fuel).mpr hfuel⟩
  · obtain ⟨hdone, _⟩ := (h.done hsound order fuel after).mp hafter
    obtain ⟨hsteps, hleads⟩ := h.leads hsound hafter
    refine ⟨target, hleads, fun other rest value hother hfile => ?_, fun location houtside => ?_⟩
    · have hsame : other = source :=
        (hother.grows hextended.grows hextended.cwd).unique h.source
      rw [hsame, ← hextended.file] at hfile
      exact hcopied (hsame ▸ hother) order fuel after.tree hdone rest value hfile
    · have hkind : after.tree.kind location = made.tree.kind location :=
        FileTree.frame_of_steps hsteps houtside
      rw [← hextended.file]
      unfold FileTree.file
      rw [hkind]

theorem Starts.mirrors_self
    (hblank : disk.Leads src source → ∀ rest value, disk.tree.file (source ++ rest) = some value →
      value = [])
    (hself : source = target) : CopyMirrors disk src dst := by
  subst hself
  have hextended := h.extended hsound
  have hrooted := hextended.sound.rooted
  refine h.mirrors hsound (fun order => ?_) fun hleads order fuel after hdone rest value hfile => ?_
  · have hplaced : (made.tree.listed order).Placed source :=
      FileTree.placed_of_kind hrooted (by rw [h.source.folder]; rfl)
    exact FileTree.copyAll_ends (FileTree.level_self source) h.source.folder hplaced
  · have hblank (rest : Location) (value : Str)
        (hfile : (made.tree.listed order).file (source ++ rest) = some value) : value = [] := by
      rw [FileTree.file_listed, hextended.file] at hfile
      exact hblank hleads rest value hfile
    have hrooted : (made.tree.listed order).Rooted := hrooted
    have hsource : (made.tree.listed order).kind source = some .folder := h.source.folder
    have hcopies : FileTree.Copies [] source source (made.tree.listed order) :=
      (FileTree.copies_self_iff hrooted hsource).mpr hblank
    exact (hcopies.mirrored fuel after hdone).copied rest value hfile

theorem Starts.mirrors_below {way : Location} (hway : way ≠ []) (hbelow : target = source ++ way)
    {count : Nat} (hfile : (disk.tree.file (target ++ spine way count)).isSome) :
    CopyMirrors disk src dst := by
  subst hbelow
  have hextended := h.extended hsound
  rw [← hextended.file] at hfile
  have hcopies (order : Order Location) :
      FileTree.Copies [] source (source ++ way) (made.tree.listed order) :=
    FileTree.copies_below hway hextended.sound.rooted h.target.folder hfile
  exact h.mirrors hsound (fun order => (hcopies order).ends) fun _ order fuel after hdone rest value =>
    ((hcopies order).mirrored fuel after hdone).copied rest value

-- The same wherever the target is not below the source.
theorem Starts.mirrors_away (haway : ¬source <+: target)
    (hcopies : disk.Leads src source →
      ∀ order, FileTree.Copies [] source target (made.tree.listed order)) :
    CopyMirrors disk src dst := by
  have hextended := h.extended hsound
  refine h.mirrors hsound (fun order => ?_) fun hleads order fuel after hdone =>
    ((hcopies hleads order).mirrored fuel after hdone).copied
  have hplaced : (made.tree.listed order).Placed target :=
    FileTree.placed_of_kind hextended.sound.rooted (by rw [h.target.folder]; rfl)
  exact FileTree.copyAll_ends (FileTree.level_away haway) h.source.folder hplaced

theorem Starts.mirrors_beside (hbeside : Beside source target) : CopyMirrors disk src dst := by
  have hrooted := (h.extended hsound).sound.rooted
  refine h.mirrors_away hsound hbeside.below fun _ order => ?_
  have hrooted' : (made.tree.listed order).Rooted := hrooted
  exact FileTree.copies_beside hrooted' hbeside h.source.folder
    (FileTree.placed_of_kind hrooted' (by rw [FileTree.kind_listed, h.target.folder]; rfl))

theorem Starts.mirrors_above {way : Location} (hway : way ≠ []) (habove : source = target ++ way)
    (halike : disk.Leads src source → LayersAlike made.tree target way) :
    CopyMirrors disk src dst := by
  subst habove
  have hrooted := (h.extended hsound).sound.rooted
  refine h.mirrors_away hsound (FileTree.not_below_above hway) fun hleads => ?_
  exact (FileTree.copies_above_iff hrooted hway h.source.folder).mpr (halike hleads)

-- And the other way round: where the disk mirrors the source, the tree does.
theorem Starts.copies (hmirrors : CopyMirrors disk src dst) (hleads : disk.Leads src source)
    (order : Order Location) : FileTree.Copies [] source target (made.tree.listed order) := by
  have hextended := h.extended hsound
  refine ⟨?_, fun fuel after hdone => ?_⟩
  · obtain ⟨fuel, hfuel⟩ := hmirrors.ends order
    exact ⟨fuel, (h.ends hsound order fuel).mp hfuel⟩
  · have hafter := (h.done hsound order fuel ⟨after, disk.cwd⟩).mpr ⟨hdone, rfl⟩
    obtain ⟨target, htarget, hmirrored⟩ := hmirrors.mirrored _ fuel _ hafter
    obtain rfl := (h.leads hsound hafter).2.unique htarget
    refine ⟨fun rest value hfile => ?_, fun location houtside => ?_⟩
    · rw [FileTree.file_listed, hextended.file] at hfile
      exact hmirrored.copied source rest value hleads hfile
    · rw [FileTree.file_listed, hextended.file]
      exact hmirrored.outside location houtside

theorem Starts.blank_of_mirrors (hself : source = target) (hmirrors : CopyMirrors disk src dst)
    (hleads : disk.Leads src source) (rest : Location) (value : Str)
    (hfile : disk.tree.file (source ++ rest) = some value) : value = [] := by
  subst hself
  have hextended := h.extended hsound
  rw [← hextended.file] at hfile
  have hcopies := h.copies hsound hmirrors hleads made.tree.entries.order
  exact (FileTree.copies_self_iff hextended.sound.rooted h.source.folder).mp hcopies rest value hfile

theorem Starts.alike_of_mirrors {way : Location} (hway : way ≠ []) (habove : source = target ++ way)
    (hmirrors : CopyMirrors disk src dst) (hleads : disk.Leads src source) :
    LayersAlike made.tree target way := by
  subst habove
  have hrooted := (h.extended hsound).sound.rooted
  exact (FileTree.copies_above_iff hrooted hway h.source.folder).mp (h.copies hsound hmirrors hleads)

theorem Starts.file_of_mirrors {way : Location} (hway : way ≠ []) (hbelow : target = source ++ way)
    (hmirrors : CopyMirrors disk src dst) :
    ∃ count, (disk.tree.file (target ++ spine way count)).isSome := by
  subst hbelow
  have hextended := h.extended hsound
  by_contra hnone
  have hclear (count : Nat) : made.tree.file (source ++ way ++ spine way count) = none := by
    rw [hextended.file]
    simpa using not_exists.mp hnone count
  obtain ⟨fuel, hfuel⟩ := hmirrors.ends (wayFirst source way)
  exact (h.ends hsound (wayFirst source way) fuel).mp hfuel
    (FileTree.endless_below hway hextended.sound.rooted h.target.folder hclear fuel)

end Started

-- Where the copy does not get to start it fails.
theorem mirrors_of_fails {disk : Disk} {src dst : PathBuf}
    (h : ∀ order fuel, ∃ error after,
      BlockingDiskIo.copyDirAll (fuel + 1) (disk.listed order) src dst = some (.error error, after)) :
    CopyMirrors disk src dst := by
  refine ⟨fun order => ⟨1, ?_⟩, fun order fuel after hafter => ?_⟩
  · obtain ⟨error, after, hfails⟩ := h order 0
    rw [hfails]
    exact fun h => by cases h
  · cases fuel with
    | zero => cases hafter
    | succ fuel =>
        obtain ⟨error, other, hfails⟩ := h order fuel
        rw [hfails] at hafter
        cases (Prod.ext_iff.mp (Option.some.inj hafter)).1

theorem mirrors_or_starts {disk : Disk} (hsound : disk.Sound) (src dst : PathBuf) :
    CopyMirrors disk src dst ∨ ∃ made source target, disk.Starts made src dst source target := by
  cases hmake : disk.createDirAll dst with
  | mk answer made =>
      cases answer with
      | error error =>
          refine .inl (mirrors_of_fails fun order fuel => ?_)
          refine ⟨BlockingDiskIo.ioError dst error, made.listed order, ?_⟩
          rw [BlockingDiskIo.copyDirAll, createDirAll_listed, hmake]
      | ok _ =>
          obtain ⟨_, target, htarget⟩ := createDirAll_leads hsound hmake
          cases hread : made.readDir src with
          | ok names =>
              obtain ⟨hnonempty, source, hsource, _⟩ := readDir_ok.mp hread
              exact .inr ⟨made, source, target, hmake, hnonempty, hsource, htarget⟩
          | error error =>
              refine .inl (mirrors_of_fails fun order fuel => ?_)
              refine ⟨BlockingDiskIo.ioError src error, made.listed order, ?_⟩
              rw [BlockingDiskIo.copyDirAll, createDirAll_listed, hmake]
              dsimp only
              rw [readDir_listed order hread]

theorem Starts.unique {disk made other : Disk} {src dst : PathBuf}
    {source target source' target' : Location} (h : disk.Starts made src dst source target)
    (h' : disk.Starts other src dst source' target') :
    made = other ∧ source = source' ∧ target = target' := by
  have hsame := h.make.symm.trans h'.make
  obtain rfl : made = other := (Prod.ext_iff.mp hsame).2
  exact ⟨rfl, h.source.unique h'.source, h.target.unique h'.target⟩

-- One folder with one file.
def leaf : Disk where
  tree := (FileTree.empty.put [['a']] .folder).put [['a'], ['x']] (.file ['1'])
  cwd := []

theorem leaf_kind (location : Location) :
    leaf.tree.kind location =
      if location = [['a'], ['x']] then some (.file ['1'])
      else if location = [['a']] ∨ location = [] then some .folder else none := by
  unfold leaf
  rw [FileTree.kind_put _ (by simp), FileTree.kind_put _ (by simp)]
  by_cases hroot : location = []
  · simp [hroot]
  · simp [hroot, FileTree.kind, FileTree.empty]

theorem plainName_singleton {c : Char} (hdot : c ≠ '.') (hslash : c ≠ '/') (hnul : c ≠ nul) :
    PlainName [c] := by
  refine ⟨?_, by simp, by simpa using hslash.symm, by simpa using hnul.symm⟩
  unfold PathBuf.skipped
  simpa using hdot

theorem empty_sound : Sound ⟨.empty, []⟩ := by
  refine ⟨FileTree.rooted_empty, rfl, fun location hsome name hname => ?_⟩
  cases location with
  | nil => cases hname
  | cons first rest => cases hsome

theorem leaf_sound : leaf.Sound := by
  have hfolder := empty_sound.put [] ['a'] .folder rfl
    (plainName_singleton (by decide) (by decide) (by decide)) (by decide +kernel)
  exact hfolder.put [['a']] ['x'] (.file ['1']) rfl
    (plainName_singleton (by decide) (by decide) (by decide)) (by decide +kernel)

theorem leads_of {disk : Disk} {path : PathBuf} {location : Location} (hnul : nul ∉ path.text)
    (hwalk : disk.resolve path.text = .ok location) (hfolder : disk.tree.kind location = some .folder) :
    disk.Leads path location :=
  ⟨hnul, (resolve_ok.mp hwalk).2.2, hfolder⟩

def grown : Disk :=
  { leaf with tree := leaf.tree.put [['a'], ['b']] .folder }

theorem starts_inside : leaf.Starts grown ⟨"/a".toList⟩ ⟨"/a/b".toList⟩ [['a']] [['a'], ['b']] := by
  refine ⟨rfl, by decide, ?_, ?_⟩
  · exact leads_of (by decide +kernel) (by decide +kernel) (by decide +kernel)
  · exact leads_of (by decide +kernel) (by decide +kernel) (by decide +kernel)

theorem starts_self : leaf.Starts leaf ⟨"/a".toList⟩ ⟨"/a".toList⟩ [['a']] [['a']] := by
  refine ⟨rfl, by decide, ?_, ?_⟩
  · exact leads_of (by decide +kernel) (by decide +kernel) (by decide +kernel)
  · exact leads_of (by decide +kernel) (by decide +kernel) (by decide +kernel)

theorem grown_clear (count : Nat) :
    (leaf.tree.file ([['a'], ['b']] ++ spine [['b']] count)) = none := by
  unfold FileTree.file
  rw [leaf_kind, if_neg (by simp)]
  split
  · rfl
  · rfl

-- A folder with one file, and a file two folders further down.
def deep : Disk where
  tree := ((leaf.tree.put [['a'], ['a']] .folder).put [['a'], ['a'], ['a']] .folder).put
    [['a'], ['a'], ['a'], ['x']] (.file ['2'])
  cwd := []

theorem deep_sound : deep.Sound := by
  have hname : PlainName ['a'] := plainName_singleton (by decide) (by decide) (by decide)
  have hfirst := leaf_sound.put [['a']] ['a'] .folder rfl hname (by decide +kernel)
  have hsecond := hfirst.put [['a'], ['a']] ['a'] .folder rfl hname (by decide +kernel)
  exact hsecond.put [['a'], ['a'], ['a']] ['x'] (.file ['2']) rfl
    (plainName_singleton (by decide) (by decide) (by decide)) (by decide +kernel)

theorem deep_file {location : Location} {value : Str} (h : deep.tree.file location = some value) :
    location = [['a'], ['x']] ∧ value = ['1'] ∨
      location = [['a'], ['a'], ['a'], ['x']] ∧ value = ['2'] := by
  unfold deep at h
  rw [FileTree.file_put _ (by simp), FileTree.file_put _ (by simp), FileTree.file_put _ (by simp)]
    at h
  by_cases hlast : location = [['a'], ['a'], ['a'], ['x']]
  · rw [if_pos hlast] at h
    exact .inr ⟨hlast, (Option.some.inj h).symm⟩
  · rw [if_neg hlast] at h
    split at h
    · cases h
    · split at h
      · cases h
      · rw [FileTree.file, leaf_kind] at h
        split at h
        · next hfirst => exact .inl ⟨hfirst, (Option.some.inj h).symm⟩
        · split at h
          · cases h
          · cases h

theorem starts_above : deep.Starts deep ⟨"/a".toList⟩ ⟨"/".toList⟩ [['a']] [] := by
  refine ⟨rfl, by decide, ?_, ?_⟩
  · exact leads_of (by decide +kernel) (by decide +kernel) (by decide +kernel)
  · exact leads_of (by decide +kernel) (by decide +kernel) (by decide +kernel)

-- The place between the two files is free when it is listed, so the lower one goes no
-- further up.
theorem deep_alike : LayersAlike deep.tree [] [['a']] := by
  intro _ top count hreached rest value found hvalue hfound
  rcases deep_file hvalue with ⟨hlow, rfl⟩ | ⟨hlow, rfl⟩
  · rcases deep_file hfound with ⟨_, rfl⟩ | ⟨hhigh, _⟩
    · rfl
    · have hplace : top ++ rest = [['x']] := by simpa [FileTree.lower, FileTree.further] using hlow
      have hlength := congrArg List.length hhigh
      have hshort := congrArg List.length hplace
      simp [FileTree.lower, FileTree.further_length] at hlength hshort
      obtain ⟨path, name, rfl, _⟩ := hreached.leaves
      rw [List.length_append, List.length_singleton] at hlength hshort
      obtain rfl : rest = [] := List.length_eq_zero_iff.mp (by omega)
      have htop : path ++ [name] = [['x']] := by rwa [List.append_nil] at hplace
      have hsome := hreached.listed 2 (by omega) (by omega)
      rw [htop] at hsome
      exact absurd hsome (by decide +kernel)
  · rcases deep_file hfound with ⟨hhigh, _⟩ | ⟨_, rfl⟩
    · have hlength := congrArg List.length hlow
      have hshort := congrArg List.length hhigh
      simp [FileTree.lower, FileTree.further_length] at hlength hshort
      omega
    · rfl

end Disk

end Saps.Files
