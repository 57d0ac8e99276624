import Saps.Files.Backends.Folders

-- Folders that move, and folders that are copied.
namespace Saps.Files

namespace Disk

variable {disk : Disk} {source target : Location}

theorem renameFolder_ok (hbeside : Beside source target) (hvacant : disk.tree.Vacant target) :
    disk.renameFolder source target =
      (.ok (), { disk with tree := disk.tree.relocate source target }) := by
  have hne : source ≠ target := fun heq => hbeside.below (heq ▸ List.prefix_refl _)
  have hempty : ¬(disk.tree.entries.keys.any fun location =>
      location ≠ target ∧ target.isPrefixOf location) = true := by
    intro hany
    obtain ⟨location, hkey, hbelow⟩ := List.any_eq_true.mp hany
    obtain ⟨hother, hprefix⟩ := of_decide_eq_true hbelow
    obtain ⟨rest, rfl⟩ := List.isPrefixOf_iff_prefix.mp hprefix
    have hrest : rest ≠ [] := by
      rintro rfl
      exact hother (List.append_nil _)
    have hsome := (HashMap.mem_keys _ _).mp hkey
    rw [FileTree.lookup_of_ne_root (List.append_ne_nil_of_right_ne_nil _ hrest),
      hvacant.below rest hrest] at hsome
    contradiction
  unfold renameFolder
  rw [disk.tree.under_eq fun _ => List.isPrefixOf_iff_prefix, if_neg hne,
    if_neg fun hprefix => hbeside.below (List.isPrefixOf_iff_prefix.mp hprefix)]
  rcases hkind : disk.tree.kind target with _ | (_ | contents)
  · rfl
  · exact if_neg hempty
  · have hnone := hvacant.file
    rw [FileTree.file_eq_some.mpr hkind] at hnone
    contradiction

-- A folder that moved to a free place leaves a sound disk behind.
theorem Sound.relocate (h : disk.Sound) (hbeside : Beside source target)
    (hvacant : disk.tree.Vacant target) (hfolder : disk.tree.kind source = some .folder)
    (hplain : ∀ name ∈ target, PlainName name)
    (hplaced : ∀ front last, target = front ++ [last] → disk.tree.kind front = some .folder)
    (hsource : ¬source <+: disk.cwd) (htarget : ¬target <+: disk.cwd) :
    Sound { disk with tree := disk.tree.relocate source target } := by
  have hkind := FileTree.kind_relocate disk.tree hbeside
  refine ⟨h.rooted.relocate hbeside hfolder hvacant hplaced, ?_, ?_⟩
  · refine (hkind disk.cwd).trans ?_
    unfold HashMap.carried
    rw [if_neg htarget, if_neg fun hboth => hsource hboth.2]
    exact h.cwd
  · intro location hsome
    rw [hkind] at hsome
    unfold HashMap.carried at hsome
    split at hsome
    · next hunder =>
      obtain ⟨rest, rfl⟩ := hunder
      rw [List.drop_left, Option.isSome_or, Bool.or_eq_true] at hsome
      intro name hname
      rcases List.mem_append.mp hname with hname | hname
      · exact hplain name hname
      · rcases hsome with hsome | hsome
        · exact h.named _ hsome name (List.mem_append_right _ hname)
        · exact h.named _ hsome name (List.mem_append_right _ hname)
    · split at hsome
      · contradiction
      · exact h.named location hsome

section Made

variable {made : Disk} {names : List Str}
  (h : Made disk disk.cwd names made) (hbeside : Beside source (disk.cwd ++ names))

include h hbeside

-- Away from the way to them, what is made is not new.
theorem Made.folder_apart (rest : Location)
    (hfolder : made.tree.kind (source ++ rest) = some .folder) :
    disk.tree.kind (source ++ rest) = some .folder := by
  rcases h.inner _ hfolder with hold | ⟨front, hfront, heq⟩
  · exact hold
  · obtain ⟨back, rfl⟩ := hfront
    refine absurd ?_ (hbeside.ne (rest ++ back) [])
    rw [List.append_nil, ← List.append_assoc, heq, List.append_assoc]

theorem Made.mergeable (hfolder : disk.tree.kind source = some .folder)
    (hmerge : disk.tree.Mergeable source (disk.cwd ++ names)) :
    made.tree.Mergeable source (disk.cwd ++ names) := by
  constructor
  · intro rest hrest
    rw [h.file]
    exact hmerge.folder rest (h.folder_apart hbeside rest hrest)
  · intro rest hfile hkind
    rw [h.file] at hfile
    rcases h.inner _ hkind with hold | ⟨front, hfront, heq⟩
    · exact hmerge.file rest hfile hold
    · -- It is on the way only if it is where the way ends, where the source is no file.
      have hlength := hfront.length_le
      rw [List.append_assoc] at heq
      rw [← List.append_cancel_left heq, List.length_append] at hlength
      have hrest : rest = [] := List.eq_nil_of_length_eq_zero (by omega)
      rw [hrest, List.append_nil, FileTree.file, hfolder] at hfile
      contradiction

end Made

end Disk

namespace Backends

open Interchange (keyAt keyAt_inj)
open FlatEngines (done newKey)
open FileTree (copyAll)

theorem newKey_keyAt (source target rest : List Str) :
    newKey (keyAt source) (keyAt target) (keyAt (source ++ rest)) = keyAt (target ++ rest) := by
  have hprefix : (keyAt (source ++ rest)).startsWith (keyAt source) = true :=
    (keyAt_startsWith _ _).mpr (List.prefix_append _ _)
  have hstrip : (keyAt (source ++ rest)).stripPrefix (keyAt source) = some (keyAt rest) := by
    unfold PathBuf.Key.stripPrefix
    rw [if_pos hprefix]
    refine congrArg some (PathBuf.Key.ext ?_)
    change ((source ++ rest).map Component.normal).drop (source.map Component.normal).length = _
    rw [List.map_append, List.drop_left]
    rfl
  unfold newKey
  rw [hstrip]
  refine PathBuf.Key.ext ((BlockingDiskIo.join_inner _ fun component hmem => ?_).trans ?_)
  · obtain ⟨name, _, rfl⟩ := List.mem_map.mp hmem
    simp
  · exact (List.map_append ..).symm

section Folders

variable {disk : Disk} {mem : BlockingMemIo} (h : Mirror disk mem) {source target : Path .folder}
  (hsource : source.fullPath.Relative) (htarget : target.fullPath.Relative)

include h hsource htarget

theorem Mirror.carries : HashMap.Carries keyAt source.fullPath.nameSegments
    target.fullPath.nameSegments (newKey source.key target.key) (mem.keysUnder source)
    mem.files := by
  refine ⟨fun key => ?_, fun rest => ?_⟩
  · rw [h.mem_keysUnder hsource]
    constructor
    · rintro ⟨rest, rfl, hsome⟩
      refine ⟨?_, rest, rfl⟩
      rw [h.files, ← List.append_assoc]
      exact hsome
    · rintro ⟨hsome, rest, rfl⟩
      rw [h.files, ← List.append_assoc] at hsome
      exact ⟨rest, rfl, hsome⟩
  · rw [key_relative hsource, key_relative htarget]
    exact newKey_keyAt _ _ rest

-- The files of a folder have come to a place beside it, on the disk and in the map.
theorem Mirror.carried {keep : Prop} [Decidable keep] {after : HashMap PathBuf.Key Str}
    {disk' : Disk} (hbeside : Beside (disk.located source.fullPath) (disk.located target.fullPath))
    (hmoved : HashMap.Moved keep (newKey source.key target.key) (mem.keysUnder source)
      mem.files after)
    (hsound : disk'.Sound) (hcwd : disk'.cwd = disk.cwd)
    (hfile : ∀ location, disk'.tree.file location =
      HashMap.carried keep (disk.located source.fullPath) (disk.located target.fullPath)
        disk.tree.file location) : Mirror disk' ⟨after⟩ := by
  have hcarries := h.carries hsource htarget
  refine ⟨hsound, fun names => ?_, fun key hsome => ?_⟩
  · rw [hcwd, hfile]
    refine Eq.trans ?_ (HashMap.carried_append keep disk.cwd _ _ _ names).symm
    rw [hcarries.lookup_carried (fun _ _ => keyAt_inj) hbeside.of_append hmoved]
    simp only [h.files]
  · obtain ⟨value, hvalue⟩ := Option.isSome_iff_exists.mp hsome
    rcases (hmoved key value).mp hvalue with ⟨old, hold, rfl, _⟩ | ⟨_, _, hkept⟩
    · obtain ⟨_, rest, rfl⟩ := (hcarries.keys old).mp hold
      exact ⟨_, hcarries.new rest⟩
    · exact h.keyed key (by rw [hkept]; rfl)

theorem Mirror.apart
    (hbeside : Beside (disk.located source.fullPath) (disk.located target.fullPath)) :
    HashMap.Apart (newKey source.key target.key) (mem.keysUnder source) :=
  (h.carries hsource htarget).apart (fun _ _ => keyAt_inj) hbeside.of_append

-- A folder that moves to where it is stays as it is.
theorem Mirror.lookup_moved_self
    (hself : disk.located source.fullPath = disk.located target.fullPath) :
    ((mem.keysUnder source).foldl (BlockingMemIo.moveKey source.key target.key)
      mem.files).lookup = mem.files.lookup := by
  have hcarries := h.carries hsource htarget
  have hnames : source.fullPath.nameSegments = target.fullPath.nameSegments :=
    List.append_cancel_left hself
  have hfixed : ∀ key ∈ mem.keysUnder source, newKey source.key target.key key = key := by
    intro key hkey
    obtain ⟨_, rest, rfl⟩ := (hcarries.keys key).mp hkey
    rw [hcarries.new, hnames]
  have hapart : HashMap.Apart (newKey source.key target.key) (mem.keysUnder source) := by
    constructor
    · intro left hleft right hright heq
      rwa [hfixed left hleft, hfixed right hright] at heq
    · intro left hleft right _ heq
      rwa [hfixed left hleft] at heq
  funext key
  exact (FlatEngines.foldl_moveKey mem source target hapart).lookup_fixed hfixed key

theorem Mirror.moved (hempty : source.fullPath.text ≠ []) (husable : target.fullPath.Usable)
    (hparent : disk.tree.kind (disk.parentOf target.fullPath) = some .folder)
    (hfolder : disk.tree.kind (disk.located source.fullPath) = some .folder)
    (hbeside : Beside (disk.located source.fullPath) (disk.located target.fullPath))
    (hvacant : disk.tree.Vacant (disk.located target.fullPath)) :
    Mirror { disk with tree :=
        disk.tree.relocate (disk.located source.fullPath) (disk.located target.fullPath) }
      ⟨(mem.keysUnder source).foldl (BlockingMemIo.moveKey source.key target.key) mem.files⟩ := by
  have hmoved := FlatEngines.foldl_moveKey mem source target (h.apart hsource htarget hbeside)
  have hplaced (front : Location) (last : Str)
      (heq : disk.located target.fullPath = front ++ [last]) :
      disk.tree.kind front = some .folder := by
    obtain ⟨name, hname⟩ := Disk.located_usable disk husable
    obtain ⟨rfl, _⟩ := List.append_inj' (heq.symm.trans hname) rfl
    exact hparent
  have hsound := h.sound.relocate hbeside hvacant hfolder
    (h.sound.plain_located htarget husable.1) hplaced (Disk.not_prefix_cwd hsource hempty)
    (Disk.not_prefix_cwd htarget husable.text_ne_nil)
  exact h.carried hsource htarget hbeside hmoved hsound rfl
    (FileTree.file_relocate hbeside hvacant)

theorem Mirror.moveFolder (hempty : source.fullPath.text ≠ [])
    (hfilled : Filled disk source.fullPath) (hdot : Disk.lastSegment source.fullPath ≠ some ['.'])
    (hfits : disk.tree.kind (disk.located source.fullPath) = some .folder →
      target.fullPath.Usable ∧
        disk.tree.kind (disk.parentOf target.fullPath) = some .folder ∧
        (disk.located source.fullPath = disk.located target.fullPath ∨
          Beside (disk.located source.fullPath) (disk.located target.fullPath) ∧
            disk.tree.Vacant (disk.located target.fullPath))) :
    Alike (done (BlockingDiskIo.moveFolder disk source target).1)
        (done (mem.moveFolder source target).1) ∧
      Mirror (BlockingDiskIo.moveFolder disk source target).2 (mem.moveFolder source target).2 := by
  have hkeys := h.keysUnder_iff hsource hfilled
  unfold BlockingDiskIo.moveFolder BlockingDiskIo.tagged BlockingMemIo.moveFolder
  by_cases hfolder : disk.tree.kind (disk.located source.fullPath) = some .folder
  · obtain ⟨husable, hparent, hplace⟩ := hfits hfolder
    have hrename : disk.rename source.fullPath target.fullPath =
        disk.renameFolder (disk.located source.fullPath) (disk.located target.fullPath) := by
      have hold := Disk.resolve_folder h.sound hsource hempty hfolder
      have hnew := (Disk.resolve_usable htarget h.sound.rooted husable).mpr hparent
      exact Disk.rename_folder (Disk.entry_of_resolve hold) (Disk.entry_of_resolve hnew)
        ⟨Disk.movable_of_relative hsource hempty hdot, Disk.movable_of_usable htarget husable⟩
        hfolder
    rw [hrename]
    dsimp only
    rw [if_neg (hkeys.mpr hfolder)]
    rcases hplace with hself | ⟨hbeside, hvacant⟩
    · have hstays : disk.renameFolder (disk.located source.fullPath)
          (disk.located target.fullPath) = (.ok (), disk) := by
        unfold Disk.renameFolder
        exact if_pos hself
      rw [hstays]
      exact ⟨rfl, h.of_lookup (h.lookup_moved_self hsource htarget hself)⟩
    · rw [Disk.renameFolder_ok hbeside hvacant]
      exact ⟨rfl, h.moved hsource htarget hempty husable hparent hfolder hbeside hvacant⟩
  · obtain ⟨error, herror⟩ := Disk.rename_error hsource (fun contents hheld => by
      have hnone := hfilled.file
      rw [hheld.2] at hnone
      contradiction) (fun _ => hfolder) target.fullPath
    rw [herror]
    dsimp only
    rw [if_pos (not_not.mp fun hne => hfolder (hkeys.mp hne))]
    exact ⟨trivial, h⟩

-- What a copy that has been done leaves behind.
theorem Mirror.copied {made : Disk} {tree : FileTree Str Str} {order : Order Location} {fuel : Nat}
    (hextended : disk.Extended made)
    (hstarts : disk.Starts made source.fullPath target.fullPath (disk.located source.fullPath)
      (disk.located target.fullPath))
    (hnul : Disk.nul ∉ target.fullPath.text)
    (hbeside : Beside (disk.located source.fullPath) (disk.located target.fullPath))
    (hdone : copyAll [] fuel (made.tree.listed order) (disk.located source.fullPath)
      (disk.located target.fullPath) = .done tree) :
    Mirror { made.listed order with tree }
      ⟨(mem.keysUnder source).foldl (BlockingMemIo.copyKey source.key target.key) mem.files⟩ := by
  have hrooted : (made.tree.listed order).Rooted := hextended.sound.rooted
  have hnamed : Disk.Named (made.tree.listed order) := hextended.sound.named
  have hsourced : (made.tree.listed order).kind (disk.located source.fullPath) = some .folder :=
    hstarts.source.folder
  have hplaced : (made.tree.listed order).Placed (disk.located target.fullPath) :=
    FileTree.placed_of_kind hrooted (by
      change (made.tree.kind _).isSome
      rw [hstarts.target.folder]
      rfl)
  have hsteps := FileTree.copyAll_steps fuel hsourced hplaced hdone
  have hgrows := FileTree.grows_of_steps hsteps
  have hmoved := FlatEngines.foldl_copyKey mem source target (h.apart hsource htarget hbeside)
  have hsound : Disk.Sound { made.listed order with tree } :=
    ⟨FileTree.rooted_of_steps hrooted hsteps, hgrows.folder _ hextended.sound.cwd,
      Disk.named_of_steps hnamed (h.sound.plain_located htarget hnul) hsteps⟩
  refine h.carried hsource htarget hbeside hmoved hsound hextended.cwd fun location => ?_
  have hfile := FileTree.file_copyAll hrooted hbeside hsourced hplaced hdone location
  rw [FileTree.file_listed, hextended.file] at hfile
  exact hfile

-- A folder with files is copied, whatever is there already, where the two can be merged.
theorem Mirror.copies {made : Disk} (hextended : disk.Extended made)
    (hstarts : disk.Starts made source.fullPath target.fullPath (disk.located source.fullPath)
      (disk.located target.fullPath))
    (hnul : Disk.nul ∉ target.fullPath.text)
    (hbeside : Beside (disk.located source.fullPath) (disk.located target.fullPath))
    (hmerge : made.tree.Mergeable (disk.located source.fullPath) (disk.located target.fullPath))
    (hkeys : mem.keysUnder source ≠ []) : Agrees disk mem (.copyFolder source target) := by
  let order := disk.tree.entries.order
  have hcall (fuel : Nat) : diskCall fuel disk (.copyFolder source target) =
      (BlockingDiskIo.copyDirAll fuel (disk.listed order) source.fullPath target.fullPath).map
        fun answer => answer.map done id := rfl
  have hsourced : (made.tree.listed order).kind (disk.located source.fullPath) = some .folder :=
    hstarts.source.folder
  have htargeted : (made.tree.listed order).kind (disk.located target.fullPath) = some .folder :=
    hstarts.target.folder
  have hplaced : (made.tree.listed order).Placed (disk.located target.fullPath) :=
    FileTree.placed_of_kind hextended.sound.rooted (htargeted ▸ rfl)
  constructor
  · obtain ⟨fuel, hfuel⟩ := FileTree.copyAll_ends (FileTree.level_away hbeside.below) hsourced
      hplaced
    refine ⟨fuel, ?_⟩
    rw [hcall, ne_eq, Option.map_eq_none_iff]
    exact (hstarts.ends h.sound order fuel).mpr hfuel
  · intro fuel answer hanswer
    rw [hcall] at hanswer
    obtain ⟨result, hresult, rfl⟩ := Option.map_eq_some_iff.mp hanswer
    have hanswers := hstarts.answers h.sound order fuel
    rw [hresult] at hanswers
    cases hcopy : copyAll [] fuel (made.tree.listed order) (disk.located source.fullPath)
        (disk.located target.fullPath) with
    | outOfFuel =>
        rw [hcopy] at hanswers
        cases hanswers
    | failed =>
        have hmerge : (made.tree.listed order).Mergeable (disk.located source.fullPath)
            (disk.located target.fullPath) := ⟨hmerge.folder, hmerge.file⟩
        exact absurd hcopy (FileTree.copyAll_beside fuel hbeside hsourced hplaced hmerge)
    | done tree =>
        rw [hcopy] at hanswers
        cases hanswers
        have hcopied : mem.copyFolder source target = (.ok (), ⟨(mem.keysUnder source).foldl
            (BlockingMemIo.copyKey source.key target.key) mem.files⟩) := if_neg hkeys
        unfold FlatEngines.memCall
        dsimp only
        rw [hcopied]
        exact ⟨rfl, h.copied hsource htarget hextended hstarts hnul hbeside hcopy⟩

omit htarget in
-- Nothing is copied from where no folder is.
theorem Mirror.copies_nothing {made : Disk} (hextended : disk.Extended made)
    (hmake : disk.createDirAll target.fullPath = (.ok (), made))
    (hmissing : made.tree.kind (disk.located source.fullPath) ≠ some .folder)
    (hkeys : mem.keysUnder source = []) : Agrees disk mem (.copyFolder source target) := by
  obtain ⟨error, hread⟩ : ∃ error, made.readDir source.fullPath = .error error := by
    cases hread : made.readDir source.fullPath with
    | error error => exact ⟨error, rfl⟩
    | ok names =>
        obtain ⟨htext, location, hleads, _⟩ := Disk.readDir_ok.mp hread
        have hwhere := Disk.resolve_located hsource
          (Disk.resolve_ok.mpr ⟨hleads.nul, htext, hleads.walk⟩)
        have hfolder := hleads.folder
        unfold Disk.located at hwhere
        rw [hwhere, hextended.cwd] at hfolder
        exact absurd hfolder hmissing
  have hcopy (fuel : Nat) : BlockingDiskIo.copyFolder (fuel + 1) disk source target =
      some (.error (BlockingDiskIo.ioError source.fullPath error), made) := by
    unfold BlockingDiskIo.copyFolder
    rw [BlockingDiskIo.copyDirAll, hmake]
    dsimp only
    rw [hread]
  refine ⟨⟨1, ?_⟩, fun fuel answer hanswer => ?_⟩
  · rw [diskCall, hcopy 0]
    exact Option.some_ne_none _
  · cases fuel with
    | zero => cases hanswer
    | succ fuel =>
        rw [diskCall, hcopy fuel] at hanswer
        obtain rfl := Option.some.inj hanswer
        have hcall : mem.copyFolder source target =
            (.error (BlockingMemIo.folderNotFound source.fullPath), mem) := if_pos hkeys
        unfold FlatEngines.memCall
        dsimp only
        rw [hcall]
        exact ⟨trivial, h.extended hextended⟩

theorem Mirror.copyFolder (hempty : source.fullPath.text ≠ [])
    (hfilled : Filled disk source.fullPath) (hnul : Disk.nul ∉ target.fullPath.text)
    (hpassable : Passable disk target.fullPath.nameSegments)
    (hbeside : Beside (disk.located source.fullPath) (disk.located target.fullPath))
    (hfits : disk.tree.kind (disk.located source.fullPath) = some .folder →
      disk.tree.Mergeable (disk.located source.fullPath) (disk.located target.fullPath)) :
    Agrees disk mem (.copyFolder source target) := by
  obtain ⟨made, hmake, hextended, hmade⟩ := Disk.createDirAll_ok h.sound htarget hnul hpassable
  have hkeys := h.keysUnder_iff hsource hfilled
  by_cases hfolder : disk.tree.kind (disk.located source.fullPath) = some .folder
  · have hplace : made.located target.fullPath = disk.located target.fullPath := by
      unfold Disk.located
      rw [hextended.cwd]
    have hfrom := Disk.leads_located h.sound hsource hfolder
    have hto := Disk.leads_located hextended.sound htarget (hplace ▸ hmade.folder)
    rw [hplace] at hto
    exact h.copies hsource htarget hextended
      ⟨hmake, hempty, hfrom.grows hextended.grows hextended.cwd, hto⟩ hnul hbeside
      (hmade.mergeable hbeside hfolder (hfits hfolder)) (hkeys.mpr hfolder)
  · refine h.copies_nothing hsource hextended hmake (fun hkind => hfolder ?_)
      (not_not.mp fun hne => hfolder (hkeys.mp hne))
    rw [← List.append_nil (disk.located source.fullPath)] at hkind ⊢
    exact hmade.folder_apart hbeside [] hkind

end Folders

end Backends

end Saps.Files
