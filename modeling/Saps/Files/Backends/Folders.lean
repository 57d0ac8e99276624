import Saps.Files.Backends.Listings
import Saps.Files.FlatEngines.Theorems

-- The folder operations, which keep what the two engines have in common.
namespace Saps.Files

namespace Disk

variable {disk : Disk} {path : PathBuf}

theorem createDirAll_ok (h : disk.Sound) (hrelative : path.Relative) (hnul : nul ∉ path.text)
    (hpassable : Backends.Passable disk path.nameSegments) :
    ∃ made, disk.createDirAll path = (.ok (), made) ∧ disk.Extended made ∧
      Made disk disk.cwd path.nameSegments made := by
  obtain ⟨made, hmake, hmade⟩ := makeFolders_ok h.rooted h.cwd hpassable
  rw [← hrelative.components_eq] at hmake
  have hcreate : disk.createDirAll path = (.ok (), made) := by
    unfold createDirAll
    rw [if_neg hnul]
    exact hmake
  exact ⟨made, hcreate, (createDirAll_leads h hcreate).1, hmade⟩

theorem located_ne_root (disk : Disk) (hrelative : path.Relative) (htext : path.text ≠ []) :
    disk.located path ≠ [] :=
  List.append_ne_nil_of_right_ne_nil _ (hrelative.names_ne_nil htext)

theorem not_prefix_cwd (hrelative : path.Relative) (htext : path.text ≠ []) :
    ¬disk.located path <+: disk.cwd := by
  intro hprefix
  have hlength := hprefix.length_le
  have hpos := List.length_pos_of_ne_nil (hrelative.names_ne_nil htext)
  unfold located at hlength
  rw [List.length_append] at hlength
  omega

section Delete

variable (h : disk.Sound) (hrelative : path.Relative) (htext : path.text ≠ [])

include hrelative htext

theorem Sound.prune (h : disk.Sound) :
    Sound { disk with tree := disk.tree.prune (disk.located path) } := by
  have hne := located_ne_root disk hrelative htext
  have hkind := FileTree.kind_prune disk.tree hne
  refine ⟨h.rooted.prune hne, ?_, fun location hsome name hname => ?_⟩
  · refine (hkind disk.cwd).trans ?_
    rw [if_neg (not_prefix_cwd hrelative htext)]
    exact h.cwd
  · rw [hkind] at hsome
    split at hsome
    · contradiction
    · exact h.named location hsome name hname

include h

theorem removeDirAll_ok (hdot : lastSegment path ≠ some ['.'])
    (hfolder : disk.tree.kind (disk.located path) = some .folder) :
    disk.removeDirAll path =
      (.ok (), { disk with tree := disk.tree.prune (disk.located path) }) := by
  obtain ⟨name, hlast, hcur, hup⟩ := lastSegment_name hrelative htext hdot
  unfold removeDirAll
  rw [resolve_folder h hrelative htext hfolder]
  dsimp only
  rw [hfolder, hlast]
  dsimp only
  split
  · next heq => cases heq
  · next heq => exact absurd (Option.some.inj heq) hcur
  · next heq => exact absurd (Option.some.inj heq) hup
  · rfl

omit h htext in
theorem removeDirAll_error (hnone : disk.tree.kind (disk.located path) = none) :
    ∃ error, disk.removeDirAll path = (.error error, disk) := by
  unfold removeDirAll
  split
  · exact ⟨_, rfl⟩
  · next location hresolve =>
    rw [resolve_located hrelative hresolve, hnone]
    exact ⟨_, rfl⟩

end Delete

end Disk

namespace Backends

open Interchange (keyAt)
open FlatEngines (done)

variable {disk : Disk} {mem : BlockingMemIo} (h : Mirror disk mem) {path : Path .folder}
  (hrelative : path.fullPath.Relative)

theorem Filled.kind_none (hfilled : Filled disk path.fullPath)
    (hfolder : disk.tree.kind (disk.located path.fullPath) ≠ some .folder) :
    disk.tree.kind (disk.located path.fullPath) = none := by
  rcases hkind : disk.tree.kind (disk.located path.fullPath) with _ | (_ | contents)
  · rfl
  · exact absurd hkind hfolder
  · have hnone := hfilled.file
    rw [FileTree.file_eq_some.mpr hkind] at hnone
    contradiction

include h hrelative

theorem Mirror.createFolder (hnul : Disk.nul ∉ path.fullPath.text)
    (hpassable : Passable disk path.fullPath.nameSegments) :
    Alike (done (BlockingDiskIo.createFolder disk path).1) (done (mem.createFolder path).1) ∧
      Mirror (BlockingDiskIo.createFolder disk path).2 (mem.createFolder path).2 := by
  obtain ⟨made, hmake, hextended, _⟩ := Disk.createDirAll_ok h.sound hrelative hnul hpassable
  unfold BlockingDiskIo.createFolder BlockingDiskIo.tagged
  rw [hmake]
  exact ⟨rfl, h.extended hextended⟩

theorem Mirror.pruned (htext : path.fullPath.text ≠ []) :
    Mirror { disk with tree := disk.tree.prune (disk.located path.fullPath) }
      ⟨(mem.keysUnder path).foldl (fun files key => files.erase key) mem.files⟩ := by
  refine ⟨h.sound.prune hrelative htext, fun names => ?_, fun key hsome => h.keyed key ?_⟩
  · have hne := disk.located_ne_root hrelative htext
    refine (HashMap.lookup_foldl_erase _ _ _).trans ?_
    refine Eq.trans ?_ (FileTree.file_prune hne (disk.cwd ++ names)).symm
    have hwithin : keyAt names ∈ mem.keysUnder path ↔
        (disk.tree.file (disk.cwd ++ names)).isSome ∧
          disk.located path.fullPath <+: disk.cwd ++ names := by
      rw [BlockingMemIo.keysUnder, List.mem_filter, HashMap.mem_keys, h.files,
        key_relative hrelative, keyAt_startsWith]
      exact and_congr_right fun _ => (List.prefix_append_right_inj disk.cwd).symm
    rw [h.files]
    by_cases hprefix : disk.located path.fullPath <+: disk.cwd ++ names
    · rw [if_pos hprefix]
      cases hfile : disk.tree.file (disk.cwd ++ names) with
      | none => exact ite_self _
      | some contents => exact if_pos (hwithin.mpr ⟨by rw [hfile]; rfl, hprefix⟩)
    · rw [if_neg hprefix, if_neg fun hmem => hprefix (hwithin.mp hmem).2]
  · rw [HashMap.lookup_foldl_erase] at hsome
    split at hsome
    · contradiction
    · exact hsome

theorem Mirror.deleteFolder (htext : path.fullPath.text ≠ [])
    (hfilled : Filled disk path.fullPath) (hdot : Disk.lastSegment path.fullPath ≠ some ['.']) :
    Alike (done (BlockingDiskIo.deleteFolder disk path).1) (done (mem.deleteFolder path).1) ∧
      Mirror (BlockingDiskIo.deleteFolder disk path).2 (mem.deleteFolder path).2 := by
  have hkeys := h.keysUnder_iff hrelative hfilled
  unfold BlockingDiskIo.deleteFolder BlockingDiskIo.tagged BlockingMemIo.deleteFolder
  by_cases hfolder : disk.tree.kind (disk.located path.fullPath) = some .folder
  · rw [Disk.removeDirAll_ok h.sound hrelative htext hdot hfolder]
    dsimp only
    rw [if_neg (hkeys.mpr hfolder)]
    exact ⟨rfl, h.pruned hrelative htext⟩
  · obtain ⟨error, herror⟩ :=
      Disk.removeDirAll_error hrelative (hfilled.kind_none hfolder)
    rw [herror]
    dsimp only
    rw [if_pos (not_not.mp fun hne => hfolder (hkeys.mp hne))]
    exact ⟨trivial, h⟩

end Backends

end Saps.Files
