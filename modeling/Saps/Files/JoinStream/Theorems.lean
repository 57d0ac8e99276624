import Saps.Files.DiskFolders.Theorems
import Saps.Files.JoinStream.Walked
import Saps.Files.OpLog

-- When a replica that joins gets every file of a folder at its own place.
namespace Saps.Files.JoinStream

open MemFileStreamer (states)

-- The flat engines hand out whole paths, so the root has to be empty or out of the way.
-- The disk engine hands out paths that are relative to the root.
theorem join_stream_iff (Doc : Type) [Yrs Doc] :
    (∀ (store : SpelledMem) (root rel : Str),
      Joins Doc store.io root (filesBeneath store.io.files id (Path.build root rel))
        (store.allChildFiles (Path.build root rel)) ↔ Fits store.io.files id root rel) ∧
    (∀ (io : KvBlockingIo) (root rel : Str),
      Joins Doc io root (filesBeneath io.files FlatEngines.meaning (Path.build root rel))
        (io.allChildFiles (Path.build root rel)) ↔ Fits io.files FlatEngines.meaning root rel) ∧
    ∀ disk : Disk, disk.Sound → ∀ root rel : Str,
      DiskJoins Doc disk root rel ↔ RootFree disk root rel :=
  ⟨fun store root rel => (mem_flat Doc store).joins_iff root rel,
    fun io root rel => (kv_flat Doc io).joins_iff root rel,
    fun _ hsound root rel => disk_joins_iff Doc hsound root rel⟩

theorem join_stream_leaf :
    Disk.leaf.Sound ∧ DiskJoins OpLog Disk.leaf ['/'] ['a'] := by
  refine ⟨Disk.leaf_sound, ((join_stream_iff OpLog).2.2 Disk.leaf Disk.leaf_sound _ _).mpr ?_⟩
  intro _ location _ rest hfile hkey
  have hcomponents : ((Path.build ['/'] ['a'] : Path .folder).fullPath.below rest).components =
      (PathBuf.mk ['/']).components := congrArg PathBuf.Key.components hkey
  have hlength := congrArg List.length hcomponents
  rw [Disk.components_below (plain_of_file Disk.leaf_sound hfile), List.length_append] at hlength
  have hfolder : (Path.build ['/'] ['a'] : Path .folder).fullPath.components.length = 2 := by
    decide +kernel
  have hroot : (PathBuf.mk ['/']).components.length = 1 := by decide +kernel
  omega

-- A project in the folder `src` of the workspace `w`.
def project : PathBuf :=
  ⟨"w/src/a".toList⟩

def workspace : SpelledMem where
  io := ⟨.insert .new project.key ['x']⟩
  text _ := project
  spells key h := by
    rw [HashMap.lookup_insert] at h
    split at h
    · next heq => exact heq.symm
    · contradiction

-- The client is told the whole path, and stores the file in a workspace within the workspace.
theorem join_stream_misplaced :
    (states (MemFileGuard.new.loadAll workspace.io [Path.new project.text] :
        MemFileGuard OpLog × BlockingMemIo).1).map Prod.fst = ["w/src/a".toList] ∧
      placeOf ['w'] "w/src/a".toList = (PathBuf.mk "w/w/src/a".toList).key ∧
      ¬Joins OpLog workspace.io ['w']
        (filesBeneath workspace.io.files id (Path.build ['w'] "src".toList))
        (workspace.allChildFiles (Path.build ['w'] "src".toList)) := by
  refine ⟨by decide +kernel, by decide +kernel, fun h => ?_⟩
  have hfits := ((mem_flat OpLog workspace).joins_iff ['w'] "src".toList).mp h
  have hbeneath : (Path.build ['w'] "src".toList : Path .folder).Beneath project.key := by
    decide +kernel
  rcases hfits.outside project.key (by decide +kernel) hbeneath with hempty | houtside
  · contradiction
  · revert houtside
    decide +kernel

end Saps.Files.JoinStream
