import Saps.Files.Backends.Moves
import Saps.Lib.Transition

-- The two engines in a run of operations that fit.
namespace Saps.Files.Backends

open Transition
open FlatEngines (Op Outcome)
open Interchange (Engines Stored keyAt)

section Calls

variable {disk : Disk} {mem : BlockingMemIo} (h : Mirror disk mem)

include h

theorem Mirror.readFile_alike {path : Path .file} (hrelative : path.fullPath.Relative)
    (hfits : Stored disk path → path.fullPath.Usable) :
    Alike ((BlockingDiskIo.readFile disk path).map .text) ((mem.readFile path).map .text) := by
  have hread := h.readFile hrelative hfits
  unfold BlockingMemIo.readFile
  cases hdisk : BlockingDiskIo.readFile disk path with
  | error error =>
      rw [hdisk] at hread
      rw [← hread]
      exact trivial
  | ok contents =>
      rw [hdisk] at hread
      rw [← hread]
      exact rfl

theorem Mirror.fileExists {path : Path .file} (hrelative : path.fullPath.Relative)
    (hfits : Stored disk path → path.fullPath.Usable) :
    BlockingDiskIo.fileExists disk path = mem.fileExists path := by
  have hread := h.readFile hrelative hfits
  unfold BlockingMemIo.fileExists
  rw [← hread]
  unfold BlockingDiskIo.fileExists BlockingDiskIo.readFile Disk.isFile
  cases disk.readToString path.fullPath with
  | error error => rfl
  | ok contents => rfl

-- One case for each operation.
theorem Mirror.call (op : Op) (hfits : Fits disk op) : Agrees disk mem op := by
  cases op with
  | readFile path => exact .of_call (fun _ => rfl) ⟨h.readFile_alike hfits.1 hfits.2, h⟩
  | writeFile path data =>
      obtain ⟨hrelative, husable, hfree, hpassable⟩ := hfits
      exact .of_call (fun _ => rfl) (h.writeFile hrelative husable hfree hpassable data)
  | fileExists path =>
      have hexists := h.fileExists hfits.1 hfits.2
      exact .of_call (fun _ => rfl) ⟨congrArg FlatEngines.Output.bool hexists, h⟩
  | deleteFile path => exact .of_call (fun _ => rfl) (h.deleteFile hfits.1 hfits.2)
  | moveFile source target =>
      obtain ⟨hsource, htarget, hfile, hstored⟩ := hfits
      exact .of_call (fun _ => rfl) (h.moveFile hsource htarget hfile hstored)
  | copyFile source target =>
      obtain ⟨hsource, htarget, hstored⟩ := hfits
      exact .of_call (fun _ => rfl) (h.copyFile hsource htarget hstored)
  | childFiles path => exact .of_call (fun _ => rfl) ⟨h.childFiles hfits, h⟩
  | allChildFiles path => exact h.allChildFiles hfits
  | childFolders path =>
      have hnone := h.childFolders hfits.1 hfits.2
      refine .of_call (fun _ => rfl) ⟨?_, h⟩
      rw [hnone]
      exact List.Perm.refl _
  | createFolder path =>
      obtain ⟨hrelative, hnul, hpassable⟩ := hfits
      exact .of_call (fun _ => rfl) (h.createFolder hrelative hnul hpassable)
  | folderExists path =>
      obtain ⟨hrelative, htext, hfilled⟩ := hfits
      have hexists := h.folderExists hrelative htext hfilled
      exact .of_call (fun _ => rfl) ⟨congrArg FlatEngines.Output.bool hexists, h⟩
  | deleteFolder path =>
      obtain ⟨hrelative, htext, hfilled, hdot⟩ := hfits
      exact .of_call (fun _ => rfl) (h.deleteFolder hrelative htext hfilled hdot)
  | moveFolder source target =>
      obtain ⟨hsource, htarget, hempty, hfilled, hdot, hplace⟩ := hfits
      exact .of_call (fun _ => rfl) (h.moveFolder hsource htarget hempty hfilled hdot hplace)
  | copyFolder source target =>
      obtain ⟨hsource, htarget, hempty, hfilled, hnul, hpassable, hbeside, hmerge⟩ := hfits
      exact h.copyFolder hsource htarget hempty hfilled hnul hpassable hbeside hmerge

-- In what order the disk lists its folders makes no difference.
theorem Mirror.listed (order : Order Location) : Mirror (disk.listed order) mem :=
  ⟨⟨h.sound.rooted, h.sound.cwd, h.sound.named⟩, h.files, h.keyed⟩

omit h in
theorem Filled.listed (order : Order Location) {path : PathBuf} (hfilled : Filled disk path) :
    Filled (disk.listed order) path :=
  ⟨hfilled.file, hfilled.inner⟩

omit h in
theorem Writable.listed (order : Order Location) {path : PathBuf} (hwritable : disk.Writable path) :
    (disk.listed order).Writable path :=
  ⟨hwritable.usable, hwritable.parent, hwritable.free⟩

omit h in
theorem Fits.listed (order : Order Location) {op : Op} (hfits : Fits disk op) :
    Fits (disk.listed order) op := by
  cases op with
  | moveFile source target =>
      obtain ⟨hsource, htarget, hfile, hstored⟩ := hfits
      refine ⟨hsource, htarget, hfile, fun hstays => ?_⟩
      exact (hstored hstays).imp_right (Writable.listed order)
  | copyFile source target =>
      obtain ⟨hsource, htarget, hstored⟩ := hfits
      refine ⟨hsource, htarget, fun hstays => ?_⟩
      obtain ⟨husable, hwritable, hself⟩ := hstored hstays
      exact ⟨husable, Writable.listed order hwritable, hself⟩
  | childFiles path => exact ⟨hfits.relative, hfits.built, hfits.folder⟩
  | allChildFiles path => exact ⟨hfits.relative, hfits.built, hfits.folder⟩
  | childFolders path => exact ⟨⟨hfits.1.relative, hfits.1.built, hfits.1.folder⟩, hfits.2⟩
  | folderExists path => exact ⟨hfits.1, hfits.2.1, hfits.2.2.listed order⟩
  | deleteFolder path => exact ⟨hfits.1, hfits.2.1, hfits.2.2.1.listed order, hfits.2.2.2⟩
  | moveFolder source target =>
      obtain ⟨hsource, htarget, hempty, hfilled, hdot, hplace⟩ := hfits
      refine ⟨hsource, htarget, hempty, hfilled.listed order, hdot, fun hfolder => ?_⟩
      obtain ⟨husable, hparent, hwhere⟩ := hplace hfolder
      refine ⟨husable, hparent, hwhere.imp_right fun hfree => ⟨hfree.1, ?_⟩⟩
      exact ⟨hfree.2.file, hfree.2.below⟩
  | copyFolder source target =>
      obtain ⟨hsource, htarget, hempty, hfilled, hnul, hpassable, hbeside, hmerge⟩ := hfits
      refine ⟨hsource, htarget, hempty, hfilled.listed order, hnul, hpassable, hbeside, ?_⟩
      intro hfolder
      exact ⟨(hmerge hfolder).folder, (hmerge hfolder).file⟩
  | _ => exact hfits

end Calls

theorem Starts.mirror {engines : Engines} (h : Interchange.Starts engines)
    (hnamed : Disk.Named engines.disk.tree) : Mirror engines.disk engines.mem := by
  refine ⟨⟨h.rooted, h.cwd, hnamed⟩, fun names => ?_, fun key hsome => ?_⟩
  · have hnone : engines.disk.tree.file (engines.disk.cwd ++ names) = none := by
      unfold FileTree.file
      by_cases hnil : names = []
      · rw [hnil, List.append_nil, h.cwd]
        rfl
      · rw [h.nothing names hnil]
        rfl
    rw [hnone, h.mem]
    exact HashMap.lookup_new _
  · rw [h.mem] at hsome
    exact absurd hsome (by rw [BlockingMemIo.new, HashMap.lookup_new]; simp)

theorem step_alike (before : Engines) (label : Op × Outcome × Outcome) (after : Engines)
    (h : Mirror before.disk before.mem) (step : FittingStep before label after) :
    Mirror after.disk after.mem ∧ Alike label.2.1 label.2.2 := by
  obtain ⟨⟨order, fuel, mem, hmem, hdiskCall, hmemCall⟩, hfits⟩ := step
  have hagrees := ((h.of_lookup hmem).listed order).call label.1 (hfits.listed order)
  obtain ⟨halike, hmirror⟩ := hagrees.alike fuel _ hdiskCall
  rw [hmemCall] at halike hmirror
  exact ⟨hmirror, halike⟩

-- A file is written, which makes its folder, and then the folder moves.
def written : Path .file :=
  Path.new "a/x".toList

def oldFolder : Path .folder :=
  Path.new ['a']

def newFolder : Path .folder :=
  Path.new ['e']

def stored : Engines :=
  ⟨Disk.leaf, ⟨HashMap.new.insert written.key ['1']⟩⟩

def moved : Engines :=
  ⟨(BlockingDiskIo.moveFolder Disk.leaf oldFolder newFolder).2,
    (stored.mem.moveFolder oldFolder newFolder).2⟩

theorem relative_of {path : PathBuf} (names : List Str)
    (h : path.components = names.map .normal) : path.Relative := by
  intro component hmem
  rw [h] at hmem
  obtain ⟨name, _, rfl⟩ := List.mem_map.mp hmem
  exact ⟨name, rfl⟩

theorem step_stored : FittingStep Interchange.empty
    (.writeFile written ['1'], .ok .unit, .ok .unit) stored := by
  refine ⟨⟨.identity, 0, .new, rfl, congrArg some (Prod.ext ?_ ?_), rfl⟩, ?_, ?_, ?_, ?_⟩
  · decide +kernel
  · rfl
  · exact relative_of [['a'], ['x']] (by decide +kernel)
  · refine ⟨by decide +kernel, fun segment hsegment => ?_⟩
    have hlast : (written.fullPath.text.splitOn '/').getLast? = some ['x'] := by decide +kernel
    rw [hlast] at hsegment
    obtain rfl := Option.some.inj hsegment
    decide
  · decide +kernel
  · intro front hfront
    have hnames : written.fullPath.nameSegments.dropLast = [['a']] := by decide +kernel
    rw [hnames] at hfront
    rcases List.prefix_cons_iff.mp hfront with rfl | ⟨rest, rfl, hrest⟩
    · rfl
    · rw [List.prefix_nil.mp hrest]
      decide +kernel

theorem step_moved : FittingStep stored
    (.moveFolder oldFolder newFolder, .ok .unit, .ok .unit) moved := by
  have hlocated : Disk.leaf.located newFolder.fullPath = [['e']] := by decide +kernel
  refine ⟨⟨.identity, 0, stored.mem, rfl, congrArg some (Prod.ext ?_ rfl), rfl⟩, ?_, ?_, ?_, ?_,
    ?_, fun _ => ⟨⟨?_, fun segment hsegment => ?_⟩, rfl, .inr ⟨⟨?_, ?_⟩, ?_, ?_⟩⟩⟩
  · decide +kernel
  · exact relative_of [['a']] (by decide +kernel)
  · exact relative_of [['e']] (by decide +kernel)
  · decide +kernel
  · exact ⟨by decide +kernel, fun _ => ⟨[['x']], by decide +kernel⟩⟩
  · decide +kernel
  · decide +kernel
  · obtain rfl := Option.some.inj hsegment
    decide
  · decide +kernel
  · decide +kernel
  · decide +kernel
  · intro rest _
    change Disk.leaf.tree.kind (Disk.leaf.located newFolder.fullPath ++ rest) = none
    rw [hlocated, Disk.leaf_kind, if_neg (by simp), if_neg (by simp)]

end Saps.Files.Backends
