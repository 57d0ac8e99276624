import Saps.Files.Backends.Mirror
import Saps.Files.JoinStream.Walked

-- What the two engines list, and which folders they find.
namespace Saps.Files

namespace Disk

variable {disk : Disk} {path : PathBuf}

-- A character that no slash or dot is stands in a name of the path.
theorem exists_name {c : Char} (hslash : c ≠ '/') (hdot : c ≠ '.') (hc : c ∈ path.text) :
    ∃ name ∈ path.nameSegments, c ∈ name := by
  have htext : ['/'].intercalate (path.text.splitOn '/') = path.text :=
    List.intercalate_splitOn '/'
  rw [← htext] at hc
  obtain ⟨segment, hsegment, hmem⟩ := (PathBuf.mem_ofSegments hc).resolve_left hslash
  refine ⟨segment, List.mem_filter.mpr ⟨hsegment, ?_⟩, hmem⟩
  have hempty : segment ≠ [] := List.ne_nil_of_mem hmem
  have hcur : segment ≠ ['.'] := by
    rintro rfl
    exact hdot (List.mem_singleton.mp hmem)
  simp [PathBuf.skipped, hempty, hcur]

theorem Sound.nul_not_mem (h : disk.Sound) (hsome : (disk.tree.kind (disk.located path)).isSome) :
    nul ∉ path.text := by
  intro hmem
  obtain ⟨name, hname, hnul⟩ := exists_name (by decide) (by decide) hmem
  exact (h.named _ hsome name (List.mem_append_right _ hname)).nul hnul

section Relative

variable (h : disk.Sound) (hrelative : path.Relative)

include h hrelative

theorem leads_located (hfolder : disk.tree.kind (disk.located path) = some .folder) :
    disk.Leads path (disk.located path) := by
  refine ⟨h.nul_not_mem (by rw [hfolder]; rfl), ?_, hfolder⟩
  rw [start_relative hrelative]
  exact foldlM_step_of_folder h.rooted (fun _ => hrelative.not_parent) hfolder

theorem resolve_folder (htext : path.text ≠ [])
    (hfolder : disk.tree.kind (disk.located path) = some .folder) :
    disk.resolve path.text = .ok (disk.located path) := by
  have hleads := leads_located h hrelative hfolder
  exact resolve_ok.mpr ⟨hleads.nul, htext, hleads.walk⟩

theorem isDir_located (htext : path.text ≠ []) :
    disk.isDir path = true ↔ disk.tree.kind (disk.located path) = some .folder := by
  constructor
  · intro hdir
    cases hresolve : disk.resolve path.text with
    | error error =>
        unfold isDir at hdir
        rw [hresolve] at hdir
        contradiction
    | ok location =>
        have hfolder := (isDir_iff hresolve).mp hdir
        rw [resolve_located hrelative hresolve] at hfolder
        exact hfolder
  · intro hfolder
    exact (isDir_iff (resolve_folder h hrelative htext hfolder)).mpr hfolder

end Relative

theorem text_ne_nil_of_isDir (h : disk.isDir path = true) : path.text ≠ [] := by
  intro htext
  unfold isDir resolve at h
  rw [htext] at h
  contradiction

theorem Leads.isFile_join {location : Location} (h : disk.Leads path location) {name : Str}
    (hname : PlainName name) :
    disk.isFile (path.join ⟨name⟩) = (disk.tree.file (location ++ [name])).isSome := by
  unfold isFile FileTree.file
  rw [read_of_resolve (h.resolve_join hname)]
  rcases disk.tree.kind (location ++ [name]) with _ | (_ | contents)
  · rfl
  · rfl
  · rfl

end Disk

namespace Backends

open Interchange (keyAt keyAt_inj)
open BlockingDiskIo (Lists typedFile)
open FlatEngines (listed)

theorem keyAt_startsWith (front names : List Str) :
    (keyAt names).startsWith (keyAt front) = true ↔ front <+: names := by
  refine (Components.startsWith_iff _ _).trans ?_
  exact List.prefix_map_iff_of_injective fun _ _ => Component.normal.inj

theorem keyAt_parent (base names : List Str) :
    (keyAt names).components.parent = some (keyAt base).components ↔
      ∃ name, names = base ++ [name] := by
  unfold Components.parent keyAt
  rcases List.eq_nil_or_concat' names with rfl | ⟨front, last, rfl⟩
  · simp
  · have hinjective : Function.Injective (List.map Component.normal) :=
      List.map_injective_iff.mpr fun _ _ => Component.normal.inj
    simp [hinjective.eq_iff, eq_comm]

theorem key_below {path : PathBuf} (hrelative : path.Relative) {rest : Location}
    (hplain : ∀ name ∈ rest, Disk.PlainName name) :
    (path.below rest).key = keyAt (path.nameSegments ++ rest) := by
  refine PathBuf.Key.ext ((Disk.components_below hplain path).trans ?_)
  rw [hrelative.components_eq, ← List.map_append]
  rfl

theorem Agrees.of_call {disk : Disk} {mem : BlockingMemIo} {op : FlatEngines.Op}
    {answer : FlatEngines.Outcome × Disk} (hcall : ∀ fuel, diskCall fuel disk op = some answer)
    (hagrees : Alike answer.1 (FlatEngines.memCall mem op).1 ∧
      Mirror answer.2 (FlatEngines.memCall mem op).2) : Agrees disk mem op := by
  refine ⟨⟨0, by rw [hcall]; exact Option.some_ne_none _⟩, fun fuel found hfound => ?_⟩
  rw [hcall] at hfound
  obtain rfl := Option.some.inj hfound
  exact hagrees

section Mirrored

variable {disk : Disk} {mem : BlockingMemIo} (h : Mirror disk mem)

include h

theorem Mirror.mem_keys (key : PathBuf.Key) :
    key ∈ mem.files.keys ↔
      ∃ names, key = keyAt names ∧ (disk.tree.file (disk.cwd ++ names)).isSome := by
  rw [HashMap.mem_keys]
  constructor
  · intro hsome
    obtain ⟨names, rfl⟩ := h.keyed key hsome
    exact ⟨names, rfl, h.files names ▸ hsome⟩
  · rintro ⟨names, rfl, hsome⟩
    rw [h.files]
    exact hsome

section Folder

variable {path : Path .folder} (hrelative : path.fullPath.Relative)

include hrelative

theorem Mirror.mem_keysUnder (key : PathBuf.Key) :
    key ∈ mem.keysUnder path ↔ ∃ rest, key = keyAt (path.fullPath.nameSegments ++ rest) ∧
      (disk.tree.file (disk.located path.fullPath ++ rest)).isSome := by
  have hkey := key_relative hrelative
  unfold BlockingMemIo.keysUnder Disk.located
  rw [List.mem_filter, h.mem_keys, hkey]
  constructor
  · rintro ⟨⟨names, rfl, hsome⟩, hprefix⟩
    obtain ⟨rest, rfl⟩ := (keyAt_startsWith _ _).mp hprefix
    exact ⟨rest, rfl, by rwa [List.append_assoc]⟩
  · rintro ⟨rest, rfl, hsome⟩
    refine ⟨⟨_, rfl, by rwa [← List.append_assoc]⟩, ?_⟩
    exact (keyAt_startsWith _ _).mpr (List.prefix_append _ _)

-- The map knows of a folder by its files.
theorem Mirror.keysUnder_iff (hfilled : Filled disk path.fullPath) :
    mem.keysUnder path ≠ [] ↔ disk.tree.kind (disk.located path.fullPath) = some .folder := by
  constructor
  · intro hne
    obtain ⟨key, hkey⟩ := List.exists_mem_of_ne_nil _ hne
    obtain ⟨rest, _, hsome⟩ := (h.mem_keysUnder hrelative key).mp hkey
    by_cases hrest : rest = []
    · rw [hrest, List.append_nil, hfilled.file] at hsome
      contradiction
    · exact h.sound.rooted.folder_of_prefix hrest (FileTree.kind_of_file hsome)
  · intro hfolder
    obtain ⟨rest, hsome⟩ := hfilled.inner hfolder
    exact List.ne_nil_of_mem ((h.mem_keysUnder hrelative _).mpr ⟨rest, rfl, hsome⟩)

theorem Mirror.folderExists (htext : path.fullPath.text ≠ [])
    (hfilled : Filled disk path.fullPath) :
    BlockingDiskIo.folderExists disk path = mem.folderExists path := by
  rw [Bool.eq_iff_iff]
  refine (Disk.isDir_located h.sound hrelative htext).trans ?_
  rw [← h.keysUnder_iff hrelative hfilled]
  unfold BlockingMemIo.folderExists BlockingMemIo.keysUnder
  rw [ne_eq, List.filter_eq_nil_iff, List.any_eq_true]
  simp

end Folder

section Listed

variable {path : Path .folder} (hlistable : Listable disk path)

include hlistable

omit h in
theorem Listable.located (hsound : disk.Sound) :
    disk.Leads path.fullPath (disk.located path.fullPath) := by
  refine Disk.leads_located hsound hlistable.relative ?_
  exact (Disk.isDir_located hsound hlistable.relative
    (Disk.text_ne_nil_of_isDir hlistable.folder)).mp hlistable.folder

omit h in
theorem Listable.readDir (hsound : disk.Sound) : disk.readDir path.fullPath =
    .ok (disk.tree.children (disk.located path.fullPath)) :=
  Disk.readDir_ok.mpr ⟨Disk.text_ne_nil_of_isDir hlistable.folder, _,
    hlistable.located hsound, rfl⟩

-- The key of a listed file.
omit h in
theorem Listable.key_typedFile (hsound : disk.Sound) {rest : Location}
    (hfile : (disk.tree.file (disk.located path.fullPath ++ rest)).isSome) :
    (typedFile path.rootPath (path.fullPath.below rest)).key =
      keyAt (path.fullPath.nameSegments ++ rest) := by
  obtain ⟨root, rel, hbuilt⟩ := hlistable.built
  have hroot : path.rootPath = ⟨root⟩ := by
    rw [hbuilt]
    rfl
  rw [hroot]
  refine (BlockingDiskIo.typedFile_key ?_).trans ?_
  · exact JoinStream.absolute_below hsound (congrArg Path.fullPath hbuilt) hfile
  · exact key_below hlistable.relative (JoinStream.plain_of_file hsound hfile)

omit h in
theorem Listable.childFiles_keys (hsound : disk.Sound) :
    listed (BlockingDiskIo.childFiles disk path) = .ok (.paths
      (((disk.tree.children (disk.located path.fullPath)).filter fun name =>
        (disk.tree.file (disk.located path.fullPath ++ [name])).isSome).map fun name =>
          keyAt (path.fullPath.nameSegments ++ [name]))) := by
  have hplain := Disk.children_plain hsound.named (disk.located path.fullPath)
  have hfilter : ((disk.tree.children (disk.located path.fullPath)).filter
      (disk.isFile ∘ fun name => path.fullPath.join ⟨name⟩)) =
        (disk.tree.children (disk.located path.fullPath)).filter fun name =>
          (disk.tree.file (disk.located path.fullPath ++ [name])).isSome :=
    List.filter_congr fun name hname =>
      (hlistable.located hsound).isFile_join (hplain name hname)
  unfold BlockingDiskIo.childFiles
  rw [hlistable.readDir hsound]
  dsimp only
  rw [List.filter_map, hfilter]
  unfold listed Except.map
  dsimp only
  rw [List.map_map, List.map_map]
  refine congrArg (fun keys => Except.ok (FlatEngines.Output.paths keys)) ?_
  refine List.map_congr_left fun name hname => ?_
  have hfile : (disk.tree.file (disk.located path.fullPath ++ [name])).isSome :=
    (List.mem_filter.mp hname).2
  have hkey := hlistable.key_typedFile hsound hfile
  unfold PathBuf.below at hkey
  rw [List.foldl_cons, List.foldl_nil] at hkey
  exact hkey

theorem Mirror.childFiles :
    Alike (listed (BlockingDiskIo.childFiles disk path))
      ((mem.childFiles path).map .paths) := by
  rw [hlistable.childFiles_keys h.sound]
  refine (List.perm_ext_iff_of_nodup ?_ (mem.files.keys_nodup.filter _)).mpr fun key => ?_
  · refine ((disk.tree.children_nodup _).filter _).map fun name other heq => ?_
    exact List.singleton_inj.mp (List.append_cancel_left (keyAt_inj heq))
  · rw [List.mem_filter, h.mem_keys, key_relative hlistable.relative, List.mem_map]
    simp only [List.mem_filter, decide_eq_true_eq]
    constructor
    · rintro ⟨name, ⟨_, hsome⟩, rfl⟩
      refine ⟨⟨_, rfl, ?_⟩, (keyAt_parent _ _).mpr ⟨name, rfl⟩⟩
      rw [← List.append_assoc]
      exact hsome
    · rintro ⟨⟨names, rfl, hsome⟩, hparent⟩
      obtain ⟨name, rfl⟩ := (keyAt_parent _ _).mp hparent
      rw [← List.append_assoc] at hsome
      have hchild := (disk.tree.mem_children _ name).mpr (FileTree.kind_of_file hsome)
      exact ⟨name, ⟨hchild, hsome⟩, rfl⟩

theorem Mirror.childFolders
    (hnone : ∀ name, disk.tree.kind (disk.located path.fullPath ++ [name]) ≠ some .folder) :
    BlockingDiskIo.childFolders disk path = .ok [] := by
  have hsound := h.sound
  have hplain := Disk.children_plain hsound.named (disk.located path.fullPath)
  unfold BlockingDiskIo.childFolders
  rw [hlistable.readDir hsound]
  dsimp only
  rw [List.filter_eq_nil_iff.mpr, List.map_nil]
  intro entry hentry
  obtain ⟨name, hname, rfl⟩ := List.mem_map.mp hentry
  have hresolve := (hlistable.located hsound).resolve_join (hplain name hname)
  exact fun hdir => hnone name ((Disk.isDir_iff hresolve).mp hdir)

theorem Mirror.allChildFiles : Agrees disk mem (.allChildFiles path) := by
  have hsound := h.sound
  have htext := Disk.text_ne_nil_of_isDir hlistable.folder
  have hleads := hlistable.located hsound
  obtain ⟨root, rel, hbuilt⟩ := hlistable.built
  obtain ⟨found, enough, hfound, hlist⟩ : ∃ found fuel,
      Lists disk.tree (disk.located path.fullPath) found ∧
        BlockingDiskIo.allChildFiles fuel disk path =
          some (.ok (found.map (JoinStream.listedAt root path))) := by
    subst hbuilt
    exact JoinStream.listing_of_leads hsound htext hleads
  have hroot : path.rootPath = ⟨root⟩ := by
    rw [hbuilt]
    rfl
  have hkeys : (found.map (JoinStream.listedAt root path)).map Path.key =
      found.map fun rest => keyAt (path.fullPath.nameSegments ++ rest) := by
    rw [List.map_map]
    refine List.map_congr_left fun rest hrest => ?_
    have hkey := hlistable.key_typedFile hsound ((hfound.mem rest).mp hrest)
    rw [hroot] at hkey
    exact hkey
  have hperm : (found.map fun rest => keyAt (path.fullPath.nameSegments ++ rest)).Perm
      (mem.keysUnder path) := by
    refine (List.perm_ext_iff_of_nodup ?_ (mem.files.keys_nodup.filter _)).mpr fun key => ?_
    · exact hfound.nodup.map fun rest other heq => List.append_cancel_left (keyAt_inj heq)
    · refine Iff.trans ?_ (h.mem_keysUnder hlistable.relative key).symm
      rw [List.mem_map]
      simp only [hfound.mem, and_comm, eq_comm]
  refine ⟨⟨enough, ?_⟩, fun fuel answer hanswer => ?_⟩
  · rw [diskCall, hlist]
    exact Option.some_ne_none _
  · rw [diskCall] at hanswer
    obtain ⟨result, hresult, rfl⟩ := Option.map_eq_some_iff.mp hanswer
    have hmore := BlockingDiskIo.collectFiles_more (Nat.le_max_left fuel enough) hresult
    have hsame := BlockingDiskIo.collectFiles_more (Nat.le_max_right fuel enough) hlist
    obtain rfl := Option.some.inj (hmore.symm.trans hsame)
    refine ⟨?_, h⟩
    change List.Perm _ _
    rw [hkeys]
    exact hperm

end Listed

end Mirrored

end Backends

end Saps.Files
