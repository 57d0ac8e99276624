import Saps.Files.Interchange

namespace Saps.Files.Interchange

open PathBuf (Relative Usable)
open Transition

def keyAt (names : List Str) : PathBuf.Key where
  components := names.map .normal
  tail_inner component h := by
    obtain ⟨name, _, rfl⟩ := List.mem_map.mp (List.mem_of_mem_tail h)
    exact ⟨nofun, nofun⟩

theorem keyAt_inj {left right : List Str} (h : keyAt left = keyAt right) : left = right :=
  List.map_injective_iff.mpr (fun _ _ => Component.normal.inj) (congrArg PathBuf.Key.components h)

theorem key_eq {path : Path .file} (h : path.fullPath.Relative) :
    path.key = keyAt path.fullPath.nameSegments :=
  PathBuf.Key.ext h.components_eq

-- The map holds what the disk holds below the working directory, where there are
-- only files at the paths in use, and folders on the way to them.
structure Mirror (paths : List (Path .file)) (engines : Engines) : Prop where
  rooted : engines.disk.tree.Rooted
  cwd : engines.disk.tree.kind engines.disk.cwd = some .folder
  files : ∀ names, engines.mem.files.lookup (keyAt names) =
    engines.disk.tree.file (engines.disk.cwd ++ names)
  used : ∀ names, (engines.disk.tree.file (engines.disk.cwd ++ names)).isSome →
    ∃ path ∈ paths, path.fullPath.nameSegments = names
  folders : ∀ names, names ≠ [] →
    engines.disk.tree.kind (engines.disk.cwd ++ names) = some .folder →
    ∃ path ∈ paths, names <+: path.fullPath.nameSegments ∧ names ≠ path.fullPath.nameSegments

-- A step whose operation fits the disk it finds.
def FittingStep (before : Engines) (label : Op × Outcome × Outcome) (after : Engines) : Prop :=
  Step before label after ∧ Fits before.disk label.1

variable {paths : List (Path .file)} (hpaths : Admissible paths)

theorem Starts.mirror {engines : Engines} (h : Starts engines) : Mirror paths engines := by
  have hnone (names : List Str) :
      engines.disk.tree.file (engines.disk.cwd ++ names) = none := by
    unfold FileTree.file
    by_cases hnil : names = []
    · rw [hnil, List.append_nil, h.cwd]
      rfl
    · rw [h.nothing names hnil]
      rfl
  refine ⟨h.rooted, h.cwd, ?_, ?_, ?_⟩
  · intro names
    rw [h.mem, hnone]
    exact HashMap.lookup_new _
  · intro names hsome
    rw [hnone] at hsome
    cases hsome
  · intro names hne hkind
    rw [h.nothing names hne] at hkind
    cases hkind

include hpaths

theorem Admissible.names_eq {path other : Path .file} (hpath : path ∈ paths)
    (hother : other ∈ paths)
    (h : path.fullPath.nameSegments <+: other.fullPath.nameSegments) :
    path.fullPath.nameSegments = other.fullPath.nameSegments := by
  have hleft := (hpaths.relative path hpath).components_eq
  have hright := (hpaths.relative other hother).components_eq
  have hsame := hpaths.unnested path hpath other hother (by rw [hleft, hright]; exact h.map _)
  rw [hleft, hright] at hsame
  exact List.map_injective_iff.mpr (fun _ _ => Component.normal.inj) hsame

section Mirror

variable {engines : Engines} (h : Mirror paths engines)

include h

theorem Mirror.lookup {path : Path .file} (hpath : path ∈ paths) :
    engines.mem.files.lookup path.key =
      engines.disk.tree.file (engines.disk.located path.fullPath) := by
  rw [key_eq (hpaths.relative path hpath), h.files]
  rfl

-- No folder stands where a path in use leads, and no file on the way.
theorem Mirror.not_folder {path : Path .file} (hpath : path ∈ paths)
    (hne : path.fullPath.text ≠ []) :
    engines.disk.tree.kind (engines.disk.located path.fullPath) ≠ some .folder := by
  intro hfolder
  have hnames := (hpaths.relative path hpath).names_ne_nil hne
  obtain ⟨other, hother, hprefix, hproper⟩ := h.folders _ hnames hfolder
  exact hproper (hpaths.names_eq hpath hother hprefix)

theorem Mirror.not_file {path : Path .file} (hpath : path ∈ paths) {front : List Str}
    (hfront : front <+: path.fullPath.nameSegments.dropLast)
    (hne : path.fullPath.nameSegments ≠ []) :
    engines.disk.tree.file (engines.disk.cwd ++ front) = none := by
  cases hfile : engines.disk.tree.file (engines.disk.cwd ++ front) with
  | none => rfl
  | some contents =>
      obtain ⟨other, hother, rfl⟩ := h.used front (by rw [hfile]; rfl)
      have hwhole := hpaths.names_eq hother hpath (hfront.trans (List.dropLast_prefix _))
      have hlength := hfront.length_le
      rw [hwhole, List.length_dropLast] at hlength
      have hpos := List.length_pos_of_ne_nil hne
      omega

theorem Mirror.writable {path : Path .file} (hpath : path ∈ paths)
    (hreachable : Reachable engines.disk path) : engines.disk.Writable path.fullPath :=
  ⟨hreachable.1, hreachable.2, h.not_folder hpaths hpath hreachable.1.text_ne_nil⟩

-- Where an operation may be called, its path finds what the map holds.
theorem Mirror.holds_iff {path : Path .file} (hpath : path ∈ paths)
    (hfits : Stored engines.disk path → path.fullPath.Usable) (contents : Str) :
    engines.disk.Holds path.fullPath contents ↔
      engines.mem.files.lookup path.key = some contents := by
  rw [h.lookup hpaths hpath]
  refine ⟨fun hholds => hholds.2, fun hfile => ⟨hfits ?_, hfile⟩⟩
  exact Option.isSome_iff_exists.mpr ⟨contents, hfile⟩

theorem Mirror.readToString_iff {path : Path .file} (hpath : path ∈ paths)
    (hfits : Stored engines.disk path → path.fullPath.Usable) (contents : Str) :
    engines.disk.readToString path.fullPath = .ok contents ↔
      engines.mem.files.lookup path.key = some contents := by
  rw [← h.holds_iff hpaths hpath hfits]
  exact Disk.readToString_ok (hpaths.relative path hpath) h.rooted contents

-- One file changes on both sides, and new folders lie on the way to paths in use.
theorem Mirror.update {path : Path .file} (hpath : path ∈ paths) {disk : Disk}
    {mem : BlockingMemIo} (value : Option Str) (hrooted : disk.tree.Rooted)
    (hcwd : disk.cwd = engines.disk.cwd) (hkind : disk.tree.kind disk.cwd = some .folder)
    (hdisk : ∀ location, disk.tree.file location =
      if location = engines.disk.located path.fullPath then value
      else engines.disk.tree.file location)
    (hmem : ∀ key, mem.files.lookup key =
      if key = path.key then value else engines.mem.files.lookup key)
    (hfolders : ∀ names, names ≠ [] → disk.tree.kind (disk.cwd ++ names) = some .folder →
      engines.disk.tree.kind (engines.disk.cwd ++ names) = some .folder ∨
        names <+: path.fullPath.nameSegments ∧ names ≠ path.fullPath.nameSegments) :
    Mirror paths ⟨disk, mem⟩ := by
  have hkey := key_eq (hpaths.relative path hpath)
  have hwhere (names : List Str) :
      engines.disk.cwd ++ names = engines.disk.located path.fullPath ↔
        names = path.fullPath.nameSegments := List.append_right_inj _
  refine ⟨hrooted, hkind, ?_, ?_, ?_⟩
  · intro names
    rw [hmem, hdisk, h.files, hcwd, hkey]
    by_cases hnames : names = path.fullPath.nameSegments
    · rw [if_pos (congrArg keyAt hnames), if_pos ((hwhere names).mpr hnames)]
    · rw [if_neg fun heq => hnames (keyAt_inj heq), if_neg fun heq => hnames ((hwhere names).mp heq)]
  · intro names hsome
    rw [hdisk, hcwd] at hsome
    split at hsome
    · next heq => exact ⟨path, hpath, ((hwhere names).mp heq).symm⟩
    · exact h.used names hsome
  · intro names hne hfolder
    rcases hfolders names hne hfolder with hold | hnew
    · exact h.folders names hne hold
    · exact ⟨path, hpath, hnew⟩

theorem Mirror.putFile {path : Path .file} (hpath : path ∈ paths)
    (hreachable : Reachable engines.disk path) (contents : Str) (mem : BlockingMemIo)
    (hmem : mem.files.lookup = (engines.mem.files.insert path.key contents).lookup) :
    Mirror paths ⟨engines.disk.putFile path.fullPath contents, mem⟩ := by
  have hwritable := h.writable hpaths hpath hreachable
  refine h.update hpaths hpath (some contents) (hwritable.rooted_put contents h.rooted) rfl ?_
    (hwritable.file_put contents) ?_ ?_
  · refine (hwritable.kind_put contents _).trans ?_
    rw [if_neg ?_]
    · exact h.cwd
    · intro heq
      exact h.not_folder hpaths hpath hreachable.1.text_ne_nil (heq ▸ h.cwd)
  · intro key
    rw [hmem, HashMap.lookup_insert]
  · intro names _ hfolder
    rw [hwritable.kind_put] at hfolder
    split at hfolder
    · cases hfolder
    · exact .inl hfolder

theorem Mirror.removeFile {path : Path .file} (hpath : path ∈ paths) {contents : Str}
    (hfile : engines.disk.tree.file (engines.disk.located path.fullPath) = some contents)
    (mem : BlockingMemIo) (hmem : mem.files.lookup = (engines.mem.files.erase path.key).lookup) :
    Mirror paths ⟨⟨engines.disk.tree.remove (engines.disk.located path.fullPath),
      engines.disk.cwd⟩, mem⟩ := by
  have hne := FileTree.file_ne_root hfile
  refine h.update hpaths hpath none (h.rooted.remove_file hfile) rfl ?_
    (FileTree.file_remove _ hne) ?_ ?_
  · refine (FileTree.kind_remove _ hne _).trans ?_
    rw [if_neg ?_]
    · exact h.cwd
    · intro heq
      have hkind := FileTree.file_eq_some.mp hfile
      rw [← heq, h.cwd] at hkind
      cases hkind
  · intro key
    rw [hmem, HashMap.lookup_erase]
  · intro names _ hfolder
    rw [FileTree.kind_remove _ hne] at hfolder
    split at hfolder
    · cases hfolder
    · exact .inl hfolder

theorem Mirror.deleteFile {path : Path .file} (hpath : path ∈ paths)
    (hfits : Stored engines.disk path → path.fullPath.Usable) :
    Same (done (BlockingDiskIo.deleteFile engines.disk path).1)
        (done (engines.mem.deleteFile path).1) ∧
      Mirror paths ⟨(BlockingDiskIo.deleteFile engines.disk path).2,
        (engines.mem.deleteFile path).2⟩ := by
  have hrelative := hpaths.relative path hpath
  have hholds := h.holds_iff hpaths hpath hfits
  unfold BlockingDiskIo.deleteFile BlockingDiskIo.tagged BlockingMemIo.deleteFile
  cases hlookup : engines.mem.files.lookup path.key with
  | none =>
      obtain ⟨error, herror⟩ := Disk.removeFile_error hrelative fun contents hheld => by
        rw [(hholds contents).mp hheld] at hlookup
        contradiction
      rw [herror]
      exact ⟨trivial, h⟩
  | some contents =>
      have hheld := (hholds contents).mpr hlookup
      rw [Disk.removeFile_ok hrelative h.rooted hheld]
      exact ⟨rfl, h.removeFile hpaths hpath hheld.2 _ rfl⟩

theorem Mirror.moveFile {source target : Path .file} (hsource : source ∈ paths)
    (htarget : target ∈ paths) (hfits : Fits engines.disk (.moveFile source target)) :
    Same (done (BlockingDiskIo.moveFile engines.disk source target).1)
        (done (engines.mem.moveFile source target).1) ∧
      Mirror paths ⟨(BlockingDiskIo.moveFile engines.disk source target).2,
        (engines.mem.moveFile source target).2⟩ := by
  have hrelative := hpaths.relative source hsource
  have hholds := h.holds_iff hpaths hsource fun hstored => (hfits hstored).1
  unfold BlockingDiskIo.moveFile BlockingDiskIo.tagged BlockingMemIo.moveFile
  cases hlookup : engines.mem.files.lookup source.key with
  | none =>
      obtain ⟨error, herror⟩ := Disk.rename_error hrelative (fun contents hheld => by
        rw [(hholds contents).mp hheld] at hlookup
        contradiction) (h.not_folder hpaths hsource) target.fullPath
      rw [herror]
      exact ⟨trivial, h⟩
  | some contents =>
      have hheld := (hholds contents).mpr hlookup
      obtain ⟨_, hreachable⟩ := hfits (Option.isSome_iff_exists.mpr ⟨contents, hheld.2⟩)
      rw [Disk.rename_ok hrelative h.rooted hheld (hpaths.relative target htarget)
        (h.writable hpaths htarget hreachable)]
      have hremoved := h.removeFile hpaths hsource hheld.2 ⟨engines.mem.files.erase source.key⟩ rfl
      have hstays : Reachable ⟨engines.disk.tree.remove (engines.disk.located source.fullPath),
          engines.disk.cwd⟩ target := by
        refine ⟨hreachable.1, (FileTree.kind_remove _ (FileTree.file_ne_root hheld.2) _).trans ?_⟩
        rw [if_neg ?_]
        · exact hreachable.2
        · intro heq
          have hfolder := hreachable.2
          change engines.disk.parentOf target.fullPath = _ at heq
          rw [heq, FileTree.file_eq_some.mp hheld.2] at hfolder
          cases hfolder
      exact ⟨rfl, hremoved.putFile hpaths htarget hstays contents _ rfl⟩

theorem Mirror.copyFile {source target : Path .file} (hsource : source ∈ paths)
    (htarget : target ∈ paths) (hfits : Fits engines.disk (.copyFile source target)) :
    Same (done (BlockingDiskIo.copyFile engines.disk source target).1)
        (done (engines.mem.copyFile source target).1) ∧
      Mirror paths ⟨(BlockingDiskIo.copyFile engines.disk source target).2,
        (engines.mem.copyFile source target).2⟩ := by
  have hrelative := hpaths.relative source hsource
  have hholds := h.holds_iff hpaths hsource fun hstored => (hfits hstored).1
  unfold BlockingDiskIo.copyFile BlockingDiskIo.tagged BlockingMemIo.copyFile
  cases hlookup : engines.mem.files.lookup source.key with
  | none =>
      obtain ⟨error, herror⟩ := Disk.copy_error hrelative h.rooted (fun contents hheld => by
        rw [(hholds contents).mp hheld] at hlookup
        contradiction) target.fullPath
      rw [herror]
      exact ⟨trivial, h⟩
  | some contents =>
      have hheld := (hholds contents).mpr hlookup
      obtain ⟨_, hreachable, hself⟩ := hfits (Option.isSome_iff_exists.mpr ⟨contents, hheld.2⟩)
      have hwritable := h.writable hpaths htarget hreachable
      have hfinal : (if engines.disk.located source.fullPath =
          engines.disk.located target.fullPath then [] else contents) = contents := by
        split
        · next heq =>
          have hempty := hself heq
          rw [hheld.2] at hempty
          exact (Option.some.inj hempty).symm
        · rfl
      rw [Disk.copy_ok h.rooted hrelative (hpaths.relative target htarget) hheld hwritable, hfinal]
      have hopened := h.putFile hpaths htarget hreachable [] ⟨engines.mem.files.insert target.key []⟩
        rfl
      have hagain := hwritable.again []
      refine ⟨rfl, hopened.putFile hpaths htarget ⟨hagain.usable, hagain.parent⟩ contents _ ?_⟩
      funext key
      rw [HashMap.lookup_insert, HashMap.lookup_insert, HashMap.lookup_insert]
      split
      · rfl
      · rfl

-- A write makes its folders first, and then only the file is new.
theorem Mirror.made {path : Path .file} (hpath : path ∈ paths) {made : Disk}
    (hmade : Disk.Made engines.disk engines.disk.cwd path.fullPath.nameSegments.dropLast made)
    (husable : path.fullPath.Usable) : Mirror paths ⟨made, engines.mem⟩ := by
  have hnames := (hpaths.relative path hpath).names_ne_nil husable.text_ne_nil
  have hproper (front : List Str) (hfront : front <+: path.fullPath.nameSegments.dropLast) :
      front ≠ path.fullPath.nameSegments := by
    rintro rfl
    have hlength := hfront.length_le
    have hpos := List.length_pos_of_ne_nil hnames
    rw [List.length_dropLast] at hlength
    omega
  refine ⟨hmade.rooted, ?_, ?_, ?_, ?_⟩
  · change made.tree.kind made.cwd = _
    rw [hmade.cwd]
    by_cases hnil : path.fullPath.nameSegments.dropLast = []
    · have hfolder := hmade.folder
      rw [hnil, List.append_nil] at hfolder
      exact hfolder
    · exact hmade.rooted.folder_of_prefix hnil (by rw [hmade.folder]; rfl)
  · intro names
    rw [hmade.file, hmade.cwd]
    exact h.files names
  · intro names hsome
    rw [hmade.file, hmade.cwd] at hsome
    exact h.used names hsome
  · intro names hne hfolder
    rw [hmade.cwd] at hfolder
    rcases hmade.inner _ hfolder with hold | ⟨front, hfront, heq⟩
    · exact h.folders names hne hold
    · rw [(List.append_right_inj _).mp heq]
      exact ⟨path, hpath, hfront.trans (List.dropLast_prefix _), hproper front hfront⟩

theorem Mirror.writeFile {path : Path .file} (hpath : path ∈ paths)
    (husable : path.fullPath.Usable) (data : Str) :
    Same (done (BlockingDiskIo.writeFile engines.disk path data).1)
        (done (engines.mem.writeFile path data).1) ∧
      Mirror paths ⟨(BlockingDiskIo.writeFile engines.disk path data).2,
        (engines.mem.writeFile path data).2⟩ := by
  have hrelative := hpaths.relative path hpath
  have hnames := hrelative.names_ne_nil husable.text_ne_nil
  obtain ⟨made, hmake, hmade⟩ := Disk.makeParent_ok h.rooted h.cwd hrelative husable
    fun front hfront => h.not_file hpaths hpath hfront hnames
  have hmirror := h.made hpaths hpath hmade husable
  have hreachable : Reachable made path := by
    refine ⟨husable, ?_⟩
    unfold Disk.parentOf
    rw [hmade.cwd]
    exact hmade.folder
  unfold BlockingDiskIo.writeFile BlockingDiskIo.tagged
  rw [hmake]
  dsimp only
  rw [Disk.write_ok hrelative hmade.rooted (hmirror.writable hpaths hpath hreachable)]
  exact ⟨rfl, hmirror.putFile hpaths hpath hreachable data _ rfl⟩

end Mirror

-- One operation that fits: the same outcome, and the same files.
theorem call_same {engines : Engines} (h : Mirror paths engines) (op : Op)
    (hop : ∀ path ∈ op.paths, path ∈ paths) (hfits : Fits engines.disk op) :
    Same (call engines.disk op).1 (call engines.mem op).1 ∧
      Mirror paths ⟨(call engines.disk op).2, (call engines.mem op).2⟩ := by
  cases op with
  | readFile path =>
      refine ⟨?_, h⟩
      have hread := h.readToString_iff hpaths (hop path List.mem_cons_self) hfits
      change Same ((BlockingDiskIo.readFile engines.disk path).map .text)
        ((engines.mem.readFile path).map .text)
      unfold BlockingDiskIo.readFile BlockingMemIo.readFile
      cases hlookup : engines.mem.files.lookup path.key with
      | some contents =>
          rw [(hread contents).mpr hlookup]
          rfl
      | none =>
          cases hdisk : engines.disk.readToString path.fullPath with
          | error error => exact trivial
          | ok contents =>
              rw [(hread contents).mp hdisk] at hlookup
              contradiction
  | writeFile path data => exact h.writeFile hpaths (hop path List.mem_cons_self) hfits data
  | fileExists path =>
      refine ⟨?_, h⟩
      have hread := h.readToString_iff hpaths (hop path List.mem_cons_self) hfits
      refine congrArg Output.bool ?_
      change (engines.disk.readToString path.fullPath).isOk =
        (engines.mem.files.lookup path.key).isSome
      cases hlookup : engines.mem.files.lookup path.key with
      | some contents =>
          rw [(hread contents).mpr hlookup]
          rfl
      | none =>
          cases hdisk : engines.disk.readToString path.fullPath with
          | error error => rfl
          | ok contents =>
              rw [(hread contents).mp hdisk] at hlookup
              contradiction
  | deleteFile path => exact h.deleteFile hpaths (hop path List.mem_cons_self) hfits
  | moveFile source target =>
      exact h.moveFile hpaths (hop source List.mem_cons_self)
        (hop target (List.mem_cons_of_mem _ List.mem_cons_self)) hfits
  | copyFile source target =>
      exact h.copyFile hpaths (hop source List.mem_cons_self)
        (hop target (List.mem_cons_of_mem _ List.mem_cons_self)) hfits

theorem step_same (before : Engines) (label : Op × Outcome × Outcome) (after : Engines)
    (h : Mirror paths before) (step : FittingStep before label after)
    (hlabel : ∀ path ∈ label.1.paths, path ∈ paths) :
    Mirror paths after ∧ Same label.2.1 label.2.2 := by
  obtain ⟨⟨hdisk, hmem⟩, hfits⟩ := step
  obtain ⟨hsame, hmirror⟩ := call_same hpaths h label.1 hlabel hfits
  rw [hdisk, hmem] at hsame hmirror
  exact ⟨hmirror, hsame⟩

omit hpaths

-- As long as every move and copy has a folder to go to, no file is copied onto
-- itself and a file's path ends in its name, the engines answer the same.
theorem interchange_agree (start finish : Engines) (trace : List (Op × Outcome × Outcome))
    (hstart : Starts start)
    (hpaths : Admissible (trace.flatMap fun label => label.1.paths))
    (run : Run FittingStep start trace finish) :
    ∀ label ∈ trace, Same label.2.1 label.2.2 := by
  have hused (label : Op × Outcome × Outcome) (h : label ∈ trace) :
      ∀ path ∈ label.1.paths, path ∈ trace.flatMap fun label => label.1.paths :=
    fun path hpath => List.mem_flatMap.mpr ⟨label, h, hpath⟩
  exact ((run.restrict hused).forall_label (Mirror _) (fun label => Same label.2.1 label.2.2)
    hstart.mirror fun before label after h step =>
      step_same hpaths before label after h step.1 step.2).2

-- Two empty engines.
def empty : Engines :=
  ⟨⟨.empty, []⟩, .new⟩

theorem starts_empty : Starts empty := by
  refine ⟨FileTree.rooted_empty, rfl, fun names hne => ?_, rfl⟩
  change (if names = [] then _ else _) = _
  rw [if_neg hne]
  rfl

def Engines.call (engines : Engines) (op : Op) : (Outcome × Outcome) × Engines :=
  (((Interchange.call engines.disk op).1, (Interchange.call engines.mem op).1),
    ⟨(Interchange.call engines.disk op).2, (Interchange.call engines.mem op).2⟩)

theorem fittingStep_call (engines : Engines) (op : Op) (hfits : Fits engines.disk op) :
    FittingStep engines (op, (engines.call op).1) (engines.call op).2 :=
  ⟨⟨rfl, rfl⟩, hfits⟩

def file : Path .file :=
  Path.new ['a']

-- Two files, of which one is copied and then replaced by the other.
def script : List Op :=
  [.writeFile file ['x'], .writeFile (Path.new ['b']) ['y'], .copyFile file (Path.new ['c']),
    .moveFile (Path.new ['b']) file, .readFile file, .readFile (Path.new ['b'])]

theorem usable_name {c : Char} (hdot : c ≠ '.') (hslash : c ≠ '/') (hnul : c ≠ Disk.nul) :
    Usable ⟨[c]⟩ := by
  have hsplit : [c].splitOn '/' = [[c]] := List.splitOn_eq_singleton (by simpa using hslash.symm)
  refine ⟨by simpa using hnul.symm, fun segment hsegment => ?_⟩
  rw [hsplit] at hsegment
  obtain rfl := Option.some.inj hsegment
  simpa [PathBuf.skipped] using hdot

theorem script_fits : Along Engines.call (fun engines => Fits engines.disk) empty script := by
  have ha : Usable ⟨['a']⟩ := usable_name (by decide) (by decide) (by decide)
  have hb : Usable ⟨['b']⟩ := usable_name (by decide) (by decide) (by decide)
  have hc : Usable ⟨['c']⟩ := usable_name (by decide) (by decide) (by decide)
  refine ⟨ha, hb, fun _ => ⟨ha, ⟨hc, rfl⟩, fun hsame => ?_⟩, fun _ => ⟨hb, ha, rfl⟩, fun _ => ha,
    fun _ => hb, trivial⟩
  exact absurd hsame (by decide +kernel)

theorem script_admissible : Admissible (script.flatMap Op.paths) := by
  refine ⟨?_, by decide +kernel⟩
  intro path hpath component hcomponent
  have hplain : ∀ path ∈ script.flatMap Op.paths, ∀ component ∈ path.fullPath.components,
      component ∈ [Component.normal ['a'], .normal ['b'], .normal ['c']] := by
    decide +kernel
  have hnormal := hplain path hpath component hcomponent
  simp only [List.mem_cons, List.not_mem_nil, or_false] at hnormal
  rcases hnormal with rfl | rfl | rfl
  · exact ⟨_, rfl⟩
  · exact ⟨_, rfl⟩
  · exact ⟨_, rfl⟩

theorem interchange_agree_written :
    let engines := played Engines.call empty script
    engines.1.map (fun label => label.2.2) = [.ok .unit, .ok .unit, .ok .unit, .ok .unit,
      .ok (.text ['y']), .error (BlockingMemIo.fileNotFound ⟨['b']⟩)] ∧
    ∀ label ∈ engines.1, Same label.2.1 label.2.2 :=
  ⟨by decide +kernel, interchange_agree empty _ _ starts_empty script_admissible
    (run_along fittingStep_call script_fits)⟩

-- What the engines hold after one write.
def written : Engines :=
  ⟨(call empty.disk (.writeFile file ['x'])).2, (call empty.mem (.writeFile file ['x'])).2⟩

theorem step_written : Step empty (.writeFile file ['x'], .ok .unit, .ok .unit) written := by
  refine ⟨Prod.ext ?_ rfl, rfl⟩
  decide +kernel

-- A file moved into a folder that was never made: the disk has none to put it in.
theorem interchange_agree_moved : ¬∀ (start finish : Engines) (trace : List (Op × Outcome × Outcome)),
    Starts start → Admissible (trace.flatMap fun label => label.1.paths) →
      Run Step start trace finish → ∀ label ∈ trace, Same label.2.1 label.2.2 := by
  intro h
  let target : Path .file := Path.new "d/b".toList
  let op : Op := .moveFile file target
  let missing : Outcome := .error (BlockingDiskIo.ioError ⟨['a']⟩ .notFound)
  have hmove : Step written (op, missing, .ok .unit)
      ⟨(call written.disk op).2, (call written.mem op).2⟩ := by
    refine ⟨Prod.ext ?_ rfl, Prod.ext ?_ rfl⟩
    · decide +kernel
    · decide +kernel
  have hpaths : Admissible [file, file, target] := by
    refine ⟨?_, by decide +kernel⟩
    intro path hpath component hcomponent
    have hnormal : component ∈ [.normal ['a'], .normal ['d'], .normal ['b']] := by
      rcases List.mem_cons.mp hpath with rfl | hpath
      · exact (List.mem_singleton.mp hcomponent) ▸ List.mem_cons_self
      · rcases List.mem_cons.mp hpath with rfl | hpath
        · exact (List.mem_singleton.mp hcomponent) ▸ List.mem_cons_self
        · obtain rfl := List.mem_singleton.mp hpath
          exact List.mem_cons_of_mem _ hcomponent
    simp only [List.mem_cons, List.not_mem_nil, or_false] at hnormal
    rcases hnormal with rfl | rfl | rfl
    · exact ⟨_, rfl⟩
    · exact ⟨_, rfl⟩
    · exact ⟨_, rfl⟩
  exact h empty _ [(.writeFile file ['x'], .ok .unit, .ok .unit), (op, missing, .ok .unit)]
    starts_empty hpaths (.snoc (.snoc .nil step_written) hmove) _
    (List.mem_cons_of_mem _ (List.mem_singleton_self _))

end Saps.Files.Interchange
