import Saps.Files.Backends
import Saps.Files.Interchange.Theorems

-- What the two engines have in common, and the file operations that keep it.
namespace Saps.Files

namespace Disk

variable {disk : Disk} {path : PathBuf}

theorem plain_names (hrelative : path.Relative) (hnul : nul ∉ path.text) :
    ∀ name ∈ path.nameSegments, PlainName name := by
  intro name hname
  have hlisted : name ∈ (path.text.splitOn '/').filter (¬ PathBuf.skipped ·) := hname
  obtain ⟨hsegment, hkept⟩ := List.mem_filter.mp hlisted
  exact ⟨of_decide_eq_true hkept, hrelative.not_parent hname,
    PathBuf.not_mem_splitOn hsegment, fun hmem => hnul (PathBuf.mem_of_mem_splitOn hsegment hmem)⟩

theorem Sound.plain_located (h : disk.Sound) (hrelative : path.Relative) (hnul : nul ∉ path.text) :
    ∀ name ∈ disk.located path, PlainName name := by
  intro name hname
  rcases List.mem_append.mp hname with hname | hname
  · exact h.named disk.cwd (by rw [h.cwd]; rfl) name hname
  · exact plain_names hrelative hnul name hname

theorem Sound.putFile (h : disk.Sound) (hrelative : path.Relative) (hwritable : disk.Writable path)
    (contents : Str) : (disk.putFile path contents).Sound := by
  have hkind := hwritable.kind_put contents
  refine ⟨hwritable.rooted_put contents h.rooted, ?_, ?_⟩
  · refine (hkind disk.cwd).trans ?_
    rw [if_neg ?_]
    · exact h.cwd
    · intro heq
      exact hwritable.free ((congrArg disk.tree.kind heq).symm.trans h.cwd)
  · intro location hsome name hname
    rw [hkind] at hsome
    split at hsome
    · next heq => exact h.plain_located hrelative hwritable.usable.1 name (heq ▸ hname)
    · exact h.named location hsome name hname

theorem Sound.removeFile (h : disk.Sound) {location : Location} {contents : Str}
    (hfile : disk.tree.file location = some contents) :
    Sound { disk with tree := disk.tree.remove location } := by
  have hkind := FileTree.kind_remove disk.tree (FileTree.file_ne_root hfile)
  refine ⟨h.rooted.remove_file hfile, ?_, ?_⟩
  · refine (hkind disk.cwd).trans ?_
    rw [if_neg ?_]
    · exact h.cwd
    · rintro rfl
      rw [FileTree.file, h.cwd] at hfile
      contradiction
  · intro other hsome name hname
    rw [hkind] at hsome
    split at hsome
    · contradiction
    · exact h.named other hsome name hname

-- What is made on the way to a path is sound.
theorem makeParent_extended (h : disk.Sound) {made : Disk}
    (hmake : BlockingDiskIo.makeParent disk path = (.ok (), made)) : disk.Extended made := by
  unfold BlockingDiskIo.makeParent BlockingDiskIo.tagged at hmake
  split at hmake
  · obtain rfl := (Prod.ext_iff.mp hmake).2
    exact .refl h
  · next parent _ =>
    obtain ⟨hresult, rfl⟩ := Prod.ext_iff.mp hmake
    cases hanswer : disk.createDirAll parent with
    | mk answer made =>
        rw [hanswer] at hresult
        cases answer with
        | error error => cases hresult
        | ok _ => exact (createDirAll_leads h hanswer).1

end Disk

namespace Backends

open Interchange (Stored keyAt keyAt_inj)
open FlatEngines (done)

theorem key_relative {kind : PathType} {path : Path kind} (h : path.fullPath.Relative) :
    path.key = keyAt path.fullPath.nameSegments :=
  PathBuf.Key.ext h.components_eq

-- The map holds what the disk holds below the working directory, and nothing else.
structure Mirror (disk : Disk) (mem : BlockingMemIo) : Prop where
  sound : disk.Sound
  files : ∀ names, mem.files.lookup (keyAt names) = disk.tree.file (disk.cwd ++ names)
  keyed : ∀ key, (mem.files.lookup key).isSome → ∃ names, key = keyAt names

-- One operation on both engines: the disk answers, given enough fuel, and whatever it
-- answers goes with what the map answers.
structure Agrees (disk : Disk) (mem : BlockingMemIo) (op : FlatEngines.Op) : Prop where
  answers : ∃ fuel, diskCall fuel disk op ≠ none
  alike : ∀ fuel answer, diskCall fuel disk op = some answer →
    Alike answer.1 (FlatEngines.memCall mem op).1 ∧
      Mirror answer.2 (FlatEngines.memCall mem op).2

section Files

variable {disk : Disk} {mem : BlockingMemIo} (h : Mirror disk mem)

include h

theorem Mirror.lookup {kind : PathType} {path : Path kind} (hrelative : path.fullPath.Relative) :
    mem.files.lookup path.key = disk.tree.file (disk.located path.fullPath) := by
  rw [key_relative hrelative, h.files]
  rfl

theorem Mirror.holds_iff {path : Path .file} (hrelative : path.fullPath.Relative)
    (hfits : Stored disk path → path.fullPath.Usable) (contents : Str) :
    disk.Holds path.fullPath contents ↔ mem.files.lookup path.key = some contents := by
  rw [h.lookup hrelative]
  refine ⟨fun hholds => hholds.2, fun hfile => ⟨hfits ?_, hfile⟩⟩
  exact Option.isSome_iff_exists.mpr ⟨contents, hfile⟩

-- Nothing but the folders of the disk has changed.
theorem Mirror.extended {made : Disk} (hmade : disk.Extended made) : Mirror made mem := by
  refine ⟨hmade.sound, fun names => ?_, h.keyed⟩
  rw [hmade.file, hmade.cwd]
  exact h.files names

theorem Mirror.of_lookup {mem' : BlockingMemIo}
    (hlookup : mem'.files.lookup = mem.files.lookup) : Mirror disk mem' := by
  refine ⟨h.sound, fun names => ?_, fun key hsome => h.keyed key ?_⟩
  · rw [hlookup]
    exact h.files names
  · rw [← hlookup]
    exact hsome

-- The file of one path has changed.
theorem Mirror.update {path : Path .file} (hrelative : path.fullPath.Relative) {disk' : Disk}
    {mem' : BlockingMemIo} (value : Option Str) (hsound : disk'.Sound) (hcwd : disk'.cwd = disk.cwd)
    (hdisk : ∀ location, disk'.tree.file location =
      if location = disk.located path.fullPath then value else disk.tree.file location)
    (hmem : ∀ key, mem'.files.lookup key =
      if key = path.key then value else mem.files.lookup key) : Mirror disk' mem' := by
  have hkey := key_relative hrelative
  refine ⟨hsound, fun names => ?_, fun key hsome => ?_⟩
  · rw [hmem, hdisk, h.files, hcwd, hkey]
    have hwhere : disk.cwd ++ names = disk.located path.fullPath ↔
        names = path.fullPath.nameSegments := List.append_right_inj _
    by_cases hnames : names = path.fullPath.nameSegments
    · rw [if_pos (congrArg keyAt hnames), if_pos (hwhere.mpr hnames)]
    · rw [if_neg fun heq => hnames (keyAt_inj heq), if_neg fun heq => hnames (hwhere.mp heq)]
  · rw [hmem] at hsome
    split at hsome
    · next heq => exact ⟨_, heq.trans hkey⟩
    · exact h.keyed key hsome

theorem Mirror.putFile {path : Path .file} (hrelative : path.fullPath.Relative)
    (hwritable : disk.Writable path.fullPath) (contents : Str) {mem' : BlockingMemIo}
    (hmem : mem'.files.lookup = (mem.files.insert path.key contents).lookup) :
    Mirror (disk.putFile path.fullPath contents) mem' := by
  refine h.update hrelative (some contents) (h.sound.putFile hrelative hwritable contents) rfl
    (hwritable.file_put contents) fun key => ?_
  rw [hmem, HashMap.lookup_insert]

theorem Mirror.removeFile {path : Path .file} (hrelative : path.fullPath.Relative)
    {contents : Str} (hfile : disk.tree.file (disk.located path.fullPath) = some contents) :
    Mirror { disk with tree := disk.tree.remove (disk.located path.fullPath) }
      ⟨mem.files.erase path.key⟩ :=
  h.update hrelative none (h.sound.removeFile hfile) rfl
    (FileTree.file_remove _ (FileTree.file_ne_root hfile)) fun _ => HashMap.lookup_erase _ _ _

theorem Mirror.readFile {path : Path .file} (hrelative : path.fullPath.Relative)
    (hfits : Stored disk path → path.fullPath.Usable) :
    (BlockingDiskIo.readFile disk path).toOption = mem.files.lookup path.key := by
  refine Option.ext fun contents => ?_
  rw [← h.holds_iff hrelative hfits, ← Disk.readToString_ok hrelative h.sound.rooted]
  unfold BlockingDiskIo.readFile
  cases disk.readToString path.fullPath with
  | error error => simp only [Except.mapError, Except.toOption, reduceCtorEq]
  | ok found => simp only [Except.mapError, Except.toOption, Option.some.injEq, Except.ok.injEq]

theorem Mirror.deleteFile {path : Path .file} (hrelative : path.fullPath.Relative)
    (hfits : Stored disk path → path.fullPath.Usable) :
    Alike (done (BlockingDiskIo.deleteFile disk path).1) (done (mem.deleteFile path).1) ∧
      Mirror (BlockingDiskIo.deleteFile disk path).2 (mem.deleteFile path).2 := by
  have hholds := h.holds_iff hrelative hfits
  unfold BlockingDiskIo.deleteFile BlockingDiskIo.tagged BlockingMemIo.deleteFile
  cases hlookup : mem.files.lookup path.key with
  | none =>
      obtain ⟨error, herror⟩ := Disk.removeFile_error hrelative fun contents hheld => by
        rw [(hholds contents).mp hheld] at hlookup
        contradiction
      rw [herror]
      exact ⟨trivial, h⟩
  | some contents =>
      have hheld := (hholds contents).mpr hlookup
      rw [Disk.removeFile_ok hrelative h.sound.rooted hheld]
      exact ⟨rfl, h.removeFile hrelative hheld.2⟩

theorem Mirror.moveFile {source target : Path .file} (hsource : source.fullPath.Relative)
    (htarget : target.fullPath.Relative)
    (hfile : disk.tree.kind (disk.located source.fullPath) ≠ some .folder)
    (hfits : Stored disk source → source.fullPath.Usable ∧ disk.Writable target.fullPath) :
    Alike (done (BlockingDiskIo.moveFile disk source target).1)
        (done (mem.moveFile source target).1) ∧
      Mirror (BlockingDiskIo.moveFile disk source target).2 (mem.moveFile source target).2 := by
  have hholds := h.holds_iff hsource fun hstored => (hfits hstored).1
  unfold BlockingDiskIo.moveFile BlockingDiskIo.tagged BlockingMemIo.moveFile
  cases hlookup : mem.files.lookup source.key with
  | none =>
      obtain ⟨error, herror⟩ := Disk.rename_error hsource (fun contents hheld => by
        rw [(hholds contents).mp hheld] at hlookup
        contradiction) (fun _ => hfile) target.fullPath
      rw [herror]
      exact ⟨trivial, h⟩
  | some contents =>
      have hheld := (hholds contents).mpr hlookup
      obtain ⟨_, hwritable⟩ := hfits (Option.isSome_iff_exists.mpr ⟨contents, hheld.2⟩)
      rw [Disk.rename_ok hsource h.sound.rooted hheld htarget hwritable]
      have hkind (location : Location) := FileTree.kind_remove disk.tree
        (FileTree.file_ne_root hheld.2) location
      have hstays : Disk.Writable { disk with
          tree := disk.tree.remove (disk.located source.fullPath) } target.fullPath := by
        refine ⟨hwritable.usable, (hkind _).trans ?_, fun hfolder => ?_⟩
        · rw [if_neg ?_]
          · exact hwritable.parent
          · intro heq
            have hfolder := hwritable.parent
            change disk.parentOf target.fullPath = _ at heq
            rw [heq, FileTree.file_eq_some.mp hheld.2] at hfolder
            cases hfolder
        · rw [hkind] at hfolder
          split at hfolder
          · contradiction
          · exact hwritable.free hfolder
      exact ⟨rfl, (h.removeFile hsource hheld.2).putFile htarget hstays contents rfl⟩

theorem Mirror.copyFile {source target : Path .file} (hsource : source.fullPath.Relative)
    (htarget : target.fullPath.Relative)
    (hfits : Stored disk source → source.fullPath.Usable ∧ disk.Writable target.fullPath ∧
      (disk.located source.fullPath = disk.located target.fullPath →
        disk.tree.file (disk.located source.fullPath) = some [])) :
    Alike (done (BlockingDiskIo.copyFile disk source target).1)
        (done (mem.copyFile source target).1) ∧
      Mirror (BlockingDiskIo.copyFile disk source target).2 (mem.copyFile source target).2 := by
  have hholds := h.holds_iff hsource fun hstored => (hfits hstored).1
  unfold BlockingDiskIo.copyFile BlockingDiskIo.tagged BlockingMemIo.copyFile
  cases hlookup : mem.files.lookup source.key with
  | none =>
      obtain ⟨error, herror⟩ := Disk.copy_error hsource h.sound.rooted (fun contents hheld => by
        rw [(hholds contents).mp hheld] at hlookup
        contradiction) target.fullPath
      rw [herror]
      exact ⟨trivial, h⟩
  | some contents =>
      have hheld := (hholds contents).mpr hlookup
      obtain ⟨_, hwritable, hself⟩ := hfits (Option.isSome_iff_exists.mpr ⟨contents, hheld.2⟩)
      have hfinal : (if disk.located source.fullPath = disk.located target.fullPath then []
          else contents) = contents := by
        split
        · next heq =>
          have hempty := hself heq
          rw [hheld.2] at hempty
          exact (Option.some.inj hempty).symm
        · rfl
      rw [Disk.copy_ok h.sound.rooted hsource htarget hheld hwritable, hfinal]
      have hopened : Mirror (disk.putFile target.fullPath []) ⟨mem.files.insert target.key []⟩ :=
        h.putFile htarget hwritable [] rfl
      refine ⟨rfl, hopened.putFile htarget (hwritable.again []) contents ?_⟩
      funext key
      rw [HashMap.lookup_insert, HashMap.lookup_insert, HashMap.lookup_insert]
      split
      · rfl
      · rfl

-- A write makes its folders first, and then only the file is new.
theorem Mirror.writeFile {path : Path .file} (hrelative : path.fullPath.Relative)
    (husable : path.fullPath.Usable)
    (hfree : disk.tree.kind (disk.located path.fullPath) ≠ some .folder)
    (hpassable : Passable disk path.fullPath.nameSegments.dropLast) (data : Str) :
    Alike (done (BlockingDiskIo.writeFile disk path data).1) (done (mem.writeFile path data).1) ∧
      Mirror (BlockingDiskIo.writeFile disk path data).2 (mem.writeFile path data).2 := by
  have hnames := hrelative.names_ne_nil husable.text_ne_nil
  obtain ⟨made, hmake, hmade⟩ := Disk.makeParent_ok h.sound.rooted h.sound.cwd hrelative husable
    hpassable
  have hmirror := h.extended (Disk.makeParent_extended h.sound hmake)
  have hwritable : made.Writable path.fullPath := by
    refine ⟨husable, ?_, fun hfolder => ?_⟩
    · unfold Disk.parentOf
      rw [hmade.cwd]
      exact hmade.folder
    · unfold Disk.located at hfolder
      rw [hmade.cwd] at hfolder
      rcases hmade.inner _ hfolder with hold | ⟨front, hfront, heq⟩
      · exact hfree hold
      · have hlength := hfront.length_le
        rw [← List.append_cancel_left heq, List.length_dropLast] at hlength
        have hpos := List.length_pos_of_ne_nil hnames
        omega
  unfold BlockingDiskIo.writeFile BlockingDiskIo.tagged
  rw [hmake]
  dsimp only
  rw [Disk.write_ok hrelative hmade.rooted hwritable]
  exact ⟨rfl, hmirror.putFile hrelative hwritable data rfl⟩

end Files

end Backends

end Saps.Files
