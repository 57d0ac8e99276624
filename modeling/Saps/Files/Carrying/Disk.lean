import Saps.Files.Backends.Moves
import Saps.Files.Carrying
import Saps.Files.DiskSession.Theorems
import Saps.Files.Relocation.Theorems

-- What the disk does with the texts of its files.
namespace Saps.Files

namespace Disk

open PathBuf (named skipped Usable)

variable {disk : Disk}

-- Nothing that stood on the disk is gone, and the working folder is the same.
structure Kept (disk after : Disk) : Prop where
  cwd : after.cwd = disk.cwd
  rooted : after.tree.Rooted
  folder : ∀ location, disk.tree.kind location = some .folder →
    after.tree.kind location = some .folder

theorem Kept.refl (h : disk.tree.Rooted) : Kept disk disk :=
  ⟨rfl, h, fun _ => id⟩

theorem Kept.trans {mid after : Disk} (h : Kept disk mid) (h' : Kept mid after) :
    Kept disk after :=
  ⟨h'.cwd.trans h.cwd, h'.rooted, fun location hfolder => h'.folder location (h.folder location hfolder)⟩

theorem folder_dropLast (h : disk.tree.Rooted) {location : Location}
    (hfolder : disk.tree.kind location = some .folder) :
    disk.tree.kind location.dropLast = some .folder := by
  rcases List.eq_nil_or_concat' location with rfl | ⟨front, last, rfl⟩
  · exact hfolder
  · rw [List.dropLast_concat]
    exact h front last (by rw [hfolder]; rfl)

theorem kept_put (h : disk.tree.Rooted) {location : Location} {name : Str} {entry : Entry Str}
    (hparent : disk.tree.kind location = some .folder)
    (hfree : entry = .folder ∨ disk.tree.kind (location ++ [name]) ≠ some .folder) :
    Kept disk { disk with tree := disk.tree.put (location ++ [name]) entry } := by
  refine ⟨rfl, h.put hparent hfree, fun other hfolder => ?_⟩
  have hne : location ++ [name] ≠ [] := List.append_ne_nil_of_right_ne_nil _ (List.cons_ne_nil _ _)
  refine (FileTree.kind_put _ hne _ _).trans ?_
  split
  · next heq =>
    rcases hfree with rfl | hfree
    · rfl
    · exact absurd (heq ▸ hfolder) hfree
  · exact hfolder

theorem makeFolders_kept (h : disk.tree.Rooted) {here : Location}
    (hhere : disk.tree.kind here = some .folder) (components : Components) :
    Kept disk (disk.makeFolders here components).2 := by
  induction components generalizing disk here with
  | nil => exact .refl h
  | cons component components ih =>
      cases component with
      | rootDir => exact ih h rfl
      | curDir => exact ih h hhere
      | parentDir => exact ih h (folder_dropLast h hhere)
      | normal name =>
          unfold makeFolders
          split
          · next hkind => exact ih h hkind
          · exact .refl h
          · have hput : Kept disk { disk with tree := disk.tree.put (here ++ [name]) .folder } :=
              kept_put h hhere (.inl rfl)
            have hne : here ++ [name] ≠ [] :=
              List.append_ne_nil_of_right_ne_nil _ (List.cons_ne_nil _ _)
            refine hput.trans (ih hput.rooted ?_)
            refine (FileTree.kind_put _ hne _ _).trans ?_
            rw [if_pos rfl]

-- What segments lead to stands in a folder.
theorem walk_parent (h : disk.tree.Rooted) {text : Str} {segments : List Str} (hne : segments ≠ [])
    {front : Location} {last : Str} (hwalk : disk.walk text segments = .ok (front ++ [last])) :
    disk.tree.kind front = some .folder := by
  obtain ⟨_, _, hsteps⟩ := walk_ok.mp hwalk
  rw [← List.dropLast_append_getLast hne] at hsteps
  obtain ⟨middle, _, hkind, heq⟩ := foldlM_snoc_ok.mp hsteps
  unfold advance at heq
  split at heq
  · exact h front last (by rw [heq, hkind]; rfl)
  · split at heq
    · exact h front last (by rw [heq, folder_dropLast h hkind]; rfl)
    · obtain ⟨rfl, _⟩ := List.append_inj' heq rfl
      exact hkind

theorem write_kept (h : disk.tree.Rooted) (path : PathBuf) (data : Str) :
    Kept disk (disk.write path data).2 := by
  unfold write
  cases hentry : disk.entry path.text with
  | error error => exact .refl h
  | ok location =>
      dsimp only
      split
      · exact .refl h
      · next hslash =>
        rw [entry_of_not_slashed hslash] at hentry
        split
        · exact .refl h
        · next hkind =>
          rcases List.eq_nil_or_concat' location with rfl | ⟨front, last, rfl⟩
          · exact absurd rfl hkind
          · exact kept_put h (walk_parent h (List.splitOn_ne_nil _ _) hentry) (.inr hkind)

theorem writeFile_kept (h : disk.tree.Rooted) (hcwd : disk.tree.kind disk.cwd = some .folder)
    (path : Path .file) (data : Str) : Kept disk (BlockingDiskIo.writeFile disk path data).2 := by
  have hmade : Kept disk (BlockingDiskIo.makeParent disk path.fullPath).2 := by
    unfold BlockingDiskIo.makeParent BlockingDiskIo.tagged createDirAll
    split
    · exact .refl h
    · next parent _ =>
      by_cases hnul : nul ∈ parent.text
      · rw [if_pos hnul]
        exact .refl h
      · rw [if_neg hnul]
        exact makeFolders_kept h hcwd parent.components
  unfold BlockingDiskIo.writeFile
  rcases hmake : BlockingDiskIo.makeParent disk path.fullPath with ⟨_ | _, mid⟩
  · rw [hmake] at hmade
    exact hmade
  · rw [hmake] at hmade
    exact hmade.trans (write_kept hmade.rooted path.fullPath data)

theorem not_parent_of_not_dotted {path : PathBuf} (h : ¬path.key.Dotted) {segment : Str}
    (hsegment : segment ∈ path.nameSegments) : segment ≠ ['.', '.'] := by
  rintro rfl
  refine h (.inr ?_)
  have hmem : Component.parentDir ∈ PathBuf.names path.text := by
    rw [PathBuf.names_eq]
    exact List.mem_map.mpr ⟨_, hsegment, rfl⟩
  change Component.parentDir ∈ path.components
  unfold PathBuf.components
  split
  · exact List.mem_cons_of_mem _ hmem
  · split
    · exact List.mem_cons_of_mem _ hmem
    · exact hmem

theorem usable_of_last {path : PathBuf} (last : Str) (hnul : Disk.nul ∉ path.text)
    (hlast : (path.text.splitOn '/').getLast? = some last) (hnamed : ¬PathBuf.skipped last) :
    path.Usable := by
  refine ⟨hnul, fun segment hsegment => ?_⟩
  rw [hlast] at hsegment
  exact Option.some.inj hsegment ▸ hnamed

-- A path without dots that can be opened finds the file that is at its location.
theorem resolve_of_file (h : disk.tree.Rooted) {path : PathBuf} (husable : path.Usable)
    (hdots : ¬path.key.Dotted) {contents : Str}
    (hfile : disk.tree.file (path.key.spot.place disk.cwd) = some contents) :
    disk.resolve path.text = .ok (path.key.spot.place disk.cwd) := by
  obtain ⟨front, last, hsplit, hlast⟩ := husable.exists_last
  have hnames : path.nameSegments = named front ++ [last] := by
    unfold PathBuf.nameSegments
    rw [hsplit, named_snoc, if_neg hlast]
  have hup : last ≠ ['.', '.'] := not_parent_of_not_dotted hdots
    (hnames ▸ List.mem_append_right _ (List.mem_singleton_self _))
  have hfront (segment : Str) (hsegment : segment ∈ named front) : segment ≠ ['.', '.'] :=
    not_parent_of_not_dotted hdots (hnames ▸ List.mem_append_left _ hsegment)
  have hplace : path.key.spot.place disk.cwd = disk.start path.text ++ named front ++ [last] := by
    rw [Spot.place_spot, hsplit, List.foldl_append, foldl_advance _ hfront]
    unfold List.foldl advance
    rw [if_neg hlast, if_neg hup]
    rfl
  have hkind := FileTree.file_eq_some.mp hfile
  rw [hplace] at hkind ⊢
  have hfolder := h _ last (by rw [hkind]; rfl)
  refine resolve_ok.mpr ⟨husable.1, husable.text_ne_nil, ?_⟩
  rw [hsplit]
  refine foldlM_snoc_ok.mpr ⟨_, foldlM_step_of_folder h hfront hfolder, hfolder, ?_⟩
  unfold advance
  rw [if_neg hlast, if_neg hup]

-- No path finds a file that is not there.
theorem text_eq_none {path : Path .file} (h : disk.tree.file (path.spot.place disk.cwd) = none) :
    FileIo.text disk path = none := by
  unfold FileIo.text
  cases hread : FileIo.readFile disk path with
  | error error => rfl
  | ok contents =>
      rw [DiskSession.readFile_place hread] at h
      cases h

theorem text_eq (h : disk.tree.Rooted) {path : Path .file} (husable : path.fullPath.Usable)
    (hdots : ¬path.key.Dotted) :
    FileIo.text disk path = disk.tree.file (path.spot.place disk.cwd) := by
  cases hfile : disk.tree.file (path.spot.place disk.cwd) with
  | some contents =>
      have hresolve := resolve_of_file h husable hdots hfile
      have hkind : disk.tree.kind (path.fullPath.key.spot.place disk.cwd) = some (.file contents) :=
        FileTree.file_eq_some.mp hfile
      have hstring : disk.readToString path.fullPath = .ok contents := by
        unfold readToString
        rw [hresolve]
        dsimp only
        rw [hkind]
      have hread : FileIo.readFile disk path = .ok contents := by
        change (disk.readToString path.fullPath).mapError _ = _
        rw [hstring]
        rfl
      unfold FileIo.text
      rw [hread]
      rfl
  | none => exact text_eq_none hfile

-- Something has been taken, with all that stands under it, to a place that was free or
-- held a file in its stead.
structure Taken (disk after : Disk) (old new : Location) : Prop where
  cwd : after.cwd = disk.cwd
  rooted : after.tree.Rooted
  file : ∀ rest, after.tree.file (new ++ rest) = disk.tree.file (old ++ rest)
  free : ∀ rest, disk.tree.file (old ++ rest) = none → disk.tree.file (new ++ rest) = none

section Rename

variable (h : disk.tree.Rooted) {old new : Location} (hne : old ≠ new)

include h hne

theorem renameFolder_taken (hkind : disk.tree.kind old = some .folder)
    (hplaced : ∀ front last, new = front ++ [last] → disk.tree.kind front = some .folder)
    (hok : (disk.renameFolder old new).1 = .ok ()) :
    Taken disk (disk.renameFolder old new).2 old new := by
  have hbelow : ¬old <+: new := by
    intro hprefix
    unfold renameFolder at hok
    rw [if_neg hne, if_pos (List.isPrefixOf_iff_prefix.mpr hprefix)] at hok
    cases hok
  have hvacant : disk.tree.Vacant new := by
    unfold renameFolder at hok
    rw [if_neg hne, if_neg fun hprefix => hbelow (List.isPrefixOf_iff_prefix.mp hprefix)] at hok
    cases hnew : disk.tree.kind new with
    | none =>
        refine ⟨by simp [FileTree.file, hnew], fun rest hrest => ?_⟩
        by_contra hsome
        have hfolder := h.folder_of_prefix hrest (Option.isSome_iff_ne_none.mpr hsome)
        rw [hnew] at hfolder
        cases hfolder
    | some entry =>
        rw [hnew] at hok
        cases entry with
        | file contents => cases hok
        | folder =>
            refine ⟨by simp [FileTree.file, hnew, Entry.value], fun rest hrest => ?_⟩
            by_contra hsome
            have hroot : new ++ rest ≠ [] := List.append_ne_nil_of_right_ne_nil _ hrest
            have hany : (disk.tree.entries.keys.any fun location =>
                location ≠ new ∧ new.isPrefixOf location) = true := by
              refine List.any_eq_true.mpr ⟨new ++ rest, ?_, ?_⟩
              · rw [HashMap.mem_keys, FileTree.lookup_of_ne_root hroot]
                exact Option.isSome_iff_ne_none.mpr hsome
              · refine decide_eq_true ⟨by simpa using hrest, ?_⟩
                exact List.isPrefixOf_iff_prefix.mpr (List.prefix_append _ _)
            dsimp only at hok
            rw [if_pos hany] at hok
            cases hok
  have hbeside : Beside old new := by
    refine ⟨hbelow, ?_⟩
    rintro ⟨rest, rfl⟩
    have hrest : rest ≠ [] := by
      rintro rfl
      exact hne (List.append_nil _)
    rw [hvacant.below rest hrest] at hkind
    cases hkind
  rw [renameFolder_ok hbeside hvacant]
  have hfree (rest : Location) : disk.tree.file (new ++ rest) = none := by
    by_cases hrest : rest = []
    · rw [hrest, List.append_nil]
      exact hvacant.file
    · simp [FileTree.file, hvacant.below rest hrest]
  refine ⟨rfl, h.relocate hbeside hkind hvacant hplaced, fun rest => ?_, fun rest _ => hfree rest⟩
  refine (FileTree.file_relocate hbeside hvacant _).trans ?_
  unfold HashMap.carried
  rw [if_pos (List.prefix_append _ _), List.drop_left, hfree, Option.or_none]

theorem put_taken {contents : Str} (hkind : disk.tree.kind old = some (.file contents))
    (hfree : disk.tree.kind new ≠ some .folder)
    (hplaced : ∀ front last, new = front ++ [last] → disk.tree.kind front = some .folder) :
    Taken disk { disk with tree := (disk.tree.remove old).put new (.file contents) } old new := by
  have hfile := FileTree.file_eq_some.mpr hkind
  have hold := FileTree.file_ne_root hfile
  rcases List.eq_nil_or_concat' new with rfl | ⟨front, last, rfl⟩
  · exact absurd rfl hfree
  have hnew : front ++ [last] ≠ [] := List.append_ne_nil_of_right_ne_nil _ (List.cons_ne_nil _ _)
  have hremoved := FileTree.kind_remove disk.tree hold
  -- Nothing stands beneath a place where no folder is.
  have hbeneath {location rest : Location} (hnot : disk.tree.kind location ≠ some .folder)
      (hrest : rest ≠ []) : disk.tree.file (location ++ rest) = none := by
    by_contra hsome
    obtain ⟨text, htext⟩ := Option.ne_none_iff_exists'.mp hsome
    exact hnot (h.folder_of_prefix hrest (by rw [FileTree.file_eq_some.mp htext]; rfl))
  refine ⟨rfl, (h.remove_file hfile).put ?_ (.inr ?_), fun rest => ?_, fun rest hnone => ?_⟩
  · rw [hremoved, if_neg]
    · exact hplaced front last rfl
    · rintro rfl
      rw [hplaced front last rfl] at hkind
      cases hkind
  · rw [hremoved, if_neg hne.symm]
    exact hfree
  · refine (FileTree.file_put _ hnew _ _).trans ?_
    by_cases hrest : rest = []
    · rw [hrest, List.append_nil, List.append_nil, if_pos rfl, hfile]
      rfl
    · rw [if_neg (by simpa using hrest), FileTree.file_remove _ hold, hbeneath hfree hrest,
        hbeneath (by simp [hkind]) hrest]
      exact ite_self _
  · refine hbeneath hfree ?_
    rintro rfl
    rw [List.append_nil, hfile] at hnone
    cases hnone

omit hne in
theorem entry_parent {target : PathBuf} (hname : movable target)
    (hentry : disk.entry target.text = .ok new) (front : Location) (last : Str)
    (heq : new = front ++ [last]) : disk.tree.kind front = some .folder := by
  refine walk_parent h (fun hnil => ?_) (heq ▸ hentry)
  have hnone : lastSegment target = none := by
    refine List.getLast?_eq_none_iff.mpr (List.filter_eq_nil_iff.mpr fun segment hmem => ?_)
    simpa using List.rdropWhile_eq_nil_iff.mp hnil segment hmem
  unfold movable at hname
  rw [hnone] at hname
  cases hname

theorem rename_taken {source target : PathBuf} (hold : disk.entry source.text = .ok old)
    (hnew : disk.entry target.text = .ok new) (hok : (disk.rename source target).1 = .ok ()) :
    Taken disk (disk.rename source target).2 old new := by
  rcases rename_cases disk source target with
    ⟨error, herror⟩ | ⟨⟨_, hname⟩, _, _, hold', hnew', hdone⟩
  · rw [herror] at hok
    cases hok
  · obtain rfl := Except.ok.inj (hold.symm.trans hold')
    obtain rfl := Except.ok.inj (hnew.symm.trans hnew')
    have hplaced := entry_parent h hname hnew
    rcases hdone with ⟨hkind, hfolder⟩ | ⟨_, hfree, contents, hkind, hfile⟩
    · rw [hfolder] at hok ⊢
      exact renameFolder_taken h hne hkind hplaced hok
    · rw [hfile]
      exact put_taken h hne hkind hfree hplaced

end Rename

theorem tagged_ok {path : PathBuf} {result : Except IoError Unit × Disk} {after : Disk}
    (h : BlockingDiskIo.tagged path result = (.ok (), after)) : result = (.ok (), after) := by
  obtain ⟨_ | _, left⟩ := result
  · cases h
  · cases h
    rfl

theorem rename_entries {source target : PathBuf} (hok : (disk.rename source target).1 = .ok ()) :
    disk.entry source.text = .ok (source.key.spot.place disk.cwd) ∧
      disk.entry target.text = .ok (target.key.spot.place disk.cwd) := by
  rcases rename_cases disk source target with
    ⟨error, herror⟩ | ⟨_, old, new, hold, hnew, _⟩
  · rw [herror] at hok
    cases hok
  · rw [← Spot.entry_place hold, ← Spot.entry_place hnew]
    exact ⟨hold, hnew⟩

-- Each location goes by one path at most, which has no dots.
structure Spelled (cwd : Location) (keys : Set PathBuf.Key) : Prop where
  undotted : ∀ key ∈ keys, ¬key.Dotted
  alone : Set.InjOn (fun key => key.spot.place cwd) keys

-- A path to a file, which ends in a name.
def Names (keys : Set PathBuf.Key) (path : Path .file) : Prop :=
  path.fullPath.Usable ∧ path.key ∈ keys

structure Stands (cwd : Location) (disk : Disk) : Prop where
  cwd : disk.cwd = cwd
  rooted : disk.tree.Rooted
  folder : disk.tree.kind disk.cwd = some .folder

def Apart (cwd : Location) (source target : Path .folder) : Prop :=
  Beside (source.spot.place cwd) (target.spot.place cwd)

theorem Stands.kept {cwd : Location} {after : Disk} (h : Stands cwd disk) (hkept : Kept disk after) :
    Stands cwd after :=
  ⟨hkept.cwd.trans h.cwd, hkept.rooted, by rw [hkept.cwd]; exact hkept.folder _ h.folder⟩

theorem place_append (cwd : Location) (spot : Spot) (rest : List Str) :
    Spot.place cwd { spot with names := spot.names ++ rest } = spot.place cwd ++ rest := by
  unfold Spot.place
  rw [List.append_assoc]

-- What stands under a folder for its path stands there on the disk.
theorem place_under {source target : Path .folder} (hsource : source.key.components ≠ [])
    {path place : Path .file} (hdots : ¬path.key.Dotted)
    (hunder : path.key.startsWith source.key = true)
    (hplace : place.key = FlatEngines.newKey source.key target.key path.key) (cwd : Location) :
    ∃ rest, path.spot.place cwd = source.spot.place cwd ++ rest ∧
      place.spot.place cwd = target.spot.place cwd ++ rest := by
  obtain ⟨tail, hold, hnew⟩ := Relocation.newKey_under target.key hsource hunder
  obtain ⟨rest, rfl⟩ : ∃ rest : List Str, tail = rest.map .normal := by
    refine PathBuf.exists_names fun component hmem => ⟨?_, ?_, ?_⟩
    · rintro rfl
      have hinner : Component.rootDir ∈ path.key.components.tail := by
        obtain ⟨first, front, hfront⟩ := List.exists_cons_of_ne_nil hsource
        rw [hold, hfront]
        exact List.mem_append_right _ hmem
      exact (path.key.tail_inner _ hinner).1 rfl
    · rintro rfl
      exact hdots (.inl (hold ▸ List.mem_append_right _ hmem))
    · rintro rfl
      exact hdots (.inr (hold ▸ List.mem_append_right _ hmem))
  have hspot {key base : PathBuf.Key} (h : key.components = base.components ++ rest.map .normal) :
      key.spot.place cwd = base.spot.place cwd ++ rest := by
    unfold PathBuf.Key.spot
    rw [h, List.foldl_append, Spot.foldl_follow_normal]
    exact place_append cwd _ rest
  exact ⟨rest, hspot hold, hspot (hplace ▸ hnew)⟩

theorem folderShelves {cwd : Location} {keys : Set PathBuf.Key} (h : Spelled cwd keys) :
    FolderShelves Disk (Stands cwd) (Names keys) Path.key (Apart cwd) where
  slot_key _ _ h := h
  written {store after path data} hstands hpath hwrite := by
    have hkept := writeFile_kept hstands.rooted hstands.folder path data
    have hafter : (BlockingDiskIo.writeFile store path data).2 = after := (Prod.ext_iff.mp hwrite).2
    rw [hafter] at hkept
    refine ⟨hstands.kept hkept, fun other hother => ?_⟩
    obtain ⟨result, left, heq, _, hcases⟩ := DiskSession.writeFile_cases store path data
    rw [hwrite] at heq
    obtain ⟨rfl, rfl⟩ := Prod.mk.inj heq
    rcases hcases with ⟨_, hfile⟩ | ⟨⟨error, herror⟩, _⟩
    · have hdots := h.undotted other.key hother.2
      rw [text_eq hkept.rooted hother.1 hdots, text_eq hstands.rooted hother.1 hdots, hfile,
        hkept.cwd, Function.update_apply, hstands.cwd]
      have hsame : other.spot.place cwd = path.spot.place cwd ↔ other.key = path.key :=
        ⟨fun heq => h.alone hother.2 hpath.2 heq, fun heq => congrArg (·.spot.place cwd) heq⟩
      simp only [hsame]
    · cases herror
  refused {store after path data error} hstands hpath hwrite := by
    have hkept := writeFile_kept hstands.rooted hstands.folder path data
    have hafter : (BlockingDiskIo.writeFile store path data).2 = after := (Prod.ext_iff.mp hwrite).2
    rw [hafter] at hkept
    refine ⟨hstands.kept hkept, fun other hother => ?_⟩
    obtain ⟨result, left, heq, _, hcases⟩ := DiskSession.writeFile_cases store path data
    rw [hwrite] at heq
    obtain ⟨rfl, rfl⟩ := Prod.mk.inj heq
    rcases hcases with ⟨hok, _⟩ | ⟨_, hfile⟩
    · cases hok
    · have hdots := h.undotted other.key hother.2
      rw [text_eq hkept.rooted hother.1 hdots, text_eq hstands.rooted hother.1 hdots, hfile,
        hkept.cwd]
  moved {store after source target} hstands hsource htarget hne hmove := by
    obtain ⟨hrename, hafter⟩ := Prod.ext_iff.mp (tagged_ok hmove)
    obtain ⟨hold, hnew⟩ := rename_entries hrename
    have hapart : source.spot.place store.cwd ≠ target.spot.place store.cwd := by
      rw [hstands.cwd]
      exact fun heq => hne (h.alone hsource.2 htarget.2 heq)
    have htaken := rename_taken hstands.rooted hapart hold hnew hrename
    rw [show (store.rename source.fullPath target.fullPath).2 = after from hafter] at htaken
    have hfile := htaken.file []
    rw [List.append_nil, List.append_nil] at hfile
    rw [text_eq htaken.rooted htarget.1 (h.undotted _ htarget.2),
      text_eq hstands.rooted hsource.1 (h.undotted _ hsource.2), htaken.cwd]
    exact hfile
  moved_folder {store after source target} hstands hapart hmove path place hpath hknown hunder
      hplace := by
    obtain ⟨hrename, hafter⟩ := Prod.ext_iff.mp (tagged_ok hmove)
    obtain ⟨hold, hnew⟩ := rename_entries hrename
    have hne : source.spot.place store.cwd ≠ target.spot.place store.cwd := by
      rw [hstands.cwd]
      exact fun heq => hapart.below (heq ▸ List.prefix_refl _)
    have htaken := rename_taken hstands.rooted hne hold hnew hrename
    rw [show (store.rename source.fullPath target.fullPath).2 = after from hafter] at htaken
    have hsource : source.key.components ≠ [] := by
      intro hnil
      exact (walk_ok.mp hold).2.1 (PathBuf.components_eq_nil _ hnil)
    obtain ⟨rest, hpathPlace, hplacePlace⟩ :=
      place_under hsource (h.undotted _ hpath.2) hunder hplace store.cwd
    rw [text_eq htaken.rooted hknown.1 (h.undotted _ hknown.2),
      text_eq hstands.rooted hpath.1 (h.undotted _ hpath.2),
      text_eq hstands.rooted hknown.1 (h.undotted _ hknown.2), htaken.cwd, hpathPlace, hplacePlace]
    have hfile := htaken.file rest
    cases hfound : store.tree.file (source.spot.place store.cwd ++ rest) with
    | some contents => exact hfile.trans (by rw [hfound, Option.some_or])
    | none => exact hfile.trans (by rw [hfound, htaken.free rest hfound]; rfl)

end Disk

end Saps.Files
