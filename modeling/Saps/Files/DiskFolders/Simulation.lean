import Saps.Files.DiskFolders.Walks

-- The copy of a folder on the disk is the copy of the tree that is on it.
namespace Saps.Files

open FileTree (CopyResult copyAll copyChild copyChildren CopySteps)

namespace Disk

-- What the copy on the disk answers, told from the copy of the tree.
inductive Answers (disk : Disk) :
    CopyResult Str Str → Option (Except FileError Unit × Disk) → Prop
  | outOfFuel : Answers disk .outOfFuel none
  | failed (error : FileError) (after : Disk) : Answers disk .failed (some (.error error, after))
  | done (tree : FileTree Str Str) : Answers disk (.done tree) (some (.ok (), { disk with tree }))

theorem named_of_steps {source target : Location} {tree after : FileTree Str Str}
    (hnamed : Named tree) (htarget : ∀ name ∈ target, PlainName name)
    (h : CopySteps [] source target tree after) : Named after := by
  have hput {tree : FileTree Str Str} {rest : Location} {entry : Entry Str} (hnamed : Named tree)
      (hsource : (tree.kind (source ++ rest)).isSome)
      (hfree : tree.kind (target ++ rest) ≠ some .folder) :
      Named (tree.put (target ++ rest) entry) := by
    intro location hsome name hname
    rw [FileTree.kind_put tree (FileTree.placed_ne_root hfree)] at hsome
    split at hsome
    · next heq =>
      rw [heq] at hname
      rcases List.mem_append.mp hname with hname | hname
      · exact htarget name hname
      · exact hnamed _ hsource name (List.mem_append_right _ hname)
    · exact hnamed location hsome name hname
  induction h with
  | refl => exact hnamed
  | tail _ hstep ih =>
      cases hstep with
      | folder rest hsource _ hfree =>
          exact hput ih (by rw [hsource]; rfl) (by rw [hfree]; simp)
      | file rest hsource _ hfree =>
          exact hput ih (by rw [FileTree.file_eq_some.mp hsource]; rfl) hfree

section Simulation

open BlockingDiskIo

variable {src dst : PathBuf} {source target : Location}

theorem copyFile_answers {disk : Disk} {name : Str} (hname : PlainName name)
    {recur : FileTree Str Str → Location → Location → CopyResult Str Str}
    (hsrc : disk.Leads src source) (hdst : disk.Leads dst target)
    (hfolder : disk.tree.kind (source ++ [name]) ≠ some .folder) :
    Answers disk (copyChild [] recur source target disk.tree name)
      (some (tagged (src.join ⟨name⟩) (disk.copy (src.join ⟨name⟩) (dst.join ⟨name⟩)))) := by
  unfold copyChild
  split
  · next hkind => exact absurd hkind hfolder
  · rcases copy_join hsrc hdst hname with ⟨error, after, hcopy, htree⟩ | ⟨tree, hcopy, htree⟩
    · rw [hcopy, htree]
      exact .failed _ _
    · rw [hcopy, htree]
      exact .done tree

-- One entry is copied on the disk as it is in the tree, if a folder below is.
theorem copyEntry_answers {fuel : Nat} {disk : Disk} {name : Str} (hname : PlainName name)
    (hsrc : disk.Leads src source) (hdst : disk.Leads dst target)
    (hbelow : disk.tree.kind (source ++ [name]) = some .folder →
      Answers disk (copyAll [] fuel disk.tree (source ++ [name]) (target ++ [name]))
        (copyDirAll fuel disk (src.join ⟨name⟩) (dst.join ⟨name⟩))) :
    Answers disk (copyChild [] (copyAll [] fuel) source target disk.tree name)
      (copyEntry (copyDirAll fuel) src dst disk name) := by
  have hdir := isDir_iff (hsrc.resolve_join hname)
  unfold copyEntry
  by_cases hfolder : disk.tree.kind (source ++ [name]) = some .folder
  · rw [if_pos (hdir.mpr hfolder)]
    unfold copyChild
    rw [hfolder]
    exact hbelow hfolder
  · rw [if_neg fun h => hfolder (hdir.mp h)]
    exact copyFile_answers hname hsrc hdst hfolder

-- Once the folder for it is made, the entries of a folder are what is left to copy.
theorem copyDirAll_made {fuel : Nat} {disk made : Disk}
    (hmade : disk.createDirAll dst = (.ok (), made)) (hsrc : made.Leads src source)
    (hempty : src.text ≠ []) :
    copyDirAll (fuel + 1) disk src dst =
      copyEntries (copyDirAll fuel) src dst made (made.tree.children source) := by
  rw [copyDirAll]
  rw [hmade]
  dsimp only
  rw [readDir_ok.mpr ⟨hempty, source, hsrc, rfl⟩]

theorem Answers.of_tree {disk : Disk} {tree : FileTree Str Str} {result : CopyResult Str Str}
    {answer : Option (Except FileError Unit × Disk)}
    (h : Answers { disk with tree } result answer) : Answers disk result answer := by
  cases h with
  | outOfFuel => exact .outOfFuel
  | failed error after => exact .failed error after
  | done tree => exact .done tree

-- The entries follow one another on the disk and in the tree.
theorem copyEntries_of_entry {fuel : Nat} {disk : Disk} {names : List Str}
    (hentry : ∀ {disk : Disk} {name : Str}, Named disk.tree → PlainName name →
      disk.Leads src source → disk.Leads dst target →
        Answers disk (copyChild [] (copyAll [] fuel) source target disk.tree name)
          (copyEntry (copyDirAll fuel) src dst disk name))
    (hnamed : Named disk.tree) (hsrc : disk.Leads src source) (hdst : disk.Leads dst target)
    (hnames : ∀ name ∈ names, PlainName name) :
    Answers disk (copyChildren [] (copyAll [] fuel) source target disk.tree names)
      (copyEntries (copyDirAll fuel) src dst disk names) := by
  induction names generalizing disk with
  | nil => exact .done disk.tree
  | cons name names ih =>
      have hfirst := hentry hnamed (hnames name List.mem_cons_self) hsrc hdst
      unfold copyChildren copyEntries
      cases hchild : copyChild [] (copyAll [] fuel) source target disk.tree name with
      | outOfFuel =>
          rw [hchild] at hfirst
          generalize copyEntry (copyDirAll fuel) src dst disk name = answer at hfirst
          cases hfirst
          exact .outOfFuel
      | failed =>
          rw [hchild] at hfirst
          generalize copyEntry (copyDirAll fuel) src dst disk name = answer at hfirst
          cases hfirst
          exact .failed _ _
      | done tree =>
          have hsteps := FileTree.copyChild_copyAll_steps hdst.folder hchild
          have hgrows := FileTree.grows_of_steps hsteps
          have hplain := hnamed target (by rw [hdst.folder]; rfl)
          have hrest : Answers { disk with tree }
              (copyChildren [] (copyAll [] fuel) source target tree names)
              (copyEntries (copyDirAll fuel) src dst { disk with tree } names) :=
            ih (named_of_steps hnamed hplain hsteps) (hsrc.grown hgrows) (hdst.grown hgrows)
              fun other hother => hnames other (List.mem_cons_of_mem _ hother)
          rw [hchild] at hfirst
          generalize copyEntry (copyDirAll fuel) src dst disk name = answer at hfirst
          cases hfirst
          exact hrest.of_tree

theorem children_plain {tree : FileTree Str Str} (hnamed : Named tree) (location : Location) :
    ∀ name ∈ tree.children location, PlainName name := fun name hname =>
  hnamed (location ++ [name]) ((FileTree.mem_children _ _ _).mp hname) name (by simp)

-- The copy on the disk is the copy of the tree.
theorem copyEntries_answers (fuel : Nat) {disk : Disk} (hnamed : Named disk.tree)
    (hsrc : disk.Leads src source) (hdst : disk.Leads dst target) {names : List Str}
    (hnames : ∀ name ∈ names, PlainName name) :
    Answers disk (copyChildren [] (copyAll [] fuel) source target disk.tree names)
      (copyEntries (copyDirAll fuel) src dst disk names) := by
  induction fuel generalizing disk src dst source target names with
  | zero =>
      refine copyEntries_of_entry (fun _ hname hsrc hdst => ?_) hnamed hsrc hdst hnames
      exact copyEntry_answers hname hsrc hdst fun _ => .outOfFuel
  | succ fuel ih =>
      refine copyEntries_of_entry (fun {disk name} hnamed hname hsrc hdst => ?_) hnamed hsrc hdst
        hnames
      refine copyEntry_answers hname hsrc hdst fun hfolder => ?_
      rw [copyAll]
      rcases createDirAll_join hdst hname with ⟨error, hmake, htree⟩ | ⟨tree, hmake, htree⟩
      · rw [htree, copyDirAll, hmake]
        exact .failed _ _
      · obtain ⟨hsteps, htarget⟩ :
            CopySteps [] (source ++ [name]) (target ++ [name]) disk.tree tree ∧
              tree.kind (target ++ [name]) = some .folder :=
          FileTree.makeFolder_step hfolder (FileTree.placed_child hdst.folder _) htree
        have hgrows := FileTree.grows_of_steps hsteps
        have hplain : ∀ other ∈ target ++ [name], PlainName other := fun other hother =>
          (List.mem_append.mp hother).elim (hnamed target (by rw [hdst.folder]; rfl) other)
            fun h => List.mem_singleton.mp h ▸ hname
        have hmade := named_of_steps hnamed hplain hsteps
        have hsrc' := (hsrc.grown hgrows).join hname (hgrows.folder _ hfolder)
        have hdst' := (hdst.grown hgrows).join hname htarget
        have hempty := (resolve_ok.mp (hsrc.resolve_join hname)).2.1
        rw [htree, copyDirAll_made hmake hsrc' hempty]
        exact (ih hmade hsrc' hdst' (children_plain hmade _)).of_tree

theorem copyDirAll_answers {disk made : Disk} (hmake : disk.createDirAll dst = (.ok (), made))
    (hnamed : Named made.tree) (hsrc : made.Leads src source) (hdst : made.Leads dst target)
    (hempty : src.text ≠ []) (fuel : Nat) :
    Answers made (copyAll [] fuel made.tree source target) (copyDirAll fuel disk src dst) := by
  cases fuel with
  | zero => exact .outOfFuel
  | succ fuel =>
      have hmade : made.tree.makeFolder target = some made.tree := by
        unfold FileTree.makeFolder
        rw [hdst.folder]
      rw [copyAll, hmade, copyDirAll_made hmake hsrc hempty]
      exact copyEntries_answers fuel hnamed hsrc hdst (children_plain hnamed source)

end Simulation

end Disk

end Saps.Files
