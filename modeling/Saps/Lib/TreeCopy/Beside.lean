import Saps.Lib.TreeCopy.Theorems
import Saps.Lib.TreeMove

-- The copy of a folder to a place beside it, which leaves the source alone.
namespace FileTree

variable {Name Value : Type} [DecidableEq Name] {blank : Value} {source target : List Name}

-- No folder of the source meets a file, and no file of it a folder.
structure Mergeable (tree : FileTree Name Value) (source target : List Name) : Prop where
  folder : ∀ rest, tree.kind (source ++ rest) = some .folder → tree.file (target ++ rest) = none
  file : ∀ rest, (tree.file (source ++ rest)).isSome → tree.kind (target ++ rest) ≠ some .folder

theorem Mergeable.append {tree : FileTree Name Value} (h : tree.Mergeable source target)
    (path : List Name) : tree.Mergeable (source ++ path) (target ++ path) := by
  constructor
  · intro rest hfolder
    rw [List.append_assoc] at hfolder ⊢
    exact h.folder _ hfolder
  · intro rest hfile
    rw [List.append_assoc] at hfile ⊢
    exact h.file _ hfile

-- Nothing else can be copied.
theorem mergeable_of_done {fuel : Nat} {tree after : FileTree Name Value} (hrooted : tree.Rooted)
    (hsource : tree.kind source = some .folder) (hplaced : tree.Placed target)
    (hdone : copyAll blank fuel tree source target = .done after) :
    tree.Mergeable source target := by
  have hgrows := grows_of_steps (copyAll_steps fuel hsource hplaced hdone)
  constructor
  · intro rest hfolder
    by_contra hfile
    have hmade := folder_mirrored hrooted fuel (.refl tree) hsource hplaced hdone rest hfolder
    have hkept := hgrows.file _ (Option.isSome_iff_ne_none.mpr hfile)
    rw [FileTree.file, hmade] at hkept
    contradiction
  · intro rest hfile hfolder
    have hfaithful : Faithful tree blank source target fun _ _ => True :=
      ⟨fun _ _ _ => trivial, fun _ _ _ _ _ => trivial⟩
    obtain ⟨_, _, hvalue⟩ := hfaithful.mirrors hrooted fuel [] hfaithful.copying
      (by simpa using hsource) (by simpa using hplaced) (by simpa using hdone) rest
      (by simpa using hfile)
    rw [List.append_nil, FileTree.file, hgrows.folder _ hfolder] at hvalue
    cases hvalue

section Steps

variable {tree after : FileTree Name Value} (hbeside : Beside source target)

include hbeside

theorem kind_source_of_steps (h : CopySteps blank source target tree after) (rest : List Name) :
    after.kind (source ++ rest) = tree.kind (source ++ rest) :=
  frame_of_steps h fun ⟨other, heq⟩ => hbeside.ne rest other heq.symm

theorem Mergeable.step (hmerge : tree.Mergeable source target)
    (h : CopyStep blank source target tree after) : after.Mergeable source target := by
  have hsource := kind_source_of_steps hbeside (.single h)
  have hfile (rest : List Name) : after.file (source ++ rest) = tree.file (source ++ rest) := by
    unfold FileTree.file
    rw [hsource]
  cases h with
  | folder path hfolder hplaced hfree =>
      have hopen : tree.kind (target ++ path) ≠ some .folder := by
        rw [hfree]
        simp
      have hne := placed_ne_root hopen
      constructor
      · intro rest hrest
        rw [hsource] at hrest
        rw [file_put tree hne]
        split
        · rfl
        · exact hmerge.folder rest hrest
      · intro rest hrest
        rw [hfile] at hrest
        rw [kind_put tree hne]
        split
        · next heq =>
          rw [List.append_cancel_left heq, FileTree.file, hfolder] at hrest
          contradiction
        · exact hmerge.file rest hrest
  | file path hvalue hplaced hfree =>
      have hne := placed_ne_root hfree
      constructor
      · intro rest hrest
        rw [hsource] at hrest
        rw [file_put tree hne]
        split
        · next heq =>
          rw [List.append_cancel_left heq, file_eq_some.mp hvalue] at hrest
          cases hrest
        · exact hmerge.folder rest hrest
      · intro rest hrest
        rw [hfile] at hrest
        rw [kind_put tree hne]
        split
        · simp
        · exact hmerge.file rest hrest

theorem Mergeable.steps (hmerge : tree.Mergeable source target)
    (h : CopySteps blank source target tree after) : after.Mergeable source target := by
  induction h with
  | refl => exact hmerge
  | tail _ hlast ih => exact ih.step hbeside hlast

end Steps

theorem copyChild_mergeable
    {recur : FileTree Name Value → List Name → List Name → CopyResult Name Value}
    {tree : FileTree Name Value} {name : Name}
    (hmerge : tree.Mergeable (source ++ [name]) (target ++ [name]))
    (hsome : (tree.kind (source ++ [name])).isSome)
    (hrecur : tree.kind (source ++ [name]) = some .folder →
      recur tree (source ++ [name]) (target ++ [name]) ≠ .failed) :
    copyChild blank recur source target tree name ≠ .failed := by
  unfold copyChild
  split
  · next hfolder => exact hrecur hfolder
  · next hnot =>
    obtain ⟨entry, hentry⟩ := Option.isSome_iff_exists.mp hsome
    cases entry with
    | folder => exact absurd hentry hnot
    | file value =>
        have hfile := file_eq_some.mpr hentry
        have hfree := hmerge.file [] (by rw [List.append_nil, hfile]; rfl)
        rw [List.append_nil] at hfree
        have hcopy : tree.copyFile blank (source ++ [name]) (target ++ [name]) = some _ :=
          copyFile_eq_some.mpr ⟨value, hfile, hfree, rfl⟩
        rw [hcopy]
        exact fun h => by cases h

-- Such a copy does not fail.
theorem copyAll_beside (fuel : Nat) {tree : FileTree Name Value} (hbeside : Beside source target)
    (hsource : tree.kind source = some .folder) (hplaced : tree.Placed target)
    (hmerge : tree.Mergeable source target) :
    copyAll blank fuel tree source target ≠ .failed := by
  induction fuel generalizing source target tree with
  | zero => exact fun h => by cases h
  | succ fuel ih =>
      have hchildren (names : List Name) (tree : FileTree Name Value)
          (hsource : tree.kind source = some .folder) (htarget : tree.kind target = some .folder)
          (hmerge : tree.Mergeable source target)
          (hnames : ∀ name ∈ names, (tree.kind (source ++ [name])).isSome) :
          copyChildren blank (copyAll blank fuel) source target tree names ≠ .failed := by
        induction names generalizing tree with
        | nil => exact fun h => by cases h
        | cons name names ihNames =>
            have hchild : copyChild blank (copyAll blank fuel) source target tree name ≠ .failed :=
              copyChild_mergeable (hmerge.append [name]) (hnames name List.mem_cons_self)
                fun hfolder => ih (hbeside.append [name]) hfolder (placed_child htarget name)
                  (hmerge.append [name])
            unfold copyChildren
            cases hfirst : copyChild blank (copyAll blank fuel) source target tree name with
            | outOfFuel => exact fun h => by cases h
            | failed => exact absurd hfirst hchild
            | done after =>
                have hsteps := copyChild_copyAll_steps htarget hfirst
                have hgrows := grows_of_steps hsteps
                exact ihNames after (hgrows.folder _ hsource) (hgrows.folder _ htarget)
                  (hmerge.steps hbeside hsteps)
                  fun other hother => hgrows.kind_isSome (hnames other (List.mem_cons_of_mem _ hother))
      unfold copyAll
      split
      · next hmake =>
        obtain ⟨value, hvalue⟩ := makeFolder_eq_none hmake
        have hnone := hmerge.folder [] (by rw [List.append_nil]; exact hsource)
        rw [List.append_nil, hvalue] at hnone
        contradiction
      · next made hmake =>
        obtain ⟨hsteps, htarget⟩ : CopySteps blank source target tree made ∧ _ :=
          makeFolder_step hsource hplaced hmake
        have hgrows := grows_of_steps hsteps
        exact hchildren _ made (hgrows.folder _ hsource) htarget (hmerge.steps hbeside hsteps)
          fun name hname => (mem_children made source name).mp hname

-- A place that no file of the source goes to keeps its file.
theorem file_kept_of_steps {tree after : FileTree Name Value} (hbeside : Beside source target)
    (h : CopySteps blank source target tree after) {rest : List Name}
    (hnone : tree.file (source ++ rest) = none) :
    after.file (target ++ rest) = tree.file (target ++ rest) := by
  induction h with
  | refl => rfl
  | tail hsteps hlast ih =>
      rw [← ih]
      have hsame := kind_source_of_steps hbeside hsteps
      cases hlast with
      | folder path _ _ hfree =>
          rw [file_put _ (placed_ne_root (by rw [hfree]; simp))]
          split
          · next heq =>
            rw [heq, file, hfree]
            rfl
          · rfl
      | file path hvalue _ hfree =>
          rw [file_put _ (placed_ne_root hfree), if_neg]
          intro heq
          rw [List.append_cancel_left heq, file, ← hsame] at hnone
          rw [file, hnone] at hvalue
          contradiction

theorem copies_beside {tree : FileTree Name Value} (hrooted : tree.Rooted)
    (hbeside : Beside source target) (hsource : tree.kind source = some .folder)
    (hplaced : tree.Placed target) : Copies blank source target tree := by
  have hne : source ≠ target := fun heq => hbeside.below (heq ▸ List.prefix_refl _)
  have hfaithful : Faithful tree blank source target fun rest value =>
      tree.file (source ++ rest) = some value :=
    ⟨fun _ _ hfile => hfile, fun rest other _ _ heq => absurd heq.symm (hbeside.ne other rest)⟩
  refine ⟨copyAll_ends (level_away hbeside.below) hsource hplaced, fun fuel after hdone =>
    hfaithful.mirrored hrooted ?_ hsource hplaced hdone⟩
  intro rest value found hfile hfound
  rw [if_neg hne]
  exact Option.some.inj (hfound.symm.trans hfile)

theorem folder_of_steps {tree after : FileTree Name Value} (hbeside : Beside source target)
    (h : CopySteps blank source target tree after) {rest : List Name}
    (hfolder : after.kind (target ++ rest) = some .folder) :
    tree.kind (source ++ rest) = some .folder ∨ tree.kind (target ++ rest) = some .folder := by
  induction h with
  | refl => exact .inr hfolder
  | tail hsteps hlast ih =>
      have hsame := kind_source_of_steps hbeside hsteps
      cases hlast with
      | folder path hsource _ hfree =>
          rw [kind_put _ (placed_ne_root (by rw [hfree]; simp))] at hfolder
          split at hfolder
          · next heq =>
            rw [List.append_cancel_left heq, ← hsame]
            exact .inl hsource
          · exact ih hfolder
      | file path _ _ hfree =>
          rw [kind_put _ (placed_ne_root hfree)] at hfolder
          split at hfolder
          · cases hfolder
          · exact ih hfolder

-- All that stands at one place has been copied on top of what stands at another.
structure Merged (tree after : FileTree Name Value) (source target : List Name) : Prop where
  file : ∀ rest, after.file (target ++ rest) =
    (tree.file (source ++ rest)).or (tree.file (target ++ rest))
  folder : ∀ rest, after.kind (target ++ rest) = some .folder ↔
    tree.kind (source ++ rest) = some .folder ∨ tree.kind (target ++ rest) = some .folder

-- Where such a copy ends, the files of the source are on top of those of the target.
theorem copyAll_merged {fuel : Nat} {tree after : FileTree Name Value} (hrooted : tree.Rooted)
    (hbeside : Beside source target) (hsource : tree.kind source = some .folder)
    (hplaced : tree.Placed target) (hdone : copyAll blank fuel tree source target = .done after) :
    Merged tree after source target := by
  have hcopies : Copies blank source target tree := copies_beside hrooted hbeside hsource hplaced
  have hmirrored := hcopies.mirrored fuel after hdone
  have hsteps := copyAll_steps fuel hsource hplaced hdone
  refine ⟨fun rest => ?_, fun rest => ⟨folder_of_steps hbeside hsteps, ?_⟩⟩
  · cases hfile : tree.file (source ++ rest) with
    | none => rw [file_kept_of_steps hbeside hsteps hfile, Option.none_or]
    | some value => rw [hmirrored.copied rest value hfile, Option.some_or]
  · rintro (hfolder | hfolder)
    · exact folder_mirrored hrooted fuel (.refl tree) hsource hplaced hdone rest hfolder
    · exact (grows_of_steps hsteps).folder _ hfolder

theorem file_copyAll {fuel : Nat} {tree after : FileTree Name Value} (hrooted : tree.Rooted)
    (hbeside : Beside source target) (hsource : tree.kind source = some .folder)
    (hplaced : tree.Placed target) (hdone : copyAll blank fuel tree source target = .done after)
    (location : List Name) :
    after.file location = HashMap.carried True source target tree.file location := by
  have hmerged := copyAll_merged hrooted hbeside hsource hplaced hdone
  unfold HashMap.carried
  by_cases hunder : target <+: location
  · obtain ⟨rest, rfl⟩ := hunder
    rw [if_pos (List.prefix_append _ _), List.drop_left]
    exact hmerged.file rest
  · rw [if_neg hunder, if_neg (by simp), file, file,
      frame_of_steps (copyAll_steps fuel hsource hplaced hdone) hunder]

end FileTree
