import Saps.Lib.TreeCopy

-- A copy that succeeds puts every file of the source at its place under the target.
namespace FileTree

variable {Name Value : Type} [DecidableEq Name] {blank : Value} {source target : List Name}

theorem CopyStep.frame {tree after : FileTree Name Value}
    (h : CopyStep blank source target tree after) {location : List Name}
    (houtside : ¬target <+: location) : after.kind location = tree.kind location := by
  cases h with
  | folder rest _ _ hfree =>
      have hne : target ++ rest ≠ [] := placed_ne_root (by rw [hfree]; simp)
      rw [kind_put tree hne, if_neg]
      rintro rfl
      exact houtside (List.prefix_append _ _)
  | file rest _ _ hfree =>
      rw [kind_put tree (placed_ne_root hfree), if_neg]
      rintro rfl
      exact houtside (List.prefix_append _ _)

theorem frame_of_steps {tree after : FileTree Name Value}
    (h : CopySteps blank source target tree after) {location : List Name}
    (houtside : ¬target <+: location) : after.kind location = tree.kind location := by
  induction h with
  | refl => rfl
  | tail _ hstep ih => exact (hstep.frame houtside).trans ih

theorem CopyStep.rooted {tree after : FileTree Name Value} (hrooted : tree.Rooted)
    (h : CopyStep blank source target tree after) : after.Rooted := by
  have hput {location : List Name} {entry : Entry Value} (hplaced : tree.Placed location)
      (hfree : tree.kind location ≠ some .folder) : (tree.put location entry).Rooted := by
    rcases List.eq_nil_or_concat' location with rfl | ⟨front, last, rfl⟩
    · exact absurd rfl hfree
    · exact hrooted.put (hplaced front last rfl) (.inr hfree)
  cases h with
  | folder rest _ hplaced hfree => exact hput hplaced (by rw [hfree]; simp)
  | file rest _ hplaced hfree => exact hput hplaced hfree

-- What a file under the source may hold in the course of the copy: what it held at the
-- start, and what comes to stand there when files land in the source itself.
structure Faithful (start : FileTree Name Value) (blank : Value) (source target : List Name)
    (good : List Name → Value → Prop) : Prop where
  held : ∀ rest value, start.file (source ++ rest) = some value → good rest value
  lands : ∀ rest other value, good rest value → target ++ rest = source ++ other →
    good other (if source = target then blank else value)

variable {start : FileTree Name Value} {good : List Name → Value → Prop}

structure Copying (start : FileTree Name Value) (source : List Name)
    (good : List Name → Value → Prop) (tree : FileTree Name Value) : Prop where
  grown : start.Grows tree
  sound : ∀ rest value, tree.file (source ++ rest) = some value → good rest value

theorem Faithful.copying (h : Faithful start blank source target good) :
    Copying start source good start :=
  ⟨.refl start, h.held⟩

theorem Faithful.step (h : Faithful start blank source target good)
    {tree after : FileTree Name Value} (hcopying : Copying start source good tree)
    (hstep : CopyStep blank source target tree after) : Copying start source good after := by
  refine ⟨hcopying.grown.trans hstep.grows, fun other value hfile => ?_⟩
  cases hstep with
  | folder rest _ _ hfree =>
      have hne : target ++ rest ≠ [] := placed_ne_root (by rw [hfree]; simp)
      rw [file_put tree hne] at hfile
      split at hfile
      · contradiction
      · exact hcopying.sound other value hfile
  | file rest hsource _ hfree =>
      rw [file_put tree (placed_ne_root hfree)] at hfile
      split at hfile
      · next heq =>
        obtain rfl := Option.some.inj hfile
        exact h.lands rest other _ (hcopying.sound rest _ hsource) heq.symm
      · exact hcopying.sound other value hfile

theorem Faithful.steps (h : Faithful start blank source target good)
    {tree after : FileTree Name Value} (hcopying : Copying start source good tree)
    (hsteps : CopySteps blank source target tree after) : Copying start source good after := by
  induction hsteps with
  | refl => exact hcopying
  | tail _ hstep ih => exact h.step ih hstep

variable {fuel : Nat}

-- The copy of one child changes nothing but what is under its place.
theorem copyChild_steps_under {tree after : FileTree Name Value} {name : Name}
    (htarget : tree.kind target = some .folder)
    (h : copyChild blank (copyAll blank fuel) source target tree name = .done after)
    {location : List Name} (houtside : ¬target ++ [name] <+: location) :
    after.kind location = tree.kind location := by
  unfold copyChild at h
  split at h
  · next hfolder =>
    exact frame_of_steps (copyAll_steps fuel hfolder (placed_child htarget name) h) houtside
  · split at h
    · contradiction
    · next hcopy =>
      cases h
      obtain ⟨value, _, hfree, rfl⟩ := copyFile_eq_some.mp hcopy
      rw [kind_put tree (placed_ne_root hfree), if_neg]
      rintro rfl
      exact houtside (List.prefix_refl _)

theorem copyChildren_steps_under {tree after : FileTree Name Value} {names : List Name}
    (htarget : tree.kind target = some .folder)
    (h : copyChildren blank (copyAll blank fuel) source target tree names = .done after)
    {location : List Name} (houtside : ∀ name ∈ names, ¬target ++ [name] <+: location) :
    after.kind location = tree.kind location := by
  induction names generalizing tree with
  | nil =>
      cases h
      rfl
  | cons name names ih =>
      unfold copyChildren at h
      split at h
      · next middle hchild =>
        have hsteps := copyChild_copyAll_steps htarget hchild
        have hsame := copyChild_steps_under htarget hchild (houtside name List.mem_cons_self)
        rw [← hsame]
        exact ih ((grows_of_steps hsteps).folder target htarget) h fun other hother =>
          houtside other (List.mem_cons_of_mem _ hother)
      · contradiction
      · contradiction

-- The children that are listed are all copied: each is kept as the later ones are.
theorem copyChildren_mirrors (copied : Name → FileTree Name Value → Prop)
    (holds : FileTree Name Value → Prop) {tree after : FileTree Name Value} {names : List Name}
    (hnodup : names.Nodup) (htarget : tree.kind target = some .folder) (hholds : holds tree)
    (hsteps : ∀ tree after, holds tree → CopySteps blank source target tree after → holds after)
    (hchild : ∀ name ∈ names, ∀ tree after, holds tree → tree.kind target = some .folder →
      copyChild blank (copyAll blank fuel) source target tree name = .done after →
        copied name after)
    (hkept : ∀ name tree after, copied name tree →
      (∀ rest, after.kind (target ++ name :: rest) = tree.kind (target ++ name :: rest)) →
        copied name after)
    (h : copyChildren blank (copyAll blank fuel) source target tree names = .done after) :
    ∀ name ∈ names, copied name after := by
  induction names generalizing tree with
  | nil => simp
  | cons name names ih =>
      obtain ⟨hfresh, hrest⟩ := List.nodup_cons.mp hnodup
      unfold copyChildren at h
      split at h
      · next middle hmiddle =>
        have hrun := copyChild_copyAll_steps htarget hmiddle
        have hfolder := (grows_of_steps hrun).folder target htarget
        intro other hother
        rcases List.mem_cons.mp hother with rfl | hother
        · refine hkept other middle after
            (hchild other List.mem_cons_self tree middle hholds htarget hmiddle) fun rest => ?_
          refine copyChildren_steps_under hfolder h fun later hlater hprefix => ?_
          have hsame : later = other := by
            rw [List.prefix_append_right_inj, List.cons_prefix_cons] at hprefix
            exact hprefix.1
          exact hfresh (hsame ▸ hlater)
        · exact ih hrest hfolder (hsteps tree middle hholds hrun)
            (fun later hlater => hchild later (List.mem_cons_of_mem _ hlater)) h other hother
      · contradiction
      · contradiction

theorem kind_of_file {tree : FileTree Name Value} {location : List Name}
    (h : (tree.file location).isSome) : (tree.kind location).isSome := by
  obtain ⟨value, hvalue⟩ := Option.isSome_iff_exists.mp h
  rw [file_eq_some.mp hvalue]
  rfl

theorem kind_child {tree : FileTree Name Value} (hrooted : tree.Rooted) {folder : List Name}
    {name : Name} {rest : List Name} (h : (tree.file (folder ++ name :: rest)).isSome) :
    (tree.kind (folder ++ [name])).isSome := by
  cases rest with
  | nil => exact kind_of_file h
  | cons next rest =>
      rw [hrooted.folder_of_prefix (List.cons_ne_nil next rest)]
      · rfl
      · rw [List.append_assoc, List.singleton_append]
        exact kind_of_file h

-- Every file of the source is met, and what it holds by then is written to its place.
theorem Faithful.mirrors (hrooted : start.Rooted) (h : Faithful start blank source target good)
    (fuel : Nat) (path : List Name) {tree after : FileTree Name Value}
    (hcopying : Copying start source good tree)
    (hsource : tree.kind (source ++ path) = some .folder)
    (hplaced : tree.Placed (target ++ path))
    (hdone : copyAll blank fuel tree (source ++ path) (target ++ path) = .done after)
    (rest : List Name) (hfile : (start.file (source ++ path ++ rest)).isSome) :
    ∃ value, good (path ++ rest) value ∧
      after.file (target ++ path ++ rest) = some (if source = target then blank else value) := by
  induction fuel generalizing tree after path rest with
  | zero => contradiction
  | succ fuel ih =>
      unfold copyAll at hdone
      split at hdone
      · contradiction
      · next made hmake =>
        obtain ⟨hsteps, htarget⟩ : CopySteps blank (source ++ path) (target ++ path) tree made ∧
            made.kind (target ++ path) = some .folder := makeFolder_step hsource hplaced hmake
        have hmade := h.steps hcopying (steps_of_under path hsteps)
        have hmirrored := copyChildren_mirrors
          (fun name tree => ∀ rest, (start.file (source ++ path ++ name :: rest)).isSome →
            ∃ value, good (path ++ name :: rest) value ∧ tree.file (target ++ path ++ name :: rest) =
              some (if source = target then blank else value))
          (Copying start source good)
          (children_nodup made (source ++ path)) htarget hmade
          (fun _ _ hholds hrun => h.steps hholds (steps_of_under path hrun)) ?_ ?_ hdone
        · cases rest with
          | nil =>
              rw [List.append_nil] at hfile
              have hsome := hcopying.grown.file _ hfile
              rw [FileTree.file, hsource] at hsome
              contradiction
          | cons name rest =>
              apply hmirrored name _ rest hfile
              rw [mem_children]
              exact hmade.grown.kind_isSome (kind_child hrooted hfile)
        · intro name _ tree after hcopying htarget hchild rest hfile
          unfold copyChild at hchild
          split at hchild
          · next hfolder =>
            rw [List.append_assoc] at hfolder hchild
            rw [List.append_assoc target] at hchild
            have hcopied := ih (path ++ [name]) hcopying hfolder
              (List.append_assoc target path [name] ▸ placed_child htarget name) hchild rest
              (by simpa using hfile)
            simpa using hcopied
          · next hnot =>
            split at hchild
            · contradiction
            · next hcopy =>
              cases hchild
              obtain ⟨value, hvalue, hfree, rfl⟩ := copyFile_eq_some.mp hcopy
              cases rest with
              | nil =>
                  refine ⟨value, hcopying.sound _ value (by simpa using hvalue), ?_⟩
                  rw [file_put tree (placed_ne_root hfree), if_pos rfl]
                  simp only [List.append_left_inj]
                  rfl
              | cons next rest =>
                  have hfolder : start.kind (source ++ path ++ [name]) = some .folder := by
                    refine hrooted.folder_of_prefix (List.cons_ne_nil next rest) ?_
                    rw [List.append_assoc (source ++ path), List.singleton_append]
                    exact kind_of_file hfile
                  exact absurd (hcopying.grown.folder _ hfolder) hnot
        · intro name tree after hcopied hsame rest hfile
          obtain ⟨value, hgood, hvalue⟩ := hcopied rest hfile
          refine ⟨value, hgood, ?_⟩
          unfold FileTree.file
          rw [hsame]
          exact hvalue

theorem kind_on_way {tree : FileTree Name Value} (hrooted : tree.Rooted) {name : Name}
    {rest : List Name} (h : tree.kind (source ++ name :: rest) = some .folder) :
    tree.kind (source ++ [name]) = some .folder := by
  cases rest with
  | nil => exact h
  | cons next rest =>
      refine hrooted.folder_of_prefix (List.cons_ne_nil next rest) ?_
      rw [List.append_assoc, List.singleton_append, h]
      rfl

-- Every folder of the source is made.
theorem folder_mirrored (hrooted : start.Rooted) (fuel : Nat) {tree after : FileTree Name Value}
    (hgrown : start.Grows tree) (hsource : tree.kind source = some .folder)
    (hplaced : tree.Placed target) (hdone : copyAll blank fuel tree source target = .done after)
    (rest : List Name) (hfolder : start.kind (source ++ rest) = some .folder) :
    after.kind (target ++ rest) = some .folder := by
  induction fuel generalizing source target tree after rest with
  | zero => contradiction
  | succ fuel ih =>
      unfold copyAll at hdone
      split at hdone
      · contradiction
      · next made hmake =>
        obtain ⟨hsteps, htarget⟩ : CopySteps blank source target tree made ∧ _ :=
          makeFolder_step hsource hplaced hmake
        have hmade := hgrown.trans (grows_of_steps hsteps)
        cases rest with
        | nil =>
            have hrun : CopySteps blank source target made after :=
              copyChildren_steps (fun _ _ _ => copyAll_steps fuel) htarget hdone
            rw [List.append_nil]
            exact (grows_of_steps hrun).folder target htarget
        | cons name rest =>
            have hchild : start.kind (source ++ [name]) = some .folder := kind_on_way hrooted hfolder
            have hmirrored := copyChildren_mirrors
              (fun name tree => ∀ rest, start.kind (source ++ name :: rest) = some .folder →
                tree.kind (target ++ name :: rest) = some .folder)
              start.Grows (children_nodup made source) htarget hmade
              (fun _ _ hholds hrun => hholds.trans (grows_of_steps hrun)) ?_ ?_ hdone
            · refine hmirrored name ?_ rest hfolder
              rw [mem_children, hmade.folder _ hchild]
              rfl
            · intro name _ tree after hgrown htarget hcopied rest hfolder
              have hchild := hgrown.folder _ (kind_on_way hrooted hfolder)
              unfold copyChild at hcopied
              rw [hchild] at hcopied
              have hbelow := ih hgrown hchild (placed_child htarget name) hcopied rest
                (by simpa using hfolder)
              simpa using hbelow
            · intro name tree after hcopied hsame rest hfolder
              rw [hsame]
              exact hcopied rest hfolder

-- Every file of the source is at its place, and no file outside the target has changed.
structure Mirrored (source target : List Name) (before after : FileTree Name Value) : Prop where
  copied : ∀ rest value, before.file (source ++ rest) = some value →
    after.file (target ++ rest) = some value
  outside : ∀ location, ¬target <+: location → after.file location = before.file location

theorem Faithful.mirrored (hrooted : start.Rooted) (h : Faithful start blank source target good)
    (hsingle : ∀ rest value found, start.file (source ++ rest) = some value → good rest found →
      (if source = target then blank else found) = value)
    {fuel : Nat} {after : FileTree Name Value} (hsource : start.kind source = some .folder)
    (hplaced : start.Placed target) (hdone : copyAll blank fuel start source target = .done after) :
    Mirrored source target start after := by
  refine ⟨fun rest value hfile => ?_, fun location houtside => ?_⟩
  · obtain ⟨found, hgood, hfound⟩ := h.mirrors hrooted fuel [] h.copying (by simpa using hsource)
      (by simpa using hplaced) (by simpa using hdone) rest (by simp [hfile])
    rw [hsingle rest value found hfile hgood] at hfound
    simpa using hfound
  · unfold FileTree.file
    rw [frame_of_steps (copyAll_steps fuel hsource hplaced hdone) houtside]

end FileTree
