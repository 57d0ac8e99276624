import Saps.Lib.FileTree
import Mathlib.Logic.Relation

-- The recursive copy of a folder, which makes folders in the tree that it walks.
namespace FileTree

inductive CopyResult (Name Value : Type) where
  | outOfFuel
  | failed
  | done (tree : FileTree Name Value)

variable {Name Value : Type}

-- The same entries, met in another order.
def listed (order : Order (List Name)) (tree : FileTree Name Value) : FileTree Name Value :=
  ⟨{ tree.entries with order }⟩

variable [DecidableEq Name]

@[simp] theorem kind_listed (order : Order (List Name)) (tree : FileTree Name Value) :
    (tree.listed order).kind = tree.kind :=
  rfl

@[simp] theorem file_listed (order : Order (List Name)) (tree : FileTree Name Value) :
    (tree.listed order).file = tree.file :=
  rfl

def childName (folder location : List Name) : Option Name :=
  if location.dropLast = folder then location.getLast? else none

-- The names of what stands in a folder, in the order of the map.
def children (tree : FileTree Name Value) (folder : List Name) : List Name :=
  tree.entries.keys.filterMap (childName folder)

def makeFolder (tree : FileTree Name Value) (location : List Name) :
    Option (FileTree Name Value) :=
  match tree.kind location with
  | some .folder => some tree
  | some (.file _) => none
  | none => some (tree.put location .folder)

-- A file that is copied onto itself is emptied first: `blank` is what is left of it.
def copyFile (blank : Value) (tree : FileTree Name Value) (source target : List Name) :
    Option (FileTree Name Value) :=
  match tree.file source, tree.kind target with
  | none, _ => none
  | some _, some .folder => none
  | some value, _ => some (tree.put target (.file (if source = target then blank else value)))

section Copy

variable (blank : Value) (recur : FileTree Name Value → List Name → List Name → CopyResult Name Value)
  (source target : List Name)

def copyChild (tree : FileTree Name Value) (name : Name) : CopyResult Name Value :=
  match tree.kind (source ++ [name]) with
  | some .folder => recur tree (source ++ [name]) (target ++ [name])
  | _ =>
    match tree.copyFile blank (source ++ [name]) (target ++ [name]) with
    | none => .failed
    | some tree => .done tree

def copyChildren (tree : FileTree Name Value) : List Name → CopyResult Name Value
  | [] => .done tree
  | name :: names =>
    match copyChild blank recur source target tree name with
    | .done tree => copyChildren tree names
    | .failed => .failed
    | .outOfFuel => .outOfFuel

end Copy

-- The children are listed once the new folder is there.
def copyAll (blank : Value) :
    Nat → FileTree Name Value → List Name → List Name → CopyResult Name Value
  | 0, _, _, _ => .outOfFuel
  | fuel + 1, tree, source, target =>
    match tree.makeFolder target with
    | none => .failed
    | some tree => copyChildren blank (copyAll blank fuel) source target tree (tree.children source)

variable {blank : Value} {source target : List Name}

theorem childName_eq_some {folder location : List Name} {name : Name} :
    childName folder location = some name ↔ location = folder ++ [name] := by
  unfold childName
  constructor
  · intro h
    split at h
    · next hfolder =>
      obtain ⟨front, rfl⟩ := List.getLast?_eq_some_iff.mp h
      rw [List.dropLast_concat] at hfolder
      rw [hfolder]
    · contradiction
  · rintro rfl
    simp

theorem mem_children (tree : FileTree Name Value) (folder : List Name) (name : Name) :
    name ∈ tree.children folder ↔ (tree.kind (folder ++ [name])).isSome := by
  have hne : folder ++ [name] ≠ [] := List.append_ne_nil_of_right_ne_nil _ (List.cons_ne_nil _ _)
  unfold children kind
  rw [if_neg hne, ← HashMap.mem_keys, List.mem_filterMap]
  simp only [childName_eq_some]
  exact ⟨fun ⟨_, hlocation, heq⟩ => heq ▸ hlocation, fun hlocation => ⟨_, hlocation, rfl⟩⟩

theorem children_nodup (tree : FileTree Name Value) (folder : List Name) :
    (tree.children folder).Nodup := by
  refine tree.entries.keys_nodup.filterMap fun left right name hleft hright => ?_
  rw [childName_eq_some.mp hleft, childName_eq_some.mp hright]

-- The folder that something is put in is there.
def Placed (tree : FileTree Name Value) (location : List Name) : Prop :=
  ∀ front last, location = front ++ [last] → tree.kind front = some .folder

theorem placed_child {tree : FileTree Name Value} {folder : List Name}
    (h : tree.kind folder = some .folder) (name : Name) : tree.Placed (folder ++ [name]) := by
  intro front last heq
  obtain ⟨rfl, _⟩ := List.append_inj' heq rfl
  exact h

-- What the copy of a folder does to the tree: the counterparts of the folders and files
-- of the source are made under the target.
inductive CopyStep (blank : Value) (source target : List Name) :
    FileTree Name Value → FileTree Name Value → Prop
  | folder {tree : FileTree Name Value} (rest : List Name)
      (hsource : tree.kind (source ++ rest) = some .folder)
      (hplaced : tree.Placed (target ++ rest)) (hfree : tree.kind (target ++ rest) = none) :
      CopyStep blank source target tree (tree.put (target ++ rest) .folder)
  | file {tree : FileTree Name Value} {value : Value} (rest : List Name)
      (hsource : tree.file (source ++ rest) = some value)
      (hplaced : tree.Placed (target ++ rest)) (hfree : tree.kind (target ++ rest) ≠ some .folder) :
      CopyStep blank source target tree
        (tree.put (target ++ rest) (.file (if source = target then blank else value)))

abbrev CopySteps (blank : Value) (source target : List Name) :=
  Relation.ReflTransGen (CopyStep blank source target)

theorem CopyStep.of_under {tree after : FileTree Name Value} (path : List Name)
    (h : CopyStep blank (source ++ path) (target ++ path) tree after) :
    CopyStep blank source target tree after := by
  cases h with
  | folder rest hsource hplaced hfree =>
      rw [List.append_assoc] at hsource hplaced hfree ⊢
      exact .folder _ hsource hplaced hfree
  | file rest hsource hplaced hfree =>
      rw [List.append_assoc] at hsource hplaced hfree ⊢
      simp only [List.append_left_inj]
      exact .file _ hsource hplaced hfree

theorem steps_of_under {tree after : FileTree Name Value} (path : List Name)
    (h : CopySteps blank (source ++ path) (target ++ path) tree after) :
    CopySteps blank source target tree after :=
  Relation.ReflTransGen.mono (fun _ _ => CopyStep.of_under path) _ _ h

-- Nothing is removed, and no folder becomes a file or the other way round.
structure Grows (before after : FileTree Name Value) : Prop where
  folder : ∀ location, before.kind location = some .folder → after.kind location = some .folder
  file : ∀ location, (before.file location).isSome → (after.file location).isSome

theorem Grows.refl (tree : FileTree Name Value) : tree.Grows tree :=
  ⟨fun _ => id, fun _ => id⟩

theorem Grows.trans {first second third : FileTree Name Value} (h : first.Grows second)
    (h' : second.Grows third) : first.Grows third :=
  ⟨fun location hfolder => h'.folder location (h.folder location hfolder),
    fun location hfile => h'.file location (h.file location hfile)⟩

theorem Grows.kind_isSome {before after : FileTree Name Value} (h : before.Grows after)
    {location : List Name} (hsome : (before.kind location).isSome) :
    (after.kind location).isSome := by
  obtain ⟨entry, hentry⟩ := Option.isSome_iff_exists.mp hsome
  cases entry with
  | folder =>
      rw [h.folder location hentry]
      rfl
  | file value =>
      have hfile := h.file location (by rw [file_eq_some.mpr hentry]; rfl)
      obtain ⟨value, hvalue⟩ := Option.isSome_iff_exists.mp hfile
      rw [file_eq_some.mp hvalue]
      rfl

theorem placed_ne_root {tree : FileTree Name Value} {location : List Name}
    (hfree : tree.kind location ≠ some .folder) : location ≠ [] := by
  rintro rfl
  exact hfree rfl

theorem grows_put {tree : FileTree Name Value} {location : List Name} {entry : Entry Value}
    (hfree : tree.kind location ≠ some .folder)
    (hentry : (tree.file location).isSome → entry.value.isSome) :
    tree.Grows (tree.put location entry) := by
  have hne := placed_ne_root hfree
  refine ⟨fun other hfolder => ?_, fun other hfile => ?_⟩
  · rw [kind_put tree hne, if_neg]
    · exact hfolder
    · rintro rfl
      exact hfree hfolder
  · rw [file_put tree hne]
    split
    · next heq => exact hentry (heq ▸ hfile)
    · exact hfile

theorem CopyStep.grows {tree after : FileTree Name Value}
    (h : CopyStep blank source target tree after) : tree.Grows after := by
  cases h with
  | folder rest _ _ hfree =>
      refine grows_put (by simp [hfree]) fun hfile => ?_
      simp [FileTree.file, hfree] at hfile
  | file rest _ _ hfree => exact grows_put hfree fun _ => rfl

theorem grows_of_steps {tree after : FileTree Name Value}
    (h : CopySteps blank source target tree after) : tree.Grows after := by
  induction h with
  | refl => exact .refl tree
  | tail _ hstep ih => exact ih.trans hstep.grows

theorem makeFolder_step {tree after : FileTree Name Value}
    (hsource : tree.kind source = some .folder) (hplaced : tree.Placed target)
    (h : tree.makeFolder target = some after) :
    CopySteps blank source target tree after ∧ after.kind target = some .folder := by
  unfold makeFolder at h
  cases hkind : tree.kind target with
  | none =>
      rw [hkind] at h
      obtain rfl := Option.some.inj h
      have hstep : CopyStep blank source target tree (tree.put (target ++ []) .folder) :=
        .folder [] (by simpa using hsource) (by simpa using hplaced) (by simpa using hkind)
      rw [List.append_nil] at hstep
      refine ⟨.single hstep, ?_⟩
      have hne : target ≠ [] := placed_ne_root (by rw [hkind]; simp)
      rw [kind_put tree hne, if_pos rfl]
  | some entry =>
      rw [hkind] at h
      cases entry with
      | folder =>
          obtain rfl := Option.some.inj h
          exact ⟨.refl, hkind⟩
      | file value => contradiction

theorem makeFolder_eq_none {tree : FileTree Name Value} {location : List Name}
    (h : tree.makeFolder location = none) : ∃ value, tree.file location = some value := by
  unfold makeFolder at h
  split at h
  · contradiction
  · next value hkind => exact ⟨value, file_eq_some.mpr hkind⟩
  · contradiction

theorem makeFolder_file {tree after : FileTree Name Value} {location : List Name}
    (h : tree.makeFolder location = some after) (other : List Name) :
    after.file other = tree.file other := by
  unfold makeFolder at h
  split at h
  · cases h
    rfl
  · contradiction
  · next hfree =>
    cases h
    rw [file_put tree (placed_ne_root (by rw [hfree]; simp))]
    split
    · next heq => rw [heq, FileTree.file, hfree]; rfl
    · rfl

theorem makeFolder_order {tree after : FileTree Name Value} {location : List Name}
    (h : tree.makeFolder location = some after) : after.entries.order = tree.entries.order := by
  unfold makeFolder at h
  split at h
  · cases h
    rfl
  · contradiction
  · cases h
    rfl

theorem copyFile_eq_some {tree after : FileTree Name Value} {location place : List Name} :
    tree.copyFile blank location place = some after ↔
      ∃ value, tree.file location = some value ∧ tree.kind place ≠ some .folder ∧
        after = tree.put place (.file (if location = place then blank else value)) := by
  unfold copyFile
  cases tree.file location with
  | none => simp
  | some value =>
      rcases tree.kind place with _ | (_ | _)
      · simp [eq_comm]
      · simp
      · simp [eq_comm]

theorem copyFile_step {tree after : FileTree Name Value} {name : Name}
    (htarget : tree.kind target = some .folder)
    (h : tree.copyFile blank (source ++ [name]) (target ++ [name]) = some after) :
    CopyStep blank source target tree after := by
  obtain ⟨value, hfile, hfree, rfl⟩ := copyFile_eq_some.mp h
  simp only [List.append_left_inj]
  exact .file [name] hfile (placed_child htarget name) hfree

section Runs

variable {recur : FileTree Name Value → List Name → List Name → CopyResult Name Value}

theorem copyChild_steps {tree after : FileTree Name Value} {name : Name}
    (hrecur : ∀ tree after, tree.kind (source ++ [name]) = some .folder →
      tree.Placed (target ++ [name]) → recur tree (source ++ [name]) (target ++ [name]) = .done after →
        CopySteps blank (source ++ [name]) (target ++ [name]) tree after)
    (htarget : tree.kind target = some .folder)
    (h : copyChild blank recur source target tree name = .done after) :
    CopySteps blank source target tree after := by
  unfold copyChild at h
  split at h
  · next hfolder =>
    have hsteps := hrecur tree after hfolder (placed_child htarget name) h
    exact steps_of_under [name] hsteps
  · split at h
    · contradiction
    · next hcopy =>
      cases h
      exact .single (copyFile_step htarget hcopy)

theorem copyChildren_steps {tree after : FileTree Name Value} {names : List Name}
    (hrecur : ∀ name tree after, tree.kind (source ++ [name]) = some .folder →
      tree.Placed (target ++ [name]) → recur tree (source ++ [name]) (target ++ [name]) = .done after →
        CopySteps blank (source ++ [name]) (target ++ [name]) tree after)
    (htarget : tree.kind target = some .folder)
    (h : copyChildren blank recur source target tree names = .done after) :
    CopySteps blank source target tree after := by
  induction names generalizing tree with
  | nil =>
      cases h
      exact .refl
  | cons name names ih =>
      unfold copyChildren at h
      split at h
      · next middle hchild =>
        have hfirst := copyChild_steps (hrecur name) htarget hchild
        exact hfirst.trans (ih ((grows_of_steps hfirst).folder target htarget) h)
      · contradiction
      · contradiction

end Runs

-- Every copy is a run of such steps.
theorem copyAll_steps (fuel : Nat) {tree after : FileTree Name Value}
    (hsource : tree.kind source = some .folder) (hplaced : tree.Placed target)
    (h : copyAll blank fuel tree source target = .done after) :
    CopySteps blank source target tree after := by
  induction fuel generalizing tree after source target with
  | zero => contradiction
  | succ fuel ih =>
      unfold copyAll at h
      split at h
      · contradiction
      · next made hmake =>
        obtain ⟨hsteps, htarget⟩ := makeFolder_step hsource hplaced hmake
        exact hsteps.trans (copyChildren_steps (fun _ _ _ => ih) htarget h)

theorem copyChild_copyAll_steps {fuel : Nat} {tree after : FileTree Name Value} {name : Name}
    (htarget : tree.kind target = some .folder)
    (h : copyChild blank (copyAll blank fuel) source target tree name = .done after) :
    CopySteps blank source target tree after :=
  copyChild_steps (fun _ _ => copyAll_steps fuel) htarget h

end FileTree
