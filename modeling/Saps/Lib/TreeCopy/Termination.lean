import Saps.Lib.TreeCopy.Mirror

-- A copy ends unless the target is below the source.
namespace FileTree

variable {Name Value : Type} [DecidableEq Name] {blank : Value} {source target : List Name}

section Fuel

variable {recur more : FileTree Name Value → List Name → List Name → CopyResult Name Value}

theorem copyChildren_more {tree : FileTree Name Value} {names : List Name}
    (hmore : ∀ name tree, recur tree (source ++ [name]) (target ++ [name]) ≠ .outOfFuel →
      more tree (source ++ [name]) (target ++ [name]) =
        recur tree (source ++ [name]) (target ++ [name]))
    (h : copyChildren blank recur source target tree names ≠ .outOfFuel) :
    copyChildren blank more source target tree names =
      copyChildren blank recur source target tree names := by
  induction names generalizing tree with
  | nil => rfl
  | cons name names ih =>
      have hchild : copyChild blank recur source target tree name ≠ .outOfFuel := by
        intro hout
        apply h
        unfold copyChildren
        rw [hout]
      have hsame : copyChild blank more source target tree name =
          copyChild blank recur source target tree name := by
        unfold copyChild at hchild ⊢
        split
        · next hfolder =>
          rw [hfolder] at hchild
          exact hmore name tree hchild
        · rfl
      unfold copyChildren at h ⊢
      rw [hsame]
      cases hfirst : copyChild blank recur source target tree name with
      | outOfFuel => rfl
      | failed => rfl
      | done after =>
          rw [hfirst] at h
          exact ih h

end Fuel

-- A copy that has ended ends in the same way with more fuel.
theorem copyAll_succ (fuel : Nat) {tree : FileTree Name Value}
    (h : copyAll blank fuel tree source target ≠ .outOfFuel) :
    copyAll blank (fuel + 1) tree source target = copyAll blank fuel tree source target := by
  induction fuel generalizing tree source target with
  | zero => exact absurd rfl h
  | succ fuel ih =>
      rw [copyAll] at h ⊢
      rw [copyAll]
      cases hmake : tree.makeFolder target with
      | none => rfl
      | some made =>
          rw [hmake] at h
          exact copyChildren_more (fun _ _ hchild => ih hchild) h

theorem copyAll_more {fuel more : Nat} (hle : fuel ≤ more) {tree : FileTree Name Value}
    (h : copyAll blank fuel tree source target ≠ .outOfFuel) :
    copyAll blank more tree source target = copyAll blank fuel tree source target := by
  induction hle with
  | refl => rfl
  | step _ ih =>
      rw [← ih]
      exact copyAll_succ _ (ih ▸ h)

theorem copyAll_unique {fuel more : Nat} {tree : FileTree Name Value}
    (h : copyAll blank fuel tree source target ≠ .outOfFuel)
    (h' : copyAll blank more tree source target ≠ .outOfFuel) :
    copyAll blank fuel tree source target = copyAll blank more tree source target := by
  rw [← copyAll_more (Nat.le_max_left fuel more) h, ← copyAll_more (Nat.le_max_right fuel more) h']

-- The depth of what stands under the source.
def Bounded (tree : FileTree Name Value) (source : List Name) (depth : Nat) : Prop :=
  ∀ rest, (tree.kind (source ++ rest)).isSome → rest.length ≤ depth

theorem exists_bounded (tree : FileTree Name Value) (source : List Name) :
    ∃ depth, tree.Bounded source depth := by
  have hkeys (keys : List (List Name)) : ∃ depth, ∀ location ∈ keys, location.length ≤ depth := by
    induction keys with
    | nil => exact ⟨0, by simp⟩
    | cons location keys ih =>
        obtain ⟨depth, hdepth⟩ := ih
        refine ⟨max location.length depth, fun other hother => ?_⟩
        rcases List.mem_cons.mp hother with rfl | hother
        · exact Nat.le_max_left _ _
        · exact Nat.le_trans (hdepth other hother) (Nat.le_max_right _ _)
  obtain ⟨depth, hdepth⟩ := hkeys tree.entries.keys
  refine ⟨depth, fun rest hsome => ?_⟩
  by_cases hnil : source ++ rest = []
  · simp [(List.append_eq_nil_iff.mp hnil).2]
  · unfold kind at hsome
    rw [if_neg hnil, ← HashMap.mem_keys] at hsome
    have hlength := hdepth _ hsome
    rw [List.length_append] at hlength
    omega

-- What lands in the source does not land deeper than it stood.
def Level (source target : List Name) : Prop :=
  ∀ rest other, target ++ rest = source ++ other → other.length ≤ rest.length

theorem CopyStep.bounded (hlevel : Level source target) {tree after : FileTree Name Value}
    {depth : Nat} (hbounded : tree.Bounded source depth)
    (hstep : CopyStep blank source target tree after) : after.Bounded source depth := by
  have hput {rest : List Name} {entry : Entry Value} (hsource : (tree.kind (source ++ rest)).isSome)
      (hfree : tree.kind (target ++ rest) ≠ some .folder) :
      (tree.put (target ++ rest) entry).Bounded source depth := by
    intro other hsome
    rw [kind_put tree (placed_ne_root hfree)] at hsome
    split at hsome
    · next heq => exact Nat.le_trans (hlevel rest other heq.symm) (hbounded rest hsource)
    · exact hbounded other hsome
  cases hstep with
  | folder rest hsource _ hfree =>
      exact hput (by rw [hsource]; rfl) (by rw [hfree]; simp)
  | file rest hsource _ hfree =>
      exact hput (by rw [file_eq_some.mp hsource]; rfl) hfree

theorem bounded_of_steps (hlevel : Level source target) {tree after : FileTree Name Value}
    {depth : Nat} (hbounded : tree.Bounded source depth)
    (hsteps : CopySteps blank source target tree after) : after.Bounded source depth := by
  induction hsteps with
  | refl => exact hbounded
  | tail _ hstep ih => exact hstep.bounded hlevel ih

theorem copyChildren_ends (holds : FileTree Name Value → Prop)
    {recur : FileTree Name Value → List Name → List Name → CopyResult Name Value}
    {tree : FileTree Name Value} (names : List Name) (hholds : holds tree)
    (hchild : ∀ name tree, holds tree →
      copyChild blank recur source target tree name ≠ .outOfFuel)
    (hkept : ∀ name tree after, holds tree →
      copyChild blank recur source target tree name = .done after → holds after) :
    copyChildren blank recur source target tree names ≠ .outOfFuel := by
  induction names generalizing tree with
  | nil => exact fun h => by cases h
  | cons name names ih =>
      unfold copyChildren
      cases hfirst : copyChild blank recur source target tree name with
      | outOfFuel => exact absurd hfirst (hchild name tree hholds)
      | failed => exact fun h => by cases h
      | done after => exact ih (hkept name tree after hholds hfirst)

theorem copyAll_bounded (hlevel : Level source target) {depth : Nat} (fuel : Nat)
    (path : List Name) (hfuel : depth < fuel + path.length) {tree : FileTree Name Value}
    (hbounded : tree.Bounded source depth) (hsource : tree.kind (source ++ path) = some .folder)
    (hplaced : tree.Placed (target ++ path)) :
    copyAll blank fuel tree (source ++ path) (target ++ path) ≠ .outOfFuel := by
  induction fuel generalizing tree path with
  | zero =>
      have hlength := hbounded path (by rw [hsource]; rfl)
      omega
  | succ fuel ih =>
      unfold copyAll
      cases hmake : tree.makeFolder (target ++ path) with
      | none => exact fun h => by cases h
      | some made =>
          obtain ⟨hsteps, htarget⟩ : CopySteps blank (source ++ path) (target ++ path) tree made ∧
              made.kind (target ++ path) = some .folder := makeFolder_step hsource hplaced hmake
          have hmade := bounded_of_steps hlevel hbounded (steps_of_under path hsteps)
          apply copyChildren_ends
            (fun tree => tree.Bounded source depth ∧ tree.kind (target ++ path) = some .folder)
          · exact ⟨hmade, htarget⟩
          · rintro name tree ⟨hbounded, htarget⟩
            unfold copyChild
            split
            · next hfolder =>
              rw [List.append_assoc] at hfolder ⊢
              rw [List.append_assoc target]
              refine ih (path ++ [name]) ?_ hbounded hfolder ?_
              · rw [List.length_append, List.length_singleton]
                omega
              · rw [← List.append_assoc]
                exact placed_child htarget name
            · split
              · exact fun h => by cases h
              · exact fun h => by cases h
          · rintro name tree after ⟨hbounded, htarget⟩ hchild
            have hsteps := copyChild_copyAll_steps htarget hchild
            exact ⟨bounded_of_steps hlevel hbounded (steps_of_under path hsteps),
              (grows_of_steps hsteps).folder _ htarget⟩

theorem copyAll_ends (hlevel : Level source target) {tree : FileTree Name Value}
    (hsource : tree.kind source = some .folder) (hplaced : tree.Placed target) :
    ∃ fuel, copyAll blank fuel tree source target ≠ .outOfFuel := by
  obtain ⟨depth, hbounded⟩ := tree.exists_bounded source
  refine ⟨depth + 1, ?_⟩
  have hends : copyAll blank (depth + 1) tree (source ++ []) (target ++ []) ≠ .outOfFuel :=
    copyAll_bounded hlevel (depth + 1) [] (by simp) hbounded (by simpa using hsource)
      (by simpa using hplaced)
  simpa using hends

end FileTree
