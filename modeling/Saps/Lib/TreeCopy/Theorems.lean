import Saps.Lib.TreeCopy.Nested

-- When the recursive copy does what is expected of it: it ends, and where it succeeds
-- the files of the source are at their places.
namespace FileTree

variable {Name Value : Type}

theorem level_self (source : List Name) : Level source source := by
  intro rest other heq
  rw [List.append_cancel_left heq]

theorem level_away {source target : List Name} (haway : ¬source <+: target) : Level source target := by
  intro rest other heq
  have hlength := congrArg List.length heq
  rw [List.length_append, List.length_append] at hlength
  rcases List.prefix_or_prefix_of_prefix (List.prefix_append target rest)
    (heq ▸ List.prefix_append source other) with hprefix | hprefix
  · have hle := hprefix.length_le
    omega
  · exact absurd hprefix haway

variable [DecidableEq Name]

-- The copy ends, and where it succeeds it mirrors the source.
structure Copies (blank : Value) (source target : List Name) (tree : FileTree Name Value) :
    Prop where
  ends : ∃ fuel, copyAll blank fuel tree source target ≠ .outOfFuel
  mirrored : ∀ fuel after, copyAll blank fuel tree source target = .done after →
    Mirrored source target tree after

variable {blank : Value} {source target : List Name} {tree : FileTree Name Value}

theorem placed_of_kind (hrooted : tree.Rooted) {location : List Name}
    (h : (tree.kind location).isSome) : tree.Placed location := by
  rintro front last rfl
  exact hrooted front last h

-- Copied onto itself a folder fails nowhere.
theorem copyAll_self (fuel : Nat) (hsource : tree.kind source = some .folder) :
    copyAll blank fuel tree source source ≠ .failed := by
  induction fuel generalizing source tree with
  | zero => exact fun h => by cases h
  | succ fuel ih =>
      have hchildren (names : List Name) (tree : FileTree Name Value)
          (hsource : tree.kind source = some .folder)
          (hnames : ∀ name ∈ names, (tree.kind (source ++ [name])).isSome) :
          copyChildren blank (copyAll blank fuel) source source tree names ≠ .failed := by
        induction names generalizing tree with
        | nil => exact fun h => by cases h
        | cons name names ihNames =>
            have hchild : copyChild blank (copyAll blank fuel) source source tree name ≠ .failed := by
              unfold copyChild
              split
              · next hfolder => exact ih hfolder
              · next hnot =>
                obtain ⟨entry, hentry⟩ := Option.isSome_iff_exists.mp
                  (hnames name List.mem_cons_self)
                cases entry with
                | folder => exact absurd hentry hnot
                | file value =>
                    have hcopy : tree.copyFile blank (source ++ [name]) (source ++ [name]) = some _ :=
                      copyFile_eq_some.mpr ⟨value, file_eq_some.mpr hentry, by rw [hentry]; simp, rfl⟩
                    rw [hcopy]
                    exact fun h => by cases h
            unfold copyChildren
            cases hfirst : copyChild blank (copyAll blank fuel) source source tree name with
            | outOfFuel => exact fun h => by cases h
            | failed => exact absurd hfirst hchild
            | done after =>
                have hgrows := grows_of_steps (copyChild_copyAll_steps hsource hfirst)
                exact ihNames after (hgrows.folder _ hsource) fun other hother =>
                  hgrows.kind_isSome (hnames other (List.mem_cons_of_mem _ hother))
      have hmake : tree.makeFolder source = some tree := by
        unfold makeFolder
        rw [hsource]
      unfold copyAll
      rw [hmake]
      exact hchildren _ tree hsource fun name hname => (mem_children tree source name).mp hname

-- A folder that is copied onto itself keeps its files only if they are blank.
theorem copies_self_iff (hrooted : tree.Rooted) (hsource : tree.kind source = some .folder) :
    Copies blank source source tree ↔
      ∀ rest value, tree.file (source ++ rest) = some value → value = blank := by
  have hplaced : tree.Placed source := placed_of_kind hrooted (by rw [hsource]; rfl)
  have hfaithful : Faithful tree blank source source fun _ _ => True :=
    ⟨fun _ _ _ => trivial, fun _ _ _ _ _ => trivial⟩
  constructor
  · rintro ⟨⟨fuel, hends⟩, hmirrored⟩ rest value hfile
    cases hresult : copyAll blank fuel tree source source with
    | outOfFuel => exact absurd hresult hends
    | failed => exact absurd hresult (copyAll_self fuel hsource)
    | done after =>
        obtain ⟨_, _, hafter⟩ := hfaithful.mirrors hrooted fuel [] hfaithful.copying
          (by simpa using hsource) (by simpa using hplaced) (by simpa using hresult) rest
          (by simp [hfile])
        rw [if_pos rfl, List.append_nil, (hmirrored fuel after hresult).copied rest value hfile]
          at hafter
        exact Option.some.inj hafter
  · intro hblank
    refine ⟨copyAll_ends (level_self source) hsource hplaced, fun fuel after hdone =>
      hfaithful.mirrored hrooted ?_ hsource hplaced hdone⟩
    intro rest value _ hfile _
    rw [if_pos rfl, hblank rest value hfile]

section Below

variable {way : List Name} (hway : way ≠ []) (hrooted : tree.Rooted)
  (htarget : tree.kind (source ++ way) = some .folder)

include hway hrooted htarget

-- Below itself a folder is copied for ever if the way is met first in each listing.
theorem endless_below (hclear : ∀ count, tree.file (source ++ way ++ spine way count) = none)
    (fuel : Nat) :
    copyAll blank fuel (tree.listed (wayFirst source way)) source (source ++ way) = .outOfFuel := by
  have hsource : tree.kind source = some .folder :=
    hrooted.folder_of_prefix hway (by rw [htarget]; rfl)
  have hplaced : tree.Placed (source ++ way) := placed_of_kind hrooted (by rw [htarget]; rfl)
  have hzero (location : List Name) : location ++ spine way 0 = location := by simp [spine]
  have hendless : copyAll blank fuel (tree.listed (wayFirst source way)) (source ++ spine way 0)
      (source ++ way ++ spine way 0) = .outOfFuel :=
    copyAll_endless hway fuel 0 rfl hrooted hclear (by rw [hzero]; exact hsource)
      (by rw [hzero]; exact hplaced)
  rwa [hzero, hzero] at hendless

-- A file on the way ends the copy, which then fails.
theorem copies_below {count : Nat} (hfile : (tree.file (source ++ way ++ spine way count)).isSome) :
    Copies blank source (source ++ way) tree := by
  have hsource : tree.kind source = some .folder :=
    hrooted.folder_of_prefix hway (by rw [htarget]; rfl)
  have hplaced : tree.Placed (source ++ way) := placed_of_kind hrooted (by rw [htarget]; rfl)
  obtain ⟨name, rest, rfl⟩ := List.exists_cons_of_ne_nil hway
  obtain ⟨fuel, hfailed⟩ : ∃ fuel, copyAll blank fuel tree source (source ++ name :: rest) =
      .failed := copyAll_fails count hrooted hsource hplaced hfile
  have hends : copyAll blank fuel tree source (source ++ name :: rest) ≠ .outOfFuel := by
    rw [hfailed]
    exact fun h => by cases h
  refine ⟨⟨fuel, hends⟩, fun more after hdone => ?_⟩
  have hmore : copyAll blank more tree source (source ++ name :: rest) ≠ .outOfFuel := by
    rw [hdone]
    exact fun h => by cases h
  have hsame := copyAll_unique hends hmore
  rw [hfailed, hdone] at hsame
  cases hsame

end Below

end FileTree
