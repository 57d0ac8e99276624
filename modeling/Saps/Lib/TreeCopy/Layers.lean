import Saps.Lib.TreeCopy.Beside

-- Copies one on top of another: what stands at a place in the end is what stood at several
-- places at the start, in layers.
namespace FileTree

variable {Name Value : Type} [DecidableEq Name] {blank : Value} {source target : List Name}
  {start tree after : FileTree Name Value}

-- What stands at a place and below it is as it was.
def Same (start tree : FileTree Name Value) (location : List Name) : Prop :=
  ∀ rest, tree.kind (location ++ rest) = start.kind (location ++ rest)

theorem Same.trans {location : List Name} (h : start.Same tree location)
    (h' : tree.Same after location) : start.Same after location :=
  fun rest => (h' rest).trans (h rest)

theorem Same.file {location : List Name} (h : start.Same tree location) (rest : List Name) :
    tree.file (location ++ rest) = start.file (location ++ rest) := by
  unfold FileTree.file
  rw [h rest]

theorem Same.under {location : List Name} (h : start.Same tree location) (path : List Name) :
    start.Same tree (location ++ path) := by
  intro rest
  rw [List.append_assoc]
  exact h _

-- Each layer lies on top of the one before. No folder meets a file.
def Fits (start : FileTree Name Value) (place : Nat → List Name) (count : Nat) : Prop :=
  ∀ low ≤ count, ∀ high ≤ count, ∀ rest, start.kind (place low ++ rest) = some .folder →
    start.file (place high ++ rest) = none

-- What stands at the first place is the layers, of which the last one lies on top.
structure Layered (start tree : FileTree Name Value) (place : Nat → List Name) (count : Nat) :
    Prop where
  file : ∀ layer ≤ count, ∀ rest, (start.file (place layer ++ rest)).isSome →
    (tree.file (place 0 ++ rest)).isSome
  folder : ∀ rest, tree.kind (place 0 ++ rest) = some .folder ↔
    ∃ layer ≤ count, start.kind (place layer ++ rest) = some .folder
  value : ∀ rest value, tree.file (place 0 ++ rest) = some value →
    ∃ layer ≤ count, start.file (place layer ++ rest) = some value ∧
      ∀ higher ≤ count, layer < higher → start.file (place higher ++ rest) = none

section Layered

variable {place : Nat → List Name} {count : Nat}

theorem Layered.single (h : start.Same tree (place 0)) : Layered start tree place 0 := by
  refine ⟨fun layer hlayer rest hfile => ?_, fun rest => ?_, fun rest value hfile => ?_⟩
  · obtain rfl : layer = 0 := by omega
    rwa [h.file]
  · rw [h rest]
    constructor
    · exact fun hfolder => ⟨0, Nat.le_refl _, hfolder⟩
    · rintro ⟨layer, hlayer, hfolder⟩
      obtain rfl : layer = 0 := by omega
      exact hfolder
  · rw [h.file] at hfile
    exact ⟨0, Nat.le_refl _, hfile, fun higher hhigher hlt => by omega⟩

theorem Layered.same (h : Layered start tree place count) (hsame : tree.Same after (place 0)) :
    Layered start after place count := by
  refine ⟨fun layer hlayer rest hfile => ?_, fun rest => ?_, fun rest value hfile => ?_⟩
  · rw [hsame.file]
    exact h.file layer hlayer rest hfile
  · rw [hsame rest]
    exact h.folder rest
  · rw [hsame.file] at hfile
    exact h.value rest value hfile

theorem Layered.fits (h : Layered start tree place count) : start.Fits place count := by
  intro low hlow high hhigh rest hfolder
  by_contra hfile
  have hkind := (h.folder rest).mpr ⟨low, hlow, hfolder⟩
  have hsome := h.file high hhigh rest (Option.isSome_iff_ne_none.mpr hfile)
  rw [FileTree.file, hkind] at hsome
  contradiction

-- The layers of one place, copied on top of the layer of another.
theorem Layered.merged (h : Layered start tree (fun layer => place (layer + 1)) count)
    (hsame : start.Same tree (place 0)) (hmerged : Merged tree after (place 1) (place 0)) :
    Layered start after place (count + 1) := by
  refine ⟨fun layer hlayer rest hfile => ?_, fun rest => ?_, fun rest value hfile => ?_⟩
  · rw [hmerged.file, Option.isSome_or, Bool.or_eq_true]
    cases layer with
    | zero =>
        rw [hsame.file]
        exact .inr hfile
    | succ layer => exact .inl (h.file layer (by omega) rest hfile)
  · rw [hmerged.folder, hsame rest]
    constructor
    · rintro (hfolder | hfolder)
      · obtain ⟨layer, hlayer, hfound⟩ := (h.folder rest).mp hfolder
        exact ⟨layer + 1, by omega, hfound⟩
      · exact ⟨0, Nat.zero_le _, hfolder⟩
    · rintro ⟨layer, hlayer, hfolder⟩
      cases layer with
      | zero => exact .inr hfolder
      | succ layer => exact .inl ((h.folder rest).mpr ⟨layer, by omega, hfolder⟩)
  · rw [hmerged.file] at hfile
    cases habove : tree.file (place 1 ++ rest) with
    | some found =>
        rw [habove, Option.some_or] at hfile
        cases hfile
        obtain ⟨layer, hlayer, hfound, htop⟩ := h.value rest _ habove
        refine ⟨layer + 1, by omega, hfound, fun higher hhigher hlt => ?_⟩
        obtain ⟨other, rfl⟩ := Nat.exists_eq_succ_of_ne_zero (show higher ≠ 0 by omega)
        exact htop other (by omega) (by omega)
    | none =>
        rw [habove, Option.none_or, hsame.file] at hfile
        refine ⟨0, Nat.zero_le _, hfile, fun higher hhigher hlt => ?_⟩
        obtain ⟨other, rfl⟩ := Nat.exists_eq_succ_of_ne_zero (show higher ≠ 0 by omega)
        by_contra hsome
        have hfound := h.file other (by omega) rest (Option.isSome_iff_ne_none.mpr hsome)
        rw [habove] at hfound
        contradiction

theorem Layered.mergeable (h : Layered start tree (fun layer => place (layer + 1)) count)
    (hsame : start.Same tree (place 0)) (hfits : start.Fits place (count + 1)) :
    tree.Mergeable (place 1) (place 0) := by
  constructor
  · intro rest hfolder
    obtain ⟨layer, hlayer, hfound⟩ := (h.folder rest).mp hfolder
    rw [hsame.file]
    exact hfits (layer + 1) (by omega) 0 (Nat.zero_le _) rest hfound
  · intro rest hsome hfolder
    obtain ⟨value, hvalue⟩ := Option.isSome_iff_exists.mp hsome
    obtain ⟨layer, hlayer, hfound, _⟩ := h.value rest value hvalue
    rw [hsame rest] at hfolder
    have hnone := hfits 0 (Nat.zero_le _) (layer + 1) (by omega) rest hfolder
    rw [hnone] at hfound
    cases hfound

end Layered

-- What is known of a copy, whichever way it goes.
def CopyResult.Meets (failed : Prop) (done : FileTree Name Value → Prop) :
    CopyResult Name Value → Prop
  | .outOfFuel => True
  | .failed => failed
  | .done tree => done tree

section Children

variable {fuel : Nat} {name : Name}

omit [DecidableEq Name] in
theorem child_eq_of_below {folder rest : List Name} {other : Name}
    (h : folder ++ [other] <+: folder ++ [name] ++ rest) : other = name := by
  rw [List.append_assoc, List.prefix_append_right_inj, List.singleton_append,
    List.cons_prefix_cons] at h
  exact h.1

-- The other children stay as they are.
theorem Same.of_child {other : Name} (htarget : tree.kind target = some .folder)
    (h : copyChild blank (copyAll blank fuel) source target tree other = .done after)
    (hne : name ≠ other) : tree.Same after (target ++ [name]) :=
  fun _ => copyChild_steps_under htarget h fun hprefix => hne (child_eq_of_below hprefix).symm

theorem Same.of_children {names : List Name} (htarget : tree.kind target = some .folder)
    (h : copyChildren blank (copyAll blank fuel) source target tree names = .done after)
    (hname : name ∉ names) : tree.Same after (target ++ [name]) :=
  fun _ => copyChildren_steps_under htarget h fun _ hother hprefix =>
    hname (child_eq_of_below hprefix ▸ hother)

theorem copyChild_merged (hrooted : tree.Rooted)
    (hbeside : Beside (source ++ [name]) (target ++ [name]))
    (htarget : tree.kind target = some .folder)
    (h : copyChild blank (copyAll blank fuel) source target tree name = .done after) :
    Merged tree after (source ++ [name]) (target ++ [name]) := by
  unfold copyChild at h
  split at h
  · next hfolder => exact copyAll_merged hrooted hbeside hfolder (placed_child htarget name) h
  · next hnot =>
    split at h
    · contradiction
    · next hcopy =>
      cases h
      obtain ⟨value, hvalue, hfree, rfl⟩ := copyFile_eq_some.mp hcopy
      have hne : source ++ [name] ≠ target ++ [name] := fun heq =>
        hbeside.below (heq ▸ List.prefix_refl _)
      have hnothing (rest : List Name) (hrest : rest ≠ []) :
          tree.kind (source ++ [name] ++ rest) = none := by
        by_contra hsome
        exact hnot (hrooted.folder_of_prefix hrest (Option.isSome_iff_ne_none.mpr hsome))
      refine ⟨fun rest => ?_, fun rest => ?_⟩
      · rw [file_put tree (placed_ne_root hfree), if_neg hne]
        by_cases hrest : rest = []
        · subst hrest
          rw [List.append_nil, List.append_nil, if_pos rfl, hvalue]
          rfl
        · rw [if_neg (by simpa using hrest), FileTree.file, FileTree.file, hnothing rest hrest]
          rfl
      · rw [kind_put tree (placed_ne_root hfree)]
        by_cases hrest : rest = []
        · subst hrest
          rw [List.append_nil, List.append_nil, if_pos rfl]
          constructor
          · exact fun h => by cases h
          · rintro (hfolder | hfolder)
            · exact absurd hfolder hnot
            · exact absurd hfolder hfree
        · rw [if_neg (by simpa using hrest), hnothing rest hrest]
          simp

-- Children that stand beside their places are each copied with the layers they have
-- by then. Where the copy fails, some layers do not fit.
theorem copyChildren_layered {place : Name → Nat → List Name} {Turns : Name → Nat → Prop}
    {names : List Name} (hnodup : names.Nodup)
    (hzero : ∀ name, place name 0 = target ++ [name])
    (hone : ∀ name, place name 1 = source ++ [name])
    (hbeside : ∀ name ∈ names, ∀ other ∈ names, Beside (source ++ [other]) (target ++ [name]))
    (hrooted : tree.Rooted) (htarget : tree.kind target = some .folder)
    (hsome : ∀ name ∈ names, (tree.kind (source ++ [name])).isSome)
    (hsame : ∀ name ∈ names, start.Same tree (target ++ [name]))
    (hlayers : ∀ name ∈ names, ∃ count, Turns name count ∧
      Layered start tree (fun layer => place name (layer + 1)) count) :
    (copyChildren blank (copyAll blank fuel) source target tree names).Meets
      (∃ name ∈ names, ∃ count, Turns name count ∧ ¬start.Fits (place name) (count + 1))
      (fun after => ∀ name ∈ names, ∃ count, Turns name count ∧
        Layered start after (place name) (count + 1)) := by
  induction names generalizing tree with
  | nil => exact fun name hname => absurd hname List.not_mem_nil
  | cons name names ih =>
      obtain ⟨hfresh, hnodup⟩ := List.nodup_cons.mp hnodup
      obtain ⟨count, hturns, hlayered⟩ := hlayers name List.mem_cons_self
      have hown := hbeside name List.mem_cons_self name List.mem_cons_self
      have hthere := hsome name List.mem_cons_self
      have hplace := hsame name List.mem_cons_self
      rw [← hzero] at hplace
      unfold copyChildren
      cases hchild : copyChild blank (copyAll blank fuel) source target tree name with
      | outOfFuel => trivial
      | failed =>
          refine ⟨name, List.mem_cons_self, count, hturns, fun hfits => ?_⟩
          have hmerge := hlayered.mergeable hplace hfits
          rw [hzero, hone] at hmerge
          exact copyChild_mergeable hmerge hthere
            (fun hfolder => copyAll_beside fuel hown hfolder (placed_child htarget name) hmerge) hchild
      | done middle =>
          have hsteps := copyChild_copyAll_steps htarget hchild
          have hgrows := grows_of_steps hsteps
          have hmerged := copyChild_merged hrooted hown htarget hchild
          rw [← hzero, ← hone] at hmerged
          -- The places of the other children and what they are copied from stay as they are.
          have hother (other : Name) (hmem : other ∈ names) : tree.Same middle (target ++ [other]) :=
            .of_child htarget hchild fun heq => hfresh (heq ▸ hmem)
          have hfrom (other : Name) (hmem : other ∈ names) : tree.Same middle (source ++ [other]) := by
            intro rest
            refine copyChild_steps_under htarget hchild fun hunder => ?_
            obtain ⟨more, heq⟩ := hunder
            exact (hbeside name List.mem_cons_self other (List.mem_cons_of_mem _ hmem)).ne _ _ heq.symm
          have hrest := ih hnodup
            (fun left hleft right hright => hbeside left (List.mem_cons_of_mem _ hleft) right
              (List.mem_cons_of_mem _ hright))
            (rooted_of_steps hrooted hsteps) (hgrows.folder _ htarget)
            (fun other hmem => hgrows.kind_isSome (hsome other (List.mem_cons_of_mem _ hmem)))
            (fun other hmem => (hsame other (List.mem_cons_of_mem _ hmem)).trans (hother other hmem))
            (fun other hmem => by
              obtain ⟨count, hturns, hlayered⟩ := hlayers other (List.mem_cons_of_mem _ hmem)
              exact ⟨count, hturns, hlayered.same (by rw [hone]; exact hfrom other hmem)⟩)
          dsimp only
          cases hresult : copyChildren blank (copyAll blank fuel) source target middle names with
          | outOfFuel => trivial
          | failed =>
              rw [hresult] at hrest
              obtain ⟨other, hmem, hmisfit⟩ := hrest
              exact ⟨other, List.mem_cons_of_mem _ hmem, hmisfit⟩
          | done after =>
              rw [hresult] at hrest
              intro other hmem
              rcases List.mem_cons.mp hmem with rfl | hmem
              · refine ⟨count, hturns, (hlayered.merged hplace hmerged).same ?_⟩
                rw [hzero]
                exact .of_children (hgrows.folder _ htarget) hresult hfresh
              · exact hrest other hmem

end Children

end FileTree
