import Saps.Lib.TreeCopy.Termination

-- The copy of a folder to a place below it, which follows the way from the one to the
-- other again and again.
namespace FileTree

-- The first names on the way, taken over and over.
def spine {Name : Type} : List Name → Nat → List Name
  | _, 0 => []
  | [], _ + 1 => []
  | name :: rest, count + 1 => name :: spine (rest ++ [name]) count

section Spine

variable {Name : Type}

theorem spine_length {way : List Name} (h : way ≠ []) (count : Nat) :
    (spine way count).length = count := by
  induction count generalizing way with
  | zero => rfl
  | succ count ih =>
      obtain ⟨name, rest, rfl⟩ := List.exists_cons_of_ne_nil h
      rw [spine, List.length_cons, ih (List.append_ne_nil_of_right_ne_nil _ (List.cons_ne_nil _ _))]

theorem spine_prefix (way : List Name) (count more : Nat) :
    spine way count <+: spine way (count + more) := by
  induction count generalizing way with
  | zero => exact List.nil_prefix
  | succ count ih =>
      rw [Nat.succ_add]
      cases way with
      | nil => exact List.nil_prefix
      | cons name rest => exact List.cons_prefix_cons.mpr ⟨rfl, ih _⟩

theorem spine_append (front back : List Name) (count : Nat) :
    spine (front ++ back) (front.length + count) = front ++ spine (back ++ front) count := by
  induction front generalizing back with
  | nil => simp
  | cons name front ih =>
      rw [List.length_cons, Nat.succ_add, List.cons_append, spine, List.append_assoc, ih,
        List.append_assoc]
      rfl

theorem spine_succ {way : List Name} (h : way ≠ []) (count : Nat) :
    ∃ name, spine way (count + 1) = spine way count ++ [name] := by
  obtain ⟨rest, hrest⟩ := spine_prefix way count 1
  have hlength := congrArg List.length hrest
  rw [List.length_append, spine_length h, spine_length h] at hlength
  obtain ⟨name, rfl⟩ := List.length_eq_one_iff.mp (show rest.length = 1 by omega)
  exact ⟨name, hrest.symm⟩

-- The next name of the source is on the way to the target.
theorem spine_below (way : List Name) (h : way ≠ []) (count : Nat) :
    spine way (count + 1) <+: way ++ spine way count := by
  have hwhole := spine_append way [] count
  rw [List.append_nil, List.nil_append] at hwhole
  rw [← hwhole]
  have hlength : 0 < way.length := List.length_pos_iff.mpr h
  obtain ⟨more, hmore⟩ := Nat.exists_eq_add_of_le (show count + 1 ≤ way.length + count by omega)
  rw [hmore]
  exact spine_prefix way (count + 1) more

-- The copy of another child of the source stays clear of the way.
theorem level_beside {source : List Name} {name other : Name} (hne : other ≠ name) (rest : List Name) :
    Level (source ++ [other]) (source ++ name :: rest ++ [other]) := by
  intro below place heq
  simp only [List.append_assoc, List.append_cancel_left_eq, List.cons_append, List.nil_append,
    List.cons.injEq] at heq
  exact absurd heq.1.symm hne

end Spine

variable {Name Value : Type} [DecidableEq Name] {blank : Value} {source target : List Name}

theorem rooted_of_steps {tree after : FileTree Name Value} (hrooted : tree.Rooted)
    (h : CopySteps blank source target tree after) : after.Rooted := by
  induction h with
  | refl => exact hrooted
  | tail _ hstep ih => exact hstep.rooted ih

theorem copyChild_more {fuel more : Nat} (hle : fuel ≤ more) {tree : FileTree Name Value}
    {name : Name} (h : copyChild blank (copyAll blank fuel) source target tree name ≠ .outOfFuel) :
    copyChild blank (copyAll blank more) source target tree name =
      copyChild blank (copyAll blank fuel) source target tree name := by
  unfold copyChild at h ⊢
  split
  · next hfolder =>
    rw [hfolder] at h
    exact copyAll_more hle h
  · rfl

-- Children are copied one after another, each with as much fuel as it needs.
theorem copyChildren_cons {fuel more : Nat} {tree after : FileTree Name Value} {name : Name}
    {names : List Name}
    (hchild : copyChild blank (copyAll blank fuel) source target tree name = .done after)
    (hrest : copyChildren blank (copyAll blank more) source target after names = .failed) :
    copyChildren blank (copyAll blank (max fuel more)) source target tree (name :: names) =
      .failed := by
  have hfirst : copyChild blank (copyAll blank (max fuel more)) source target tree name =
      .done after := by
    rw [← hchild]
    refine copyChild_more (Nat.le_max_left _ _) ?_
    rw [hchild]
    exact fun h => by cases h
  unfold copyChildren
  rw [hfirst, ← hrest]
  refine copyChildren_more (fun _ _ h => copyAll_more (Nat.le_max_right _ _) h) ?_
  rw [hrest]
  exact fun h => by cases h

theorem copyChild_ends {tree : FileTree Name Value} {name : Name}
    (hlevel : Level (source ++ [name]) (target ++ [name]))
    (htarget : tree.kind target = some .folder) :
    ∃ fuel, copyChild blank (copyAll blank fuel) source target tree name ≠ .outOfFuel := by
  unfold copyChild
  split
  · next hfolder => exact copyAll_ends hlevel hfolder (placed_child htarget name)
  · refine ⟨0, ?_⟩
    split
    · exact fun h => by cases h
    · exact fun h => by cases h

-- One child that cannot be copied ends the loop with an error, if the others end at all.
theorem copyChildren_fails (holds : FileTree Name Value → Prop) {name : Name} {names : List Name}
    (hmem : name ∈ names) {tree : FileTree Name Value} (hholds : holds tree)
    (hname : ∀ tree, holds tree →
      ∃ fuel, copyChild blank (copyAll blank fuel) source target tree name = .failed)
    (hothers : ∀ other, other ≠ name → ∀ tree, holds tree →
      ∃ fuel, copyChild blank (copyAll blank fuel) source target tree other ≠ .outOfFuel)
    (hkept : ∀ fuel other tree after, holds tree →
      copyChild blank (copyAll blank fuel) source target tree other = .done after → holds after) :
    ∃ fuel, copyChildren blank (copyAll blank fuel) source target tree names = .failed := by
  induction names generalizing tree with
  | nil => exact absurd hmem List.not_mem_nil
  | cons other names ih =>
      by_cases hother : other = name
      · subst hother
        obtain ⟨fuel, hfailed⟩ := hname tree hholds
        refine ⟨fuel, ?_⟩
        unfold copyChildren
        rw [hfailed]
      · obtain ⟨fuel, hends⟩ := hothers other hother tree hholds
        cases hchild : copyChild blank (copyAll blank fuel) source target tree other with
        | outOfFuel => exact absurd hchild hends
        | failed =>
            refine ⟨fuel, ?_⟩
            unfold copyChildren
            rw [hchild]
        | done after =>
            obtain ⟨more, hfailed⟩ := ih ((List.mem_cons.mp hmem).resolve_left (Ne.symm hother))
              (hkept fuel other tree after hholds hchild)
            exact ⟨_, copyChildren_cons hchild hfailed⟩

-- The target is there, and a file on the way that is followed over and over.
structure Blocked (source way : List Name) (count : Nat) (tree : FileTree Name Value) : Prop where
  rooted : tree.Rooted
  target : tree.kind (source ++ way) = some .folder
  file : (tree.file (source ++ way ++ spine way count)).isSome

theorem Blocked.steps {way : List Name} {count : Nat} {tree after : FileTree Name Value}
    (h : Blocked source way count tree)
    (hsteps : CopySteps blank source (source ++ way) tree after) : Blocked source way count after :=
  ⟨rooted_of_steps h.rooted hsteps, (grows_of_steps hsteps).folder _ h.target,
    (grows_of_steps hsteps).file _ h.file⟩

-- Such a file ends the copy with an error.
theorem copyAll_fails (count : Nat) {name : Name} {rest : List Name} {tree : FileTree Name Value}
    (hrooted : tree.Rooted) (hsource : tree.kind source = some .folder)
    (hplaced : tree.Placed (source ++ name :: rest))
    (hfile : (tree.file (source ++ name :: rest ++ spine (name :: rest) count)).isSome) :
    ∃ fuel, copyAll blank fuel tree source (source ++ name :: rest) = .failed := by
  induction count generalizing source name rest tree with
  | zero =>
      refine ⟨1, ?_⟩
      obtain ⟨value, hvalue⟩ := Option.isSome_iff_exists.mp hfile
      rw [spine, List.append_nil] at hvalue
      unfold copyAll makeFolder
      rw [file_eq_some.mp hvalue]
  | succ count ih =>
      cases hmake : tree.makeFolder (source ++ name :: rest) with
      | none =>
          refine ⟨1, ?_⟩
          unfold copyAll
          rw [hmake]
      | some made =>
          obtain ⟨hsteps, htarget⟩ : CopySteps blank source (source ++ name :: rest) tree made ∧
              made.kind (source ++ name :: rest) = some .folder :=
            makeFolder_step hsource hplaced hmake
          have hblocked : Blocked source (name :: rest) (count + 1) made :=
            ⟨rooted_of_steps hrooted hsteps, htarget, (grows_of_steps hsteps).file _ hfile⟩
          have hmem : name ∈ made.children source := by
            rw [mem_children, kind_on_way hblocked.rooted htarget]
            rfl
          have hname (tree : FileTree Name Value)
              (h : Blocked source (name :: rest) (count + 1) tree) :
              ∃ fuel, copyChild blank (copyAll blank fuel) source (source ++ name :: rest) tree name =
                .failed := by
            -- The copy of this child goes on from the next name of the way.
            obtain ⟨next, later, hturned⟩ := List.exists_cons_of_ne_nil
              (List.append_ne_nil_of_right_ne_nil rest (List.cons_ne_nil name []))
            have hplace : source ++ name :: rest ++ [name] = source ++ [name] ++ next :: later := by
              rw [← hturned]
              simp
            have hbelow : (tree.file (source ++ [name] ++ next :: later ++
                spine (next :: later) count)).isSome := by
              rw [← hplace, ← hturned, List.append_assoc, List.singleton_append]
              exact h.file
            obtain ⟨fuel, hfailed⟩ := ih h.rooted (kind_on_way h.rooted h.target)
              (hplace ▸ placed_child h.target name) hbelow
            refine ⟨fuel, ?_⟩
            unfold copyChild
            rw [kind_on_way h.rooted h.target, hplace]
            exact hfailed
          obtain ⟨fuel, hfailed⟩ := copyChildren_fails (Blocked source (name :: rest) (count + 1))
            hmem hblocked hname
            (fun other hother tree h => copyChild_ends (level_beside hother rest) h.target)
            (fun fuel other tree after h hchild =>
              h.steps (copyChild_copyAll_steps h.target hchild))
          refine ⟨fuel + 1, ?_⟩
          unfold copyAll
          rw [hmake]
          exact hfailed

section Endless

-- An order of iteration that meets what is on the way first.
def onWay (source way location : List Name) : Bool :=
  location.isPrefixOf (source ++ spine way location.length)

def wayFirst (source way : List Name) : Order (List Name) where
  arrange keys :=
    keys.filter (onWay source way) ++ keys.filter fun location => !onWay source way location
  arrange_perm keys := List.filter_append_perm _ keys

variable {way : List Name} {tree : FileTree Name Value}

theorem children_wayFirst (hway : way ≠ []) (horder : tree.entries.order = wayFirst source way)
    {count : Nat} {name : Name} (hname : spine way (count + 1) = spine way count ++ [name])
    (hsome : (tree.kind (source ++ spine way (count + 1))).isSome) :
    ∃ names, tree.children (source ++ spine way count) = name :: names := by
  have hnext : source ++ spine way count ++ [name] = source ++ spine way (count + 1) := by
    rw [List.append_assoc, ← hname]
  have hon (location : List Name) (hlocation : onWay source way location = true)
      (other : Name) (heq : location = source ++ spine way count ++ [other]) : other = name := by
    unfold onWay at hlocation
    rw [heq, List.isPrefixOf_iff_prefix, List.append_assoc, List.prefix_append_right_inj] at hlocation
    have hlength : (source ++ (spine way count ++ [other])).length = count + 1 + source.length := by
      simp [spine_length hway]
      omega
    rw [hlength] at hlocation
    have hsame := List.prefix_of_prefix_length_le hlocation ( spine_prefix way (count + 1) _)
      (by simp [spine_length hway])
    have heq := hsame.eq_of_length (by simp [spine_length hway])
    rw [hname] at heq
    simpa using heq
  have hmem : source ++ spine way (count + 1) ∈ tree.entries.entries.keys.filter
      (onWay source way) := by
    refine List.mem_filter.mpr ⟨?_, ?_⟩
    · have hne : source ++ spine way (count + 1) ≠ [] := by
        rw [hname]
        simp
      unfold kind at hsome
      rw [if_neg hne, ← HashMap.mem_keys] at hsome
      exact (tree.entries.order.arrange_perm _).mem_iff.mp hsome
    · unfold onWay
      rw [List.isPrefixOf_iff_prefix, List.prefix_append_right_inj, List.length_append,
        spine_length hway, Nat.add_comm source.length]
      exact spine_prefix way (count + 1) _
  unfold children HashMap.keys
  rw [horder]
  unfold wayFirst
  dsimp only
  rw [List.filterMap_append]
  cases hfirst : (tree.entries.entries.keys.filter (onWay source way)).filterMap
      (childName (source ++ spine way count)) with
  | nil =>
      have hin := List.mem_filterMap.mpr ⟨_, hmem, childName_eq_some.mpr hnext.symm⟩
      rw [hfirst] at hin
      exact absurd hin List.not_mem_nil
  | cons first rest =>
      have hin : first ∈ (tree.entries.entries.keys.filter (onWay source way)).filterMap
          (childName (source ++ spine way count)) := by
        rw [hfirst]
        exact List.mem_cons_self
      obtain ⟨location, hlocation, hchild⟩ := List.mem_filterMap.mp hin
      rw [hon location (List.mem_filter.mp hlocation).2 first (childName_eq_some.mp hchild)]
      exact ⟨_, rfl⟩

theorem copyAll_endless (hway : way ≠ []) (fuel count : Nat)
    (horder : tree.entries.order = wayFirst source way) (hrooted : tree.Rooted)
    (hclear : ∀ count, tree.file (source ++ way ++ spine way count) = none)
    (hsource : tree.kind (source ++ spine way count) = some .folder)
    (hplaced : tree.Placed (source ++ way ++ spine way count)) :
    copyAll blank fuel tree (source ++ spine way count) (source ++ way ++ spine way count) =
      .outOfFuel := by
  induction fuel generalizing tree count with
  | zero => rfl
  | succ fuel ih =>
      obtain ⟨name, hname⟩ := spine_succ hway count
      cases hmake : tree.makeFolder (source ++ way ++ spine way count) with
      | none =>
          obtain ⟨value, hvalue⟩ := makeFolder_eq_none hmake
          rw [hclear count] at hvalue
          contradiction
      | some made =>
          obtain ⟨hsteps, htarget⟩ : CopySteps blank (source ++ spine way count)
              (source ++ way ++ spine way count) tree made ∧
              made.kind (source ++ way ++ spine way count) = some .folder :=
            makeFolder_step hsource hplaced hmake
          have hmade := rooted_of_steps hrooted hsteps
          have hnext : made.kind (source ++ spine way (count + 1)) = some .folder := by
            obtain ⟨rest, hrest⟩ := spine_below way hway count
            rw [List.append_assoc, ← hrest, ← List.append_assoc] at htarget
            by_cases hnil : rest = []
            · rwa [hnil, List.append_nil] at htarget
            · exact hmade.folder_of_prefix hnil (by rw [htarget]; rfl)
          have horder : made.entries.order = wayFirst source way :=
            (makeFolder_order hmake).trans horder
          have hclear (count : Nat) : made.file (source ++ way ++ spine way count) = none := by
            rw [makeFolder_file hmake]
            exact hclear count
          have hplaced : made.Placed (source ++ way ++ spine way (count + 1)) := by
            rw [hname, ← List.append_assoc]
            exact placed_child htarget name
          obtain ⟨names, hchildren⟩ := children_wayFirst hway horder hname (by rw [hnext]; rfl)
          unfold copyAll
          rw [hmake]
          dsimp only
          rw [hchildren]
          unfold copyChildren copyChild
          rw [List.append_assoc, ← hname, hnext, List.append_assoc (source ++ way), ← hname]
          dsimp only
          rw [ih (count + 1) horder hmade hclear hnext hplaced]

end Endless

end FileTree
