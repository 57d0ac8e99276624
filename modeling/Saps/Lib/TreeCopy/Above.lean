import Saps.Lib.TreeCopy.Layers

-- The copy of a folder to a place above it. Along the way from the one to the other the
-- folders of the source are themselves places of the copy.
namespace FileTree

section Way

variable {Name : Type} {target way path top : List Name}

-- The way, taken over and over, as far as this.
def Along (way path : List Name) : Prop :=
  path = spine way path.length

-- The first place off the way.
def Leaves (way top : List Name) : Prop :=
  ∃ path name, top = path ++ [name] ∧ Along way path ∧ ¬Along way top

def further (way : List Name) : Nat → List Name → List Name
  | 0, rest => rest
  | layer + 1, rest => way ++ further way layer rest

theorem further_way (layer : Nat) (rest : List Name) :
    further way layer (way ++ rest) = further way (layer + 1) rest := by
  induction layer with
  | zero => rfl
  | succ layer ih =>
      rw [further, ih]
      rfl

theorem further_length (layer : Nat) (rest : List Name) :
    (further way layer rest).length = layer * way.length + rest.length := by
  induction layer with
  | zero => simp [further]
  | succ layer ih =>
      rw [further, List.length_append, ih, Nat.succ_mul]
      omega

theorem further_injective (hway : way ≠ []) {low high : Nat}
    (h : further way low top = further way high top) : low = high := by
  have hlength := congrArg List.length h
  rw [further_length, further_length] at hlength
  have hpositive := List.length_pos_iff.mpr hway
  exact Nat.eq_of_mul_eq_mul_right hpositive (by omega)

theorem further_add (low high : Nat) :
    further way low (further way high top) = further way (low + high) top := by
  induction low with
  | zero => rw [further, Nat.zero_add]
  | succ low ih => rw [further, ih, Nat.succ_add, further]

theorem along_nil : Along way [] := by
  unfold Along
  rfl

theorem Along.front {rest : List Name} (h : Along way (path ++ rest)) : Along way path := by
  unfold Along at h ⊢
  rw [List.length_append] at h
  have hprefix := spine_prefix way path.length rest.length
  rw [← h] at hprefix
  by_cases hway : way = []
  · subst hway
    have hnil (count : Nat) : spine ([] : List Name) count = [] := by
      cases count with
      | zero => rfl
      | succ count => rfl
    rw [hnil] at h ⊢
    exact (List.append_eq_nil_iff.mp h).1
  · refine ((List.prefix_of_prefix_length_le hprefix (List.prefix_append path rest) ?_).eq_of_length
      ?_).symm
    · rw [spine_length hway]
    · rw [spine_length hway]

theorem Along.turn (h : Along way path) : Along way (way ++ path) := by
  unfold Along at h ⊢
  have hwhole := spine_append way [] path.length
  rw [List.append_nil, List.nil_append, ← h] at hwhole
  rw [List.length_append, hwhole]

-- On the way there is one name that leads on, and the source has it too.
theorem Along.next (hway : way ≠ []) (h : Along way path) :
    ∃ next more, way ++ path = path ++ next :: more ∧
      ∀ name, Along way (path ++ [name]) ↔ name = next := by
  obtain ⟨next, hnext⟩ := spine_succ hway path.length
  obtain ⟨more, hmore⟩ := spine_below way hway path.length
  rw [hnext, ← h, List.append_assoc, List.singleton_append] at hmore
  refine ⟨next, more, hmore.symm, fun name => ?_⟩
  unfold Along
  rw [List.length_append, List.length_singleton, hnext, ← h]
  simp

theorem Leaves.turn (h : Leaves way top) (hway : way ≠ []) : Leaves way (way ++ top) := by
  obtain ⟨path, name, rfl, hpath, hoff⟩ := h
  refine ⟨way ++ path, name, (List.append_assoc _ _ _).symm, hpath.turn, fun halong => hoff ?_⟩
  obtain ⟨next, more, hmore, hnext⟩ := hpath.next hway
  obtain ⟨other, _, _, hother⟩ := hpath.turn.next hway
  rw [← List.append_assoc, hother] at halong
  subst halong
  -- Both names come next on the way, one time round apart.
  have hspine := spine_append way [] (path.length + 1)
  rw [List.append_nil, List.nil_append] at hspine
  have hturn : Along way (way ++ (path ++ [next])) := ((hnext next).mpr rfl).turn
  rw [← List.append_assoc, hother] at hturn
  rw [hnext, hturn]

theorem Leaves.further (h : Leaves way top) (hway : way ≠ []) (layer : Nat) :
    Leaves way (further way layer top) := by
  induction layer with
  | zero => exact h
  | succ layer ih => exact ih.turn hway

-- No place off the way lies below another such place.
theorem Leaves.apart {other : List Name} (h : Leaves way top) (h' : Leaves way other)
    (hbelow : top <+: other) : top = other := by
  obtain ⟨path, name, rfl, hpath, _⟩ := h'
  rcases List.prefix_concat_iff.mp hbelow with heq | hbelow
  · exact heq
  · obtain ⟨rest, rfl⟩ := hbelow
    obtain ⟨_, _, _, _, hoff⟩ := h
    exact absurd hpath.front hoff

theorem exists_leaves (path : List Name) (h : ¬Along way path) :
    ∃ top rest, Leaves way top ∧ path = top ++ rest := by
  induction path using List.reverseRecOn with
  | nil => exact absurd along_nil h
  | append_singleton path name ih =>
      by_cases halong : Along way path
      · exact ⟨path ++ [name], [], ⟨path, name, rfl, halong, h⟩, (List.append_nil _).symm⟩
      · obtain ⟨top, rest, hleaves, rfl⟩ := ih halong
        exact ⟨top, rest ++ [name], hleaves, List.append_assoc _ _ _⟩

-- What one copy brings to a place off the way is what stands as far off it, one time
-- further down the way.
def lower (target way top : List Name) (layer : Nat) : List Name :=
  target ++ further way layer top

theorem lower_way (top : List Name) (layer : Nat) :
    lower target way (way ++ top) layer = lower target way top (layer + 1) := by
  unfold lower
  rw [further_way]

theorem lower_zero (target way top : List Name) : lower target way top 0 = target ++ top :=
  rfl

theorem lower_one (target way top : List Name) : lower target way top 1 = target ++ way ++ top :=
  (List.append_assoc target way top).symm

end Way

variable {Name Value : Type} [DecidableEq Name] {blank : Value} {target way : List Name}
  {start : FileTree Name Value}

-- How many layers a place can end with, where `Turns` tells how many the place that is
-- copied to it can have by then.
def Depth (start : FileTree Name Value) (target way : List Name)
    (Turns : List Name → Nat → Prop) (top : List Name) : Nat → Prop
  | 0 => start.kind (target ++ way ++ top) = none
  | count + 1 => (start.kind (target ++ way ++ top)).isSome ∧ Turns top count

-- A listing of a folder in which nothing has come to be since the start.
structure Listing (start : FileTree Name Value) (folder : List Name) (names : List Name) : Prop where
  mem : ∀ name, name ∈ names ↔ (start.kind (folder ++ [name])).isSome
  listed : ∃ tree : FileTree Name Value, tree.entries.order = start.entries.order ∧
    names = tree.children folder

theorem Listing.nodup {folder names : List Name} (h : Listing start folder names) : names.Nodup := by
  obtain ⟨tree, _, rfl⟩ := h.listed
  exact children_nodup tree folder

-- What comes before the next name on the way is copied as it was, and what comes after it
-- with what has been copied to it.
structure TakesTurns (start : FileTree Name Value) (target way : List Name)
    (Turns : List Name → Nat → Prop) : Prop where
  early : ∀ path front back, Along way path →
    Listing start (target ++ way ++ path) (front ++ back) →
      (∀ name ∈ front, ¬Along way (path ++ [name])) →
        ∀ name ∈ front, Turns (path ++ [name]) 0
  late : ∀ path front next back, Listing start (target ++ way ++ path) (front ++ next :: back) →
    Along way (path ++ [next]) → ∀ name ∈ back, ∀ count,
      Depth start target way Turns (way ++ (path ++ [name])) count → Turns (path ++ [name]) count

-- Each place below has its layers.
def Piled (start : FileTree Name Value) (target way : List Name) (Turns : List Name → Nat → Prop)
    (path : List Name) (after : FileTree Name Value) : Prop :=
  ∀ top, Leaves way top → path <+: top → ∃ count, Depth start target way Turns top count ∧
    Layered start after (lower target way top) count

-- Why a copy can fail: a file on the way, or layers that do not fit.
inductive Jams (start : FileTree Name Value) (target way : List Name)
    (Turns : List Name → Nat → Prop) : Prop
  | file (rest : List Name) (hfile : (start.file (target ++ way ++ rest)).isSome)
      (hfolder : start.kind (target ++ rest) = some .folder)
  | misfit (top : List Name) (count : Nat) (hleaves : Leaves way top)
      (hsome : (start.kind (target ++ way ++ top)).isSome) (hturns : Turns top count)
      (hfits : ¬start.Fits (lower target way top) (count + 1))

theorem copyChildren_append
    {recur : FileTree Name Value → List Name → List Name → CopyResult Name Value}
    {source target : List Name} {tree : FileTree Name Value} (front back : List Name) :
    copyChildren blank recur source target tree (front ++ back) =
      match copyChildren blank recur source target tree front with
      | .done tree => copyChildren blank recur source target tree back
      | .failed => .failed
      | .outOfFuel => .outOfFuel := by
  induction front generalizing tree with
  | nil => rfl
  | cons name front ih =>
      rw [List.cons_append, copyChildren, copyChildren]
      cases copyChild blank recur source target tree name with
      | outOfFuel => rfl
      | failed => rfl
      | done after => exact ih

theorem order_of_steps {source target : List Name} {tree after : FileTree Name Value}
    (h : CopySteps blank source target tree after) : after.entries.order = tree.entries.order := by
  induction h with
  | refl => rfl
  | tail _ hstep ih =>
      rw [← ih]
      cases hstep with
      | folder rest _ _ _ => rfl
      | file rest _ _ _ => rfl

section Level

variable {Turns : List Name → Nat → Prop} {path : List Name} {next : Name} {more : List Name}
  {fuel : Nat} {tree after : FileTree Name Value} (hpath : Along way path)
  (hmore : way ++ path = path ++ next :: more)
  (hnext : ∀ name, Along way (path ++ [name]) ↔ name = next)

include hpath hnext in
omit [DecidableEq Name] in
theorem leaves_child {name : Name} (hne : name ≠ next) : Leaves way (path ++ [name]) :=
  ⟨path, name, rfl, hpath, fun halong => hne ((hnext name).mp halong)⟩

include hmore

omit [DecidableEq Name] in
theorem source_child (rest : List Name) :
    target ++ way ++ path ++ rest = target ++ path ++ next :: (more ++ rest) := by
  rw [List.append_assoc target, hmore]
  simp

omit [DecidableEq Name] in
theorem beside_child {name : Name} (hne : name ≠ next) (other : Name) :
    Beside (target ++ way ++ path ++ [other]) (target ++ path ++ [name]) := by
  rw [source_child hmore]
  constructor
  · intro hprefix
    rw [List.prefix_append_right_inj, List.cons_prefix_cons] at hprefix
    exact hne hprefix.1.symm
  · intro hprefix
    rw [List.prefix_append_right_inj, List.cons_prefix_cons] at hprefix
    exact hne hprefix.1

section OnPath

include hpath hnext

-- The children off the way.
theorem children_piled {names : List Name} (hnodup : names.Nodup)
    (hoff : ∀ name ∈ names, name ≠ next)
    (hlisted : ∀ name ∈ names, (start.kind (target ++ way ++ path ++ [name])).isSome)
    (hgrows : start.Grows tree) (hrooted : tree.Rooted)
    (htarget : tree.kind (target ++ path) = some .folder)
    (hsame : ∀ name ∈ names, start.Same tree (target ++ path ++ [name]))
    (hlayers : ∀ name ∈ names, ∃ count, Turns (path ++ [name]) count ∧
      Layered start tree (fun layer => lower target way (path ++ [name]) (layer + 1)) count) :
    (copyChildren blank (copyAll blank fuel) (target ++ way ++ path) (target ++ path) tree
      names).Meets (Jams start target way Turns) fun after => ∀ name ∈ names,
        ∃ count, Depth start target way Turns (path ++ [name]) count ∧
          Layered start after (lower target way (path ++ [name])) count := by
  have hmeets : (copyChildren blank (copyAll blank fuel) (target ++ way ++ path)
      (target ++ path) tree names).Meets
        (∃ name ∈ names, ∃ count, Turns (path ++ [name]) count ∧
          ¬start.Fits (lower target way (path ++ [name])) (count + 1))
        (fun after => ∀ name ∈ names, ∃ count, Turns (path ++ [name]) count ∧
          Layered start after (lower target way (path ++ [name])) (count + 1)) :=
    copyChildren_layered hnodup (fun name => (List.append_assoc target path [name]).symm)
      (fun name => by rw [lower_one, List.append_assoc (target ++ way)])
      (fun name hname other _ => beside_child hmore (hoff name hname) other) hrooted htarget
      (fun name hname => hgrows.kind_isSome (hlisted name hname)) hsame hlayers
  have hsome (name : Name) (hname : name ∈ names) :
      (start.kind (target ++ way ++ (path ++ [name]))).isSome := by
    rw [← List.append_assoc]
    exact hlisted name hname
  cases hresult : copyChildren blank (copyAll blank fuel) (target ++ way ++ path)
      (target ++ path) tree names with
  | outOfFuel => trivial
  | failed =>
      rw [hresult] at hmeets
      obtain ⟨name, hname, count, hturns, hfits⟩ := hmeets
      exact .misfit (path ++ [name]) count (leaves_child hpath hnext (hoff name hname))
        (hsome name hname) hturns hfits
  | done after =>
      rw [hresult] at hmeets
      intro name hname
      obtain ⟨count, hturns, hlayered⟩ := hmeets name hname
      exact ⟨count + 1, ⟨hsome name hname, hturns⟩, hlayered⟩

end OnPath

-- The child on the way, whose copy is what `hbelow` says.
theorem next_piled (hrooted : start.Rooted)
    (hsource : start.kind (target ++ way ++ path) = some .folder)
    (hlisted : (start.kind (target ++ way ++ path ++ [next])).isSome)
    (hsame : start.Same tree (target ++ path ++ [next]))
    (hbelow : start.kind (target ++ way ++ (path ++ [next])) = some .folder →
      (copyAll blank fuel tree (target ++ way ++ (path ++ [next])) (target ++ (path ++ [next]))).Meets
        (Jams start target way Turns) (Piled start target way Turns (path ++ [next]))) :
    (copyChild blank (copyAll blank fuel) (target ++ way ++ path) (target ++ path) tree next).Meets
      (Jams start target way Turns) (Piled start target way Turns (path ++ [next])) := by
  have hfolder : start.kind (target ++ path ++ [next]) = some .folder := by
    have hwhole : target ++ way ++ path ++ [] = target ++ path ++ next :: (more ++ []) :=
      source_child hmore []
    rw [List.append_nil, List.append_nil] at hwhole
    exact kind_on_way hrooted (hwhole ▸ hsource)
  have hkind : tree.kind (target ++ way ++ path ++ [next]) =
      start.kind (target ++ way ++ path ++ [next]) := by
    rw [source_child hmore, ← List.singleton_append, ← List.append_assoc]
    exact hsame _
  have hplace : tree.kind (target ++ path ++ [next]) = some .folder := by
    have hplace := hsame []
    rw [List.append_nil] at hplace
    exact hplace.trans hfolder
  unfold copyChild
  rw [hkind]
  split
  · next hdown =>
    rw [List.append_assoc] at hdown
    rw [List.append_assoc (target ++ way), List.append_assoc target path]
    exact hbelow hdown
  · next hnot =>
    have hcopy : tree.copyFile blank (target ++ way ++ path ++ [next]) (target ++ path ++ [next]) =
        none := by
      cases hresult : tree.copyFile blank (target ++ way ++ path ++ [next])
          (target ++ path ++ [next]) with
      | none => rfl
      | some after =>
          obtain ⟨_, _, hfree, _⟩ := copyFile_eq_some.mp hresult
          exact absurd hplace hfree
    rw [hcopy]
    refine .file (path ++ [next]) ?_ ?_
    · obtain ⟨entry, hentry⟩ := Option.isSome_iff_exists.mp hlisted
      rw [← List.append_assoc]
      cases entry with
      | folder => exact absurd hentry hnot
      | file value =>
          rw [file_eq_some.mpr hentry]
          rfl
    · rw [← List.append_assoc]
      exact hfolder

include hpath hnext in
theorem Piled.of_children {names : List Name} (hrooted : start.Rooted)
    (hlisting : Listing start (target ++ way ++ path) names)
    (hbelow : next ∈ names → Piled start target way Turns (path ++ [next]) after)
    (hothers : ∀ name ∈ names, name ≠ next →
      ∃ count, Depth start target way Turns (path ++ [name]) count ∧
        Layered start after (lower target way (path ++ [name])) count)
    (hkept : ∀ name, name ∉ names → start.Same after (target ++ path ++ [name])) :
    Piled start target way Turns path after := by
  rintro top hleaves ⟨rest, rfl⟩
  cases rest with
  | nil =>
      rw [List.append_nil] at hleaves
      obtain ⟨_, _, _, _, hoff⟩ := hleaves
      exact absurd hpath hoff
  | cons name rest =>
      rw [← List.singleton_append, ← List.append_assoc] at hleaves ⊢
      by_cases hname : name ∈ names
      · by_cases hon : name = next
        · subst hon
          exact hbelow hname _ hleaves (List.prefix_append _ _)
        · have hsame := (leaves_child hpath hnext hon).apart hleaves (List.prefix_append _ _)
          rw [← hsame]
          exact hothers name hname hon
      · -- What is not listed is not copied.
        refine ⟨0, ?_, .single ?_⟩
        · by_contra hsome
          refine hname ((hlisting.mem name).mpr ?_)
          rw [Depth, ← ne_eq, ← Option.isSome_iff_ne_none, ← List.append_assoc,
            ← List.append_assoc] at hsome
          cases rest with
          | nil => rwa [List.append_nil] at hsome
          | cons first rest =>
              rw [hrooted.folder_of_prefix (List.cons_ne_nil first rest) hsome]
              rfl
        · have hunder := (hkept name hname).under rest
          rw [List.append_assoc, List.append_assoc] at hunder
          rw [lower_zero, List.append_assoc]
          exact hunder

end Level

omit [DecidableEq Name] in
theorem CopyResult.Meets.imp {failed failed' : Prop} {done done' : FileTree Name Value → Prop}
    {result : CopyResult Name Value} (h : result.Meets failed done) (hfailed : failed → failed')
    (hdone : ∀ tree, result = .done tree → done tree → done' tree) :
    result.Meets failed' done' := by
  cases result with
  | outOfFuel => trivial
  | failed => exact hfailed h
  | done tree => exact hdone tree rfl h

section Sequence

variable {recur : FileTree Name Value → List Name → List Name → CopyResult Name Value}
  {source target : List Name} {tree : FileTree Name Value} {failed : Prop}
  {done done' : FileTree Name Value → Prop}

theorem meets_append {front back : List Name}
    (h : (copyChildren blank recur source target tree front).Meets failed done)
    (hnext : ∀ made, copyChildren blank recur source target tree front = .done made → done made →
      (copyChildren blank recur source target made back).Meets failed done') :
    (copyChildren blank recur source target tree (front ++ back)).Meets failed done' := by
  rw [copyChildren_append]
  cases hresult : copyChildren blank recur source target tree front with
  | outOfFuel => trivial
  | failed =>
      rw [hresult] at h
      exact h
  | done made =>
      rw [hresult] at h
      exact hnext made hresult h

theorem meets_cons {name : Name} {names : List Name}
    (h : (copyChild blank recur source target tree name).Meets failed done)
    (hnext : ∀ made, copyChild blank recur source target tree name = .done made → done made →
      (copyChildren blank recur source target made names).Meets failed done') :
    (copyChildren blank recur source target tree (name :: names)).Meets failed done' := by
  unfold copyChildren
  cases hresult : copyChild blank recur source target tree name with
  | outOfFuel => trivial
  | failed =>
      rw [hresult] at h
      exact h
  | done made =>
      rw [hresult] at h
      exact hnext made hresult h

end Sequence

-- A place that the copy has not come to yet.
structure Untouched (start tree : FileTree Name Value) (place : List Name) : Prop where
  grown : start.Grows tree
  rooted : tree.Rooted
  order : tree.entries.order = start.entries.order
  same : start.Same tree place

theorem Untouched.refl (hrooted : start.Rooted) (place : List Name) : start.Untouched start place :=
  ⟨.refl start, hrooted, rfl, fun _ => rfl⟩

theorem Untouched.steps {source target place path : List Name} {tree after : FileTree Name Value}
    (h : start.Untouched tree place) (hsteps : CopySteps blank source target tree after)
    (hsame : tree.Same after (place ++ path)) : start.Untouched after (place ++ path) :=
  ⟨h.grown.trans (grows_of_steps hsteps), rooted_of_steps h.rooted hsteps,
    (order_of_steps hsteps).trans h.order, (h.same.under path).trans hsame⟩

section Turns

variable {Turns : List Name → Nat → Prop} {path : List Name} {next : Name} {more : List Name}
  {fuel : Nat} {tree : FileTree Name Value} (hpath : Along way path)
  (hmore : way ++ path = path ++ next :: more)
  (hnext : ∀ name, Along way (path ++ [name]) ↔ name = next)
  (hrooted : start.Rooted) (hturns : TakesTurns start target way Turns)
  (htree : start.Untouched tree (target ++ path))
  (htarget : tree.kind (target ++ path) = some .folder)

include hmore htree in
-- What is copied from has come to nothing yet either.
theorem layered_below (name : Name) :
    Layered start tree (fun layer => lower target way (path ++ [name]) (layer + 1)) 0 := by
  refine .single ?_
  rw [lower_one, ← List.append_assoc, source_child hmore]
  exact htree.same.under _

include hpath hmore hnext hrooted hturns htree htarget

-- Where the way does not lead on, all children are copied as they were.
theorem level_without {names : List Name} (hlisting : Listing start (target ++ way ++ path) names)
    (hmem : next ∉ names) :
    (copyChildren blank (copyAll blank fuel) (target ++ way ++ path) (target ++ path) tree
      names).Meets (Jams start target way Turns) (Piled start target way Turns path) := by
  refine (children_piled hpath hmore hnext hlisting.nodup
    (fun name hname heq => hmem (heq ▸ hname)) (fun name hname => (hlisting.mem name).mp hname)
    htree.grown htree.rooted htarget (fun name _ => htree.same.under [name])
    fun name hname => ⟨0, ?_, layered_below hmore htree name⟩).imp id fun after hafter hdone => ?_
  · rw [← List.append_nil names] at hlisting
    refine hturns.early path names [] hpath hlisting ?_ name hname
    rintro other hother halong
    exact hmem ((hnext other).mp halong ▸ hother)
  · exact .of_children hpath hmore hnext hrooted hlisting (fun h => absurd h hmem)
      (fun name hname _ => hdone name hname)
      fun name hname => (htree.same.under [name]).trans (.of_children htarget hafter hname)

-- Where it does, those before its next name are copied as they were, and those after it
-- with what `hdeep` says has been copied to them.
theorem level_with (hway : way ≠ []) {front back : List Name}
    (hsource : start.kind (target ++ way ++ path) = some .folder)
    (hlisting : Listing start (target ++ way ++ path) (front ++ next :: back))
    (hdeep : ∀ made : FileTree Name Value, start.Untouched made (target ++ path ++ [next]) →
      start.kind (target ++ way ++ (path ++ [next])) = some .folder →
        (copyAll blank fuel made (target ++ way ++ (path ++ [next]))
          (target ++ (path ++ [next]))).Meets (Jams start target way Turns)
            (Piled start target way Turns (path ++ [next]))) :
    (copyChildren blank (copyAll blank fuel) (target ++ way ++ path) (target ++ path) tree
      (front ++ next :: back)).Meets (Jams start target way Turns)
        (Piled start target way Turns path) := by
  have hlisted (name : Name) (hname : name ∈ front ++ next :: back) :
      (start.kind (target ++ way ++ path ++ [name])).isSome := (hlisting.mem name).mp hname
  obtain ⟨hfrontNodup, hcons, happart⟩ := List.nodup_append.mp hlisting.nodup
  obtain ⟨hlast, hbackNodup⟩ := List.nodup_cons.mp hcons
  have hfront : ∀ name ∈ front, name ≠ next := fun name hname =>
    happart name hname next List.mem_cons_self
  have hback : ∀ name ∈ back, name ≠ next := fun name hname heq => hlast (heq ▸ hname)
  have hfar : ∀ name ∈ back, name ∉ front := fun name hname hother =>
    happart name hother name (List.mem_cons_of_mem _ hname) rfl
  refine meets_append (children_piled hpath hmore hnext hfrontNodup hfront
    (fun name hname => hlisted name (List.mem_append_left _ hname)) htree.grown htree.rooted
    htarget (fun name _ => htree.same.under [name])
    fun name hname => ⟨0, ?_, layered_below hmore htree name⟩) fun made hmade hearly => ?_
  · exact hturns.early path front (next :: back) hpath hlisting
      (fun name hname halong => hfront name hname ((hnext name).mp halong)) name hname
  have hsteps : CopySteps blank (target ++ way ++ path) (target ++ path) tree made :=
    copyChildren_steps (fun _ _ _ => copyAll_steps fuel) htarget hmade
  have hfolder := (grows_of_steps hsteps).folder _ htarget
  have huntouched (name : Name) (hname : name ∉ front) :
      start.Untouched made (target ++ path ++ [name]) :=
    htree.steps hsteps (.of_children htarget hmade hname)
  have hnextUntouched := huntouched next fun hname => hfront next hname rfl
  refine meets_cons (next_piled hmore hrooted hsource
    (hlisted next (List.mem_append_right _ List.mem_cons_self)) hnextUntouched.same
    (hdeep made hnextUntouched)) fun middle hmiddle hpiled => ?_
  have hsteps' : CopySteps blank (target ++ way ++ path) (target ++ path) made middle :=
    copyChild_copyAll_steps hfolder hmiddle
  have hkept := (grows_of_steps hsteps').folder _ hfolder
  refine (children_piled hpath hmore hnext hbackNodup hback
    (fun name hname => hlisted name (List.mem_append_right _ (List.mem_cons_of_mem _ hname)))
    (hnextUntouched.grown.trans (grows_of_steps hsteps'))
    (rooted_of_steps hnextUntouched.rooted hsteps') hkept
    (fun name hname => (huntouched name (hfar name hname)).same.trans
      (.of_child hfolder hmiddle (hback name hname)))
    fun name hname => ?_).imp id fun after hafter hlate => ?_
  · -- By now what is copied has its own layers.
    obtain ⟨count, hdepth, hlayered⟩ := hpiled (way ++ (path ++ [name]))
      ((leaves_child hpath hnext (hback name hname)).turn hway) ⟨more ++ [name], by
        rw [← List.append_assoc way, hmore]
        simp⟩
    refine ⟨count, hturns.late path front next back hlisting ((hnext next).mpr rfl) name hname
      count hdepth, ?_⟩
    rwa [← funext (lower_way (path ++ [name]))]
  · have hrest (name : Name) (hname : name ∉ back) : middle.Same after
        (target ++ path ++ [name]) := .of_children hkept hafter hname
    refine .of_children hpath hmore hnext hrooted hlisting (fun _ => ?_) ?_ fun name hname => ?_
    · rintro top hleaves ⟨rest, rfl⟩
      obtain ⟨count, hdepth, hlayered⟩ := hpiled _ hleaves (List.prefix_append _ _)
      refine ⟨count, hdepth, hlayered.same ?_⟩
      rw [lower_zero, ← List.append_assoc, ← List.append_assoc]
      exact (hrest next hlast).under rest
    · intro name hname hne
      rcases List.mem_append.mp hname with hname | hname
      · obtain ⟨count, hdepth, hlayered⟩ := hearly name hname
        refine ⟨count, hdepth, hlayered.same ?_⟩
        rw [lower_zero, ← List.append_assoc]
        exact (Same.of_child hfolder hmiddle hne).trans
          (hrest name fun hother => hfar name hother hname)
      · exact hlate name ((List.mem_cons.mp hname).resolve_left hne)
    · have hout := List.mem_append.not.mp hname
      rw [List.mem_cons, not_or, not_or] at hout
      obtain ⟨hfront, hne, hback⟩ := hout
      exact (huntouched name hfront).same.trans
        ((Same.of_child hfolder hmiddle hne).trans (hrest name hback))

end Turns

-- The copy of a folder to a place above it leaves each place off the way with its layers,
-- if it does not fail.
theorem copyAll_piled {Turns : List Name → Nat → Prop} (hway : way ≠ []) (hrooted : start.Rooted)
    (hturns : TakesTurns start target way Turns) (fuel : Nat) {path : List Name}
    {tree : FileTree Name Value} (hpath : Along way path)
    (hsource : start.kind (target ++ way ++ path) = some .folder)
    (htree : start.Untouched tree (target ++ path)) :
    (copyAll blank fuel tree (target ++ way ++ path) (target ++ path)).Meets
      (Jams start target way Turns) (Piled start target way Turns path) := by
  induction fuel generalizing path tree with
  | zero => trivial
  | succ fuel ih =>
      obtain ⟨next, more, hmore, hnext⟩ := hpath.next hway
      have hwhole (rest : List Name) : target ++ way ++ path ++ rest =
          target ++ path ++ next :: (more ++ rest) := source_child hmore rest
      have htarget : tree.kind (target ++ path) = some .folder := by
        refine htree.grown.folder _ (hrooted.folder_of_prefix (List.cons_ne_nil next more) ?_)
        have hdeep := hwhole []
        rw [List.append_nil, List.append_nil] at hdeep
        rw [← hdeep, hsource]
        rfl
      have hmake : tree.makeFolder (target ++ path) = some tree := by
        unfold makeFolder
        rw [htarget]
      have hlisting : Listing start (target ++ way ++ path)
          (tree.children (target ++ way ++ path)) := by
        refine ⟨fun name => ?_, tree, htree.order, rfl⟩
        rw [mem_children, hwhole, htree.same]
      unfold copyAll
      rw [hmake]
      dsimp only
      generalize tree.children (target ++ way ++ path) = names at hlisting ⊢
      by_cases hmem : next ∈ names
      · obtain ⟨front, back, rfl⟩ := List.append_of_mem hmem
        refine level_with hpath hmore hnext hrooted hturns htree htarget hway hsource hlisting
          fun made hmade hdown => ih ((hnext next).mpr rfl) hdown ?_
        rwa [← List.append_assoc]
      · exact level_without hpath hmore hnext hrooted hturns htree htarget hlisting hmem

-- The whole copy, from the top.
theorem copyAll_piled_whole {Turns : List Name → Nat → Prop} (hway : way ≠ [])
    (hrooted : start.Rooted) (hturns : TakesTurns start target way Turns)
    (hsource : start.kind (target ++ way) = some .folder) (fuel : Nat) :
    (copyAll blank fuel start (target ++ way) target).Meets (Jams start target way Turns)
      (Piled start target way Turns []) := by
  have hpiled : (copyAll blank fuel start (target ++ way ++ []) (target ++ [])).Meets
      (Jams start target way Turns) (Piled start target way Turns []) :=
    copyAll_piled hway hrooted hturns fuel along_nil (by rwa [List.append_nil])
      (.refl hrooted (target ++ []))
  rwa [List.append_nil, List.append_nil] at hpiled

end FileTree
