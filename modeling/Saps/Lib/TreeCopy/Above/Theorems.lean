import Saps.Lib.TreeCopy.Above
import Mathlib.Data.List.Sort

-- When the copy of a folder to a place above it does what is expected of it.
namespace Order

variable {Key : Type}

-- The order that meets the keys by rank.
def byRank (rank : Key → Nat) : Order Key where
  arrange := List.insertionSort fun left right => rank left ≤ rank right
  arrange_perm := List.perm_insertionSort _

theorem byRank_pairwise (rank : Key → Nat) (keys : List Key) :
    ((byRank rank).arrange keys).Pairwise fun left right => rank left ≤ rank right :=
  List.pairwise_insertionSort _ keys

end Order

namespace FileTree

variable {Name Value : Type} [DecidableEq Name] {blank : Value} {target way top : List Name}
  {tree : FileTree Name Value}

-- What the copy can bring to a place off the way, one layer after another: the places to
-- copy from are there from the start, and nothing is in the way of them.
structure Reached (tree : FileTree Name Value) (target way top : List Name) (count : Nat) :
    Prop where
  leaves : Leaves way top
  listed : ∀ layer ≤ count, 0 < layer → (tree.kind (lower target way top layer)).isSome
  fits : tree.Fits (lower target way top) count

-- Unless the copy fails anyway, a file that can be brought to the place of another one
-- holds the same.
def LayersAlike (tree : FileTree Name Value) (target way : List Name) : Prop :=
  tree.Mergeable (target ++ way) target → ∀ top count, Reached tree target way top (count + 1) →
    ∀ rest value found, tree.file (lower target way top 1 ++ rest) = some value →
      tree.file (lower target way top (count + 1) ++ rest) = some found → value = found

theorem Fits.mono {place : Nat → List Name} {count more : Nat} (h : tree.Fits place more)
    (hle : count ≤ more) : tree.Fits place count :=
  fun low hlow high hhigh => h low (hlow.trans hle) high (hhigh.trans hle)

omit [DecidableEq Name] in
theorem not_below_above (hway : way ≠ []) : ¬target ++ way <+: target := by
  intro hprefix
  have hle := hprefix.length_le
  have hlength := List.length_pos_iff.mpr hway
  rw [List.length_append] at hle
  omega

theorem placed_above (hrooted : tree.Rooted) (hway : way ≠ [])
    (hsource : tree.kind (target ++ way) = some .folder) : tree.Placed target := by
  refine placed_of_kind hrooted ?_
  rw [hrooted.folder_of_prefix hway (by rw [hsource]; rfl)]
  rfl

-- As many layers as there are places to copy from.
def Listed (tree : FileTree Name Value) (target way top : List Name) (count : Nat) : Prop :=
  ∀ layer ≤ count + 1, 1 < layer → (tree.kind (lower target way top layer)).isSome

theorem depth_listed {count : Nat}
    (h : Depth tree target way (Listed tree target way) top count) :
    ∀ layer ≤ count, 0 < layer → (tree.kind (lower target way top layer)).isSome := by
  intro layer hle hlt
  cases count with
  | zero => omega
  | succ count =>
      obtain ⟨hsome, hlisted⟩ := h
      by_cases hone : layer = 1
      · rw [hone, lower_one]
        exact hsome
      · exact hlisted layer hle (by omega)

theorem takesTurns_listed : TakesTurns tree target way (Listed tree target way) := by
  constructor
  · intro path front back hpath hlisting hoff name hname layer hle hlt
    omega
  · intro path front next back hlisting halong name hname count hdepth layer hle hlt
    obtain ⟨below, rfl⟩ := Nat.exists_eq_succ_of_ne_zero (show layer ≠ 0 by omega)
    have hsome := depth_listed hdepth below (by omega) (by omega)
    rwa [lower_way] at hsome

-- A file on the way would meet a folder of the target.
theorem off_way_of_file (hrooted : tree.Rooted) (hway : way ≠ [])
    (hsource : tree.kind (target ++ way) = some .folder)
    (hmerge : tree.Mergeable (target ++ way) target) {rest : List Name}
    (hfile : (tree.file (target ++ way ++ rest)).isSome) : ¬Along way rest := by
  intro halong
  rcases List.eq_nil_or_concat' rest with rfl | ⟨path, name, rfl⟩
  · rw [List.append_nil, FileTree.file, hsource] at hfile
    cases hfile
  · obtain ⟨next, more, hmore, hnext⟩ := halong.front.next hway
    obtain rfl := (hnext name).mp halong
    refine hmerge.file (path ++ [name]) hfile ?_
    rw [← List.append_assoc] at hfile
    have hdown : tree.kind (target ++ way ++ path) = some .folder :=
      hrooted _ name (kind_of_file hfile)
    rw [← List.append_nil (target ++ way ++ path), source_child hmore] at hdown
    rw [← List.append_assoc]
    exact kind_on_way hrooted hdown

-- A place with a file to copy has more than the layer it starts with.
theorem depth_ne_zero {Turns : List Name → Nat → Prop} {count : Nat} (hrooted : tree.Rooted)
    (hdepth : Depth tree target way Turns top count) {rest : List Name}
    (hfile : (tree.file (lower target way top 1 ++ rest)).isSome) : count ≠ 0 := by
  rintro rfl
  have hnone : tree.kind (lower target way top 1) = none := by
    rw [lower_one]
    exact hdepth
  cases rest with
  | nil =>
      rw [List.append_nil, FileTree.file, hnone] at hfile
      cases hfile
  | cons first rest =>
      have hfolder := hrooted.folder_of_prefix (List.cons_ne_nil first rest) (kind_of_file hfile)
      rw [hnone] at hfolder
      cases hfolder

theorem copies_above (hrooted : tree.Rooted) (hway : way ≠ [])
    (hsource : tree.kind (target ++ way) = some .folder) (halike : LayersAlike tree target way) :
    Copies blank (target ++ way) target tree := by
  have hplaced := placed_above hrooted hway hsource
  refine ⟨copyAll_ends (level_away (not_below_above hway)) hsource hplaced, fun fuel after hdone =>
    ⟨fun rest value hfile => ?_, fun location houtside => ?_⟩⟩
  · have hmerge := mergeable_of_done hrooted hsource hplaced hdone
    have hoff := off_way_of_file hrooted hway hsource hmerge (by rw [hfile]; rfl)
    obtain ⟨top, rest, hleaves, rfl⟩ := exists_leaves rest hoff
    have hpiled : (copyAll blank fuel tree (target ++ way) target).Meets
        (Jams tree target way (Listed tree target way))
        (Piled tree target way (Listed tree target way) []) :=
      copyAll_piled_whole hway hrooted takesTurns_listed hsource fuel
    rw [hdone] at hpiled
    obtain ⟨count, hdepth, hlayered⟩ := hpiled top hleaves List.nil_prefix
    rw [← List.append_assoc, ← lower_one target way top] at hfile
    rw [← List.append_assoc, ← lower_zero target way top]
    have hcount := depth_ne_zero hrooted hdepth (by rw [hfile]; rfl)
    obtain ⟨found, hfound⟩ := Option.isSome_iff_exists.mp
      (hlayered.file 1 (by omega) rest (by rw [hfile]; rfl))
    obtain ⟨layer, hlayer, hstood, htop⟩ := hlayered.value rest found hfound
    rw [hfound]
    cases layer with
    | zero =>
        rw [htop 1 (by omega) (by omega)] at hfile
        cases hfile
    | succ layer =>
        have hreached : Reached tree target way top (layer + 1) :=
          ⟨hleaves, fun other hother => depth_listed hdepth other (hother.trans hlayer),
            hlayered.fits.mono hlayer⟩
        rw [halike hmerge top layer hreached rest value found hfile hstood]
  · rw [FileTree.file, FileTree.file,
      frame_of_steps (copyAll_steps fuel hsource hplaced hdone) houtside]

section Order

variable {count : Nat}

-- The copies to the first places of a pile wait for those to the later ones, and all
-- others go first.
def rank (source way top : List Name) (count : Nat) (location : List Name) : Nat :=
  let rest := location.drop source.length
  if ∃ layer < count - 1, rest = further way layer top then 2
  else if rest = spine way rest.length then 1 else 0

theorem rank_along (source : List Name) {path : List Name} (hway : way ≠ []) (htop : Leaves way top)
    (hpath : Along way path) : rank source way top count (source ++ path) = 1 := by
  unfold rank
  dsimp only
  rw [List.drop_left, if_neg, if_pos (show path = spine way path.length from hpath)]
  rintro ⟨layer, _, rfl⟩
  obtain ⟨_, _, _, _, hoff⟩ := htop.further hway layer
  exact hoff hpath

theorem rank_off (source : List Name) {path : List Name} (hpath : ¬Along way path)
    (h : 1 ≤ rank source way top count (source ++ path)) :
    ∃ layer, layer + 1 < count ∧ path = further way layer top := by
  unfold rank at h
  dsimp only at h
  rw [List.drop_left] at h
  split at h
  · next hlate =>
    obtain ⟨layer, hlayer, heq⟩ := hlate
    exact ⟨layer, by omega, heq⟩
  · rw [if_neg (show ¬path = spine way path.length from hpath)] at h
    contradiction

theorem rank_late (source : List Name) {layer : Nat} (hlayer : layer + 1 < count) :
    rank source way top count (source ++ further way layer top) = 2 := by
  unfold rank
  dsimp only
  rw [List.drop_left, if_pos ⟨layer, by omega, rfl⟩]

-- How many layers what is copied to a place has by then.
def Waits (way top : List Name) (count : Nat) (place : List Name) (turns : Nat) : Prop :=
  (∃ layer, layer + 1 < count ∧ place = further way layer top ∧ turns + layer + 1 = count) ∨
    (∀ layer, layer + 1 < count → place ≠ further way layer top) ∧ turns = 0

theorem Listing.pairwise {folder names : List Name} (h : Listing tree folder names)
    {rank : List Name → Nat} (horder : tree.entries.order = Order.byRank rank) :
    names.Pairwise fun left right => rank (folder ++ [left]) ≤ rank (folder ++ [right]) := by
  obtain ⟨other, hother, rfl⟩ := h.listed
  unfold children HashMap.keys
  rw [hother, horder]
  refine List.Pairwise.filterMap _ ?_ (Order.byRank_pairwise rank _)
  intro left right hle name hname other hother
  rw [childName_eq_some] at hname hother
  rwa [← hname, ← hother]

theorem takesTurns_waits (hway : way ≠ []) (hrooted : tree.Rooted)
    (hreached : Reached tree target way top count)
    (horder : tree.entries.order = Order.byRank (rank (target ++ way) way top count)) :
    TakesTurns tree target way (Waits way top count) := by
  have htop := hreached.leaves
  have hlisted (layer : Nat) (hlayer : layer + 1 < count) :
      (tree.kind (target ++ way ++ (way ++ further way layer top))).isSome := by
    have hsome := hreached.listed (layer + 2) (by omega) (by omega)
    rwa [lower, further, further, ← List.append_assoc] at hsome
  constructor
  · intro path front back hpath hlisting hoff name hname
    refine .inr ⟨fun layer hlayer heq => ?_, rfl⟩
    -- Then the way leads on, and its next name comes before this one.
    obtain ⟨next, more, hmore, hnext⟩ := hpath.next hway
    have hthere : next ∈ front ++ back := by
      rw [hlisting.mem]
      have hsome := hlisted layer hlayer
      rw [← heq, ← List.append_assoc way, hmore, List.append_assoc path, List.cons_append,
        ← List.append_assoc] at hsome
      cases hrest : more ++ [name] with
      | nil => simp at hrest
      | cons first rest =>
          rw [hrest, ← List.singleton_append, ← List.append_assoc] at hsome
          rw [hrooted.folder_of_prefix (List.cons_ne_nil first rest) hsome]
          rfl
    have halong : Along way (path ++ [next]) := (hnext next).mpr rfl
    have hback : next ∈ back :=
      (List.mem_append.mp hthere).resolve_left fun hfront => hoff next hfront halong
    have hle := (List.pairwise_append.mp (hlisting.pairwise horder)).2.2 name hname next hback
    rw [List.append_assoc (target ++ way), List.append_assoc (target ++ way),
      rank_along _ hway htop halong, heq, rank_late _ hlayer] at hle
    omega
  · intro path front next back hlisting halong name hname turns hdepth
    obtain ⟨_, _, _, hnext⟩ := halong.front.next hway
    obtain ⟨_, hcons, _⟩ := List.nodup_append.mp hlisting.nodup
    have hpairwise := (List.pairwise_append.mp (hlisting.pairwise horder)).2.1
    have hle := (List.pairwise_cons.mp hpairwise).1 name hname
    rw [List.append_assoc (target ++ way), List.append_assoc (target ++ way),
      rank_along _ hway htop halong] at hle
    have hoff : ¬Along way (path ++ [name]) := by
      intro hon
      refine (List.nodup_cons.mp hcons).1 ?_
      rw [(hnext next).mp halong, ← (hnext name).mp hon]
      exact hname
    obtain ⟨layer, hlayer, heq⟩ := rank_off _ hoff hle
    refine .inl ⟨layer, hlayer, heq, ?_⟩
    rw [heq] at hdepth
    cases turns with
    | zero =>
        have hsome := hlisted layer hlayer
        rw [show tree.kind _ = none from hdepth] at hsome
        contradiction
    | succ turns =>
        obtain ⟨_, ⟨other, hother, hsame, hturns⟩ | ⟨hfirst, hturns⟩⟩ := hdepth
        · have hlater : layer + 1 = other := further_injective hway hsame
          omega
        · have hlast : ¬layer + 1 + 1 < count := fun hmore => hfirst (layer + 1) hmore rfl
          omega

theorem fits_of_mergeable (hmerge : tree.Mergeable (target ++ way) target) (place : List Name) :
    tree.Fits (lower target way place) 1 := by
  have hone (rest : List Name) : lower target way place 1 ++ rest =
      target ++ way ++ (place ++ rest) := by
    rw [lower_one, List.append_assoc (target ++ way)]
  have hzero (rest : List Name) : lower target way place 0 ++ rest = target ++ (place ++ rest) := by
    rw [lower_zero, List.append_assoc]
  intro low hlow high hhigh rest hfolder
  by_contra hfile
  have hsome := Option.isSome_iff_ne_none.mpr hfile
  by_cases hsame : low = high
  · rw [hsame] at hfolder
    rw [FileTree.file, hfolder] at hsome
    contradiction
  · by_cases hbelow : low = 0
    · obtain rfl : high = 1 := by omega
      subst hbelow
      rw [hone] at hsome
      rw [hzero] at hfolder
      exact hmerge.file _ hsome hfolder
    · obtain rfl : low = 1 := by omega
      obtain rfl : high = 0 := by omega
      rw [hone] at hfolder
      rw [hzero, hmerge.folder _ hfolder] at hfile
      exact hfile rfl

-- In that order the copy fails only where it fails in every order.
theorem not_jams (hreached : Reached tree target way top count)
    (hmerge : tree.Mergeable (target ++ way) target) :
    ¬Jams tree target way (Waits way top count) := by
  rintro (⟨rest, hfile, hfolder⟩ | ⟨place, turns, hleaves, hsome, hturns, hfits⟩)
  · exact hmerge.file rest hfile hfolder
  · rcases hturns with ⟨layer, hlayer, rfl, hturns⟩ | ⟨_, rfl⟩
    · refine hfits fun low hlow high hhigh rest => ?_
      unfold lower
      rw [further_add, further_add]
      exact hreached.fits (low + layer) (by omega) (high + layer) (by omega) rest
    · exact hfits (fits_of_mergeable hmerge place)

-- And there the last layer comes to lie on the first place.
theorem Reached.alike (hrooted : tree.Rooted) (hway : way ≠ [])
    (hsource : tree.kind (target ++ way) = some .folder)
    (hreached : Reached tree target way top count) (hmore : 1 < count)
    (hmerge : tree.Mergeable (target ++ way) target)
    (horder : tree.entries.order = Order.byRank (rank (target ++ way) way top count))
    (hcopies : Copies blank (target ++ way) target tree) {rest : List Name} {value found : Value}
    (hvalue : tree.file (lower target way top 1 ++ rest) = some value)
    (hfound : tree.file (lower target way top count ++ rest) = some found) : value = found := by
  obtain ⟨⟨fuel, hends⟩, hmirrored⟩ := hcopies
  have hpiled : (copyAll blank fuel tree (target ++ way) target).Meets
      (Jams tree target way (Waits way top count)) (Piled tree target way (Waits way top count) []) :=
    copyAll_piled_whole hway hrooted (takesTurns_waits hway hrooted hreached horder) hsource fuel
  cases hresult : copyAll blank fuel tree (target ++ way) target with
  | outOfFuel => exact absurd hresult hends
  | failed =>
      rw [hresult] at hpiled
      exact absurd hpiled (not_jams hreached hmerge)
  | done after =>
      rw [hresult] at hpiled
      have hvalue' := hvalue
      rw [lower_one, List.append_assoc (target ++ way)] at hvalue'
      have hcopied := (hmirrored fuel after hresult).copied (top ++ rest) value hvalue'
      rw [← List.append_assoc, ← lower_zero target way top] at hcopied
      obtain ⟨turns, hdepth, hlayered⟩ := hpiled top hreached.leaves List.nil_prefix
      have hturns : turns = count := by
        cases turns with
        | zero =>
            exact absurd rfl (depth_ne_zero hrooted hdepth (by rw [hvalue]; rfl))
        | succ turns =>
            obtain ⟨_, ⟨layer, hlayer, hsame, hturns⟩ | ⟨hfirst, _⟩⟩ := hdepth
            · have hlayer : 0 = layer := further_injective hway hsame
              omega
            · exact absurd rfl (hfirst 0 (by omega))
      rw [hturns] at hlayered
      obtain ⟨layer, hlayer, hstood, hlast⟩ := hlayered.value rest value hcopied
      have hsame : layer = count := by
        by_contra hne
        have hnone := hlast count (Nat.le_refl _) (by omega)
        rw [hfound] at hnone
        cases hnone
      rw [hsame, hfound] at hstood
      exact (Option.some.inj hstood).symm

end Order

theorem layersAlike_of_copies (hrooted : tree.Rooted) (hway : way ≠ [])
    (hsource : tree.kind (target ++ way) = some .folder)
    (hcopies : ∀ order, Copies blank (target ++ way) target (tree.listed order)) :
    LayersAlike tree target way := by
  intro hmerge top count hreached rest value found hvalue hfound
  by_cases hzero : count = 0
  · rw [hzero, hvalue] at hfound
    exact Option.some.inj hfound
  · have hrooted' (order : Order (List Name)) : (tree.listed order).Rooted := hrooted
    exact Reached.alike (hrooted' (Order.byRank (rank (target ++ way) way top (count + 1)))) hway
      hsource ⟨hreached.leaves, hreached.listed, hreached.fits⟩ (by omega)
      ⟨hmerge.folder, hmerge.file⟩ rfl (hcopies _) hvalue hfound

-- Exactly then the copy does it in every order.
theorem copies_above_iff (hrooted : tree.Rooted) (hway : way ≠ [])
    (hsource : tree.kind (target ++ way) = some .folder) :
    (∀ order, Copies blank (target ++ way) target (tree.listed order)) ↔
      LayersAlike tree target way := by
  constructor
  · exact layersAlike_of_copies hrooted hway hsource
  · intro halike order
    have hrooted' : (tree.listed order).Rooted := hrooted
    refine copies_above hrooted' hway hsource fun hmerge top count hreached =>
      halike ⟨hmerge.folder, hmerge.file⟩ top count
        ⟨hreached.leaves, hreached.listed, hreached.fits⟩

end FileTree
