import Saps.Files.Disk.Theorems

namespace Saps.Files

-- The location a path names when its `.` and `..` are resolved in the path alone.
-- A relative path may climb above the folder it starts from.
structure Spot where
  absolute : Bool
  ups : Nat
  names : List Str
  deriving DecidableEq, Repr

namespace Spot

def start : Spot :=
  ⟨false, 0, []⟩

def follow (spot : Spot) : Component → Spot
  | .rootDir => ⟨true, 0, []⟩
  | .curDir => spot
  | .normal name => { spot with names := spot.names ++ [name] }
  | .parentDir =>
    if spot.names ≠ [] then { spot with names := spot.names.dropLast }
    else if spot.absolute then spot
    else { spot with ups := spot.ups + 1 }

-- Where it stands for a process that works in `cwd`.
def place (cwd : Location) (spot : Spot) : Location :=
  (if spot.absolute then [] else cwd.take (cwd.length - spot.ups)) ++ spot.names

theorem foldl_follow_normal (spot : Spot) (names : List Str) :
    (names.map Component.normal).foldl follow spot =
      { spot with names := spot.names ++ names } := by
  induction names generalizing spot with
  | nil => simp
  | cons name names ih =>
      rw [List.map_cons, List.foldl_cons, ih]
      simp [follow]

end Spot

namespace PathBuf

def Key.spot (key : Key) : Spot :=
  key.components.foldl Spot.follow .start

-- A path that keeps a leading `.` or a `..` among its components.
def Key.Dotted (key : Key) : Prop :=
  .curDir ∈ key.components ∨ .parentDir ∈ key.components

instance (key : Key) : Decidable key.Dotted :=
  inferInstanceAs (Decidable (_ ∨ _))

theorem exists_names {components : Components} (h : ∀ component ∈ components,
    component ≠ .rootDir ∧ component ≠ .curDir ∧ component ≠ .parentDir) :
    ∃ names : List Str, components = names.map .normal := by
  induction components with
  | nil => exact ⟨[], rfl⟩
  | cons component components ih =>
      obtain ⟨names, rfl⟩ := ih fun other hother => h other (List.mem_cons_of_mem _ hother)
      obtain ⟨hroot, hcur, hparent⟩ := h component List.mem_cons_self
      cases component with
      | rootDir => exact absurd rfl hroot
      | curDir => exact absurd rfl hcur
      | parentDir => exact absurd rfl hparent
      | normal name => exact ⟨name :: names, rfl⟩

-- Without dots, the location is the path.
theorem Key.components_of_not_dotted {key : Key} (h : ¬key.Dotted) :
    key.components = (if key.spot.absolute then [.rootDir] else []) ++
      key.spot.names.map .normal := by
  obtain ⟨components, htail⟩ := key
  have hcur : .curDir ∉ components := fun hmem => h (.inl hmem)
  have hparent : .parentDir ∉ components := fun hmem => h (.inr hmem)
  unfold Key.spot
  cases components with
  | nil => rfl
  | cons first rest =>
      obtain ⟨names, rfl⟩ : ∃ names : List Str, rest = names.map .normal := by
        refine exists_names fun component hmem => ⟨(htail component hmem).1, ?_, ?_⟩
        · rintro rfl
          exact hcur (List.mem_cons_of_mem _ hmem)
        · rintro rfl
          exact hparent (List.mem_cons_of_mem _ hmem)
      dsimp only
      rw [List.foldl_cons, Spot.foldl_follow_normal]
      cases first with
      | rootDir => rfl
      | curDir => exact absurd List.mem_cons_self hcur
      | parentDir => exact absurd List.mem_cons_self hparent
      | normal name => rfl

theorem Key.eq_of_spot_eq {key other : Key} (hkey : ¬key.Dotted) (hother : ¬other.Dotted)
    (h : key.spot = other.spot) : key = other := by
  refine Key.ext ?_
  rw [components_of_not_dotted hkey, components_of_not_dotted hother, h]

end PathBuf

namespace Spot

open PathBuf Disk

theorem take_dropLast (cwd : Location) (ups : Nat) :
    (cwd.take (cwd.length - ups)).dropLast = cwd.take (cwd.length - (ups + 1)) := by
  rw [List.dropLast_eq_take, List.length_take, List.take_take]
  congr 1
  omega

-- One segment of a path leads the disk where the component leads the location.
theorem place_follow (cwd : Location) (spot : Spot) {segment : Str}
    (h : ¬skipped segment) :
    (spot.follow (classify segment)).place cwd = advance (spot.place cwd) segment := by
  unfold advance classify
  rw [if_neg h]
  by_cases hup : segment = ['.', '.']
  · rw [if_pos hup, if_pos hup]
    unfold follow place
    by_cases hnames : spot.names = []
    · by_cases habsolute : spot.absolute = true
      · simp [hnames, habsolute]
      · simp [hnames, habsolute, take_dropLast]
    · dsimp only
      rw [if_pos hnames, List.dropLast_append_of_ne_nil hnames]
  · rw [if_neg hup, if_neg hup]
    unfold follow place
    rw [List.append_assoc]

theorem place_foldl (cwd : Location) (spot : Spot) (segments : List Str)
    (h : ∀ segment ∈ segments, ¬skipped segment) :
    ((segments.map classify).foldl follow spot).place cwd =
      segments.foldl advance (spot.place cwd) := by
  induction segments generalizing spot with
  | nil => rfl
  | cons segment segments ih =>
      have hfirst := h segment List.mem_cons_self
      have hrest (other : Str) (hother : other ∈ segments) := h other (List.mem_cons_of_mem _ hother)
      rw [List.map_cons, List.foldl_cons, List.foldl_cons, ih _ hrest, place_follow cwd spot hfirst]

theorem foldl_advance_named (here : Location) (segments : List Str) :
    segments.foldl advance here = (named segments).foldl advance here := by
  induction segments generalizing here with
  | nil => rfl
  | cons segment segments ih =>
      unfold named at ih ⊢
      rw [List.foldl_cons, ih]
      by_cases h : skipped segment
      · rw [List.filter_cons_of_neg (by simpa using h)]
        unfold advance
        rw [if_pos h]
      · rw [List.filter_cons_of_pos (by simpa using h), List.foldl_cons]

-- A path that leads anywhere on a disk leads to its location.
theorem place_spot (disk : Disk) (path : PathBuf) :
    path.key.spot.place disk.cwd =
      (path.text.splitOn '/').foldl advance (disk.start path.text) := by
  have hskipped (segment : Str) (h : segment ∈ path.nameSegments) : ¬skipped segment := by
    simpa using (List.mem_filter.mp h).2
  have hwalk (spot : Spot) := place_foldl disk.cwd spot path.nameSegments hskipped
  rw [foldl_advance_named]
  unfold Key.spot key components Disk.start
  by_cases hroot : hasRoot path.text = true
  · simp only [if_pos hroot, List.foldl_cons, names_eq]
    exact hwalk _
  · have hstart : start.place disk.cwd = disk.cwd := by simp [place, start]
    have hrelative := hwalk start
    rw [hstart] at hrelative
    simp only [if_neg hroot]
    by_cases hdot : leadingCurDir path.text = true
    · simp only [if_pos hdot, List.foldl_cons, names_eq]
      exact hrelative
    · simp only [if_neg hdot, names_eq]
      exact hrelative

theorem resolve_place {disk : Disk} {path : PathBuf} {location : Location}
    (h : disk.resolve path.text = .ok location) :
    location = path.key.spot.place disk.cwd := by
  obtain ⟨_, _, hwalk⟩ := resolve_ok.mp h
  rw [place_spot, foldlM_step_ok hwalk]

theorem entry_place {disk : Disk} {path : PathBuf} {location : Location}
    (h : disk.entry path.text = .ok location) : location = path.key.spot.place disk.cwd := by
  rw [place_spot, entry_walk h]

end Spot

def Path.spot {kind : PathType} (path : Path kind) : Spot :=
  path.key.spot

end Saps.Files
