import Mathlib.Algebra.Ring.Nat
import Saps.Files.Navigation.Theorems

-- `escapes_root` against the normalisation of a path on a stack.
namespace Saps.Files

def Component.isNormal : Component → Bool
  | .normal _ => true
  | _ => false

namespace Components

-- The loop of `escapes_root` on its `i32`, which wraps around.
def climbsFrom (depth : Int32) : Components → Bool
  | [] => false
  | .normal _ :: rest => climbsFrom (depth + 1) rest
  | .parentDir :: rest => if depth - 1 < 0 then true else climbsFrom (depth - 1) rest
  | .curDir :: rest => climbsFrom depth rest
  | .rootDir :: _ => true

def escapesRoot (rel : Components) : Bool :=
  climbsFrom 0 rel

-- A `..` takes back the name before it. It stays where there is none, except behind
-- the root of the file system.
def push (stack : Components) : Component → Components
  | .rootDir => [.rootDir]
  | .curDir => stack
  | .normal name => stack ++ [.normal name]
  | .parentDir =>
    if stack.getLast?.any Component.isNormal then stack.dropLast
    else if stack.getLast? = some .rootDir then stack
    else stack ++ [.parentDir]

def normalize (components : Components) : Components :=
  components.foldl push []

-- The depth does not overflow on fewer than `2 ^ 31` components.
theorem climbsFrom_eq (rel : Components) (depth : Int32) (hdepth : 0 ≤ depth.toInt)
    (hlength : depth.toInt + rel.length < 2 ^ 31) :
    climbsFrom depth rel = climbs depth.toInt rel := by
  induction rel generalizing depth with
  | nil => rfl
  | cons component rest ih =>
      rw [List.length_cons] at hlength
      have hup : (depth + 1).toInt = depth.toInt + 1 := by
        rw [Int32.toInt_add, Int32.toInt_one]
        apply Int.bmod_eq_of_le <;> omega
      have hdown : (depth - 1).toInt = depth.toInt - 1 := by
        rw [Int32.toInt_sub, Int32.toInt_one]
        apply Int.bmod_eq_of_le <;> omega
      cases component with
      | rootDir => rfl
      | curDir => exact ih depth hdepth (by omega)
      | normal name =>
          have hrest := ih (depth + 1) (by omega) (by omega)
          rw [hup] at hrest
          exact hrest
      | parentDir =>
          have hroot : depth - 1 < 0 ↔ depth.toInt - 1 < 0 := by
            rw [Int32.lt_iff_toInt_lt, hdown, Int32.toInt_zero]
          simp only [climbsFrom, climbs, hroot]
          split
          · rfl
          · have hrest := ih (depth - 1) (by omega) (by omega)
            rw [hdown] at hrest
            exact hrest

theorem escapesRoot_eq {rel : Components} (hlength : rel.length < 2 ^ 31) :
    rel.escapesRoot = climbs 0 rel := by
  have hzero : (0 : Int32).toInt = 0 := Int32.toInt_zero
  unfold escapesRoot
  rw [climbsFrom_eq rel 0 (by omega) (by omega), hzero]

theorem levels_eq (rel : Components) :
    Navigation.levels rel = rel.countP Component.isNormal - rel.count .parentDir := by
  induction rel with
  | nil => simp
  | cons component rest ih =>
      rw [Navigation.levels_cons, ih]
      cases component <;>
        simp [Navigation.levels, Navigation.level, Component.isNormal, List.countP_cons] <;> omega

-- On top of any stack, a path that does not climb out of it pushes the same names.
theorem foldl_push_climbs (down : List Str) (rel : Components)
    (h : climbs down.length rel = false) :
    ∃ names : List Str, ∀ base : Components,
      rel.foldl push (base ++ down.map .normal) = base ++ names.map .normal := by
  induction rel generalizing down with
  | nil => exact ⟨down, fun base => rfl⟩
  | cons component rest ih =>
      cases component with
      | rootDir => simp [climbs] at h
      | curDir => exact ih down h
      | normal name =>
          obtain ⟨names, hnames⟩ := ih (down ++ [name]) (by simpa [climbs] using h)
          refine ⟨names, fun base => ?_⟩
          rw [← hnames base]
          simp [push]
      | parentDir =>
          rw [climbs] at h
          split at h
          · contradiction
          · next hroot =>
            rcases List.eq_nil_or_concat' down with rfl | ⟨front, name, rfl⟩
            · simp at hroot
            · obtain ⟨names, hnames⟩ := ih front (by simpa using h)
              refine ⟨names, fun base => ?_⟩
              rw [← hnames base]
              simp [push, Component.isNormal, ← List.append_assoc]

-- A join with a path that is not absolute goes on with the stack of its front.
theorem normalize_join (base rel : Components) (hrel : .rootDir ∉ rel) :
    (base.join rel).normalize = rel.foldl push base.normalize := by
  unfold normalize
  cases rel with
  | nil => simp [join]
  | cons component rest =>
      cases component with
      | rootDir => exact absurd List.mem_cons_self hrel
      | curDir => by_cases hbase : base = [] <;> simp [join, hbase, push]
      | parentDir => simp [join]
      | normal name => simp [join]

-- `escapes_root` tells the paths that lead out of the root they are relative to. Any
-- other path adds what it normalises to behind whatever the root normalises to.
theorem escapes_root_iff (rel : Components) (hlength : rel.length < 2 ^ 31) :
    (rel.escapesRoot = false ↔ .rootDir ∉ rel ∧
      ∀ front, front <+: rel → front.count .parentDir ≤ front.countP Component.isNormal) ∧
    (rel.escapesRoot = false → ∀ root : Components,
      (root.join rel).normalize = root.normalize ++ rel.normalize ∧
        root.normalize <+: (root.join rel).normalize) := by
  rw [escapesRoot_eq hlength]
  constructor
  · rw [Navigation.climbs_eq_false_iff 0 (by omega)]
    refine and_congr_right fun _ => forall_congr' fun front => imp_congr_right fun _ => ?_
    rw [levels_eq]
    omega
  · intro h root
    have hrel := ((Navigation.climbs_eq_false_iff 0 (by omega) rel).mp h).1
    obtain ⟨names, hnames⟩ := foldl_push_climbs [] rel (by simpa using h)
    have hself : rel.normalize = names.map .normal := by simpa [normalize] using hnames []
    have hjoin : (root.join rel).normalize = root.normalize ++ rel.normalize := by
      rw [normalize_join root rel hrel, hself]
      simpa using hnames root.normalize
    refine ⟨hjoin, ?_⟩
    rw [hjoin]
    exact List.prefix_append _ _

-- Behind a root that ends in `..` as well.
theorem escapes_root_below :
    (Components.join [.normal ['a'], .parentDir, .parentDir]
      [.normal ['b'], .parentDir, .normal ['c']]).normalize = [.parentDir, .normal ['c']] := by
  have hlength : List.length [Component.normal ['b'], .parentDir, .normal ['c']] < 2 ^ 31 := by
    decide
  have hsafe : escapesRoot [.normal ['b'], .parentDir, .normal ['c']] = false := by decide
  rw [((escapes_root_iff _ hlength).2 hsafe _).1]
  decide

end Components

end Saps.Files
