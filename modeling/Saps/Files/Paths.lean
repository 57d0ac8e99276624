import Saps.Errors
import Mathlib.Data.List.Basic

namespace Saps.Files

-- One component of a path, as `std::path::Component` on Unix.
inductive Component where
  | rootDir
  | curDir
  | parentDir
  | normal (name : Str)
  deriving DecidableEq, Repr

-- `PathBuf` compares, hashes and matches prefixes by its components alone.
abbrev Components := List Component

structure PathBuf where
  text : Str
  deriving DecidableEq, Repr

namespace PathBuf

def classify (name : Str) : Component :=
  if name = ['.', '.'] then .parentDir else .normal name

-- The components of one run of names between slashes: empty names and `.` vanish.
def names (text : Str) : Components :=
  ((text.splitOn '/').filter fun name => name ≠ [] ∧ name ≠ ['.']).map classify

-- `Path::has_root`.
def hasRoot (text : Str) : Bool :=
  text.head? = some '/'

-- Only a leading `.` of a relative path survives as a component.
def leadingCurDir (text : Str) : Bool :=
  (text.splitOn '/').head? = some ['.']

-- `Path::components`.
def components (path : PathBuf) : Components :=
  if hasRoot path.text then .rootDir :: names path.text
  else if leadingCurDir path.text then .curDir :: names path.text
  else names path.text

-- `PathBuf::push` on Unix, which `Path::join` applies to a copy.
def join (base rel : PathBuf) : PathBuf :=
  if hasRoot rel.text then rel
  else if base.text ≠ [] ∧ base.text.getLast? ≠ some '/' then ⟨base.text ++ '/' :: rel.text⟩
  else ⟨base.text ++ rel.text⟩

end PathBuf

namespace Components

-- `Path::starts_with`.
def startsWith (path base : Components) : Bool :=
  base.isPrefixOf path

-- `Path::strip_prefix`.
def stripPrefix (path base : Components) : Option Components :=
  if startsWith path base then some (path.drop base.length) else none

-- `Path::join` on components: an absolute argument replaces the base, and a
-- leading `.` survives only when nothing stands before it.
def join (base rel : Components) : Components :=
  match rel with
  | .rootDir :: _ => rel
  | .curDir :: rest => if base = [] then rel else base ++ rest
  | _ => base ++ rel

-- `Path::parent`.
def parent (path : Components) : Option Components :=
  match path.getLast? with
  | none | some .rootDir => none
  | some _ => some path.dropLast

theorem startsWith_iff (path base : Components) :
    startsWith path base = true ↔ base <+: path := by
  simp [startsWith]

theorem nil_join (rel : Components) : join [] rel = rel := by
  unfold join
  split <;> simp

-- A relative path joined to a folder lies under the folder.
theorem startsWith_join (base rel : Components) (hrel : rel.head? ≠ some .rootDir) :
    startsWith (join base rel) base = true := by
  rw [startsWith_iff]
  match rel, hrel with
  | [], _ => exact List.prefix_append _ _
  | .rootDir :: _, h => simp at h
  | .curDir :: rest, _ =>
      simp only [join]
      split
      · next hb => subst hb; exact List.nil_prefix
      · exact List.prefix_append _ _
  | .parentDir :: _, _ => exact List.prefix_append _ _
  | .normal _ :: _, _ => exact List.prefix_append _ _

end Components

namespace PathBuf

theorem names_append (left right : Str) :
    names (left ++ '/' :: right) = names left ++ names right := by
  simp [names, List.splitOn_append_cons_self]

theorem names_trailing_slash (text : Str) : names (text ++ ['/']) = names text := by
  simpa [names] using names_append text []

theorem hasRoot_append (left right : Str) (hne : left ≠ []) :
    hasRoot (left ++ right) = hasRoot left := by
  cases left with
  | nil => exact absurd rfl hne
  | cons c left => simp [hasRoot]

theorem leadingCurDir_append (left right : Str) :
    leadingCurDir (left ++ '/' :: right) = leadingCurDir left := by
  have hne := List.splitOn_ne_nil '/' left
  simp [leadingCurDir, List.splitOn_append_cons_self, List.head?_append_of_ne_nil _ hne]

theorem names_head (text : Str) (component : Component) (rest : Components)
    (h : names text = component :: rest) : component ≠ .rootDir ∧ component ≠ .curDir := by
  have hmem : component ∈ names text := by simp [h]
  obtain ⟨name, _, rfl⟩ := List.mem_map.mp hmem
  unfold classify
  split <;> simp

-- A path without components is the empty string.
theorem components_eq_nil (path : PathBuf) (h : path.components = []) : path.text = [] := by
  obtain ⟨text⟩ := path
  cases text with
  | nil => rfl
  | cons c text =>
      exfalso
      unfold components at h
      split at h
      · simp at h
      · next hroot =>
        have hc : c ≠ '/' := by rintro rfl; simp [hasRoot] at hroot
        obtain ⟨first, rest, hsplit⟩ := List.exists_cons_of_ne_nil (List.splitOn_ne_nil '/' text)
        have hs : (c :: text).splitOn '/' = (c :: first) :: rest := by
          simp [List.splitOn_cons_eq_if_modifyHead, hc, hsplit]
        split at h
        · simp at h
        · next hdot =>
          have hfirst : c :: first ≠ ['.'] := by
            intro he
            exact hdot (by simp [leadingCurDir, hs, he])
          simp [names, hs, hfirst] at h

-- Behind a non-empty path, a relative one contributes its names.
theorem join_relative (base : Components) (rel : PathBuf) (hbase : base ≠ [])
    (hroot : ¬hasRoot rel.text) : base.join rel.components = base ++ names rel.text := by
  unfold components
  simp only [hroot, Bool.false_eq_true, ite_false]
  split
  · simp [Components.join, hbase]
  · cases hn : names rel.text with
    | nil => simp [Components.join]
    | cons component rest =>
        have hh := names_head _ _ _ hn
        cases component <;> simp_all [Components.join]

-- Joining two paths as text and joining their components agree.
theorem components_join (base rel : PathBuf) :
    (base.join rel).components = base.components.join rel.components := by
  by_cases hroot : hasRoot rel.text
  · simp [join, components, hroot, Components.join]
  · by_cases hempty : base.text = []
    · have hb : base.components = [] := by
        simp [components, hempty, hasRoot, leadingCurDir, names]
      have hj : base.join rel = rel := by simp [join, hroot, hempty]
      rw [hj, hb, Components.nil_join]
    · have hfront : base.components ≠ [] := fun h => hempty (components_eq_nil base h)
      rw [join_relative _ _ hfront hroot]
      obtain ⟨front, hj, hnames, hbase⟩ : ∃ front, base.join rel = ⟨front ++ '/' :: rel.text⟩ ∧
          names front = names base.text ∧
            (hasRoot (front ++ '/' :: rel.text) = hasRoot base.text ∧
              leadingCurDir front = leadingCurDir base.text) := by
        by_cases hlast : base.text.getLast? = some '/'
        · obtain ⟨front, hfront⟩ := List.getLast?_eq_some_iff.mp hlast
          refine ⟨front, ?_, ?_, ?_, ?_⟩
          · simp [join, hroot, hfront]
          · rw [hfront, names_trailing_slash]
          · rw [hfront]; cases front <;> simp [hasRoot]
          · rw [hfront, leadingCurDir_append]
        · refine ⟨base.text, ?_, rfl, hasRoot_append _ _ hempty, rfl⟩
          simp [join, hroot, hempty, hlast]
      rw [hj]
      unfold components
      simp only [names_append, leadingCurDir_append, hnames, hbase]
      split
      · rfl
      · split <;> rfl

-- A root or a leading `.` stands in front of every other component.
theorem components_tail (path : PathBuf) (component : Component)
    (h : component ∈ path.components.tail) : component ≠ .rootDir ∧ component ≠ .curDir := by
  have hmem : component ∈ names path.text := by
    unfold components at h
    split at h
    · exact h
    · split at h
      · exact h
      · exact List.mem_of_mem_tail h
  obtain ⟨name, _, rfl⟩ := List.mem_map.mp hmem
  unfold classify
  split <;> simp

-- What a map keyed by a `PathBuf` compares: components a path can really have.
structure Key where
  components : Components
  tail_inner : ∀ component ∈ components.tail, component ≠ .rootDir ∧ component ≠ .curDir
  deriving DecidableEq

def key (path : PathBuf) : Key :=
  ⟨path.components, path.components_tail⟩

namespace Key

def startsWith (path base : Key) : Bool :=
  path.components.startsWith base.components

def stripPrefix (path base : Key) : Option Key :=
  if startsWith path base then
    some ⟨path.components.drop base.components.length, fun component h =>
      path.tail_inner component (by
        rw [List.tail_drop] at h
        rw [← List.drop_one]
        exact List.drop_subset_drop_left _ (by omega) h)⟩
  else none

theorem join_tail (base rel : Key) (component : Component)
    (h : component ∈ (base.components.join rel.components).tail) :
    component ≠ .rootDir ∧ component ≠ .curDir := by
  obtain ⟨front, hfront⟩ := base
  obtain ⟨_ | ⟨first, rest⟩, hback⟩ := rel
  · exact hfront component (by simpa [Components.join] using h)
  · have happend : ∀ back : Components, component ∈ (front ++ back).tail →
        component ∈ front.tail ∨ component ∈ back := by
      intro back hmem
      cases front with
      | nil => exact .inr (List.mem_of_mem_tail hmem)
      | cons _ front => simpa using hmem
    have hinner : first ≠ .rootDir → first ≠ .curDir →
        component ∈ (front ++ first :: rest).tail →
        component ≠ .rootDir ∧ component ≠ .curDir := by
      intro hroot hcur hmem
      rcases happend _ hmem with hmem | hmem
      · exact hfront component hmem
      · rcases List.mem_cons.mp hmem with rfl | hmem
        · exact ⟨hroot, hcur⟩
        · exact hback component hmem
    cases first with
    | rootDir => exact hback component h
    | curDir =>
        simp only [Components.join] at h
        split at h
        · exact hback component h
        · exact (happend rest h).elim (hfront component) (hback component)
    | parentDir => exact hinner (by simp) (by simp) h
    | normal name => exact hinner (by simp) (by simp) h

def join (base rel : Key) : Key :=
  ⟨base.components.join rel.components, base.join_tail rel⟩

theorem ext {left right : Key} (h : left.components = right.components) : left = right := by
  cases left
  cases right
  cases h
  rfl

theorem stripPrefix_eq_some {path base rest : Key} (h : path.stripPrefix base = some rest) :
    path.components = base.components ++ rest.components := by
  unfold stripPrefix at h
  split at h
  · next hprefix =>
    obtain ⟨tail, htail⟩ := (Components.startsWith_iff _ _).mp hprefix
    obtain rfl := Option.some.inj h
    simp [← htail]
  · contradiction

-- A path moved from one folder to another lies under the new folder. The only
-- exception is an absolute path moved out of the empty folder: it stays itself.
theorem startsWith_join {path base rest : Key} (h : path.stripPrefix base = some rest)
    (target : Key) :
    (target.join rest).startsWith target = true ∨
      (base.components = [] ∧ target.join rest = path) := by
  have hpath := stripPrefix_eq_some h
  by_cases hroot : rest.components.head? = some .rootDir
  · right
    obtain ⟨tail, htail⟩ := List.head?_eq_some_iff.mp hroot
    have hbase : base.components = [] := by
      cases hb : base.components with
      | nil => rfl
      | cons first front =>
          have hinner := path.tail_inner .rootDir (by simp [hpath, hb, htail])
          exact absurd rfl hinner.1
    refine ⟨hbase, ext ?_⟩
    rw [hpath, hbase, htail]
    simp [join, htail, Components.join]
  · exact .inl (Components.startsWith_join target.components rest.components hroot)

end Key

end PathBuf

-- The typestate of a path: a file or a folder.
inductive PathType where
  | file
  | folder
  deriving DecidableEq, Repr

structure Path (kind : PathType) where
  relPath : PathBuf
  rootPath : PathBuf
  fullPath : PathBuf
  deriving DecidableEq, Repr

namespace Path

variable {kind : PathType}

def build (root rel : Str) : Path kind where
  relPath := ⟨rel⟩
  rootPath := ⟨root⟩
  fullPath := PathBuf.join ⟨root⟩ ⟨rel⟩

def new (path : Str) : Path kind :=
  build [] path

def relativeString (path : Path kind) : Str :=
  path.relPath.text

def key (path : Path kind) : PathBuf.Key :=
  path.fullPath.key

end Path

end Saps.Files
