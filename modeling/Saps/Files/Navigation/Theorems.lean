import Saps.Files.Navigation

namespace Saps.Files

-- A path joined in two goes is the same as one joined in one.
theorem Components.join_assoc (first second third : Components) :
    (first.join second).join third = first.join (second.join third) := by
  cases third with
  | nil =>
      cases second with
      | nil => simp [join]
      | cons component rest => cases component <;> simp [join]
  | cons component rest =>
      cases component with
      | rootDir => simp [join]
      | curDir =>
          cases second with
          | nil => by_cases hfirst : first = [] <;> simp [join, hfirst]
          | cons component rest =>
              by_cases hfirst : first = [] <;> cases component <;> simp [join, hfirst]
      | parentDir =>
          cases second with
          | nil => simp [join]
          | cons component rest =>
              by_cases hfirst : first = [] <;> cases component <;> simp [join, hfirst]
      | normal name =>
          cases second with
          | nil => simp [join]
          | cons component rest =>
              by_cases hfirst : first = [] <;> cases component <;> simp [join, hfirst]

-- A join with a path that is not absolute goes on from where its front leads.
theorem Spot.foldl_join (base rel : Components) (hrel : .rootDir ∉ rel) (spot : Spot) :
    (base.join rel).foldl follow spot = rel.foldl follow (base.foldl follow spot) := by
  cases rel with
  | nil => simp [Components.join]
  | cons component rest =>
      cases component with
      | rootDir => exact absurd List.mem_cons_self hrel
      | curDir => by_cases hbase : base = [] <;> simp [Components.join, hbase, follow]
      | parentDir => simp [Components.join]
      | normal name => simp [Components.join]

namespace Navigation

open PathBuf Transition

@[simp] theorem levels_nil : levels [] = 0 := rfl

theorem levels_cons (component : Component) (rest : Components) :
    levels (component :: rest) = levels [component] + levels rest := by
  simp [levels]

-- A path escapes if it is absolute or some front of it leads up from the root.
theorem climbs_eq_false_iff (depth : Int) (hdepth : 0 ≤ depth) (components : Components) :
    climbs depth components = false ↔
      .rootDir ∉ components ∧ ∀ front, front <+: components → 0 ≤ depth + levels front := by
  induction components generalizing depth with
  | nil =>
      refine iff_of_true rfl ⟨List.not_mem_nil, fun front hfront => ?_⟩
      rw [List.prefix_nil.mp hfront, levels_nil]
      omega
  | cons component rest ih =>
      have hfronts (next : Int) (hnext : next = depth + levels [component]) :
          (∀ front, front <+: component :: rest → 0 ≤ depth + levels front) ↔
            ∀ front, front <+: rest → 0 ≤ next + levels front := by
        constructor
        · intro h front hfront
          have hlong := h (component :: front) (List.cons_prefix_cons.mpr ⟨rfl, hfront⟩)
          rw [levels_cons] at hlong
          omega
        · intro h front hfront
          cases front with
          | nil =>
              rw [levels_nil]
              omega
          | cons first front =>
              obtain ⟨rfl, htail⟩ := List.cons_prefix_cons.mp hfront
              have hshort := h front htail
              rw [levels_cons]
              omega
      cases component with
      | rootDir => simp [climbs]
      | curDir =>
          rw [climbs, ih depth hdepth, hfronts depth (by simp [levels, level])]
          simp
      | normal name =>
          rw [climbs, ih (depth + 1) (by omega), hfronts (depth + 1) (by simp [levels, level])]
          simp
      | parentDir =>
          rw [climbs, hfronts (depth - 1) (by simp [levels, level]; omega)]
          by_cases hroot : depth - 1 < 0
          · rw [if_pos hroot]
            refine iff_of_false (by simp) fun h => ?_
            have hnil := h.2 [] List.nil_prefix
            rw [levels_nil] at hnil
            omega
          · rw [if_neg hroot, ih (depth - 1) (by omega)]
            simp

theorem levels_nonneg {rel : Components} (h : climbs 0 rel = false) : 0 ≤ levels rel := by
  have hall := ((climbs_eq_false_iff 0 (by omega) rel).mp h).2 rel (List.prefix_refl _)
  omega

theorem climbs_append {depth : Int} {front : Components} (h : climbs depth front = false)
    (back : Components) : climbs depth (front ++ back) = climbs (depth + levels front) back := by
  induction front generalizing depth with
  | nil => simp
  | cons component front ih =>
      rw [levels_cons]
      cases component with
      | rootDir => simp [climbs] at h
      | curDir =>
          rw [climbs] at h
          rw [List.cons_append, climbs, ih h]
          simp [levels, level]
      | normal name =>
          rw [climbs] at h
          rw [List.cons_append, climbs, ih h]
          congr 1
          simp only [levels, level, List.map_cons, List.map_nil, List.sum_cons, List.sum_nil]
          omega
      | parentDir =>
          rw [climbs] at h
          split at h
          · contradiction
          · next hroot =>
            rw [List.cons_append, climbs, if_neg hroot, ih h]
            congr 1
            simp only [levels, level, List.map_cons, List.map_nil, List.sum_cons, List.sum_nil]
            omega

theorem climbs_join {rel name : Components} (hrel : climbs 0 rel = false)
    (hname : .rootDir ∉ name) : climbs 0 (rel.join name) = climbs (levels rel) name := by
  cases name with
  | nil =>
      have happend := climbs_append hrel []
      rw [Int.zero_add] at happend
      exact happend
  | cons component rest =>
      have happend (back : Components) := climbs_append hrel back
      simp only [Int.zero_add] at happend
      cases component with
      | rootDir => exact absurd List.mem_cons_self hname
      | curDir =>
          by_cases hnil : rel = []
          · simp [Components.join, hnil]
          · simp [Components.join, hnil, happend, climbs]
      | parentDir => exact happend _
      | normal name => exact happend _

-- The names that a path behind the root leads down by are never taken back.
theorem foldl_follow_climbs (root : Spot) (down : List Str) (components : Components)
    (h : climbs down.length components = false) :
    ∃ names, components.foldl Spot.follow { root with names := root.names ++ down } =
      { root with names := root.names ++ names } := by
  induction components generalizing down with
  | nil => exact ⟨down, rfl⟩
  | cons component rest ih =>
      cases component with
      | rootDir => simp [climbs] at h
      | curDir => exact ih down h
      | normal name =>
          obtain ⟨names, hnames⟩ := ih (down ++ [name]) (by simpa [climbs] using h)
          refine ⟨names, ?_⟩
          rw [← hnames, ← List.append_assoc]
          rfl
      | parentDir =>
          rw [climbs] at h
          split at h
          · contradiction
          · next hroot =>
            have hdown : down ≠ [] := by
              rintro rfl
              simp at hroot
            obtain ⟨names, hnames⟩ := ih down.dropLast (by
              have hlength : (down.dropLast.length : Int) = down.length - 1 := by
                have hpos := List.length_pos_iff.mpr hdown
                rw [List.length_dropLast]
                omega
              rw [hlength]
              exact h)
            refine ⟨names, ?_⟩
            rw [← hnames, List.foldl_cons]
            congr 1
            unfold Spot.follow
            rw [if_pos (List.append_ne_nil_of_right_ne_nil _ hdown),
              List.dropLast_append_of_ne_nil hdown]

-- The full path of a node is its relative path behind the root.
structure Sound (root : PathBuf) (node : Node) : Prop where
  rootPath : node.rootPath = root
  rel : escapesRoot node.relPath = false
  full : node.fullPath.components = root.components.join node.relPath.components

theorem Sound.confined {root : PathBuf} {node : Node} (h : Sound root node) :
    Confined root node := by
  refine ⟨h.rootPath, h.rel, ?_⟩
  have hrel := ((climbs_eq_false_iff 0 (by omega) _).mp h.rel).1
  have hfull : node.fullPath.key.spot =
      node.relPath.components.foldl Spot.follow root.key.spot := by
    unfold Key.spot
    rw [← Spot.foldl_join _ _ hrel]
    exact congrArg (List.foldl Spot.follow Spot.start) h.full
  obtain ⟨names, hnames⟩ := foldl_follow_climbs root.key.spot [] node.relPath.components h.rel
  rw [List.append_nil] at hnames
  rw [hfull, hnames]
  exact ⟨rfl, rfl, List.prefix_append _ _⟩

theorem starts_sound {root : Str} {node : Node} (h : Starts root node) : Sound ⟨root⟩ node := by
  cases h with
  | file rel h => exact ⟨rfl, h, components_join ⟨root⟩ ⟨rel⟩⟩
  | folder rel h => exact ⟨rfl, h, components_join ⟨root⟩ ⟨rel⟩⟩

-- A child is confined exactly when its name does not lead out.
theorem child_sound {root : PathBuf} {folder : Path .folder} (h : Sound root (.folder folder))
    {node : Node} (name : Str) (hroot : node.rootPath = folder.rootPath)
    (hrel : node.relPath = folder.relPath.join ⟨name⟩)
    (hfull : node.fullPath = folder.fullPath.join ⟨name⟩) :
    (Confined root node ↔ Stays folder.relPath name) ∧ (Confined root node → Sound root node) := by
  have hnonneg : 0 ≤ levels folder.relPath.components := levels_nonneg h.rel
  have hcomponents : node.relPath.components =
      folder.relPath.components.join (PathBuf.mk name).components := by
    rw [hrel, components_join]
  have hsound : escapesRoot node.relPath = false → Sound root node := by
    intro hsafe
    refine ⟨hroot.trans h.rootPath, hsafe, ?_⟩
    have hfolder : folder.fullPath.components = root.components.join folder.relPath.components :=
      h.full
    rw [hfull, components_join, hfolder, hcomponents, Components.join_assoc]
  have hsafe : escapesRoot node.relPath = false ↔ Stays folder.relPath name := by
    unfold escapesRoot Stays
    rw [hcomponents]
    by_cases habsolute : .rootDir ∈ (PathBuf.mk name).components
    · refine iff_of_false ?_ fun hstays => hstays.1 habsolute
      rw [climbs_eq_false_iff 0 (by omega)]
      rintro ⟨hnot, _⟩
      obtain ⟨front, back, hsplit⟩ := List.append_of_mem habsolute
      have hhead : (PathBuf.mk name).components.head? = some .rootDir := by
        cases front with
        | nil => rw [hsplit]; rfl
        | cons first front =>
            have htail : .rootDir ∈ (PathBuf.mk name).components.tail := by simp [hsplit]
            exact absurd rfl (components_tail _ _ htail).1
      obtain ⟨rest, hrest⟩ := List.head?_eq_some_iff.mp hhead
      rw [hrest] at hnot
      exact hnot (by simp [Components.join])
    · have hjoin : climbs 0 (folder.relPath.components.join (PathBuf.mk name).components) =
          climbs (levels folder.relPath.components) (PathBuf.mk name).components :=
        climbs_join h.rel habsolute
      rw [hjoin, climbs_eq_false_iff _ hnonneg]
  refine ⟨?_, fun hconfined => hsound hconfined.2.1⟩
  constructor
  · exact fun hconfined => hsafe.mp hconfined.2.1
  · exact fun hstays => (hsound (hsafe.mpr hstays)).confined

theorem parent_sound {root : PathBuf} {file : Path .file} {folder : Path .folder}
    (h : Sound root (.file file)) (hparent : file.intoParentFolder = .ok folder) :
    Sound root (.folder folder) := by
  have hroot : file.rootPath = root := h.rootPath
  unfold Path.intoParentFolder at hparent
  split at hparent
  · contradiction
  · next relParent _ =>
    split at hparent
    · contradiction
    · next hsafe =>
      obtain rfl := Except.ok.inj hparent
      have hrel : escapesRoot relParent = false := by simpa using hsafe
      refine ⟨hroot, hrel, ?_⟩
      change (file.rootPath.join relParent).components = _
      rw [components_join, hroot]
      rfl

theorem step_sound {root : PathBuf} {before after : Node} {move : Move} (h : Sound root before)
    (hstep : Step before move after) :
    (Confined root after ↔ move.Stays before) ∧ (Confined root after → Sound root after) := by
  cases hstep with
  | parentFolder path folder hparent =>
      have hsound := parent_sound h hparent
      exact ⟨iff_of_true hsound.confined trivial, fun _ => hsound⟩
  | childFile path name file hchild =>
      obtain rfl := Except.ok.inj hchild
      exact child_sound h name rfl rfl rfl
  | childFolder path name folder hchild =>
      obtain rfl := Except.ok.inj hchild
      exact child_sound h name rfl rfl rfl

-- Every node of a walk stays at or under the root exactly when no name that a child
-- was asked for by leads out of it.
theorem confined_iff (root : Str) (start : Node) (hstart : Starts root start) (trace : List Move)
    (finish : Node) :
    Run (fun before move after => Step before move after ∧ Confined ⟨root⟩ after) start trace finish ↔
      Run (fun before move after => Step before move after ∧ move.Stays before) start trace finish :=
  Run.restrict_iff (Sound ⟨root⟩) (starts_sound hstart) fun _ _ _ h hstep => step_sound h hstep

def project : Node :=
  .file (Path.build "proj".toList "src/main.cad".toList)

def source : Node :=
  .folder (Path.build "proj".toList "src".toList)

theorem project_starts : Starts "proj".toList project :=
  .file _ (by decide +kernel)

def sibling : Node :=
  .file ((Path.build "proj".toList "src".toList).child .file "../lib.cad".toList)

theorem sibling_stays : Stays ⟨"src".toList⟩ "../lib.cad".toList := by
  have hlevels : levels (PathBuf.mk "src".toList).components = 1 := by decide +kernel
  unfold Stays
  rw [hlevels, ← climbs_eq_false_iff 1 (by omega)]
  decide +kernel

theorem sibling_run :
    Run (fun before move after => Step before move after ∧ move.Stays before) project
      [.parentFolder, .childFile "../lib.cad".toList] sibling := by
  have hup : Step project .parentFolder source := .parentFolder _ _ (by decide +kernel)
  apply Run.snoc (.snoc .nil ⟨hup, trivial⟩)
  exact ⟨.childFile _ _ _ rfl, sibling_stays⟩

theorem confined_iff_sibling :
    Run (fun before move after => Step before move after ∧ Confined ⟨"proj".toList⟩ after) project
      [.parentFolder, .childFile "../lib.cad".toList] sibling :=
  (confined_iff "proj".toList project project_starts _ sibling).mpr sibling_run

def passwords : Node :=
  .file ((Path.build "proj".toList "src".toList).child .file "../../etc/passwd".toList)

theorem confined_escaped :
    ¬∀ root start, Starts root start → ∀ trace finish, Run Step start trace finish →
      Confined ⟨root⟩ finish := by
  intro h
  have hstart : Starts "proj".toList source := .folder _ (by decide +kernel)
  have hrun : Run Step source [.childFile "../../etc/passwd".toList] passwords :=
    .snoc .nil (.childFile _ _ _ rfl)
  have hconfined := h _ _ hstart _ _ hrun
  exact absurd hconfined.2.1 (by decide +kernel)

end Navigation

end Saps.Files
