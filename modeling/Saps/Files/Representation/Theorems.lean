import Saps.Files.Representation
import Saps.Files.Navigation.Theorems

namespace Saps.Files

namespace PathBuf

theorem ofSegments_append {front back : List Str} (hfront : front ≠ []) (hback : back ≠ []) :
    ofSegments (front ++ back) = ofSegments front ++ '/' :: ofSegments back := by
  unfold ofSegments
  induction front with
  | nil => exact absurd rfl hfront
  | cons first front ih =>
      by_cases hnil : front = []
      · simp [hnil, List.intercalate_cons_of_ne_nil hback]
      · rw [List.cons_append, List.intercalate_cons_of_ne_nil (by simp [hnil]),
          List.intercalate_cons_of_ne_nil hnil, ih hnil]
        simp

-- What stands behind the last slash adds its name, if it is one.
theorem components_behind (front last : Str) :
    components ⟨front ++ '/' :: last⟩ = components ⟨front ++ ['/']⟩ ++ names last := by
  have hroot : hasRoot (front ++ '/' :: last) = hasRoot (front ++ ['/']) := by
    cases front <;> simp [hasRoot]
  have hnames : names (front ++ ['/']) = names front := names_trailing_slash front
  have hdot : leadingCurDir (front ++ '/' :: last) = leadingCurDir (front ++ ['/']) := by
    rw [leadingCurDir_append, leadingCurDir_append]
  unfold components
  simp only [hroot, hdot, hnames, names_append]
  split
  · rfl
  · split <;> rfl

theorem names_segment {segment : Str} (h : '/' ∉ segment) :
    names segment = if skipped segment then [] else [classify segment] := by
  have hsingle : names segment = segmentNames [segment] := by
    unfold names segmentNames
    rw [List.splitOn_eq_singleton h]
  rw [hsingle, segmentNames_cons]
  rfl

-- Another last segment makes another path.
theorem components_segment_iff (front : List Str) {name other : Str} (hname : '/' ∉ name)
    (hother : '/' ∉ other) (hnamed : ¬skipped name) :
    components ⟨ofSegments (front ++ [other])⟩ = components ⟨ofSegments (front ++ [name])⟩ ↔
      other = name := by
  constructor
  · intro h
    have hnames : names other = names name := by
      by_cases hfront : front = []
      · simp only [hfront, List.nil_append, ofSegments, List.intercalate_singleton] at h
        have hother := names_eq_filter ⟨other⟩
        rwa [h, ← names_eq_filter] at hother
      · rw [ofSegments_append hfront (by simp), ofSegments_append hfront (by simp),
          components_behind, components_behind _ (ofSegments [name])] at h
        simpa [ofSegments] using h
    rw [names_segment hname, if_neg hnamed, names_segment hother] at hnames
    split at hnames
    · cases hnames
    · exact classify_injective (List.singleton_inj.mp hnames)
  · rintro rfl
    rfl

-- The file name is the last segment that is not skipped.
theorem exists_front {path : PathBuf} {name : Str} (h : path.fileName = some name) :
    ∃ front, trimRight (path.text.splitOn '/') = front ++ [name] ∧ ¬skipped name ∧
      name ≠ ['.', '.'] := by
  have hlast : path.components.getLast? = some (.normal name) := by
    unfold fileName at h
    split at h
    · next heq => rw [heq, Option.some.inj h]
    · contradiction
  have hnames : (names path.text).getLast? = some (.normal name) := by
    have hne (first : Component) (hfirst : first ≠ .normal name)
        (hcons : (first :: names path.text).getLast? = some (.normal name)) :
        (names path.text).getLast? = some (.normal name) := by
      by_cases hnil : names path.text = []
      · rw [hnil] at hcons
        exact absurd (by simpa using hcons) hfirst
      · rwa [List.getLast?_cons_of_ne_nil hnil] at hcons
    unfold components at hlast
    split at hlast
    · exact hne .rootDir (by simp) hlast
    · split at hlast
      · exact hne .curDir (by simp) hlast
      · exact hlast
  have htrimmed : names path.text = segmentNames (trimRight (path.text.splitOn '/')) :=
    (segmentNames_trimRight _).symm
  rcases List.eq_nil_or_concat' (trimRight (path.text.splitOn '/')) with hnil | ⟨front, last, hsnoc⟩
  · rw [htrimmed, hnil] at hnames
    cases hnames
  · have hskipped := trimRight_snoc hsnoc
    rw [htrimmed, hsnoc, segmentNames_append, segmentNames_cons, if_neg hskipped] at hnames
    have hclass : classify last = .normal name := by simpa [segmentNames] using hnames
    unfold classify at hclass
    split at hclass
    · contradiction
    · next hdots =>
      obtain rfl := Component.normal.inj hclass
      exact ⟨front, hsnoc, hskipped, hdots⟩

theorem components_trimRight {path : PathBuf} {name : Str} (h : path.fileName = some name) :
    components ⟨ofSegments (trimRight (path.text.splitOn '/'))⟩ = path.components := by
  obtain ⟨front, hfront, hnamed, _⟩ := exists_front h
  have hsplit : trimRight (path.text.splitOn '/') ++ (path.text.splitOn '/').rtakeWhile skipped =
      path.text.splitOn '/' := List.rdropWhile_append_rtakeWhile
  have htext : path.text = ofSegments (trimRight (path.text.splitOn '/') ++
      (path.text.splitOn '/').rtakeWhile skipped) := by
    rw [hsplit]
    exact (List.intercalate_splitOn '/').symm
  have hback : ∀ segment ∈ (path.text.splitOn '/').rtakeWhile skipped, skipped segment :=
    fun segment hsegment => List.mem_rtakeWhile_imp hsegment
  have hslash : ∀ segment ∈ (path.text.splitOn '/').rtakeWhile skipped, '/' ∉ segment :=
    fun segment hsegment => not_mem_splitOn ((List.rtakeWhile_suffix _ _).subset hsegment)
  generalize (path.text.splitOn '/').rtakeWhile skipped = back at htext hback hslash
  generalize trimRight (path.text.splitOn '/') = trimmed at htext hfront
  obtain ⟨text⟩ := path
  obtain rfl : text = ofSegments (trimmed ++ back) := htext
  by_cases hnil : back = []
  · simp [hnil]
  · have htrimmed : trimmed ≠ [] := by simp [hfront]
    have hne : ofSegments trimmed ≠ [] := by
      have hname : name ≠ [] := by
        rintro rfl
        exact hnamed (by simp [skipped])
      by_cases hfirst : front = []
      · simp [hfront, hfirst, ofSegments, hname]
      · simp [hfront, ofSegments_append hfirst]
    have hnames : names (ofSegments back) = [] := by
      rw [names_ofSegments hslash, segmentNames_skipped hback]
    unfold components
    simp only [ofSegments_append htrimmed hnil, names_append, hnames, List.append_nil,
      hasRoot_append _ _ hne, leadingCurDir_append]

-- A name has no extension, or it is its stem, a dot and its extension.
theorem split_cases {file : Str} (hdots : file ≠ ['.', '.']) :
    (stemOf file = some file ∧ extensionOf file = none) ∨
      ∃ before after, file = before ++ '.' :: after ∧ stemOf file = some before ∧
        extensionOf file = some after := by
  unfold stemOf extensionOf rsplitFileAtDot
  rw [if_neg hdots]
  by_cases hdot : '.' ∈ file
  · rw [if_neg (not_not_intro hdot)]
    have hne : file.rdropWhile (· ≠ '.') ≠ [] := by
      intro hnil
      have hall := List.rdropWhile_eq_nil_iff.mp hnil '.' hdot
      simp at hall
    have hlast : (file.rdropWhile (· ≠ '.')).getLast hne = '.' := by
      simpa using List.rdropWhile_last_not _ _ hne
    by_cases hbefore : (file.rdropWhile (· ≠ '.')).dropLast = []
    · left
      dsimp only
      rw [if_pos hbefore]
      exact ⟨rfl, rfl⟩
    · right
      refine ⟨(file.rdropWhile (· ≠ '.')).dropLast, file.rtakeWhile (· ≠ '.'), ?_, ?_⟩
      · have hsplit : file.rdropWhile (· ≠ '.') ++ file.rtakeWhile (· ≠ '.') = file :=
          List.rdropWhile_append_rtakeWhile
        rw [← List.dropLast_append_getLast hne, hlast, List.append_assoc] at hsplit
        exact hsplit.symm
      · dsimp only
        rw [if_neg hbefore]
        exact ⟨rfl, rfl⟩
  · simp [hdot]

-- The extension that is put behind the stem is the one that was there.
theorem stem_same_iff {file stem : Str} (hdots : file ≠ ['.', '.']) (hstem : stemOf file = some stem)
    (ext : Str) :
    (if ext = [] then stem else stem ++ '.' :: ext) = file ↔
      extensionOf file = if ext = [] then none else some ext := by
  rcases split_cases hdots with ⟨hself, hnone⟩ | ⟨before, after, hfile, hbefore, hafter⟩
  · obtain rfl : file = stem := Option.some.inj (hself.symm.trans hstem)
    by_cases hext : ext = [] <;> simp [hext, hnone]
  · obtain rfl : before = stem := Option.some.inj (hbefore.symm.trans hstem)
    rw [hafter, hfile]
    by_cases hext : ext = []
    · simp [hext]
    · simp [hext, eq_comm]

theorem stem_subset {file stem : Str} (hdots : file ≠ ['.', '.']) (hstem : stemOf file = some stem) :
    stem ⊆ file := by
  rcases split_cases hdots with ⟨hself, _⟩ | ⟨before, after, hfile, hbefore, _⟩
  · obtain rfl : file = stem := Option.some.inj (hself.symm.trans hstem)
    exact List.Subset.refl _
  · obtain rfl : before = stem := Option.some.inj (hbefore.symm.trans hstem)
    rw [hfile]
    exact List.subset_append_left _ _

-- Setting an extension leaves a path as it is in two cases only.
theorem setExtension_same_iff {path changed : PathBuf} {ext : Str}
    (h : path.setExtension ext = some changed) :
    changed.components = path.components ↔
      path.fileName = none ∨ path.extension = if ext = [] then none else some ext := by
  unfold setExtension at h
  split at h
  · contradiction
  · next hslash =>
    unfold fileStem at h
    cases hfile : path.fileName with
    | none =>
        simp only [hfile, Option.bind_none, Option.some.injEq] at h
        simp [h]
    | some file =>
        obtain ⟨front, hfront, hnamed, hdots⟩ := exists_front hfile
        have hsome : ∃ stem, stemOf file = some stem := by
          rcases split_cases hdots with ⟨hself, _⟩ | ⟨before, _, _, hbefore, _⟩
          · exact ⟨file, hself⟩
          · exact ⟨before, hbefore⟩
        obtain ⟨stem, hstem⟩ := hsome
        simp only [hfile, Option.bind_some, hstem, Option.some.injEq] at h
        have hfile_slash : '/' ∉ file := by
          have hmem : file ∈ path.text.splitOn '/' := mem_trimRight (by simp [hfront])
          exact not_mem_splitOn hmem
        have hstem_slash : '/' ∉ stem := fun hmem => hfile_slash (stem_subset hdots hstem hmem)
        have hnew : '/' ∉ if ext = [] then stem else stem ++ '.' :: ext := by
          split <;> simp [hstem_slash, hslash]
        rw [← h, ← components_trimRight hfile, withExtension, hfront, List.dropLast_concat,
          components_segment_iff front hfile_slash hnew hnamed, stem_same_iff hdots hstem]
        simp [extension, hfile]

end PathBuf

namespace Representation

open Navigation (Node)
open PathBuf Transition

theorem built_joined {node : Node} (h : Built node) : Joined node := by
  cases h with
  | file root rel => rfl
  | folder root rel => rfl

theorem joined_child {folder : Path .folder} {node : Node} (h : Joined (.folder folder)) (name : Str)
    (hroot : node.rootPath = folder.rootPath) (hrel : node.relPath = folder.relPath.join ⟨name⟩)
    (hfull : node.fullPath = folder.fullPath.join ⟨name⟩) : Joined node := by
  have hfolder : folder.fullPath.components =
      folder.rootPath.components.join folder.relPath.components := by
    rw [← components_join]
    exact congrArg Key.components h
  refine Key.ext ?_
  change node.fullPath.components = (node.rootPath.join node.relPath).components
  rw [hfull, hroot, hrel, components_join, components_join, components_join, hfolder,
    Components.join_assoc]

-- A walk joins the two parts anew or goes on with both of them.
theorem walk_joined {before after : Node} {move : Navigation.Move} (h : Joined before)
    (hstep : Navigation.Step before move after) : Joined after := by
  cases hstep with
  | parentFolder path folder hparent =>
      unfold Path.intoParentFolder at hparent
      split at hparent
      · contradiction
      · split at hparent
        · contradiction
        · obtain rfl := Except.ok.inj hparent
          rfl
  | childFile path name file hchild =>
      obtain rfl := Except.ok.inj hchild
      exact joined_child h name rfl rfl rfl
  | childFolder path name folder hchild =>
      obtain rfl := Except.ok.inj hchild
      exact joined_child h name rfl rfl rfl

theorem step_joined {before after : Node} {move : Move} (h : Joined before)
    (hstep : Step before move after) : Joined after ↔ move.Keeps before := by
  cases hstep with
  | walk hwalk => exact iff_of_true (walk_joined h hwalk) trivial
  | setExtension path ext changed hset =>
      obtain ⟨fullPath, hfull, rfl⟩ := Option.map_eq_some_iff.mp hset
      have hsame := setExtension_same_iff hfull
      have hpath : path.fullPath.components = (path.rootPath.join path.relPath).components :=
        congrArg Key.components h
      constructor
      · intro hjoined
        have hchanged : fullPath.components = (path.rootPath.join path.relPath).components :=
          congrArg Key.components hjoined
        exact hsame.mp (hchanged.trans hpath.symm)
      · intro hkeeps
        exact Key.ext ((hsame.mpr hkeeps).trans hpath)

theorem run_joined {start finish : Node} {trace : List Move} (hstart : Joined start)
    (run : Run (fun before move after => Step before move after ∧ move.Keeps before) start trace
      finish) : Joined finish :=
  run.invariant Joined hstart fun _ _ _ h hstep => (step_joined h hstep.1).mpr hstep.2

-- The full path is the root joined with the relative path all along exactly when no
-- extension is set that the name did not have. Paths that were made so are told apart
-- by their two parts.
theorem joined_iff (start : Node) (hstart : Built start) (trace : List Move) (finish : Node) :
    Joined start ∧
      (Run (fun before move after => Step before move after ∧ Joined after) start trace finish ↔
        Run (fun before move after => Step before move after ∧ move.Keeps before) start trace
          finish) ∧
      (Run (fun before move after => Step before move after ∧ move.Keeps before) start trace finish →
        ∀ origin other, Built origin → ∀ moves,
          Run (fun before move after => Step before move after ∧ move.Keeps before) origin moves
            other →
          finish.rootPath.key = other.rootPath.key → finish.relPath.key = other.relPath.key →
          finish.fullPath.key = other.fullPath.key) := by
  have hbuilt := built_joined hstart
  refine ⟨hbuilt, ?_, ?_⟩
  · refine Run.restrict_iff Joined hbuilt fun before move after h hstep => ?_
    exact ⟨step_joined h hstep, id⟩
  · intro hrun origin other horigin moves hother hroot hrel
    have hfinish := run_joined hbuilt hrun
    have hfull := run_joined (built_joined horigin) hother
    refine hfinish.trans (Eq.trans (Key.ext ?_) hfull.symm)
    change (finish.rootPath.join finish.relPath).components =
      (other.rootPath.join other.relPath).components
    have hroots : finish.rootPath.components = other.rootPath.components :=
      congrArg Key.components hroot
    have hrels : finish.relPath.components = other.relPath.components :=
      congrArg Key.components hrel
    rw [components_join, components_join, hroots, hrels]

def cad : Path .file :=
  Path.build "proj".toList "src/main.cad".toList

-- The extension of `main.cad` is `cad`.
theorem joined_iff_same :
    Run (fun before move after => Step before move after ∧ Joined after) (.file cad)
      [.setExtension "cad".toList] (.file cad) := by
  have hset : cad.setExtension "cad".toList = some cad := by decide +kernel
  refine (joined_iff (.file cad) (.file _ _) _ _).2.1.mpr (.snoc .nil ⟨.setExtension _ _ _ hset, ?_⟩)
  exact .inr (by decide +kernel)

def stl : Path .file :=
  ⟨⟨"src/main.cad".toList⟩, ⟨"proj".toList⟩, ⟨"proj/src/main.stl".toList⟩⟩

-- `set_extension` leaves the relative path behind, and two paths of the same two parts
-- are no longer equal.
theorem joined_left_behind :
    Run Step (.file cad) [.setExtension "stl".toList] (.file stl) ∧ ¬Joined (.file stl) ∧
      stl.rootPath = cad.rootPath ∧ stl.relPath = cad.relPath ∧ stl.key ≠ cad.key := by
  have hset : cad.setExtension "stl".toList = some stl := by decide +kernel
  refine ⟨.snoc .nil (.setExtension _ _ _ hset), ?_, rfl, rfl, ?_⟩
  · intro h
    have hcomponents := congrArg Key.components h
    revert hcomponents
    decide +kernel
  · intro h
    have hcomponents := congrArg Key.components h
    revert hcomponents
    decide +kernel

end Representation

end Saps.Files
