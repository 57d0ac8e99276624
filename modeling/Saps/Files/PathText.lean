import Saps.Files.Paths
import Mathlib.Data.List.DropRight

-- What `Path::strip_prefix` and `Path::parent` leave of the text of a path.
namespace Saps.Files.PathBuf

-- What stands between two slashes and is no component.
def skipped (segment : Str) : Bool :=
  segment = [] ∨ segment = ['.']

-- The segments behind so many names.
def dropNames : Nat → List Str → List Str
  | 0, segments => segments
  | _ + 1, [] => []
  | count + 1, segment :: segments =>
    if skipped segment then dropNames (count + 1) segments else dropNames count segments

-- `Components::as_path` cuts off what is skipped at the end.
def trimRight (segments : List Str) : List Str :=
  segments.rdropWhile skipped

def ofSegments (segments : List Str) : Str :=
  ['/'].intercalate segments

-- Behind an empty prefix a root or a leading `.` stays, and behind any other
-- one what is skipped is cut off in front as well.
def stripped (path : PathBuf) : Nat → Str
  | 0 =>
    if hasRoot path.text then '/' :: ofSegments (trimRight (path.text.tail.splitOn '/'))
    else if leadingCurDir path.text then
      ofSegments (['.'] :: trimRight ((path.text.splitOn '/').tail))
    else ofSegments (trimRight (path.text.splitOn '/'))
  | count + 1 =>
    let names := if hasRoot path.text ∨ leadingCurDir path.text then count else count + 1
    ofSegments (trimRight ((dropNames names (path.text.splitOn '/')).dropWhile skipped))

def stripPrefix (path base : PathBuf) : Option PathBuf :=
  if path.components.startsWith base.components then
    some ⟨path.stripped base.components.length⟩
  else none

-- The text without its last component, which is a name or a leading `.`.
def parentText (path : PathBuf) : Str :=
  if hasRoot path.text then
    '/' :: ofSegments (trimRight (trimRight (path.text.tail.splitOn '/')).dropLast)
  else if leadingCurDir path.text then
    match trimRight (path.text.splitOn '/').tail with
    | [] => []
    | segments => ofSegments (['.'] :: trimRight segments.dropLast)
  else ofSegments (trimRight (trimRight (path.text.splitOn '/')).dropLast)

-- `Path::parent`.
def parent (path : PathBuf) : Option PathBuf :=
  path.components.parent.map fun _ => ⟨path.parentText⟩

def segmentNames (segments : List Str) : Components :=
  (segments.filter fun name => name ≠ [] ∧ name ≠ ['.']).map classify

-- The names of a path are told from its components.
theorem names_eq_filter (path : PathBuf) :
    names path.text = path.components.filter fun component =>
      component ≠ .rootDir ∧ component ≠ .curDir := by
  have hall : (names path.text).filter (fun component =>
      component ≠ .rootDir ∧ component ≠ .curDir) = names path.text := by
    refine List.filter_eq_self.mpr fun component hmem => ?_
    obtain ⟨name, _, rfl⟩ := List.mem_map.mp hmem
    unfold classify
    split <;> simp
  unfold components
  split
  · rw [List.filter_cons_of_neg (by simp)]
    exact hall.symm
  · split
    · rw [List.filter_cons_of_neg (by simp)]
      exact hall.symm
    · exact hall.symm

theorem classify_injective {left right : Str} (h : classify left = classify right) :
    left = right := by
  unfold classify at h
  split at h
  · next hleft =>
    split at h
    · next hright => rw [hleft, hright]
    · contradiction
  · split at h
    · contradiction
    · exact Component.normal.inj h

theorem segmentNames_cons (segment : Str) (segments : List Str) :
    segmentNames (segment :: segments) =
      if skipped segment then segmentNames segments
      else classify segment :: segmentNames segments := by
  unfold segmentNames skipped
  by_cases h : segment = [] ∨ segment = ['.']
  · have hnot : ¬(segment ≠ [] ∧ segment ≠ ['.']) := fun hboth => h.elim hboth.1 hboth.2
    rw [if_pos (decide_eq_true h), List.filter_cons_of_neg (by simpa using hnot)]
  · have hboth : segment ≠ [] ∧ segment ≠ ['.'] := not_or.mp h
    rw [if_neg (by simpa using h), List.filter_cons_of_pos (by simpa using hboth), List.map_cons]

theorem segmentNames_append (left right : List Str) :
    segmentNames (left ++ right) = segmentNames left ++ segmentNames right := by
  simp [segmentNames]

theorem segmentNames_skipped {segments : List Str} (h : ∀ segment ∈ segments, skipped segment) :
    segmentNames segments = [] := by
  induction segments with
  | nil => rfl
  | cons segment segments ih =>
      rw [segmentNames_cons, if_pos (h segment List.mem_cons_self)]
      exact ih fun other hother => h other (List.mem_cons_of_mem _ hother)

theorem segmentNames_dropWhile (segments : List Str) :
    segmentNames (segments.dropWhile skipped) = segmentNames segments := by
  induction segments with
  | nil => rfl
  | cons segment segments ih =>
      by_cases h : skipped segment = true
      · rw [List.dropWhile_cons_of_pos h, ih, segmentNames_cons, if_pos h]
      · rw [List.dropWhile_cons_of_neg h]

theorem segmentNames_trimRight (segments : List Str) :
    segmentNames (trimRight segments) = segmentNames segments := by
  induction segments using List.reverseRecOn with
  | nil => rfl
  | append_singleton segments segment ih =>
      unfold trimRight at ih ⊢
      by_cases h : skipped segment = true
      · rw [List.rdropWhile_concat_pos _ _ _ h, ih, segmentNames_append, segmentNames_cons, if_pos h]
        exact (List.append_nil _).symm
      · rw [List.rdropWhile_concat_neg _ _ _ h]

theorem segmentNames_dropNames (count : Nat) (segments : List Str) :
    segmentNames (dropNames count segments) = (segmentNames segments).drop count := by
  induction segments generalizing count with
  | nil => cases count <;> rfl
  | cons segment segments ih =>
      cases count with
      | zero => rfl
      | succ count =>
          rw [dropNames, segmentNames_cons]
          by_cases h : skipped segment = true
          · rw [if_pos h, if_pos h, ih]
          · rw [if_neg h, if_neg h, ih, List.drop_succ_cons]

theorem not_mem_splitOn {text segment : Str} (h : segment ∈ text.splitOn '/') : '/' ∉ segment := by
  induction text generalizing segment with
  | nil =>
      rw [List.splitOn_nil] at h
      rw [List.mem_singleton.mp h]
      exact List.not_mem_nil
  | cons c text ih =>
      obtain ⟨first, rest, hsplit⟩ := List.exists_cons_of_ne_nil (List.splitOn_ne_nil '/' text)
      rw [List.splitOn_cons_eq_if_modifyHead, hsplit] at h
      rw [hsplit] at ih
      by_cases hc : c = '/'
      · rw [if_pos (by simpa using hc)] at h
        rcases List.mem_cons.mp h with rfl | hrest
        · exact List.not_mem_nil
        · exact ih hrest
      · rw [if_neg (by simpa using hc)] at h
        rcases List.mem_cons.mp h with rfl | hrest
        · intro hmem
          rcases List.mem_cons.mp hmem with heq | hmem
          · exact hc heq.symm
          · exact ih List.mem_cons_self hmem
        · exact ih (List.mem_cons_of_mem _ hrest)

theorem mem_ofSegments {segments : List Str} {c : Char} (h : c ∈ ofSegments segments) :
    c = '/' ∨ ∃ segment ∈ segments, c ∈ segment := by
  induction segments with
  | nil => cases h
  | cons first segments ih =>
      cases segments with
      | nil =>
          unfold ofSegments at h
          rw [List.intercalate_singleton] at h
          exact .inr ⟨first, List.mem_cons_self, h⟩
      | cons second segments =>
          unfold ofSegments at h ih
          rw [List.intercalate_cons_cons] at h
          rcases List.mem_append.mp h with h | h
          · rcases List.mem_append.mp h with h | h
            · exact .inr ⟨first, List.mem_cons_self, h⟩
            · exact .inl (List.mem_singleton.mp h)
          · exact (ih h).imp_right fun ⟨segment, hsegment, hc⟩ =>
              ⟨segment, List.mem_cons_of_mem _ hsegment, hc⟩

theorem mem_of_mem_splitOn {text segment : Str} {c : Char} (h : segment ∈ text.splitOn '/')
    (hc : c ∈ segment) : c ∈ text := by
  induction text generalizing segment with
  | nil =>
      rw [List.splitOn_nil] at h
      rwa [List.mem_singleton.mp h] at hc
  | cons first text ih =>
      obtain ⟨front, rest, hsplit⟩ := List.exists_cons_of_ne_nil (List.splitOn_ne_nil '/' text)
      rw [List.splitOn_cons_eq_if_modifyHead, hsplit] at h
      rw [hsplit] at ih
      split at h
      · rcases List.mem_cons.mp h with rfl | hrest
        · cases hc
        · exact List.mem_cons_of_mem _ (ih hrest hc)
      · rcases List.mem_cons.mp h with rfl | hrest
        · rcases List.mem_cons.mp hc with rfl | hc
          · exact List.mem_cons_self
          · exact List.mem_cons_of_mem _ (ih List.mem_cons_self hc)
        · exact List.mem_cons_of_mem _ (ih (List.mem_cons_of_mem _ hrest) hc)

theorem names_ofSegments {segments : List Str} (h : ∀ segment ∈ segments, '/' ∉ segment) :
    names (ofSegments segments) = segmentNames segments := by
  cases segments with
  | nil => rfl
  | cons segment segments =>
      unfold names ofSegments segmentNames
      rw [List.splitOn_intercalate '/' h (List.cons_ne_nil _ _)]

theorem mem_trimRight {segments : List Str} {segment : Str} (h : segment ∈ trimRight segments) :
    segment ∈ segments :=
  (List.rdropWhile_prefix _ _).subset h

theorem mem_dropNames {count : Nat} {segments : List Str} {segment : Str}
    (h : segment ∈ dropNames count segments) : segment ∈ segments := by
  induction segments generalizing count with
  | nil => cases count <;> exact h
  | cons first segments ih =>
      cases count with
      | zero => exact h
      | succ count =>
          rw [dropNames] at h
          split at h
          · exact List.mem_cons_of_mem _ (ih h)
          · exact List.mem_cons_of_mem _ (ih h)

theorem hasRoot_splitOn {text : Str} (h : hasRoot text) : (text.splitOn '/').head? = some [] := by
  obtain ⟨tail, rfl⟩ := List.head?_eq_some_iff.mp (of_decide_eq_true h)
  rw [List.splitOn_cons_eq_if_modifyHead, if_pos (by decide)]
  rfl

-- Segments that begin with a name spell just their names.
theorem components_ofSegments {segments : List Str} (h : ∀ segment ∈ segments, '/' ∉ segment)
    (hhead : ∀ segment, segments.head? = some segment → ¬skipped segment) :
    components ⟨ofSegments segments⟩ = segmentNames segments := by
  cases segments with
  | nil => rfl
  | cons first segments =>
      have hsplit : (ofSegments (first :: segments)).splitOn '/' = first :: segments :=
        List.splitOn_intercalate '/' h (List.cons_ne_nil _ _)
      have hfirst := hhead first rfl
      have hroot : ¬hasRoot (ofSegments (first :: segments)) := by
        intro hroot
        have hnil := hasRoot_splitOn hroot
        rw [hsplit] at hnil
        exact hfirst (by rw [Option.some.inj hnil]; rfl)
      have hdot : ¬leadingCurDir (ofSegments (first :: segments)) := by
        intro hdot
        have hcur := of_decide_eq_true hdot
        rw [hsplit] at hcur
        exact hfirst (by rw [Option.some.inj hcur]; rfl)
      unfold components
      rw [if_neg hroot, if_neg hdot]
      exact names_ofSegments h

theorem components_dot {segments : List Str} (h : ∀ segment ∈ segments, '/' ∉ segment) :
    components ⟨ofSegments (['.'] :: segments)⟩ = .curDir :: segmentNames segments := by
  have hmem (segment : Str) (hsegment : segment ∈ ['.'] :: segments) : '/' ∉ segment := by
    rcases List.mem_cons.mp hsegment with rfl | hsegment
    · decide
    · exact h segment hsegment
  have hsplit : (ofSegments (['.'] :: segments)).splitOn '/' = ['.'] :: segments :=
    List.splitOn_intercalate '/' hmem (List.cons_ne_nil _ _)
  have hroot : ¬hasRoot (ofSegments (['.'] :: segments)) := by
    intro hroot
    have hnil := hasRoot_splitOn hroot
    rw [hsplit] at hnil
    exact List.cons_ne_nil _ _ (Option.some.inj hnil)
  have hdot : leadingCurDir (ofSegments (['.'] :: segments)) :=
    decide_eq_true (by rw [hsplit]; rfl)
  unfold components
  rw [if_neg hroot, if_pos hdot, names_ofSegments hmem, segmentNames_cons, if_pos (by decide)]

theorem head_trimRight {segments : List Str} {segment : Str}
    (h : (trimRight segments).head? = some segment) : segments.head? = some segment := by
  obtain ⟨tail, htail⟩ := List.head?_eq_some_iff.mp h
  obtain ⟨back, hback⟩ := List.rdropWhile_prefix skipped segments
  rw [← hback, List.head?_append]
  unfold trimRight at h
  rw [h]
  rfl

theorem head_dropWhile {segments : List Str} {segment : Str}
    (h : (segments.dropWhile skipped).head? = some segment) : ¬skipped segment := by
  have hnot := List.head?_dropWhile_not skipped segments
  rw [h] at hnot
  simpa using hnot

theorem splitOn_head {text : Str} (h : (text.splitOn '/').head? = some []) (hroot : ¬hasRoot text) :
    text = [] := by
  cases text with
  | nil => rfl
  | cons c text =>
      have hc : c ≠ '/' := by
        rintro rfl
        exact hroot rfl
      obtain ⟨first, rest, hsplit⟩ := List.exists_cons_of_ne_nil (List.splitOn_ne_nil '/' text)
      rw [List.splitOn_cons_eq_if_modifyHead, if_neg (by simpa using hc), hsplit] at h
      cases h

-- A text with no root and no leading `.` begins with a name, unless it is empty.
theorem text_of_head {text segment : Str} (h : (text.splitOn '/').head? = some segment)
    (hroot : ¬hasRoot text) (hdot : ¬leadingCurDir text) (hskipped : skipped segment) :
    text = [] := by
  rcases (of_decide_eq_true hskipped : segment = [] ∨ segment = ['.']) with rfl | rfl
  · exact splitOn_head h hroot
  · exact absurd (decide_eq_true h) hdot

-- What is left of the text spells what is left of the components.
theorem components_stripped (path : PathBuf) (count : Nat) :
    components ⟨path.stripped count⟩ = path.components.drop count := by
  have hslash (segment : Str) (h : segment ∈ path.text.splitOn '/') : '/' ∉ segment :=
    not_mem_splitOn h
  cases count with
  | zero =>
      rw [List.drop_zero]
      unfold stripped components
      by_cases hroot : hasRoot path.text
      · obtain ⟨tail, htail⟩ := List.head?_eq_some_iff.mp (of_decide_eq_true hroot)
        have hnames : names path.text = names tail := by
          rw [htail]
          exact names_append [] tail
        have hback : names ('/' :: ofSegments (trimRight (tail.splitOn '/'))) = names tail := by
          refine (names_append [] _).trans ?_
          rw [names_ofSegments fun segment h => not_mem_splitOn (mem_trimRight h),
            segmentNames_trimRight]
          rfl
        rw [if_pos hroot, if_pos hroot, hnames, htail, List.tail_cons, hback]
        rfl
      · rw [if_neg hroot, if_neg hroot]
        by_cases hdot : leadingCurDir path.text
        · rw [if_pos hdot, if_pos hdot]
          obtain ⟨back, hback⟩ := List.head?_eq_some_iff.mp (of_decide_eq_true hdot)
          rw [hback, List.tail_cons]
          have hnames : names path.text = segmentNames back := by
            change segmentNames (path.text.splitOn '/') = _
            rw [hback, segmentNames_cons, if_pos (by decide)]
          have hmem (segment : Str) (h : segment ∈ trimRight back) : '/' ∉ segment :=
            hslash segment (hback ▸ List.mem_cons_of_mem _ (mem_trimRight h))
          rw [hnames, ← segmentNames_trimRight back]
          exact components_dot hmem
        · rw [if_neg hdot, if_neg hdot]
          refine (components_ofSegments ?_ ?_).trans (segmentNames_trimRight _)
          · exact fun segment h => hslash segment (mem_trimRight h)
          · intro segment h hskipped
            have hempty := text_of_head (head_trimRight h) hroot hdot hskipped
            rw [hempty] at h
            contradiction
  | succ count =>
      have hdrop (names : Nat) : components ⟨ofSegments (trimRight
          ((dropNames names (path.text.splitOn '/')).dropWhile skipped))⟩ =
            (PathBuf.names path.text).drop names := by
        refine (components_ofSegments ?_ ?_).trans ?_
        · intro segment h
          exact hslash segment (mem_dropNames ((List.dropWhile_suffix _).subset (mem_trimRight h)))
        · exact fun segment h => head_dropWhile (head_trimRight h)
        · rw [segmentNames_trimRight, segmentNames_dropWhile, segmentNames_dropNames]
          rfl
      unfold stripped
      rw [hdrop]
      unfold components
      by_cases hroot : hasRoot path.text
      · rw [if_pos (.inl hroot), if_pos hroot, List.drop_succ_cons]
      · by_cases hdot : leadingCurDir path.text
        · rw [if_pos (.inr hdot), if_neg hroot, if_pos hdot, List.drop_succ_cons]
        · rw [if_neg (fun h => h.elim hroot hdot), if_neg hroot, if_neg hdot]

theorem head_dropLast {segments : List Str} {segment : Str}
    (h : segments.dropLast.head? = some segment) : segments.head? = some segment := by
  cases segments with
  | nil => exact h
  | cons first rest =>
      cases rest with
      | nil => cases h
      | cons second rest => exact h

theorem trimRight_snoc {segments front : List Str} {last : Str}
    (h : trimRight segments = front ++ [last]) : ¬skipped last := by
  have hne : segments.rdropWhile skipped ≠ [] := by
    change trimRight segments ≠ []
    rw [h]
    exact List.append_ne_nil_of_right_ne_nil _ (List.cons_ne_nil _ _)
  have hlast := List.rdropWhile_last_not skipped segments hne
  have heq : (segments.rdropWhile skipped).getLast hne = last := by
    refine Option.some.inj ?_
    rw [← List.getLast?_eq_some_getLast hne]
    change (trimRight segments).getLast? = _
    rw [h, List.getLast?_concat]
  rwa [heq] at hlast

-- Cutting the last segment off cuts the last name off.
theorem segmentNames_parent (segments : List Str) :
    segmentNames (trimRight (trimRight segments).dropLast) = (segmentNames segments).dropLast := by
  rw [segmentNames_trimRight, ← segmentNames_trimRight segments]
  rcases List.eq_nil_or_concat' (trimRight segments) with hnil | ⟨front, last, hsnoc⟩
  · rw [hnil]
    rfl
  · rw [hsnoc, List.dropLast_concat, segmentNames_append, segmentNames_cons,
      if_neg (trimRight_snoc hsnoc)]
    exact List.dropLast_concat.symm

theorem segmentNames_ne_nil {segments : List Str} (h : trimRight segments ≠ []) :
    segmentNames segments ≠ [] := by
  rw [← segmentNames_trimRight]
  rcases List.eq_nil_or_concat' (trimRight segments) with hnil | ⟨front, last, hsnoc⟩
  · exact absurd hnil h
  · rw [hsnoc, segmentNames_append, segmentNames_cons, if_neg (trimRight_snoc hsnoc)]
    exact List.append_ne_nil_of_right_ne_nil _ (List.cons_ne_nil _ _)

theorem Components.parent_eq_some {path parent : Components} (h : path.parent = some parent) :
    parent = path.dropLast ∧ path.getLast? ≠ some .rootDir := by
  unfold Components.parent at h
  split at h
  · contradiction
  · contradiction
  · next last hnot hlast =>
    refine ⟨(Option.some.inj h).symm, fun heq => hnot ?_⟩
    rw [hlast] at heq
    exact Option.some.inj heq

-- The parent of a text spells the parent of its components.
theorem components_parent {path parent : PathBuf} (h : path.parent = some parent) :
    parent.components = path.components.dropLast := by
  have hslash (segment : Str) (h : segment ∈ path.text.splitOn '/') : '/' ∉ segment :=
    not_mem_splitOn h
  unfold PathBuf.parent at h
  obtain ⟨front, hfront, rfl⟩ := Option.map_eq_some_iff.mp h
  obtain ⟨_, hlast⟩ := Components.parent_eq_some hfront
  by_cases hroot : hasRoot path.text
  · obtain ⟨tail, htail⟩ := List.head?_eq_some_iff.mp (of_decide_eq_true hroot)
    have hnames : names path.text = segmentNames (tail.splitOn '/') := by
      rw [htail]
      exact names_append [] tail
    have hcomponents : path.components = .rootDir :: segmentNames (tail.splitOn '/') := by
      unfold components
      rw [if_pos hroot, hnames]
    have hne : segmentNames (tail.splitOn '/') ≠ [] := by
      intro hnil
      rw [hcomponents, hnil] at hlast
      exact hlast rfl
    have hback : names ('/' :: ofSegments (trimRight (trimRight (tail.splitOn '/')).dropLast)) =
        (segmentNames (tail.splitOn '/')).dropLast := by
      refine (names_append [] _).trans ?_
      rw [names_ofSegments fun segment h =>
        not_mem_splitOn (mem_trimRight (List.dropLast_subset _ (mem_trimRight h))),
        segmentNames_parent]
      rfl
    unfold parentText
    rw [if_pos hroot, hcomponents, List.dropLast_cons_of_ne_nil hne, htail, List.tail_cons, ← hback]
    rfl
  · unfold parentText
    rw [if_neg hroot]
    by_cases hdot : leadingCurDir path.text
    · obtain ⟨back, hback⟩ := List.head?_eq_some_iff.mp (of_decide_eq_true hdot)
      have hcomponents : path.components = .curDir :: segmentNames back := by
        unfold components
        rw [if_neg hroot, if_pos hdot]
        change _ :: segmentNames (path.text.splitOn '/') = _
        rw [hback, segmentNames_cons, if_pos (by decide)]
      rw [if_pos hdot, hcomponents, hback, List.tail_cons]
      split
      · next hnil =>
        rw [← segmentNames_trimRight, hnil]
        rfl
      · next hcons =>
        have hne : trimRight back ≠ [] := fun hnil => hcons hnil
        rw [List.dropLast_cons_of_ne_nil (segmentNames_ne_nil hne), ← segmentNames_parent]
        refine components_dot fun segment h => hslash segment ?_
        rw [hback]
        exact List.mem_cons_of_mem _
          (mem_trimRight (List.dropLast_subset _ (mem_trimRight h)))
    · have hcomponents : path.components = segmentNames (path.text.splitOn '/') := by
        unfold components
        rw [if_neg hroot, if_neg hdot]
        rfl
      rw [if_neg hdot, hcomponents, ← segmentNames_parent]
      refine components_ofSegments ?_ ?_
      · intro segment h
        exact hslash segment (mem_trimRight (List.dropLast_subset _ (mem_trimRight h)))
      · intro segment h hskipped
        have hempty := text_of_head (head_trimRight (head_dropLast (head_trimRight h)))
          hroot hdot hskipped
        rw [hempty] at h
        contradiction

-- Stripping a prefix off the text and off the components agree.
theorem key_stripPrefix {path base rest : PathBuf} (h : path.stripPrefix base = some rest) :
    path.key.stripPrefix base.key = some rest.key := by
  unfold stripPrefix at h
  split at h
  · next hprefix =>
    obtain rfl := Option.some.inj h
    have hkey : path.key.startsWith base.key = true := hprefix
    unfold Key.stripPrefix
    rw [if_pos hkey]
    refine congrArg some (Key.ext ?_)
    exact (components_stripped path _).symm
  · contradiction

theorem splitOn_ofSegments {segments : List Str} (h : ∀ segment ∈ segments, '/' ∉ segment)
    (hne : segments ≠ []) : (ofSegments segments).splitOn '/' = segments :=
  List.splitOn_intercalate '/' h hne

theorem last_trimRight {segments : List Str} {segment : Str}
    (h : (trimRight segments).getLast? = some segment) : ¬skipped segment := by
  have hne : trimRight segments ≠ [] := by
    intro hnil
    rw [hnil] at h
    contradiction
  rw [List.getLast?_eq_some_getLast hne] at h
  have hlast := List.rdropWhile_last_not skipped segments hne
  exact Option.some.inj h ▸ hlast

-- What is stripped ends in a name, unless there is no name left.
theorem stripped_last (path : PathBuf) (count : Nat) {segment : Str}
    (h : ((path.stripped count).splitOn '/').getLast? = some segment) (hskipped : skipped segment) :
    path.stripped count = [] ∨ path.stripped count = ['/'] ∨ path.stripped count = ['.'] := by
  have hslash {tail : Str} {other : Str} (hother : other ∈ trimRight (tail.splitOn '/')) :
      '/' ∉ other := not_mem_splitOn (mem_trimRight hother)
  have htrimmed {segments : List Str} (hsegments : ∀ other ∈ trimRight segments, '/' ∉ other)
      (h : ((ofSegments (trimRight segments)).splitOn '/').getLast? = some segment) :
      trimRight segments = [] := by
    by_contra hne
    rw [splitOn_ofSegments hsegments hne] at h
    exact last_trimRight h hskipped
  cases count with
  | zero =>
      unfold stripped at h ⊢
      by_cases hroot : hasRoot path.text
      · rw [if_pos hroot] at h ⊢
        have hsplit (tail : Str) : ('/' :: tail).splitOn '/' = [[]] ++ tail.splitOn '/' :=
          List.splitOn_append_cons_self [] tail
        rw [hsplit, List.getLast?_append_of_ne_nil _ (List.splitOn_ne_nil _ _)] at h
        rw [htrimmed (fun other hother => hslash hother) h]
        exact .inr (.inl rfl)
      · rw [if_neg hroot] at h ⊢
        by_cases hdot : leadingCurDir path.text
        · rw [if_pos hdot] at h ⊢
          by_cases hne : trimRight (path.text.splitOn '/').tail = []
          · rw [hne]
            exact .inr (.inr rfl)
          · have hmem : ∀ other ∈ ['.'] :: trimRight (path.text.splitOn '/').tail, '/' ∉ other := by
              intro other hother
              rcases List.mem_cons.mp hother with rfl | hother
              · decide
              · exact not_mem_splitOn (List.mem_of_mem_tail (mem_trimRight hother))
            rw [splitOn_ofSegments hmem (List.cons_ne_nil _ _),
              List.getLast?_cons_of_ne_nil hne] at h
            exact absurd hskipped (last_trimRight h)
        · rw [if_neg hdot] at h ⊢
          rw [htrimmed (fun other hother => hslash hother) h]
          exact .inl rfl
  | succ count =>
      unfold stripped at h ⊢
      dsimp only at h ⊢
      rw [htrimmed ?_ h]
      · exact .inl rfl
      · intro other hother
        exact not_mem_splitOn
          (mem_dropNames ((List.dropWhile_suffix _).subset (mem_trimRight hother)))

end Saps.Files.PathBuf
