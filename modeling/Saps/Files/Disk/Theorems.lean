import Saps.Files.Disk

namespace Saps.Files

namespace PathBuf

-- The segments that name something.
def named (segments : List Str) : List Str :=
  segments.filter fun segment => ¬skipped segment

def nameSegments (path : PathBuf) : List Str :=
  named (path.text.splitOn '/')

-- A relative path of names alone.
def Relative (path : PathBuf) : Prop :=
  ∀ component ∈ path.components, ∃ name, component = .normal name

-- A path that a file can be opened by: it ends in a name.
def Usable (path : PathBuf) : Prop :=
  Disk.nul ∉ path.text ∧ ∀ segment, (path.text.splitOn '/').getLast? = some segment →
    ¬skipped segment

theorem names_eq (path : PathBuf) : names path.text = path.nameSegments.map classify := by
  unfold names nameSegments named skipped
  congr 1
  refine List.filter_congr fun segment _ => ?_
  simp

theorem Relative.not_hasRoot {path : PathBuf} (h : path.Relative) : ¬hasRoot path.text := by
  intro hroot
  have hmem : Component.rootDir ∈ path.components := by
    unfold components
    rw [if_pos hroot]
    exact List.mem_cons_self
  obtain ⟨name, hname⟩ := h _ hmem
  cases hname

theorem Relative.not_leadingCurDir {path : PathBuf} (h : path.Relative) :
    ¬leadingCurDir path.text := by
  intro hdot
  have hmem : Component.curDir ∈ path.components := by
    unfold components
    rw [if_neg h.not_hasRoot, if_pos hdot]
    exact List.mem_cons_self
  obtain ⟨name, hname⟩ := h _ hmem
  cases hname

theorem Relative.components_names {path : PathBuf} (h : path.Relative) :
    path.components = names path.text := by
  unfold components
  rw [if_neg h.not_hasRoot, if_neg h.not_leadingCurDir]

theorem Relative.not_parent {path : PathBuf} (h : path.Relative) {segment : Str}
    (hsegment : segment ∈ path.nameSegments) : segment ≠ ['.', '.'] := by
  rintro rfl
  have hmem : Component.parentDir ∈ path.components := by
    rw [h.components_names, names_eq]
    exact List.mem_map.mpr ⟨_, hsegment, rfl⟩
  obtain ⟨name, hname⟩ := h _ hmem
  cases hname

theorem Relative.components_eq {path : PathBuf} (h : path.Relative) :
    path.components = path.nameSegments.map .normal := by
  rw [h.components_names, names_eq]
  refine List.map_congr_left fun segment hsegment => ?_
  exact if_neg (h.not_parent hsegment)

theorem Relative.names_ne_nil {path : PathBuf} (h : path.Relative) (hne : path.text ≠ []) :
    path.nameSegments ≠ [] := by
  intro hnil
  refine hne (components_eq_nil path ?_)
  rw [h.components_eq, hnil]
  rfl

theorem Usable.text_ne_nil {path : PathBuf} (h : path.Usable) : path.text ≠ [] := by
  intro hnil
  exact h.2 [] (by rw [hnil]; rfl) rfl

theorem Usable.exists_last {path : PathBuf} (h : path.Usable) :
    ∃ front last, path.text.splitOn '/' = front ++ [last] ∧ ¬skipped last := by
  have hne := List.splitOn_ne_nil '/' path.text
  refine ⟨(path.text.splitOn '/').dropLast, (path.text.splitOn '/').getLast hne,
    (List.dropLast_append_getLast hne).symm, h.2 _ (List.getLast?_eq_some_getLast hne)⟩

end PathBuf

namespace Disk

open PathBuf

theorem step_ok {disk : Disk} {here location : Location} {segment : Str} :
    disk.step here segment = .ok location ↔
      disk.tree.kind here = some .folder ∧ location = advance here segment := by
  unfold step
  cases hkind : disk.tree.kind here with
  | none => exact iff_of_false nofun nofun
  | some entry =>
      cases entry with
      | file contents => exact iff_of_false nofun nofun
      | folder =>
          constructor
          · intro h
            exact ⟨rfl, (Except.ok.inj h).symm⟩
          · rintro ⟨_, rfl⟩
            rfl

theorem foldlM_snoc_ok {disk : Disk} {here location : Location} {front : List Str} {last : Str} :
    (front ++ [last]).foldlM disk.step here = .ok location ↔
      ∃ middle, front.foldlM disk.step here = .ok middle ∧
        disk.tree.kind middle = some .folder ∧ location = advance middle last := by
  rw [List.foldlM_append]
  cases hfront : front.foldlM disk.step here with
  | error error => exact iff_of_false nofun (fun ⟨_, h, _⟩ => nomatch h)
  | ok middle =>
      have hbind : (Except.ok middle >>= fun middle => [last].foldlM disk.step middle) =
          disk.step middle last := by
        change (disk.step middle last >>= fun next => Except.ok next) = _
        cases disk.step middle last <;> rfl
      rw [hbind, step_ok]
      constructor
      · rintro ⟨hkind, rfl⟩
        exact ⟨middle, rfl, hkind, rfl⟩
      · rintro ⟨other, hother, hkind, rfl⟩
        cases hother
        exact ⟨hkind, rfl⟩

-- A path leads where its text says, if it leads anywhere.
theorem foldlM_step_ok {disk : Disk} {here location : Location} {segments : List Str}
    (h : segments.foldlM disk.step here = .ok location) : location = segments.foldl advance here := by
  induction segments using List.reverseRecOn generalizing location with
  | nil =>
      cases h
      rfl
  | append_singleton segments segment ih =>
      obtain ⟨middle, hfront, _, rfl⟩ := foldlM_snoc_ok.mp h
      rw [List.foldl_append, ← ih hfront]
      rfl

theorem named_snoc (segments : List Str) (segment : Str) :
    named (segments ++ [segment]) =
      named segments ++ if skipped segment then [] else [segment] := by
  unfold named
  rw [List.filter_append]
  by_cases h : skipped segment = true
  · rw [if_pos h, List.filter_cons_of_neg (by simpa using h)]
    rfl
  · rw [if_neg h, List.filter_cons_of_pos (by simpa using h)]
    rfl

theorem foldl_advance (here : Location) {segments : List Str}
    (hnames : ∀ segment ∈ named segments, segment ≠ ['.', '.']) :
    segments.foldl advance here = here ++ named segments := by
  induction segments using List.reverseRecOn with
  | nil => exact (List.append_nil here).symm
  | append_singleton segments segment ih =>
      rw [named_snoc] at hnames ⊢
      rw [List.foldl_append, ih fun other h => hnames other (List.mem_append_left _ h)]
      unfold advance
      by_cases h : skipped segment = true
      · simp [h]
      · rw [if_neg h] at hnames ⊢
        have hup := hnames segment (List.mem_append_right _ (List.mem_singleton_self _))
        simp [h, hup]

-- And it leads along its names, if these are all folders.
theorem foldlM_step_of_folder {disk : Disk} (hrooted : disk.tree.Rooted) {here : Location}
    {segments : List Str} (hnames : ∀ segment ∈ named segments, segment ≠ ['.', '.'])
    (hfolder : disk.tree.kind (here ++ named segments) = some .folder) :
    segments.foldlM disk.step here = .ok (here ++ named segments) := by
  induction segments using List.reverseRecOn with
  | nil => exact congrArg Except.ok (List.append_nil here).symm
  | append_singleton segments segment ih =>
      have hall := foldl_advance here hnames
      rw [named_snoc] at hnames hfolder
      have hfront : disk.tree.kind (here ++ named segments) = some .folder := by
        by_cases hnil : (if skipped segment then [] else [segment]) = ([] : List Str)
        · rw [hnil, List.append_nil] at hfolder
          exact hfolder
        · rw [← List.append_assoc] at hfolder
          exact hrooted.folder_of_prefix hnil (by rw [hfolder]; rfl)
      have hother (other : Str) (h : other ∈ named segments) :=
        hnames other (List.mem_append_left _ h)
      refine foldlM_snoc_ok.mpr ⟨_, ih hother hfront, hfront, ?_⟩
      rw [← hall, List.foldl_append, foldl_advance here hother]
      rfl

-- Where a relative path stands.
def located (disk : Disk) (path : PathBuf) : Location :=
  disk.cwd ++ path.nameSegments

-- The folder its name stands in.
def parentOf (disk : Disk) (path : PathBuf) : Location :=
  disk.cwd ++ path.nameSegments.dropLast

theorem walk_ok {disk : Disk} {text : Str} {segments : List Str} {location : Location} :
    disk.walk text segments = .ok location ↔ nul ∉ text ∧ text ≠ [] ∧
      segments.foldlM disk.step (disk.start text) = .ok location := by
  unfold walk
  by_cases hnul : nul ∈ text
  · rw [if_pos hnul]
    exact iff_of_false nofun fun h => h.1 hnul
  · rw [if_neg hnul]
    by_cases hnil : text = []
    · rw [if_pos hnil]
      exact iff_of_false nofun fun h => h.2.1 hnil
    · rw [if_neg hnil]
      exact ⟨fun h => ⟨hnul, hnil, h⟩, fun h => h.2.2⟩

theorem resolve_ok {disk : Disk} {path : PathBuf} {location : Location} :
    disk.resolve path.text = .ok location ↔ nul ∉ path.text ∧ path.text ≠ [] ∧
      (path.text.splitOn '/').foldlM disk.step (disk.start path.text) = .ok location :=
  walk_ok

-- A path that does not end in a name leads to folders only.
theorem resolve_unusable {disk : Disk} {path : PathBuf} {location : Location}
    (h : disk.resolve path.text = .ok location) (husable : ¬path.Usable) :
    disk.tree.kind location = some .folder := by
  obtain ⟨hnul, _, hwalk⟩ := resolve_ok.mp h
  have hne := List.splitOn_ne_nil '/' path.text
  have hlast : skipped ((path.text.splitOn '/').getLast hne) = true := by
    by_contra hnot
    refine husable ⟨hnul, fun segment hsegment => ?_⟩
    rw [List.getLast?_eq_some_getLast hne] at hsegment
    exact Option.some.inj hsegment ▸ hnot
  rw [← List.dropLast_append_getLast hne] at hwalk
  obtain ⟨middle, _, hkind, rfl⟩ := foldlM_snoc_ok.mp hwalk
  unfold advance
  rw [if_pos hlast]
  exact hkind

theorem not_slashed_of_usable {path : PathBuf} (husable : path.Usable) : ¬slashed path :=
  fun hslash => husable.2 [] (of_decide_eq_true hslash) rfl

section Entry

variable {disk : Disk} {path : PathBuf} {location : Location}

-- Where slashes can be walked, they lead nowhere else.
theorem foldlM_rdropWhile {here : Location} {segments : List Str}
    (h : segments.foldlM disk.step here = .ok location) :
    (segments.rdropWhile (· = [])).foldlM disk.step here = .ok location := by
  induction segments using List.reverseRecOn generalizing location with
  | nil => exact h
  | append_singleton segments segment ih =>
      rw [List.rdropWhile_concat]
      split
      · next hblank =>
        obtain ⟨middle, hfront, _, rfl⟩ := foldlM_snoc_ok.mp h
        rw [of_decide_eq_true hblank]
        exact ih hfront
      · exact h

theorem foldl_rdropWhile (here : Location) (segments : List Str) :
    (segments.rdropWhile (· = [])).foldl advance here = segments.foldl advance here := by
  induction segments using List.reverseRecOn with
  | nil => rfl
  | append_singleton segments segment ih =>
      rw [List.rdropWhile_concat]
      split
      · next hblank =>
        rw [ih, of_decide_eq_true hblank, List.foldl_append]
        rfl
      · rfl

theorem entry_of_resolve (h : disk.resolve path.text = .ok location) :
    disk.entry path.text = .ok location := by
  obtain ⟨hnul, hne, hwalk⟩ := resolve_ok.mp h
  exact walk_ok.mpr ⟨hnul, hne, foldlM_rdropWhile hwalk⟩

theorem entry_walk (h : disk.entry path.text = .ok location) :
    location = (path.text.splitOn '/').foldl advance (disk.start path.text) := by
  obtain ⟨_, _, hwalk⟩ := walk_ok.mp h
  rw [foldlM_step_ok hwalk, foldl_rdropWhile]

theorem entry_of_not_slashed (hslash : ¬slashed path) :
    disk.entry path.text = disk.resolve path.text := by
  have hne := List.splitOn_ne_nil '/' path.text
  have hkept : (path.text.splitOn '/').rdropWhile (· = []) = path.text.splitOn '/' := by
    refine List.rdropWhile_eq_self_iff.mpr fun _ hblank => hslash ?_
    unfold slashed
    rw [List.getLast?_eq_some_getLast hne, of_decide_eq_true hblank]
    rfl
  unfold entry resolve
  rw [hkept]

theorem slashed_folder (hslash : slashed path) (h : disk.resolve path.text = .ok location) :
    disk.tree.kind location = some .folder :=
  resolve_unusable h fun husable => not_slashed_of_usable husable hslash

theorem write_of_resolve (h : disk.resolve path.text = .ok location) (data : Str) :
    disk.write path data =
      if disk.tree.kind location = some .folder then (.error .isADirectory, disk)
      else (.ok (), { disk with tree := disk.tree.put location (.file data) }) := by
  unfold write
  rw [entry_of_resolve h]
  dsimp only
  by_cases hslash : slashed path
  · rw [if_pos hslash, if_pos (slashed_folder hslash h)]
  · rw [if_neg hslash]
    rcases disk.tree.kind location with _ | (_ | _)
    · rfl
    · rfl
    · rfl

section Rename

variable {target : PathBuf} {old new : Location}

theorem not_nul_of_entries (hold : disk.entry path.text = .ok old)
    (hnew : disk.entry target.text = .ok new) : ¬(nul ∈ path.text ∨ nul ∈ target.text) :=
  not_or.mpr ⟨(walk_ok.mp hold).1, (walk_ok.mp hnew).1⟩

theorem rename_folder (hold : disk.entry path.text = .ok old)
    (hnew : disk.entry target.text = .ok new) (hnames : movable path ∧ movable target)
    (hkind : disk.tree.kind old = some .folder) :
    disk.rename path target = disk.renameFolder old new := by
  unfold rename
  rw [if_neg (not_nul_of_entries hold hnew), hold, hnew]
  dsimp only
  rw [if_pos hnames, hkind]

theorem renameFile_ok (hfree : disk.tree.kind new ≠ some .folder) (contents : Str) :
    disk.renameFile old new contents =
      (.ok (), { disk with tree := (disk.tree.remove old).put new (.file contents) }) := by
  unfold renameFile
  split
  · next hkind => exact absurd hkind hfree
  · rfl

theorem rename_file (hold : disk.entry path.text = .ok old)
    (hnew : disk.entry target.text = .ok new) (hnames : movable path ∧ movable target)
    (hslash : ¬(slashed path ∨ slashed target)) {contents : Str}
    (hkind : disk.tree.kind old = some (.file contents)) :
    disk.rename path target = disk.renameFile old new contents := by
  unfold rename
  rw [if_neg (not_nul_of_entries hold hnew), hold, hnew]
  dsimp only
  rw [if_pos hnames, hkind]
  dsimp only
  rw [if_neg hslash]

-- What `rename` says yes to is a folder, or a file by two paths with no slash behind.
theorem rename_cases (disk : Disk) (path target : PathBuf) :
    (∃ error, disk.rename path target = (.error error, disk)) ∨
      (movable path ∧ movable target) ∧ ∃ old new,
        disk.entry path.text = .ok old ∧ disk.entry target.text = .ok new ∧
        (disk.tree.kind old = some .folder ∧
            disk.rename path target = disk.renameFolder old new ∨
          ¬(slashed path ∨ slashed target) ∧ disk.tree.kind new ≠ some .folder ∧
            ∃ contents, disk.tree.kind old = some (.file contents) ∧ disk.rename path target =
              (.ok (), { disk with tree := (disk.tree.remove old).put new (.file contents) })) := by
  unfold rename
  split
  · exact .inl ⟨_, rfl⟩
  · split
    · exact .inl ⟨_, rfl⟩
    · exact .inl ⟨_, rfl⟩
    · next old new hold hnew =>
      split
      · next hnames =>
        split
        · exact .inl ⟨_, rfl⟩
        · next hkind => exact .inr ⟨hnames, old, new, hold, hnew, .inl ⟨hkind, rfl⟩⟩
        · next contents hkind =>
          split
          · exact .inl ⟨_, rfl⟩
          · next hslash =>
            by_cases hfree : disk.tree.kind new = some .folder
            · refine .inl ⟨if new.isPrefixOf old then .directoryNotEmpty else .isADirectory, ?_⟩
              unfold renameFile
              rw [hfree]
            · refine .inr ⟨hnames, old, new, hold, hnew, .inr ⟨hslash, hfree, contents, hkind, ?_⟩⟩
              exact renameFile_ok hfree contents
      · exact .inl ⟨_, rfl⟩

end Rename

end Entry

theorem located_usable (disk : Disk) {path : PathBuf} (husable : path.Usable) :
    ∃ last, disk.located path = disk.parentOf path ++ [last] := by
  obtain ⟨front, last, hsplit, hlast⟩ := husable.exists_last
  refine ⟨last, ?_⟩
  unfold located parentOf nameSegments
  rw [hsplit, named_snoc, if_neg hlast, List.dropLast_concat, List.append_assoc]

-- The disk after a file was put where it is writable.
def putFile (disk : Disk) (path : PathBuf) (contents : Str) : Disk :=
  { disk with tree := disk.tree.put (disk.located path) (.file contents) }

@[simp] theorem located_putFile (disk : Disk) (path other : PathBuf) (contents : Str) :
    (disk.putFile path contents).located other = disk.located other :=
  rfl

@[simp] theorem parentOf_putFile (disk : Disk) (path other : PathBuf) (contents : Str) :
    (disk.putFile path contents).parentOf other = disk.parentOf other :=
  rfl

-- A path of names ends in one of them, unless it ends in a dot.
theorem lastSegment_name {path : PathBuf} (hrelative : path.Relative) (htext : path.text ≠ [])
    (hdot : lastSegment path ≠ some ['.']) :
    ∃ name, lastSegment path = some name ∧ name ≠ ['.'] ∧ name ≠ ['.', '.'] := by
  obtain ⟨name, hname⟩ := List.exists_mem_of_ne_nil _ (hrelative.names_ne_nil htext)
  obtain ⟨hsegment, hkept⟩ := List.mem_filter.mp hname
  have hmem : name ∈ (path.text.splitOn '/').filter (· ≠ []) := by
    refine List.mem_filter.mpr ⟨hsegment, decide_eq_true ?_⟩
    rintro rfl
    exact absurd rfl (of_decide_eq_true hkept)
  obtain ⟨last, hlast⟩ : ∃ last, lastSegment path = some last :=
    ⟨_, List.getLast?_eq_some_getLast (List.ne_nil_of_mem hmem)⟩
  have hcur : last ≠ ['.'] := fun heq => hdot (heq ▸ hlast)
  refine ⟨last, hlast, hcur, fun hup => ?_⟩
  obtain ⟨hsplit, hne⟩ := List.mem_filter.mp (List.mem_of_getLast? hlast)
  refine hrelative.not_parent (List.mem_filter.mpr ⟨hsplit, ?_⟩) hup
  rw [hup]
  decide

theorem movable_of_relative {path : PathBuf} (hrelative : path.Relative) (htext : path.text ≠ [])
    (hdot : lastSegment path ≠ some ['.']) : movable path := by
  obtain ⟨name, hlast, hcur, hup⟩ := lastSegment_name hrelative htext hdot
  unfold movable
  rw [hlast]
  split
  · next heq => cases heq
  · next heq => exact absurd (Option.some.inj heq) hcur
  · next heq => exact absurd (Option.some.inj heq) hup
  · rfl

theorem movable_of_usable {path : PathBuf} (hrelative : path.Relative) (husable : path.Usable) :
    movable path := by
  obtain ⟨front, last, hsplit, hlast⟩ := husable.exists_last
  refine movable_of_relative hrelative husable.text_ne_nil fun hdot => hlast ?_
  have hne : last ≠ [] := by
    rintro rfl
    exact hlast rfl
  unfold lastSegment at hdot
  rw [hsplit, List.filter_append, List.filter_cons_of_pos (by simpa using hne), List.filter_nil,
    List.getLast?_concat] at hdot
  rw [Option.some.inj hdot]
  rfl

section Relative

variable {disk : Disk} {path : PathBuf} (hrelative : path.Relative)

include hrelative

theorem start_relative : disk.start path.text = disk.cwd :=
  if_neg hrelative.not_hasRoot

theorem resolve_located {location : Location} (h : disk.resolve path.text = .ok location) :
    location = disk.located path := by
  obtain ⟨_, _, hwalk⟩ := resolve_ok.mp h
  rw [start_relative hrelative] at hwalk
  rw [foldlM_step_ok hwalk]
  exact foldl_advance _ fun _ => hrelative.not_parent

theorem entry_located {location : Location} (h : disk.entry path.text = .ok location) :
    location = disk.located path := by
  rw [entry_walk h, start_relative hrelative]
  exact foldl_advance _ fun _ => hrelative.not_parent

theorem resolve_usable (hrooted : disk.tree.Rooted) (husable : path.Usable) :
    disk.resolve path.text = .ok (disk.located path) ↔
      disk.tree.kind (disk.parentOf path) = some .folder := by
  obtain ⟨front, last, hsplit, hlast⟩ := husable.exists_last
  have hnames : path.nameSegments = named front ++ [last] := by
    unfold nameSegments
    rw [hsplit, named_snoc, if_neg hlast]
  have hfront (segment : Str) (h : segment ∈ named front) : segment ≠ ['.', '.'] :=
    hrelative.not_parent (hnames ▸ List.mem_append_left _ h)
  have hparent : disk.parentOf path = disk.cwd ++ named front := by
    unfold parentOf
    rw [hnames, List.dropLast_concat]
  rw [resolve_ok, start_relative hrelative, hparent, hsplit]
  constructor
  · rintro ⟨_, _, hwalk⟩
    obtain ⟨middle, hmiddle, hkind, _⟩ := foldlM_snoc_ok.mp hwalk
    rw [foldlM_step_ok hmiddle, foldl_advance _ hfront] at hkind
    exact hkind
  · intro hfolder
    refine ⟨husable.1, husable.text_ne_nil, ?_⟩
    · refine foldlM_snoc_ok.mpr ⟨_, foldlM_step_of_folder hrooted hfront hfolder, hfolder, ?_⟩
      have hup : last ≠ ['.', '.'] :=
        hrelative.not_parent (hnames ▸ List.mem_append_right _ (List.mem_singleton_self _))
      unfold located advance
      rw [if_neg hlast, if_neg hup, hnames, List.append_assoc]

-- The file a path finds.
def Holds (disk : Disk) (path : PathBuf) (contents : Str) : Prop :=
  path.Usable ∧ disk.tree.file (disk.located path) = some contents

theorem Holds.resolve (hrooted : disk.tree.Rooted) {contents : Str} (h : disk.Holds path contents) :
    disk.resolve path.text = .ok (disk.located path) ∧
      disk.tree.kind (disk.located path) = some (.file contents) := by
  have hkind := FileTree.file_eq_some.mp h.2
  obtain ⟨last, hlast⟩ := located_usable disk h.1
  have hparent := hrooted (disk.parentOf path) last (by rw [← hlast, hkind]; rfl)
  exact ⟨(resolve_usable hrelative hrooted h.1).mpr hparent, hkind⟩

theorem holds_of_resolve {location : Location} {contents : Str}
    (h : disk.resolve path.text = .ok location)
    (hkind : disk.tree.kind location = some (.file contents)) : disk.Holds path contents := by
  refine ⟨?_, ?_⟩
  · by_contra husable
    rw [resolve_unusable h husable] at hkind
    cases hkind
  · rw [← resolve_located hrelative h]
    exact FileTree.file_eq_some.mpr hkind

-- A file is read by the usable paths to it, and by nothing else.
theorem readToString_ok (hrooted : disk.tree.Rooted) (contents : Str) :
    disk.readToString path = .ok contents ↔ disk.Holds path contents := by
  constructor
  · intro h
    unfold readToString at h
    split at h
    · contradiction
    · next location hresolve =>
      split at h
      · contradiction
      · contradiction
      · next found hkind =>
        rw [← Except.ok.inj h]
        exact holds_of_resolve hrelative hresolve hkind
  · intro h
    obtain ⟨hresolve, hkind⟩ := h.resolve hrelative hrooted
    unfold readToString
    rw [hresolve]
    simp only [hkind]

theorem removeFile_ok (hrooted : disk.tree.Rooted) {contents : Str} (h : disk.Holds path contents) :
    disk.removeFile path = (.ok (), { disk with tree := disk.tree.remove (disk.located path) }) := by
  obtain ⟨hresolve, hkind⟩ := h.resolve hrelative hrooted
  unfold removeFile
  rw [hresolve]
  simp only [hkind]

theorem removeFile_error (h : ∀ contents, ¬disk.Holds path contents) :
    ∃ error, disk.removeFile path = (.error error, disk) := by
  unfold removeFile
  split
  · next error _ => exact ⟨error, rfl⟩
  · next location hresolve =>
    split
    · exact ⟨_, rfl⟩
    · exact ⟨_, rfl⟩
    · next contents hkind => exact absurd (holds_of_resolve hrelative hresolve hkind) (h contents)

-- What a file can be written to: its folder exists, and no folder stands in its place.
structure Writable (disk : Disk) (path : PathBuf) : Prop where
  usable : path.Usable
  parent : disk.tree.kind (disk.parentOf path) = some .folder
  free : disk.tree.kind (disk.located path) ≠ some .folder

theorem write_ok (hrooted : disk.tree.Rooted) (h : disk.Writable path) (data : Str) :
    disk.write path data = (.ok (), disk.putFile path data) := by
  have hresolve := (resolve_usable hrelative hrooted h.usable).mpr h.parent
  rw [write_of_resolve hresolve, if_neg h.free]
  rfl

theorem rename_ok (hrooted : disk.tree.Rooted) {contents : Str} (h : disk.Holds path contents)
    {target : PathBuf} (htarget : target.Relative) (hwritable : disk.Writable target) :
    disk.rename path target = (.ok (), Disk.mk ((disk.tree.remove (disk.located path)).put
      (disk.located target) (.file contents)) disk.cwd) := by
  obtain ⟨hresolve, hkind⟩ := h.resolve hrelative hrooted
  have hplace := (resolve_usable htarget hrooted hwritable.usable).mpr hwritable.parent
  rw [rename_file (entry_of_resolve hresolve) (entry_of_resolve hplace)
    ⟨movable_of_usable hrelative h.1, movable_of_usable htarget hwritable.usable⟩
    (not_or.mpr ⟨not_slashed_of_usable h.1, not_slashed_of_usable hwritable.usable⟩) hkind]
  exact renameFile_ok hwritable.free contents

theorem rename_error (h : ∀ contents, ¬disk.Holds path contents)
    (hfolder : path.text ≠ [] → disk.tree.kind (disk.located path) ≠ some .folder)
    (target : PathBuf) : ∃ error, disk.rename path target = (.error error, disk) := by
  obtain hrefused | ⟨_, old, new, hold, _, hdone⟩ := rename_cases disk path target
  · exact hrefused
  · rcases hdone with ⟨hkind, _⟩ | ⟨hslash, _, contents, hkind, _⟩
    · rw [entry_located hrelative hold] at hkind
      exact absurd hkind (hfolder (walk_ok.mp hold).2.1)
    · rw [entry_of_not_slashed fun h => hslash (.inl h)] at hold
      exact absurd (holds_of_resolve hrelative hold hkind) (h contents)

theorem copy_error (hrooted : disk.tree.Rooted) (h : ∀ contents, ¬disk.Holds path contents)
    (target : PathBuf) : ∃ error, disk.copy path target = (.error error, disk) := by
  cases hread : disk.readToString path with
  | ok contents => exact absurd ((readToString_ok hrelative hrooted contents).mp hread) (h contents)
  | error error =>
      unfold copy
      rw [hread]
      cases error <;> exact ⟨_, rfl⟩

end Relative

section PutFile

variable {disk : Disk} {path : PathBuf} (h : disk.Writable path) (contents : Str)

include h

theorem Writable.ne_root : disk.located path ≠ [] := by
  obtain ⟨last, hlast⟩ := located_usable disk h.usable
  rw [hlast]
  exact List.append_ne_nil_of_right_ne_nil _ (List.cons_ne_nil _ _)

theorem Writable.kind_put (location : Location) :
    (disk.putFile path contents).tree.kind location =
      if location = disk.located path then some (.file contents) else disk.tree.kind location :=
  FileTree.kind_put _ h.ne_root _ _

theorem Writable.file_put (location : Location) :
    (disk.putFile path contents).tree.file location =
      if location = disk.located path then some contents else disk.tree.file location :=
  FileTree.file_put _ h.ne_root _ _

theorem Writable.rooted_put (hrooted : disk.tree.Rooted) :
    (disk.putFile path contents).tree.Rooted := by
  obtain ⟨last, hlast⟩ := located_usable disk h.usable
  unfold putFile
  rw [hlast]
  exact hrooted.put h.parent (.inr (hlast ▸ h.free))

-- The file that was put can be written again.
theorem Writable.again : (disk.putFile path contents).Writable path := by
  obtain ⟨last, hlast⟩ := located_usable disk h.usable
  refine ⟨h.usable, ?_, ?_⟩
  · refine (h.kind_put contents _).trans ?_
    rw [if_neg ?_]
    · exact h.parent
    · intro heq
      have hlength := congrArg List.length (heq.trans hlast)
      rw [parentOf_putFile, List.length_append] at hlength
      simp at hlength
  · have hkind := h.kind_put contents (disk.located path)
    rw [if_pos rfl] at hkind
    change (disk.putFile path contents).tree.kind (disk.located path) ≠ _
    rw [hkind]
    nofun

end PutFile

-- Copied onto itself, a file is truncated before it is read.
theorem copy_ok {disk : Disk} {source target : PathBuf} (hrooted : disk.tree.Rooted)
    (hsource : source.Relative) (htarget : target.Relative) {contents : Str}
    (hholds : disk.Holds source contents) (hwritable : disk.Writable target) :
    disk.copy source target = (.ok (), (disk.putFile target []).putFile target
      (if disk.located source = disk.located target then [] else contents)) := by
  have hread := (readToString_ok hsource hrooted contents).mpr hholds
  have hopen := write_ok htarget hrooted hwritable []
  have hrooted' := hwritable.rooted_put [] hrooted
  have hholds' : (disk.putFile target []).Holds source
      (if disk.located source = disk.located target then [] else contents) := by
    refine ⟨hholds.1, (hwritable.file_put [] _).trans ?_⟩
    rw [located_putFile]
    split
    · rfl
    · exact hholds.2
  have hread' := (readToString_ok hsource hrooted' _).mpr hholds'
  unfold copy
  rw [hread, hopen]
  dsimp only
  rw [hread']
  exact write_ok htarget hrooted' (hwritable.again []) _

-- Folders are made where nothing stands, so no file changes.
theorem makeFolders_file (disk : Disk) (here : Location) (components : Components) :
    (disk.makeFolders here components).2.cwd = disk.cwd ∧
      (disk.makeFolders here components).2.tree.file = disk.tree.file := by
  induction components generalizing disk here with
  | nil => exact ⟨rfl, rfl⟩
  | cons component components ih =>
      cases component with
      | rootDir => exact ih disk []
      | curDir => exact ih disk here
      | parentDir => exact ih disk here.dropLast
      | normal name =>
          unfold makeFolders
          split
          · exact ih disk _
          · exact ⟨rfl, rfl⟩
          · next hkind =>
            have hne : here ++ [name] ≠ [] :=
              List.append_ne_nil_of_right_ne_nil _ (List.cons_ne_nil _ _)
            obtain ⟨hcwd, hfile⟩ := ih
              { disk with tree := disk.tree.put (here ++ [name]) .folder } (here ++ [name])
            refine ⟨hcwd, hfile.trans ?_⟩
            funext location
            refine (FileTree.file_put _ hne _ _).trans ?_
            split
            · next heq =>
              rw [heq]
              unfold FileTree.file
              rw [hkind]
              rfl
            · rfl

-- What `makeFolders` leaves behind when no file stands in the way.
structure Made (disk : Disk) (here : Location) (names : List Str) (made : Disk) : Prop where
  cwd : made.cwd = disk.cwd
  rooted : made.tree.Rooted
  file : made.tree.file = disk.tree.file
  folder : made.tree.kind (here ++ names) = some .folder
  inner : ∀ location, made.tree.kind location = some .folder →
    disk.tree.kind location = some .folder ∨ ∃ front, front <+: names ∧ location = here ++ front

theorem makeFolders_ok {disk : Disk} (hrooted : disk.tree.Rooted) {here : Location}
    (hhere : disk.tree.kind here = some .folder) {names : List Str}
    (hfree : ∀ front, front <+: names → disk.tree.file (here ++ front) = none) :
    ∃ made, disk.makeFolders here (names.map .normal) = (.ok (), made) ∧
      Made disk here names made := by
  induction names generalizing disk here with
  | nil =>
      refine ⟨disk, rfl, rfl, hrooted, rfl, ?_, fun location h => .inl h⟩
      rw [List.append_nil]
      exact hhere
  | cons name names ih =>
      have hstep (front : List Str) (h : front <+: names) :
          disk.tree.file (here ++ [name] ++ front) = none := by
        rw [List.append_assoc]
        exact hfree _ ((List.cons_prefix_cons).mpr ⟨rfl, h⟩)
      have hwiden (made next : Disk) (hinner : ∀ location, next.tree.kind location = some .folder →
          disk.tree.kind location = some .folder ∨ location = here ++ [name])
          (hmade : Made next (here ++ [name]) names made) (location : Location)
          (hkind : made.tree.kind location = some .folder) :
          disk.tree.kind location = some .folder ∨
            ∃ front, front <+: name :: names ∧ location = here ++ front := by
        rcases hmade.inner location hkind with hold | ⟨front, hfront, rfl⟩
        · refine (hinner location hold).imp_right fun heq => ⟨[name], ?_, heq⟩
          exact List.cons_prefix_cons.mpr ⟨rfl, List.nil_prefix⟩
        · refine .inr ⟨name :: front, List.cons_prefix_cons.mpr ⟨rfl, hfront⟩, ?_⟩
          rw [List.append_assoc]
          rfl
      cases hkind : disk.tree.kind (here ++ [name]) with
      | none =>
          let next : Disk := { disk with tree := disk.tree.put (here ++ [name]) .folder }
          have hne : here ++ [name] ≠ [] :=
            List.append_ne_nil_of_right_ne_nil _ (List.cons_ne_nil _ _)
          have hfile : next.tree.file = disk.tree.file := by
            funext location
            refine (FileTree.file_put _ hne _ _).trans ?_
            split
            · next heq =>
              rw [heq]
              unfold FileTree.file
              rw [hkind]
              rfl
            · rfl
          have hfolder : next.tree.kind (here ++ [name]) = some .folder := by
            refine (FileTree.kind_put _ hne _ _).trans ?_
            rw [if_pos rfl]
          have hrooted' : next.tree.Rooted := hrooted.put hhere (.inl rfl)
          obtain ⟨made, hmake, hmade⟩ := ih hrooted' hfolder fun front h => hfile ▸ hstep front h
          refine ⟨made, ?_, hmade.cwd, hmade.rooted, hmade.file.trans hfile, ?_, ?_⟩
          · rw [List.map_cons, makeFolders]
            simp only [hkind]
            exact hmake
          · have hlast := hmade.folder
            rw [List.append_assoc] at hlast
            exact hlast
          · refine hwiden made next (fun location hold => ?_) hmade
            have hput := FileTree.kind_put disk.tree hne .folder location
            rw [hput] at hold
            split at hold
            · next heq => exact .inr heq
            · exact .inl hold
      | some entry =>
          cases entry with
          | file contents =>
              have hnone := hfree [name] (List.cons_prefix_cons.mpr ⟨rfl, List.nil_prefix⟩)
              rw [FileTree.file_eq_some.mpr hkind] at hnone
              contradiction
          | folder =>
              obtain ⟨made, hmake, hmade⟩ := ih hrooted hkind hstep
              refine ⟨made, ?_, hmade.cwd, hmade.rooted, hmade.file, ?_, ?_⟩
              · rw [List.map_cons, makeFolders]
                simp only [hkind]
                exact hmake
              · have hfolder := hmade.folder
                rw [List.append_assoc] at hfolder
                exact hfolder
              · exact hwiden made disk (fun location hold => .inl hold) hmade

theorem nul_parentText {path : PathBuf} (hrelative : path.Relative) (h : nul ∉ path.text) :
    nul ∉ path.parentText := by
  have hdot : ¬leadingCurDir path.text := hrelative.not_leadingCurDir
  intro hmem
  unfold parentText at hmem
  rw [if_neg hrelative.not_hasRoot, if_neg hdot] at hmem
  rcases mem_ofSegments hmem with hslash | ⟨segment, hsegment, hnul⟩
  · exact absurd hslash (by decide)
  · have hwhole := mem_trimRight (List.dropLast_subset _ (mem_trimRight hsegment))
    exact h (mem_of_mem_splitOn hwhole hnul)

-- The folders a file needs are made, as long as no file stands in the way.
theorem makeParent_ok {disk : Disk} (hrooted : disk.tree.Rooted)
    (hcwd : disk.tree.kind disk.cwd = some .folder) {path : PathBuf} (hrelative : path.Relative)
    (husable : path.Usable) (hfree : ∀ front, front <+: path.nameSegments.dropLast →
      disk.tree.file (disk.cwd ++ front) = none) :
    ∃ made, BlockingDiskIo.makeParent disk path = (.ok (), made) ∧
      Made disk disk.cwd path.nameSegments.dropLast made := by
  obtain ⟨made, hmake, hmade⟩ := makeFolders_ok hrooted hcwd hfree
  refine ⟨made, ?_, hmade⟩
  have hnames := hrelative.names_ne_nil husable.text_ne_nil
  have hparent : path.parent = some ⟨path.parentText⟩ := by
    unfold PathBuf.parent Components.parent
    rw [hrelative.components_eq, List.getLast?_map, List.getLast?_eq_some_getLast hnames]
    rfl
  have hcomponents := components_parent hparent
  rw [hrelative.components_eq, ← List.map_dropLast] at hcomponents
  unfold BlockingDiskIo.makeParent createDirAll BlockingDiskIo.tagged
  rw [hparent]
  dsimp only
  rw [if_neg (nul_parentText hrelative husable.1), hcomponents, hmake]
  rfl

end Disk

end Saps.Files
