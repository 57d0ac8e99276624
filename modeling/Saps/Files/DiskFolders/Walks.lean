import Saps.Files.Disk.Theorems
import Saps.Files.DiskFolders
import Saps.Lib.TreeCopy.Theorems

-- Where the paths lead that a walk of a folder makes up.
namespace Saps.Files.Disk

open PathBuf (skipped segmentNames classify)
open FileTree (Grows)

-- A name that an entry of a folder can have.
structure PlainName (name : Str) : Prop where
  named : ¬skipped name
  up : name ≠ ['.', '.']
  slash : '/' ∉ name
  nul : nul ∉ name

def Named (tree : FileTree Str Str) : Prop :=
  ∀ location, (tree.kind location).isSome → ∀ name ∈ location, PlainName name

-- What a filesystem sees to.
structure Sound (disk : Disk) : Prop where
  rooted : disk.tree.Rooted
  cwd : disk.tree.kind disk.cwd = some .folder
  named : Named disk.tree

-- The path leads to a folder, from which the names that are joined to it lead on.
structure Leads (disk : Disk) (path : PathBuf) (location : Location) : Prop where
  nul : nul ∉ path.text
  walk : (path.text.splitOn '/').foldlM disk.step (disk.start path.text) = .ok location
  folder : disk.tree.kind location = some .folder

theorem advance_plain {name : Str} (hname : PlainName name) (here : Location) :
    advance here name = here ++ [name] := by
  unfold advance
  rw [if_neg hname.named, if_neg hname.up]

theorem walk_grows {disk other : Disk} (h : disk.tree.Grows other.tree) {here location : Location}
    {segments : List Str} (hwalk : segments.foldlM disk.step here = .ok location) :
    segments.foldlM other.step here = .ok location := by
  induction segments using List.reverseRecOn generalizing location with
  | nil => exact hwalk
  | append_singleton segments segment ih =>
      obtain ⟨middle, hmiddle, hfolder, hlocation⟩ := foldlM_snoc_ok.mp hwalk
      exact foldlM_snoc_ok.mpr ⟨middle, ih hmiddle, h.folder middle hfolder, hlocation⟩

theorem Leads.grows {disk other : Disk} (h : disk.tree.Grows other.tree)
    (hcwd : other.cwd = disk.cwd) {path : PathBuf} {location : Location}
    (hleads : disk.Leads path location) :
    other.Leads path location := by
  refine ⟨hleads.nul, ?_, h.folder location hleads.folder⟩
  have hstart : other.start path.text = disk.start path.text := by
    unfold start
    rw [hcwd]
  rw [hstart]
  exact walk_grows h hleads.walk

theorem Leads.grown {disk : Disk} {path : PathBuf} {location : Location}
    (hleads : disk.Leads path location) {tree : FileTree Str Str} (h : disk.tree.Grows tree) :
    Leads { disk with tree } path location := by
  have hgrows : disk.tree.Grows (Disk.tree { disk with tree }) := h
  exact hleads.grows hgrows rfl

-- A name that is joined to a path stands behind the segments of the path.
theorem Leads.join_walk {disk : Disk} {path : PathBuf} {location : Location}
    (h : disk.Leads path location) {name : Str} (hname : PlainName name) :
    ∃ segments, (path.join ⟨name⟩).text.splitOn '/' = segments ++ [name] ∧
      segments.foldlM disk.step (disk.start (path.join ⟨name⟩).text) = .ok location := by
  have hroot : ¬PathBuf.hasRoot name := by
    intro hroot
    obtain ⟨tail, rfl⟩ := List.head?_eq_some_iff.mp (of_decide_eq_true hroot)
    exact hname.slash List.mem_cons_self
  have hsplit : name.splitOn '/' = [name] := List.splitOn_eq_singleton hname.slash
  unfold PathBuf.join
  rw [if_neg hroot]
  by_cases hempty : path.text = []
  · rw [if_neg (fun hne => hne.1 hempty), hempty]
    refine ⟨[], hsplit, ?_⟩
    have hwalk : ([] ++ [[]]).foldlM disk.step (disk.start []) = .ok location := by
      have hwalk := h.walk
      rwa [hempty, List.splitOn_nil] at hwalk
    obtain ⟨middle, hmiddle, _, rfl⟩ := foldlM_snoc_ok.mp hwalk
    have hstart : disk.start ([] ++ name) = disk.start [] := by
      unfold start
      rw [List.nil_append, if_neg hroot]
      rfl
    rw [hstart]
    exact hmiddle
  · have hstart (front back : Str) (hfront : front ≠ []) :
        disk.start (front ++ back) = disk.start front := by
      unfold start
      rw [PathBuf.hasRoot_append _ _ hfront]
    by_cases hlast : path.text.getLast? = some '/'
    · rw [if_neg (fun hne => hne.2 hlast)]
      obtain ⟨front, hfront⟩ := List.getLast?_eq_some_iff.mp hlast
      have hwalk : (front.splitOn '/' ++ [[]]).foldlM disk.step (disk.start path.text) =
          .ok location := by
        have hwalk := h.walk
        rwa [hfront, List.splitOn_append_cons_self, List.splitOn_nil, ← hfront] at hwalk
      obtain ⟨middle, hmiddle, _, rfl⟩ := foldlM_snoc_ok.mp hwalk
      refine ⟨front.splitOn '/', ?_, ?_⟩
      · rw [hfront, List.append_assoc, List.singleton_append, List.splitOn_append_cons_self, hsplit]
      · rw [hstart path.text name hempty]
        exact hmiddle
    · rw [if_pos ⟨hempty, hlast⟩]
      refine ⟨path.text.splitOn '/', ?_, ?_⟩
      · rw [List.splitOn_append_cons_self, hsplit]
      · rw [hstart path.text _ hempty]
        exact h.walk

theorem mem_join {base rel : PathBuf} {c : Char} (h : c ∈ (base.join rel).text) :
    c ∈ base.text ∨ c = '/' ∨ c ∈ rel.text := by
  unfold PathBuf.join at h
  split at h
  · exact .inr (.inr h)
  · split at h
    · rcases List.mem_append.mp h with h | h
      · exact .inl h
      · exact .inr ((List.mem_cons.mp h).imp_right id)
    · exact (List.mem_append.mp h).imp_right .inr

theorem Leads.join_nul {disk : Disk} {path : PathBuf} {location : Location}
    (h : disk.Leads path location) {name : Str} (hname : PlainName name) :
    Disk.nul ∉ (path.join ⟨name⟩).text := by
  intro hmem
  rcases mem_join hmem with hmem | hmem | hmem
  · exact h.nul hmem
  · exact absurd hmem (by decide)
  · exact hname.nul hmem

theorem Leads.join_walked {disk : Disk} {path : PathBuf} {location : Location}
    (h : disk.Leads path location) {name : Str} (hname : PlainName name) :
    ((path.join ⟨name⟩).text.splitOn '/').foldlM disk.step (disk.start (path.join ⟨name⟩).text) =
      .ok (location ++ [name]) := by
  obtain ⟨segments, hsplit, hwalk⟩ := h.join_walk hname
  rw [hsplit]
  exact foldlM_snoc_ok.mpr ⟨location, hwalk, h.folder, (advance_plain hname location).symm⟩

theorem Leads.resolve_join {disk : Disk} {path : PathBuf} {location : Location}
    (h : disk.Leads path location) {name : Str} (hname : PlainName name) :
    disk.resolve (path.join ⟨name⟩).text = .ok (location ++ [name]) := by
  refine resolve_ok.mpr ⟨h.join_nul hname, ?_, h.join_walked hname⟩
  intro hempty
  obtain ⟨segments, hsplit, _⟩ := h.join_walk hname
  rw [hempty, List.splitOn_nil] at hsplit
  obtain ⟨_, hlast⟩ := List.append_inj' (show [] ++ [[]] = segments ++ [name] from hsplit) rfl
  have hnil : name = [] := by simpa using hlast.symm
  exact hname.named (by rw [hnil]; rfl)

theorem Leads.join {disk : Disk} {path : PathBuf} {location : Location}
    (h : disk.Leads path location) {name : Str} (hname : PlainName name)
    (hfolder : disk.tree.kind (location ++ [name]) = some .folder) :
    disk.Leads (path.join ⟨name⟩) (location ++ [name]) :=
  ⟨h.join_nul hname, h.join_walked hname, hfolder⟩

theorem isDir_iff {disk : Disk} {path : PathBuf} {location : Location}
    (h : disk.resolve path.text = .ok location) :
    disk.isDir path = true ↔ disk.tree.kind location = some .folder := by
  unfold isDir
  rw [h]
  simp

theorem readDir_ok {disk : Disk} {path : PathBuf} {names : List Str} :
    disk.readDir path = .ok names ↔ path.text ≠ [] ∧
      ∃ location, disk.Leads path location ∧ names = disk.tree.children location := by
  constructor
  · intro h
    unfold readDir at h
    split at h
    · contradiction
    · next location hresolve =>
      split at h
      · contradiction
      · contradiction
      · next hfolder =>
        obtain ⟨hnul, hempty, hwalk⟩ := resolve_ok.mp hresolve
        exact ⟨hempty, location, ⟨hnul, hwalk, hfolder⟩, (Except.ok.inj h).symm⟩
  · rintro ⟨hempty, location, h, rfl⟩
    unfold readDir
    rw [resolve_ok.mpr ⟨h.nul, hempty, h.walk⟩]
    simp only [h.folder]

-- The folders on the way are there, so nothing is made for them.
theorem makeFolders_walked {disk : Disk} {here location : Location} {segments : List Str}
    (hwalk : segments.foldlM disk.step here = .ok location)
    (hfolder : disk.tree.kind location = some .folder) (rest : Components) :
    disk.makeFolders here (segmentNames segments ++ rest) = disk.makeFolders location rest := by
  induction segments using List.reverseRecOn generalizing location rest with
  | nil =>
      cases hwalk
      rfl
  | append_singleton segments segment ih =>
      obtain ⟨middle, hmiddle, hkind, rfl⟩ := foldlM_snoc_ok.mp hwalk
      rw [PathBuf.segmentNames_append, List.append_assoc, ih hmiddle hkind]
      rw [PathBuf.segmentNames_cons]
      unfold advance at hfolder ⊢
      by_cases hskipped : skipped segment
      · rw [if_pos hskipped, if_pos hskipped]
        rfl
      · rw [if_neg hskipped] at hfolder ⊢
        rw [if_neg hskipped]
        by_cases hup : segment = ['.', '.']
        · rw [if_pos hup]
          unfold classify
          rw [if_pos hup]
          rfl
        · rw [if_neg hup] at hfolder ⊢
          unfold classify
          rw [if_neg hup, List.cons_append]
          change makeFolders disk middle (.normal segment :: rest) = _
          rw [makeFolders]
          rw [hfolder]

theorem Leads.makeFolders {disk : Disk} {path : PathBuf} {location : Location}
    (h : disk.Leads path location) (rest : Components) :
    disk.makeFolders disk.cwd (path.components ++ rest) = disk.makeFolders location rest := by
  have hwalk := h.walk
  have hmade := makeFolders_walked hwalk h.folder rest
  unfold start at hmade
  unfold PathBuf.components
  split
  · next hroot =>
    rw [if_pos hroot] at hmade
    exact hmade
  · next hroot =>
    rw [if_neg hroot] at hmade
    split
    · exact hmade
    · exact hmade

theorem Sound.put {disk : Disk} (h : disk.Sound) (here : Location) (name : Str) (entry : Entry Str)
    (hhere : disk.tree.kind here = some .folder) (hname : PlainName name)
    (hfree : disk.tree.kind (here ++ [name]) ≠ some .folder) :
    Sound { disk with tree := disk.tree.put (here ++ [name]) entry } := by
  have hne : here ++ [name] ≠ [] := List.append_ne_nil_of_right_ne_nil _ (List.cons_ne_nil _ _)
  refine ⟨h.rooted.put hhere (.inr hfree), ?_, ?_⟩
  · dsimp only
    rw [FileTree.kind_put _ hne, if_neg]
    · exact h.cwd
    · intro heq
      exact hfree (heq ▸ h.cwd)
  · intro location hsome other hother
    dsimp only at hsome
    rw [FileTree.kind_put _ hne] at hsome
    split at hsome
    · next heq =>
      rw [heq] at hother
      rcases List.mem_append.mp hother with hother | hother
      · exact h.named here (by rw [hhere]; rfl) other hother
      · rw [List.mem_singleton.mp hother]
        exact hname
    · exact h.named location hsome other hother

-- Folders have been made, and nothing else has changed.
structure Extended (disk made : Disk) : Prop where
  sound : made.Sound
  grows : disk.tree.Grows made.tree
  cwd : made.cwd = disk.cwd
  file : made.tree.file = disk.tree.file

theorem Extended.refl {disk : Disk} (h : disk.Sound) : disk.Extended disk :=
  ⟨h, .refl _, rfl, rfl⟩

theorem Extended.trans {first second third : Disk} (h : first.Extended second)
    (h' : second.Extended third) : first.Extended third :=
  ⟨h'.sound, h.grows.trans h'.grows, h'.cwd.trans h.cwd, h'.file.trans h.file⟩

theorem Extended.put {disk : Disk} (h : disk.Sound) {here : Location} {name : Str}
    (hhere : disk.tree.kind here = some .folder) (hname : PlainName name)
    (hfree : disk.tree.kind (here ++ [name]) = none) :
    disk.Extended { disk with tree := disk.tree.put (here ++ [name]) .folder } := by
  have hne : here ++ [name] ≠ [] := List.append_ne_nil_of_right_ne_nil _ (List.cons_ne_nil _ _)
  have hgrows : disk.tree.Grows (disk.tree.put (here ++ [name]) .folder) := by
    refine FileTree.grows_put (by rw [hfree]; simp) fun hfile => ?_
    rw [FileTree.file, hfree] at hfile
    contradiction
  refine ⟨h.put here name .folder hhere hname (by rw [hfree]; simp), hgrows, rfl, ?_⟩
  funext location
  rw [FileTree.file_put _ hne]
  split
  · next heq =>
    rw [heq, FileTree.file, hfree]
    rfl
  · rfl

theorem makeFolders_leads {disk made : Disk} (hsound : disk.Sound) {here : Location}
    (hhere : disk.tree.kind here = some .folder) {segments : List Str}
    (hplain : ∀ segment ∈ segments, ¬skipped segment → segment ≠ ['.', '.'] → PlainName segment)
    (h : disk.makeFolders here (segmentNames segments) = (.ok (), made)) :
    ∃ location, segments.foldlM made.step here = .ok location ∧
      made.tree.kind location = some .folder ∧ disk.Extended made := by
  induction segments generalizing disk here with
  | nil =>
      cases h
      exact ⟨here, rfl, hhere, .refl hsound⟩
  | cons segment segments ih =>
      have hrest : ∀ other ∈ segments, ¬skipped other → other ≠ ['.', '.'] → PlainName other :=
        fun other hother => hplain other (List.mem_cons_of_mem _ hother)
      -- The rest is walked in the disk that it leaves behind, where this segment leads on.
      have hcons {next : Disk} (hnext : disk.Extended next)
          (hkind : next.tree.kind (advance here segment) = some .folder)
          (hmade : next.makeFolders (advance here segment) (segmentNames segments) =
            (.ok (), made)) :
          ∃ location, (segment :: segments).foldlM made.step here = .ok location ∧
            made.tree.kind location = some .folder ∧ disk.Extended made := by
        obtain ⟨location, hwalk, hfolder, hextended⟩ := ih hnext.sound hkind hrest hmade
        have hwhole := hnext.trans hextended
        refine ⟨location, ?_, hfolder, hwhole⟩
        rw [List.foldlM_cons, step_ok.mpr ⟨hwhole.grows.folder here hhere, rfl⟩]
        exact hwalk
      rw [PathBuf.segmentNames_cons] at h
      by_cases hskipped : skipped segment
      · rw [if_pos hskipped] at h
        have hadvance : advance here segment = here := if_pos hskipped
        apply hcons (.refl hsound)
        · rw [hadvance]
          exact hhere
        · rw [hadvance]
          exact h
      · rw [if_neg hskipped] at h
        unfold classify at h
        by_cases hup : segment = ['.', '.']
        · rw [if_pos hup] at h
          have hadvance : advance here segment = here.dropLast := by
            unfold advance
            rw [if_neg hskipped, if_pos hup]
          apply hcons (.refl hsound)
          · rw [hadvance]
            rcases List.eq_nil_or_concat' here with rfl | ⟨front, last, rfl⟩
            · rfl
            · rw [List.dropLast_concat]
              exact hsound.rooted front last (by rw [hhere]; rfl)
          · rw [hadvance]
            exact h
        · rw [if_neg hup] at h
          have hname := hplain segment List.mem_cons_self hskipped hup
          have hadvance := advance_plain hname here
          rw [makeFolders] at h
          split at h
          · next hfolder =>
            apply hcons (.refl hsound)
            · rw [hadvance]
              exact hfolder
            · rw [hadvance]
              exact h
          · cases (Prod.ext_iff.mp h).1
          · next hfree =>
            have hput := Extended.put hsound hhere hname hfree
            apply hcons hput
            · rw [hadvance]
              refine (FileTree.kind_put _ ?_ _ _).trans (if_pos rfl)
              exact List.append_ne_nil_of_right_ne_nil _ (List.cons_ne_nil _ _)
            · rw [hadvance]
              exact h

-- Where a path leads once the folders on it have been made.
theorem createDirAll_leads {disk made : Disk} (hsound : disk.Sound) {path : PathBuf}
    (h : disk.createDirAll path = (.ok (), made)) :
    disk.Extended made ∧ ∃ location, made.Leads path location := by
  unfold createDirAll at h
  split at h
  · cases (Prod.ext_iff.mp h).1
  · next hnul =>
    have hplain : ∀ segment ∈ path.text.splitOn '/', ¬skipped segment → segment ≠ ['.', '.'] →
        PlainName segment := fun segment hsegment hnamed hup =>
      ⟨hnamed, hup, PathBuf.not_mem_splitOn hsegment,
        fun hmem => hnul (PathBuf.mem_of_mem_splitOn hsegment hmem)⟩
    have hstart : disk.tree.kind (disk.start path.text) = some .folder := by
      unfold start
      split
      · rfl
      · exact hsound.cwd
    have hmake : disk.makeFolders (disk.start path.text) (segmentNames (path.text.splitOn '/')) =
        (.ok (), made) := by
      rw [← h]
      unfold start PathBuf.components
      split
      · rfl
      · split
        · rfl
        · rfl
    obtain ⟨location, hwalk, hfolder, hextended⟩ := makeFolders_leads hsound hstart hplain hmake
    refine ⟨hextended, location, hnul, ?_, hfolder⟩
    have hsame : made.start path.text = disk.start path.text := by
      unfold start
      rw [hextended.cwd]
    rw [hsame]
    exact hwalk

theorem components_name {name : Str} (hname : PlainName name) :
    PathBuf.components ⟨name⟩ = [.normal name] := by
  have hsplit : name.splitOn '/' = [name] := List.splitOn_eq_singleton hname.slash
  have hroot : ¬PathBuf.hasRoot name := by
    intro hroot
    obtain ⟨tail, rfl⟩ := List.head?_eq_some_iff.mp (of_decide_eq_true hroot)
    exact hname.slash List.mem_cons_self
  have hdot : ¬PathBuf.leadingCurDir name := by
    intro hdot
    unfold PathBuf.leadingCurDir at hdot
    rw [hsplit] at hdot
    have heq : name = ['.'] := by simpa using hdot
    exact hname.named (by rw [heq]; rfl)
  unfold PathBuf.components
  rw [if_neg hroot, if_neg hdot]
  change segmentNames (name.splitOn '/') = _
  rw [hsplit, PathBuf.segmentNames_cons, if_neg hname.named]
  unfold classify
  rw [if_neg hname.up]
  rfl

-- `create_dir_all` below a folder makes one folder at most.
theorem createDirAll_join {disk : Disk} {path : PathBuf} {location : Location}
    (h : disk.Leads path location) {name : Str} (hname : PlainName name) :
    (∃ error, disk.createDirAll (path.join ⟨name⟩) = (.error error, disk) ∧
      disk.tree.makeFolder (location ++ [name]) = none) ∨
    ∃ tree, disk.createDirAll (path.join ⟨name⟩) = (.ok (), { disk with tree }) ∧
      disk.tree.makeFolder (location ++ [name]) = some tree := by
  have hmake : disk.createDirAll (path.join ⟨name⟩) = disk.makeFolders location [.normal name] := by
    unfold createDirAll
    rw [if_neg (h.join_nul hname), PathBuf.components_join, components_name hname,
      ← h.makeFolders [.normal name]]
    rfl
  rw [hmake, makeFolders]
  unfold FileTree.makeFolder
  rcases hkind : disk.tree.kind (location ++ [name]) with _ | (_ | contents)
  · exact .inr ⟨_, rfl, rfl⟩
  · exact .inr ⟨_, rfl, rfl⟩
  · exact .inl ⟨_, rfl, rfl⟩

theorem put_put (tree : FileTree Str Str) (location : Location) (entry other : Entry Str) :
    (tree.put location entry).put location other = tree.put location other := by
  unfold FileTree.put HashMap.insert
  simp only [AList.insert_insert]

-- What a file is read as.
def contentsOf : Option (Entry Str) → Except IoError Str
  | none => .error .notFound
  | some .folder => .error .isADirectory
  | some (.file contents) => .ok contents

theorem read_of_resolve {disk : Disk} {path : PathBuf} {location : Location}
    (h : disk.resolve path.text = .ok location) :
    disk.readToString path = contentsOf (disk.tree.kind location) := by
  unfold readToString
  rw [h]
  dsimp only
  rcases disk.tree.kind location with _ | (_ | _)
  · rfl
  · rfl
  · rfl

-- The target is emptied before the rest of the source is read.
theorem copy_of_open {disk opened : Disk} {source target : PathBuf} {contents left : Str}
    (hread : disk.readToString source = .ok contents)
    (hopen : disk.write target [] = (.ok (), opened))
    (hreopen : opened.readToString source = .ok left) :
    disk.copy source target = opened.write target left := by
  unfold copy
  rw [hread, hopen]
  dsimp only
  rw [hreopen]

-- `fs::copy` from a folder to a folder.
theorem copy_join {disk : Disk} {src dst : PathBuf} {source target : Location}
    (hsrc : disk.Leads src source) (hdst : disk.Leads dst target) {name : Str}
    (hname : PlainName name) :
    (∃ error disk', disk.copy (src.join ⟨name⟩) (dst.join ⟨name⟩) = (.error error, disk') ∧
      disk.tree.copyFile [] (source ++ [name]) (target ++ [name]) = none) ∨
    ∃ tree, disk.copy (src.join ⟨name⟩) (dst.join ⟨name⟩) = (.ok (), { disk with tree }) ∧
      disk.tree.copyFile [] (source ++ [name]) (target ++ [name]) = some tree := by
  have hread := read_of_resolve (hsrc.resolve_join hname)
  have hwrite := write_of_resolve (hdst.resolve_join hname)
  cases hfile : disk.tree.file (source ++ [name]) with
  | none =>
      left
      have hcopy : disk.tree.copyFile [] (source ++ [name]) (target ++ [name]) = none := by
        unfold FileTree.copyFile
        rw [hfile]
      unfold copy
      rw [hread]
      rcases hkind : disk.tree.kind (source ++ [name]) with _ | (_ | contents)
      · exact ⟨_, _, rfl, hcopy⟩
      · exact ⟨_, _, rfl, hcopy⟩
      · rw [FileTree.file_eq_some.mpr hkind] at hfile
        contradiction
  | some contents =>
      rw [FileTree.file_eq_some.mp hfile] at hread
      by_cases hfolder : disk.tree.kind (target ++ [name]) = some .folder
      · left
        have hcopy : disk.tree.copyFile [] (source ++ [name]) (target ++ [name]) = none := by
          unfold FileTree.copyFile
          rw [hfile, hfolder]
        unfold copy
        rw [hread, hwrite, if_pos hfolder]
        exact ⟨_, _, rfl, hcopy⟩
      · right
        have hne := FileTree.placed_ne_root hfolder
        have hgrows : disk.tree.Grows (disk.tree.put (target ++ [name]) (.file [])) :=
          FileTree.grows_put hfolder fun _ => rfl
        let opened : Disk := { disk with tree := disk.tree.put (target ++ [name]) (.file []) }
        have hopen : disk.write (dst.join ⟨name⟩) [] = (.ok (), opened) := by
          rw [hwrite, if_neg hfolder]
        have hreopen : opened.readToString (src.join ⟨name⟩) =
            .ok (if source ++ [name] = target ++ [name] then [] else contents) := by
          have hsrc' : opened.Leads src source := hsrc.grown hgrows
          have hkind : opened.tree.kind (source ++ [name]) = some (.file
              (if source ++ [name] = target ++ [name] then [] else contents)) := by
            refine (FileTree.kind_put _ hne _ _).trans ?_
            split
            · rfl
            · exact FileTree.file_eq_some.mp hfile
          rw [read_of_resolve (hsrc'.resolve_join hname), hkind]
          rfl
        have hrewrite (data : Str) : opened.write (dst.join ⟨name⟩) data =
            (.ok (), { disk with tree := disk.tree.put (target ++ [name]) (.file data) }) := by
          have hdst' : opened.Leads dst target := hdst.grown hgrows
          have hkind : opened.tree.kind (target ++ [name]) = some (.file []) :=
            (FileTree.kind_put _ hne _ _).trans (if_pos rfl)
          have hput : opened.tree.put (target ++ [name]) (.file data) =
              disk.tree.put (target ++ [name]) (.file data) := put_put _ _ _ _
          rw [write_of_resolve (hdst'.resolve_join hname), hkind, if_neg (by simp), hput]
        refine ⟨_, ?_, FileTree.copyFile_eq_some.mpr ⟨contents, hfile, hfolder, rfl⟩⟩
        rw [copy_of_open hread hopen hreopen]
        exact hrewrite _

end Saps.Files.Disk
