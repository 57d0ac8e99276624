import Saps.Files.DiskFolders.Walks
import Saps.Files.JoinStream.Flat

-- What the disk engine lists, and the join stream of it.
namespace Saps.Files

open PathBuf (Usable named names classify skipped)

namespace PathBuf

theorem splitOn_join (base rel : PathBuf) :
    ∃ front, (base.join rel).text.splitOn '/' = front ++ rel.text.splitOn '/' := by
  unfold join
  split
  · exact ⟨[], rfl⟩
  · split
    · exact ⟨base.text.splitOn '/', List.splitOn_append_cons_self _ _⟩
    · next hplain =>
      by_cases hempty : base.text = []
      · rw [hempty]
        exact ⟨[], rfl⟩
      · have hlast : base.text.getLast? = some '/' := by
          by_contra hlast
          exact hplain ⟨hempty, hlast⟩
        obtain ⟨front, hfront⟩ := List.getLast?_eq_some_iff.mp hlast
        rw [hfront, List.append_assoc, List.singleton_append]
        exact ⟨front.splitOn '/', List.splitOn_append_cons_self _ _⟩

theorem hasRoot_iff (path : PathBuf) :
    hasRoot path.text = true ↔ path.components.head? = some .rootDir := by
  unfold components
  by_cases hroot : hasRoot path.text
  · rw [if_pos hroot]
    simp [hroot]
  · rw [if_neg hroot]
    refine iff_of_false hroot fun hhead => ?_
    split at hhead
    · cases hhead
    · obtain ⟨rest, hrest⟩ := List.head?_eq_some_iff.mp hhead
      exact (names_head _ _ _ hrest).1 rfl

-- What is in the text of a path and is neither a slash nor a dot is in one of its names.
theorem mem_of_components {path other : PathBuf} (h : path.components = other.components) {c : Char}
    (hslash : c ≠ '/') (hdot : c ≠ '.') (hc : c ∈ path.text) : c ∈ other.text := by
  have hsegment : ∃ segment ∈ path.text.splitOn '/', c ∈ segment := by
    have htext : ['/'].intercalate (path.text.splitOn '/') = path.text :=
      List.intercalate_splitOn '/'
    rw [← htext] at hc
    exact (mem_ofSegments hc).resolve_left hslash
  obtain ⟨segment, hmem, hc⟩ := hsegment
  have hnamed : segment ∈ path.nameSegments := by
    refine List.mem_filter.mpr ⟨hmem, ?_⟩
    have hne : segment ≠ [] := List.ne_nil_of_mem hc
    have hcur : segment ≠ ['.'] := by
      rintro rfl
      exact hdot (List.mem_singleton.mp hc)
    simp [skipped, hne, hcur]
  have hnames : path.nameSegments.map classify = other.nameSegments.map classify := by
    rw [← names_eq, ← names_eq, names_eq_filter, names_eq_filter, h]
  have hsame : path.nameSegments = other.nameSegments :=
    List.map_injective_iff.mpr (fun _ _ => classify_injective) hnames
  rw [hsame] at hnamed
  exact mem_of_mem_splitOn (List.mem_of_mem_filter hnamed) hc

end PathBuf

namespace Disk

-- What is skipped on the way to a folder does not matter.
theorem walk_named {disk : Disk} {here location : Location} {segments : List Str}
    (hfolder : disk.tree.kind location = some .folder) :
    segments.foldlM disk.step here = .ok location ↔
      (named segments).foldlM disk.step here = .ok location := by
  induction segments using List.reverseRecOn generalizing location with
  | nil => rfl
  | append_singleton segments segment ih =>
      rw [named_snoc, foldlM_snoc_ok]
      by_cases hskipped : skipped segment
      · rw [if_pos hskipped, List.append_nil, ← ih hfolder]
        constructor
        · rintro ⟨middle, hmiddle, _, hlocation⟩
          unfold advance at hlocation
          rw [if_pos hskipped] at hlocation
          rw [hlocation]
          exact hmiddle
        · intro hwalk
          refine ⟨location, hwalk, hfolder, ?_⟩
          unfold advance
          rw [if_pos hskipped]
      · rw [if_neg hskipped, foldlM_snoc_ok]
        constructor
        · rintro ⟨middle, hmiddle, hkind, hlocation⟩
          exact ⟨middle, (ih hkind).mp hmiddle, hkind, hlocation⟩
        · rintro ⟨middle, hmiddle, hkind, hlocation⟩
          exact ⟨middle, (ih hkind).mpr hmiddle, hkind, hlocation⟩

-- A path that ends in a name leads where its components do.
theorem Leads.resolve_of_components {disk : Disk} {dir path : PathBuf} {location : Location}
    (h : disk.Leads dir location) {name : Str} (hname : PlainName name) (husable : path.Usable)
    (hcomponents : path.components = (dir.join ⟨name⟩).components) :
    disk.resolve path.text = .ok (location ++ [name]) := by
  obtain ⟨front, last, hsplit, hlast⟩ := husable.exists_last
  obtain ⟨segments, hjoined, hwalk⟩ := h.join_walk hname
  have hstart : disk.start path.text = disk.start (dir.join ⟨name⟩).text := by
    have hroot : PathBuf.hasRoot path.text = PathBuf.hasRoot (dir.join ⟨name⟩).text := by
      rw [Bool.eq_iff_iff, PathBuf.hasRoot_iff, PathBuf.hasRoot_iff, hcomponents]
    unfold start
    rw [hroot]
  have hnames : path.nameSegments = (dir.join ⟨name⟩).nameSegments := by
    refine List.map_injective_iff.mpr (fun _ _ => PathBuf.classify_injective) ?_
    rw [← PathBuf.names_eq, ← PathBuf.names_eq, PathBuf.names_eq_filter, PathBuf.names_eq_filter,
      hcomponents]
  unfold PathBuf.nameSegments at hnames
  rw [hsplit, hjoined, named_snoc, named_snoc, if_neg hlast, if_neg hname.named] at hnames
  obtain ⟨hfront, hsame⟩ := List.append_inj' hnames rfl
  refine resolve_ok.mpr ⟨husable.1, husable.text_ne_nil, ?_⟩
  rw [hsplit, hstart]
  refine foldlM_snoc_ok.mpr ⟨location, ?_, h.folder, ?_⟩
  · rw [walk_named h.folder, hfront, ← walk_named h.folder]
    exact hwalk
  · rw [List.singleton_inj.mp hsame]
    exact (advance_plain hname location).symm

theorem components_below {names : List Str} (hnames : ∀ name ∈ names, PlainName name)
    (path : PathBuf) : (path.below names).components = path.components ++ names.map .normal := by
  induction names using List.reverseRecOn with
  | nil => exact (List.append_nil _).symm
  | append_singleton names name ih =>
      have hname := hnames name (by simp)
      have hfront := ih fun other hother => hnames other (List.mem_append_left _ hother)
      unfold PathBuf.below at hfront ⊢
      rw [List.foldl_append, List.map_append, ← List.append_assoc, ← hfront]
      refine (PathBuf.components_join _ _).trans ?_
      rw [components_name hname]
      rfl

theorem Leads.below {disk : Disk} (hrooted : disk.tree.Rooted) {path : PathBuf} {location : Location}
    (h : disk.Leads path location) {names : List Str} (hnames : ∀ name ∈ names, PlainName name)
    (hfolder : disk.tree.kind (location ++ names) = some .folder) :
    disk.Leads (path.below names) (location ++ names) := by
  induction names using List.reverseRecOn with
  | nil =>
      rw [List.append_nil]
      exact h
  | append_singleton names name ih =>
      rw [← List.append_assoc] at hfolder ⊢
      have hfront := ih (fun other hother => hnames other (List.mem_append_left _ hother))
        (hrooted _ name (by rw [hfolder]; rfl))
      have hjoined := hfront.join (hnames name (by simp)) hfolder
      unfold PathBuf.below at hjoined ⊢
      rw [List.foldl_append]
      exact hjoined

end Disk

namespace BlockingDiskIo

open PathBuf (Key)

theorem join_inner (base : Components) {rel : Components}
    (hrel : ∀ component ∈ rel, component ≠ .rootDir ∧ component ≠ .curDir) :
    base.join rel = base ++ rel := by
  cases rel with
  | nil => rfl
  | cons first rest =>
      have hfirst := hrel first List.mem_cons_self
      cases first with
      | rootDir => exact absurd rfl hfirst.1
      | curDir => exact absurd rfl hfirst.2
      | parentDir => rfl
      | normal name => rfl

-- A listed path is relative to the root.
theorem typedFile_relative (root entry : PathBuf) :
    (PathBuf.mk (typedFile root entry).relativeString).key = root.key.relativeTo entry.key := by
  unfold typedFile Path.relativeString Path.build
  cases hstrip : entry.stripPrefix root with
  | some rest =>
      have hkey := PathBuf.key_stripPrefix hstrip
      unfold Key.relativeTo
      rw [hkey]
      rfl
  | none =>
      have houtside : entry.key.startsWith root.key = false := by
        unfold PathBuf.stripPrefix at hstrip
        split at hstrip
        · contradiction
        · next hnot => exact eq_false_of_ne_true hnot
      rw [JoinStream.relativeTo_of_outside houtside]
      rfl

-- And it is the path of the entry.
theorem typedFile_key {root entry : PathBuf}
    (habsolute : entry.key.startsWith root.key = false →
      entry.key.components.head? = some .rootDir) :
    (typedFile root entry).key = entry.key := by
  refine Key.ext ?_
  refine (PathBuf.components_join _ _).trans ?_
  cases hstrip : entry.stripPrefix root with
  | some rest =>
      have hwhole : entry.components = root.components ++ rest.components :=
        Key.stripPrefix_eq_some (PathBuf.key_stripPrefix hstrip)
      change root.components.join rest.components = entry.components
      rw [hwhole]
      by_cases hroot : root.components = []
      · rw [hroot, Components.nil_join, List.nil_append]
      · refine join_inner _ fun component hmem => ?_
        refine entry.components_tail component ?_
        obtain ⟨first, front, hfront⟩ := List.exists_cons_of_ne_nil hroot
        rw [hwhole, hfront, List.cons_append, List.tail_cons]
        exact List.mem_append_right _ hmem
  | none =>
      have houtside : entry.key.startsWith root.key = false := by
        unfold PathBuf.stripPrefix at hstrip
        split at hstrip
        · contradiction
        · next hnot => exact eq_false_of_ne_true hnot
      exact JoinStream.join_absolute _ (habsolute houtside)

section Reading

variable {disk : Disk} {dir root : PathBuf} {location : Location} {name : Str}
  (h : disk.Leads dir location) (hname : Disk.PlainName name)

include h hname

-- The listed path of an entry can be opened, unless the entry is the root itself.
theorem typedFile_usable
    (habsolute : (dir.join ⟨name⟩).key.startsWith root.key = false →
      (dir.join ⟨name⟩).key.components.head? = some .rootDir)
    (hroot : (dir.join ⟨name⟩).key ≠ root.key) :
    (typedFile root (dir.join ⟨name⟩)).fullPath.Usable := by
  have hkey := typedFile_key habsolute
  have hcomponents : (dir.join ⟨name⟩).components = dir.components ++ [.normal name] := by
    rw [PathBuf.components_join, Disk.components_name hname]
    rfl
  refine ⟨fun hnul => ?_, fun segment hsegment hskipped => ?_⟩
  · exact h.join_nul hname (PathBuf.mem_of_components (congrArg Key.components hkey)
      (by decide) (by decide) hnul)
  · obtain ⟨front, hfront⟩ := PathBuf.splitOn_join root
      ((dir.join ⟨name⟩).stripPrefix root |>.getD (dir.join ⟨name⟩))
    change (List.getLast? (List.splitOn '/' (PathBuf.join _ _).text)) = some segment at hsegment
    rw [hfront, List.getLast?_append_of_ne_nil _ (List.splitOn_ne_nil _ _)] at hsegment
    cases hstrip : (dir.join ⟨name⟩).stripPrefix root with
    | none =>
        rw [hstrip] at hsegment
        obtain ⟨segments, hsplit, _⟩ := h.join_walk hname
        rw [Option.getD_none, hsplit, List.getLast?_concat] at hsegment
        exact hname.named (Option.some.inj hsegment ▸ hskipped)
    | some rest =>
        rw [hstrip, Option.getD_some] at hsegment
        have hwhole : (dir.join ⟨name⟩).components = root.components ++ rest.components :=
          Key.stripPrefix_eq_some (PathBuf.key_stripPrefix hstrip)
        have hrest : rest.components ≠ [] := by
          intro hnil
          rw [hnil, List.append_nil] at hwhole
          exact hroot (Key.ext hwhole)
        have hlast : rest.components.getLast? = some (.normal name) := by
          have hlast := congrArg List.getLast? (hcomponents.symm.trans hwhole)
          rw [List.getLast?_concat, List.getLast?_append_of_ne_nil _ hrest] at hlast
          exact hlast.symm
        unfold PathBuf.stripPrefix at hstrip
        split at hstrip
        · obtain rfl := Option.some.inj hstrip
          rcases PathBuf.stripped_last _ _ hsegment hskipped with hend | hend | hend
          · rw [hend] at hlast
            contradiction
          · rw [hend, show PathBuf.components ⟨['/']⟩ = [.rootDir] by decide +kernel] at hlast
            cases hlast
          · rw [hend, show PathBuf.components ⟨['.']⟩ = [.curDir] by decide +kernel] at hlast
            cases hlast
        · contradiction

theorem read_typedFile
    (habsolute : (dir.join ⟨name⟩).key.startsWith root.key = false →
      (dir.join ⟨name⟩).key.components.head? = some .rootDir)
    (hroot : (dir.join ⟨name⟩).key ≠ root.key) {contents : Str}
    (hfile : disk.tree.file (location ++ [name]) = some contents) :
    readFile disk (typedFile root (dir.join ⟨name⟩)) = .ok contents := by
  have hresolve := h.resolve_of_components hname (typedFile_usable h hname habsolute hroot)
    (congrArg Key.components (typedFile_key habsolute))
  unfold readFile
  rw [Disk.read_of_resolve hresolve, FileTree.file_eq_some.mp hfile]
  rfl

end Reading

-- The listed path of the root itself ends in a slash, by which no file is opened.
theorem read_typedFile_root (disk : Disk) {root entry : PathBuf} (hroot : entry.key = root.key) :
    ∃ error, readFile disk (typedFile root entry) = .error error := by
  have hunusable : ¬(typedFile root entry).fullPath.Usable := by
    intro husable
    have hsame : entry.components = root.components := congrArg Key.components hroot
    have hstrip : entry.stripPrefix root = some ⟨[]⟩ := by
      have hnothing : PathBuf.components ⟨entry.stripped root.components.length⟩ = [] := by
        rw [PathBuf.components_stripped, hsame, List.drop_length]
      unfold PathBuf.stripPrefix
      rw [if_pos ((Components.startsWith_iff _ _).mpr (hsame ▸ List.prefix_refl _)),
        show entry.stripped root.components.length = [] from PathBuf.components_eq_nil _ hnothing]
    obtain ⟨front, hfront⟩ := PathBuf.splitOn_join root ⟨[]⟩
    refine husable.2 [] ?_ rfl
    change (List.splitOn '/' (root.join ⟨((entry.stripPrefix root).getD entry).text⟩).text).getLast? = _
    rw [hstrip, Option.getD_some, hfront]
    simp
  unfold readFile Disk.readToString
  cases hresolve : disk.resolve (typedFile root entry).fullPath.text with
  | error error => exact ⟨_, rfl⟩
  | ok location =>
      dsimp only
      rw [Disk.resolve_unusable hresolve hunusable]
      exact ⟨_, rfl⟩

-- Every file below a location, once.
structure Lists (tree : FileTree Str Str) (location : Location) (found : List Location) : Prop where
  nodup : found.Nodup
  mem : ∀ rest, rest ∈ found ↔ (tree.file (location ++ rest)).isSome

section Listing

variable {disk : Disk} (hsound : disk.Sound) (root : PathBuf)
  {recur : PathBuf → List (Path .file) → Option (Except FileError (List (Path .file)))}
  {dir : PathBuf} {location : Location}

include hsound

-- One child of a folder is listed with all the files below it.
theorem collectEntries_lists (h : disk.Leads dir location) {names : List Str}
    (hnodup : names.Nodup) (hnames : ∀ name ∈ names, (disk.tree.kind (location ++ [name])).isSome)
    (hrecur : ∀ name, disk.tree.kind (location ++ [name]) = some .folder →
      ∃ found, Lists disk.tree (location ++ [name]) found ∧ ∀ out, recur (dir.join ⟨name⟩) out =
        some (.ok (out ++ found.map fun rest => typedFile root ((dir.join ⟨name⟩).below rest)))) :
    ∃ found : List Location, found.Nodup ∧
      (∀ rest, rest ∈ found ↔ ∃ name ∈ names, ∃ tail, rest = name :: tail ∧
        (disk.tree.file (location ++ rest)).isSome) ∧
      ∀ out, collectEntries disk root recur dir names out =
        some (.ok (out ++ found.map fun rest => typedFile root (dir.below rest))) := by
  induction names with
  | nil => exact ⟨[], List.nodup_nil, by simp, fun out => by simp [collectEntries]⟩
  | cons name names ih =>
      obtain ⟨hfresh, hrest⟩ := List.nodup_cons.mp hnodup
      obtain ⟨others, hothers, hmem, hlist⟩ := ih hrest fun other hother =>
        hnames other (List.mem_cons_of_mem _ hother)
      have hsome := hnames name List.mem_cons_self
      have hplain : Disk.PlainName name := hsound.named _ hsome name (by simp)
      have hresolve := h.resolve_join hplain
      -- What is found for this name, whatever it is, is found beside the other names.
      have hcons (found : List Location) (hfound : found.Nodup)
          (hfoundmem : ∀ rest, rest ∈ found ↔ ∃ tail, rest = name :: tail ∧
            (disk.tree.file (location ++ rest)).isSome)
          (hfoundlist : ∀ out, collectEntries disk root recur dir (name :: names) out =
            collectEntries disk root recur dir names
              (out ++ found.map fun rest => typedFile root (dir.below rest))) :
          ∃ found : List Location, found.Nodup ∧
            (∀ rest, rest ∈ found ↔ ∃ other ∈ name :: names, ∃ tail, rest = other :: tail ∧
              (disk.tree.file (location ++ rest)).isSome) ∧
            ∀ out, collectEntries disk root recur dir (name :: names) out =
              some (.ok (out ++ found.map fun rest => typedFile root (dir.below rest))) := by
        refine ⟨found ++ others, ?_, fun rest => ?_, fun out => ?_⟩
        · refine List.nodup_append'.mpr ⟨hfound, hothers, fun rest hleft hright => ?_⟩
          obtain ⟨tail, rfl, _⟩ := (hfoundmem rest).mp hleft
          obtain ⟨other, hother, tail', heq, _⟩ := (hmem _).mp hright
          exact hfresh ((List.cons.inj heq).1 ▸ hother)
        · rw [List.mem_append, hfoundmem, hmem]
          simp only [List.exists_mem_cons_iff]
        · rw [hfoundlist, hlist, List.map_append, List.append_assoc]
      obtain ⟨entry, hentry⟩ := Option.isSome_iff_exists.mp hsome
      cases entry with
      | folder =>
          obtain ⟨found, hfound, hall⟩ := hrecur name hentry
          refine hcons (found.map (name :: ·)) (hfound.nodup.map List.cons_injective) ?_ ?_
          · intro rest
            rw [List.mem_map]
            constructor
            · rintro ⟨tail, htail, rfl⟩
              refine ⟨tail, rfl, ?_⟩
              have hfile := (hfound.mem tail).mp htail
              rwa [List.append_assoc] at hfile
            · rintro ⟨tail, rfl, hfile⟩
              refine ⟨tail, (hfound.mem tail).mpr ?_, rfl⟩
              rw [List.append_assoc]
              exact hfile
          · intro out
            rw [collectEntries]
            rw [if_pos ((Disk.isDir_iff hresolve).mpr hentry), hall, List.map_map]
            rfl
      | file contents =>
          have hnot : disk.tree.kind (location ++ [name]) ≠ some .folder := by
            rw [hentry]
            simp
          refine hcons [[name]] (List.nodup_singleton _) ?_ ?_
          · intro rest
            rw [List.mem_singleton]
            constructor
            · rintro rfl
              refine ⟨[], rfl, ?_⟩
              rw [FileTree.file_eq_some.mpr hentry]
              rfl
            · rintro ⟨tail, rfl, hfile⟩
              cases tail with
              | nil => rfl
              | cons next tail =>
                  refine absurd ?_ hnot
                  refine hsound.rooted.folder_of_prefix (List.cons_ne_nil next tail) ?_
                  rw [List.append_assoc]
                  exact FileTree.kind_of_file hfile
          · intro out
            have hread : disk.isFile (dir.join ⟨name⟩) = true := by
              unfold Disk.isFile
              rw [Disk.read_of_resolve hresolve, hentry]
              rfl
            rw [collectEntries]
            rw [if_neg fun hdir => hnot ((Disk.isDir_iff hresolve).mp hdir), if_pos hread]
            rfl

-- Deep enough, the listing meets every file below the folder once.
theorem collectFiles_lists {depth : Nat} (hbounded : disk.tree.Bounded location depth) (fuel : Nat)
    (path : Location) (hfuel : depth < fuel + path.length) (hnonempty : dir.text ≠ [])
    (h : disk.Leads dir (location ++ path)) :
    ∃ found, Lists disk.tree (location ++ path) found ∧ ∀ out, collectFiles disk root fuel dir out =
      some (.ok (out ++ found.map fun rest => typedFile root (dir.below rest))) := by
  induction fuel generalizing dir path with
  | zero =>
      have hlength := hbounded path (by rw [h.folder]; rfl)
      omega
  | succ fuel ih =>
      have hread := Disk.readDir_ok.mpr ⟨hnonempty, _, h, rfl⟩
      have hchildren (name : Str) := disk.tree.mem_children (location ++ path) name
      have hrecur (name : Str) (hfolder : disk.tree.kind (location ++ path ++ [name]) = some .folder) :
          ∃ found, Lists disk.tree (location ++ path ++ [name]) found ∧ ∀ out,
            collectFiles disk root fuel (dir.join ⟨name⟩) out = some (.ok
              (out ++ found.map fun rest => typedFile root ((dir.join ⟨name⟩).below rest))) := by
        have hplain : Disk.PlainName name := hsound.named _ (by rw [hfolder]; rfl) name (by simp)
        have hjoin := h.join hplain hfolder
        have hempty := (Disk.resolve_ok.mp (h.resolve_join hplain)).2.1
        rw [List.append_assoc] at hjoin ⊢
        refine ih (path ++ [name]) ?_ hempty hjoin
        rw [List.length_append, List.length_singleton]
        omega
      obtain ⟨found, hnodup, hmem, hlist⟩ := collectEntries_lists hsound root h
        (disk.tree.children_nodup (location ++ path)) (fun name hname => (hchildren name).mp hname)
        hrecur
      refine ⟨found, ⟨hnodup, fun rest => ?_⟩, fun out => ?_⟩
      · rw [hmem]
        constructor
        · rintro ⟨name, _, tail, _, hfile⟩
          exact hfile
        · intro hfile
          cases rest with
          | nil =>
              rw [List.append_nil, FileTree.file, h.folder] at hfile
              contradiction
          | cons name tail =>
              exact ⟨name, (hchildren name).mpr (FileTree.kind_child hsound.rooted hfile), tail,
                rfl, hfile⟩
      · rw [collectFiles, hread]
        exact hlist out

end Listing

section Fuel

variable {disk : Disk} {root : PathBuf}
  {recur more : PathBuf → List (Path .file) → Option (Except FileError (List (Path .file)))}

theorem collectEntries_more {dir : PathBuf} {names : List Str} {out : List (Path .file)}
    {result : Except FileError (List (Path .file))}
    (hmore : ∀ dir out result, recur dir out = some result → more dir out = some result)
    (h : collectEntries disk root recur dir names out = some result) :
    collectEntries disk root more dir names out = some result := by
  induction names generalizing out with
  | nil => exact h
  | cons name names ih =>
      unfold collectEntries at h ⊢
      dsimp only at h ⊢
      split
      · next hdir =>
        rw [if_pos hdir] at h
        cases hbelow : recur (dir.join ⟨name⟩) out with
        | none =>
            rw [hbelow] at h
            contradiction
        | some below =>
            rw [hbelow] at h
            rw [hmore _ _ _ hbelow]
            cases below with
            | error error => exact h
            | ok below => exact ih h
      · next hdir =>
        rw [if_neg hdir] at h
        split
        · next hfile =>
          rw [if_pos hfile] at h
          exact ih h
        · next hfile =>
          rw [if_neg hfile] at h
          exact ih h

theorem collectFiles_more {fuel more : Nat} (hle : fuel ≤ more) {dir : PathBuf}
    {out : List (Path .file)} {result : Except FileError (List (Path .file))}
    (h : collectFiles disk root fuel dir out = some result) :
    collectFiles disk root more dir out = some result := by
  induction fuel generalizing more dir out result with
  | zero => cases h
  | succ fuel ih =>
      obtain ⟨more, rfl⟩ := Nat.exists_eq_succ_of_ne_zero (show more ≠ 0 by omega)
      unfold collectFiles at h ⊢
      cases hread : disk.readDir dir with
      | error error =>
          rw [hread] at h
          exact h
      | ok names =>
          rw [hread] at h
          exact collectEntries_more (fun _ _ _ => ih (by omega)) h

end Fuel

end BlockingDiskIo

namespace JoinStream

open BlockingDiskIo (Lists typedFile allChildFiles collectFiles)

theorem filesBelow_perm {disk : Disk} {location : Location} {found : List Location}
    (h : Lists disk.tree location found) (path : PathBuf) :
    (filesBelow disk path location).Perm (found.filterMap fun rest =>
      (disk.tree.file (location ++ rest)).map fun contents => ((path.below rest).key, contents)) := by
  let below := (disk.tree.entries.keys.filter fun entry => location.isPrefixOf entry).map
    fun entry => entry.drop location.length
  have hback {entry : Location} (h : entry ∈ disk.tree.entries.keys.filter fun entry =>
      location.isPrefixOf entry) : location ++ entry.drop location.length = entry := by
    obtain ⟨rest, rfl⟩ := List.isPrefixOf_iff_prefix.mp (List.mem_filter.mp h).2
    rw [List.drop_left]
  have hnodup : below.Nodup := by
    refine (disk.tree.entries.keys_nodup.filter _).map_on fun entry hentry other hother heq => ?_
    rw [← hback hentry, ← hback hother, heq]
  have hfiles : (below.filter fun rest => (disk.tree.file (location ++ rest)).isSome).Perm found := by
    refine (List.perm_ext_iff_of_nodup (hnodup.filter _) h.nodup).mpr fun rest => ?_
    rw [List.mem_filter, h.mem]
    refine ⟨fun hmem => hmem.2, fun hfile => ⟨?_, hfile⟩⟩
    obtain ⟨contents, hcontents⟩ := Option.isSome_iff_exists.mp hfile
    have hkey : location ++ rest ∈ disk.tree.entries.keys := by
      have hkind := FileTree.file_eq_some.mp hcontents
      unfold FileTree.kind at hkind
      rw [if_neg (FileTree.file_ne_root hcontents)] at hkind
      rw [HashMap.mem_keys, hkind]
      rfl
    refine List.mem_map.mpr ⟨location ++ rest, List.mem_filter.mpr ⟨hkey, ?_⟩, List.drop_left⟩
    exact List.isPrefixOf_iff_prefix.mpr (List.prefix_append _ _)
  refine List.Perm.trans (List.Perm.of_eq ?_) (hfiles.filterMap _)
  rw [List.filterMap_filter]
  refine List.filterMap_congr fun rest _ => ?_
  cases disk.tree.file (location ++ rest) with
  | none => rfl
  | some contents => rfl

section Disk

variable {disk : Disk} (hsound : disk.Sound) {path : PathBuf} {location : Location}

include hsound

theorem plain_of_file {rest : Location} (hfile : (disk.tree.file (location ++ rest)).isSome) :
    ∀ name ∈ rest, Disk.PlainName name := fun name hname =>
  hsound.named _ (FileTree.kind_of_file hfile) name (List.mem_append_right _ hname)

theorem key_below_inj {rest other : Location} (hrest : (disk.tree.file (location ++ rest)).isSome)
    (hother : (disk.tree.file (location ++ other)).isSome)
    (heq : (path.below rest).key = (path.below other).key) : rest = other := by
  have hcomponents := congrArg PathBuf.Key.components heq
  change (path.below rest).components = (path.below other).components at hcomponents
  rw [Disk.components_below (plain_of_file hsound hrest),
    Disk.components_below (plain_of_file hsound hother)] at hcomponents
  exact List.map_injective_iff.mpr (fun _ _ => Component.normal.inj)
    (List.append_cancel_left hcomponents)

theorem absolute_below {root rel : Str} (hpath : path = (Path.build root rel : Path .folder).fullPath)
    {rest : Location} (hfile : (disk.tree.file (location ++ rest)).isSome)
    (houtside : (path.below rest).key.startsWith (PathBuf.mk root).key = false) :
    (path.below rest).key.components.head? = some .rootDir := by
  have hunder : (path.below rest).key.startsWith (Path.build root rel : Path .folder).key = true := by
    refine (Components.startsWith_iff _ _).mpr ?_
    change (Path.build root rel : Path .folder).fullPath.components <+: (path.below rest).components
    rw [← hpath, Disk.components_below (plain_of_file hsound hfile)]
    exact List.prefix_append _ _
  exact absolute_of_outside hunder houtside

-- A file below the path stands in a folder that the path leads on to.
theorem exists_entry (h : disk.Leads path location) {rest : Location}
    (hfile : (disk.tree.file (location ++ rest)).isSome) :
    ∃ front name, rest = front ++ [name] ∧ Disk.PlainName name ∧
      disk.Leads (path.below front) (location ++ front) ∧
        path.below rest = (path.below front).join ⟨name⟩ := by
  have hplain := plain_of_file hsound hfile
  rcases List.eq_nil_or_concat' rest with rfl | ⟨front, name, rfl⟩
  · rw [List.append_nil, FileTree.file, h.folder] at hfile
    contradiction
  · have hkind : disk.tree.kind (location ++ front) = some .folder := by
      refine hsound.rooted _ name ?_
      rw [List.append_assoc]
      exact FileTree.kind_of_file hfile
    refine ⟨front, name, rfl, hplain name (by simp), ?_, ?_⟩
    · exact h.below hsound.rooted (fun other hother => hplain other (List.mem_append_left _ hother))
        hkind
    · unfold PathBuf.below
      rw [List.foldl_append]
      rfl

end Disk

-- What the listing of a folder hands out for a file below it.
def listedAt (root : Str) (folder : Path .folder) (rest : Location) : Path .file :=
  typedFile ⟨root⟩ (folder.fullPath.below rest)

section Listed

variable {disk : Disk} (hsound : disk.Sound) {location : Location} {root rel : Str}
  {folder : Path .folder} (hfolder : folder = Path.build root rel)

include hsound hfolder

theorem key_listedAt {rest : Location} (hfile : (disk.tree.file (location ++ rest)).isSome) :
    (listedAt root folder rest).key = (folder.fullPath.below rest).key :=
  BlockingDiskIo.typedFile_key (absolute_below hsound (congrArg Path.fullPath hfolder) hfile)

-- What is streamed of a listed file.
theorem streamed_listedAt (Doc : Type) [Yrs Doc] (h : disk.Leads folder.fullPath location)
    {rest : Location} {contents : Str} (hfile : disk.tree.file (location ++ rest) = some contents)
    (hroot : (folder.fullPath.below rest).key ≠ (PathBuf.mk root).key) :
    streamed Doc disk (listedAt root folder rest) =
      some ((listedAt root folder rest).relativeString, stateOf Doc contents) := by
  have hsome : (disk.tree.file (location ++ rest)).isSome := by rw [hfile]; rfl
  have habsolute (houtside : (folder.fullPath.below rest).key.startsWith (PathBuf.mk root).key =
      false) := absolute_below hsound (congrArg Path.fullPath hfolder) hsome houtside
  obtain ⟨front, name, rfl, hname, hleads, hentry⟩ := exists_entry hsound h hsome
  unfold listedAt
  rw [← List.append_assoc] at hfile
  rw [hentry] at habsolute hroot ⊢
  exact streamed_of_ok (BlockingDiskIo.read_typedFile hleads hname habsolute hroot hfile)

theorem listing_perm (Doc : Type) [Yrs Doc] {found : List Location}
    (hfound : Lists disk.tree location found) :
    (MemFileStreamer.states (MemFileGuard.new.loadAll disk (found.map (listedAt root folder)) :
      MemFileGuard Doc × Disk).1).Perm
        (found.filterMap fun rest => streamed Doc disk (listedAt root folder rest)) := by
  have hfresh : ∀ path ∈ found.map (listedAt root folder),
      (MemFileGuard.new : MemFileGuard Doc).fileMap.lookup path.key = none :=
    fun path _ => HashMap.lookup_new path.key
  have hnodup : ((found.map (listedAt root folder)).map Path.key).Nodup := by
    rw [List.map_map]
    refine hfound.nodup.map_on fun rest hrest other hother heq => ?_
    have hrest := (hfound.mem rest).mp hrest
    have hother := (hfound.mem other).mp hother
    rw [Function.comp_apply, Function.comp_apply, key_listedAt hsound hfolder hrest,
      key_listedAt hsound hfolder hother] at heq
    exact key_below_inj hsound hrest hother heq
  refine (loadAll_states hnodup hfresh).trans (List.Perm.of_eq ?_)
  have hnone : MemFileStreamer.states (MemFileGuard.new : MemFileGuard Doc) = [] := rfl
  rw [hnone, List.append_nil, List.filterMap_map]
  rfl

-- The files of a folder are streamed if none of them is the root itself.
theorem streams_listed (Doc : Type) [Yrs Doc] (h : disk.Leads folder.fullPath location)
    {found : List Location} (hfound : Lists disk.tree location found)
    (hroot : ∀ rest, (disk.tree.file (location ++ rest)).isSome →
      (folder.fullPath.below rest).key ≠ (PathBuf.mk root).key) :
    Streams Doc root (filesBelow disk folder.fullPath location)
      (MemFileStreamer.states (MemFileGuard.new.loadAll disk (found.map (listedAt root folder)) :
        MemFileGuard Doc × Disk).1) := by
  have hperm := listing_perm hsound hfolder Doc hfound
  have hpairs : (found.filterMap fun rest => streamed Doc disk (listedAt root folder rest)) =
      found.filterMap fun rest => (disk.tree.file (location ++ rest)).map fun contents =>
        ((listedAt root folder rest).relativeString, stateOf Doc contents) := by
    refine List.filterMap_congr fun rest hrest => ?_
    have hsome := (hfound.mem rest).mp hrest
    obtain ⟨contents, hcontents⟩ := Option.isSome_iff_exists.mp hsome
    rw [streamed_listedAt hsound hfolder Doc h hcontents (hroot rest hsome), hcontents]
    rfl
  rw [hpairs] at hperm
  have hplace {rest : Location} (hrest : (disk.tree.file (location ++ rest)).isSome) :
      placeOf root (listedAt root folder rest).relativeString = (folder.fullPath.below rest).key :=
    key_listedAt hsound hfolder hrest
  have hplaced := hperm.map fun pair => (placeOf root pair.1, pair.2)
  have hfiles := (filesBelow_perm hfound folder.fullPath).map fun file => (file.1, stateOf Doc file.2)
  have hsame : ((found.filterMap fun rest => (disk.tree.file (location ++ rest)).map fun contents =>
        ((listedAt root folder rest).relativeString, stateOf Doc contents)).map
          fun pair => (placeOf root pair.1, pair.2)) =
      (found.filterMap fun rest => (disk.tree.file (location ++ rest)).map fun contents =>
        ((folder.fullPath.below rest).key, contents)).map fun file => (file.1, stateOf Doc file.2) := by
    rw [List.map_filterMap, List.map_filterMap]
    refine List.filterMap_congr fun rest hrest => ?_
    rw [Option.map_map, Option.map_map]
    refine Option.map_congr fun contents _ => ?_
    simp [hplace ((hfound.mem rest).mp hrest)]
  rw [hsame] at hplaced
  refine ⟨hplaced.trans hfiles.symm, fun pair hpair => ?_, ?_⟩
  · obtain ⟨rest, hrest, hvalue⟩ := List.mem_filterMap.mp (hperm.mem_iff.mp hpair)
    obtain ⟨contents, _, rfl⟩ := Option.map_eq_some_iff.mp hvalue
    dsimp only
    rw [hplace ((hfound.mem rest).mp hrest)]
    exact BlockingDiskIo.typedFile_relative _ _
  · have hkeys := hplaced.map Prod.fst
    rw [List.map_map, List.map_map] at hkeys
    refine hkeys.nodup_iff.mpr ?_
    change ((found.filterMap fun rest => (disk.tree.file (location ++ rest)).map fun contents =>
      ((folder.fullPath.below rest).key, contents)).map Prod.fst).Nodup
    rw [map_fst_filterMap _ _ fun rest hrest => (hfound.mem rest).mp hrest]
    exact hfound.nodup.map_on fun rest hrest other hother heq =>
      key_below_inj hsound ((hfound.mem rest).mp hrest) ((hfound.mem other).mp hother) heq

-- The root itself, listed as a file, is not read.
theorem root_of_streams (Doc : Type) [Yrs Doc] {found : List Location}
    (hfound : Lists disk.tree location found)
    (h : Streams Doc root (filesBelow disk folder.fullPath location)
      (MemFileStreamer.states (MemFileGuard.new.loadAll disk (found.map (listedAt root folder)) :
        MemFileGuard Doc × Disk).1))
    {rest : Location} (hfile : (disk.tree.file (location ++ rest)).isSome) :
    (folder.fullPath.below rest).key ≠ (PathBuf.mk root).key := by
  intro hroot
  have hunread : streamed Doc disk (listedAt root folder rest) = none := by
    obtain ⟨error, herror⟩ := BlockingDiskIo.read_typedFile_root disk hroot
    exact streamed_of_error herror
  have hfewer : (found.filterMap fun rest => streamed Doc disk (listedAt root folder rest)).length <
      found.length :=
    List.length_filterMap_lt_length_iff_exists.mpr ⟨rest, (hfound.mem rest).mpr hfile, hunread⟩
  have hall : (filesBelow disk folder.fullPath location).length = found.length := by
    have hfirst := congrArg List.length (map_fst_filterMap found
      (fun rest => (folder.fullPath.below rest).key) fun rest hrest => (hfound.mem rest).mp hrest)
    rw [List.length_map, List.length_map] at hfirst
    exact (filesBelow_perm hfound folder.fullPath).length_eq.trans hfirst
  have hlength := h.placed.length_eq
  rw [List.length_map, List.length_map, (listing_perm hsound hfolder Doc hfound).length_eq,
    hall] at hlength
  omega

end Listed

-- The disk engine lists a folder, and the guard streams what was listed.
structure DiskJoins (Doc : Type) [Yrs Doc] (disk : Disk) (root rel : Str) : Prop where
  ends : ∃ fuel, allChildFiles fuel disk (Path.build root rel) ≠ none
  joins : ∀ fuel listing location, allChildFiles fuel disk (Path.build root rel) = some listing →
    disk.Leads (Path.build root rel : Path .folder).fullPath location →
      Joins Doc disk root (filesBelow disk (Path.build root rel : Path .folder).fullPath location)
        listing

-- No file below the folder is the root that the folder is asked for with.
def RootFree (disk : Disk) (root rel : Str) : Prop :=
  (Path.build root rel : Path .folder).fullPath.text ≠ [] →
    ∀ location, disk.Leads (Path.build root rel : Path .folder).fullPath location →
      ∀ rest, (disk.tree.file (location ++ rest)).isSome →
        ((Path.build root rel : Path .folder).fullPath.below rest).key ≠ (PathBuf.mk root).key

theorem listing_of_leads {disk : Disk} (hsound : disk.Sound) {root rel : Str} {location : Location}
    (htext : (Path.build root rel : Path .folder).fullPath.text ≠ [])
    (h : disk.Leads (Path.build root rel : Path .folder).fullPath location) :
    ∃ found fuel, Lists disk.tree location found ∧
      allChildFiles fuel disk (Path.build root rel) =
        some (.ok (found.map (listedAt root (Path.build root rel)))) := by
  obtain ⟨depth, hbounded⟩ := disk.tree.exists_bounded location
  rw [← List.append_nil location] at h
  obtain ⟨found, hfound, hlist⟩ := BlockingDiskIo.collectFiles_lists hsound ⟨root⟩ hbounded
    (depth + 1) [] (by simp) htext h
  rw [List.append_nil] at hfound
  exact ⟨found, depth + 1, hfound, hlist []⟩

theorem listing_of_unreadable {disk : Disk} {root rel : Str}
    (h : ¬∃ names, disk.readDir (Path.build root rel : Path .folder).fullPath = .ok names)
    (fuel : Nat) :
    ∃ error, allChildFiles (fuel + 1) disk (Path.build root rel) = some (.error error) := by
  unfold allChildFiles
  rw [collectFiles]
  cases hread : disk.readDir (Path.build root rel : Path .folder).fullPath with
  | error error => exact ⟨_, rfl⟩
  | ok names => exact absurd ⟨names, hread⟩ h

theorem disk_joins_iff (Doc : Type) [Yrs Doc] {disk : Disk} (hsound : disk.Sound)
    (root rel : Str) : DiskJoins Doc disk root rel ↔ RootFree disk root rel := by
  constructor
  · intro hjoins htext location hleads rest hfile
    obtain ⟨found, fuel, hfound, hlist⟩ := listing_of_leads hsound htext hleads
    have hstreams := hjoins.joins fuel _ location hlist hleads _ rfl
    exact root_of_streams hsound rfl Doc hfound hstreams hfile
  · intro hroot
    refine ⟨?_, fun fuel listing location hlisting hleads paths hpaths => ?_⟩
    · by_cases hread : ∃ names, disk.readDir (Path.build root rel : Path .folder).fullPath = .ok names
      · obtain ⟨names, hnames⟩ := hread
        obtain ⟨htext, location, hleads, _⟩ := Disk.readDir_ok.mp hnames
        obtain ⟨found, fuel, _, hlist⟩ := listing_of_leads hsound htext hleads
        exact ⟨fuel, by rw [hlist]; simp⟩
      · obtain ⟨error, herror⟩ := listing_of_unreadable hread 0
        exact ⟨1, by rw [herror]; simp⟩
    · subst hpaths
      have htext : (Path.build root rel : Path .folder).fullPath.text ≠ [] := by
        intro hempty
        have hread : ¬∃ names, disk.readDir (Path.build root rel : Path .folder).fullPath =
            .ok names := fun ⟨names, hnames⟩ => (Disk.readDir_ok.mp hnames).1 hempty
        cases fuel with
        | zero => cases hlisting
        | succ fuel =>
            obtain ⟨error, herror⟩ := listing_of_unreadable hread fuel
            rw [herror] at hlisting
            cases hlisting
      obtain ⟨found, enough, hfound, hlist⟩ := listing_of_leads hsound htext hleads
      have hmore := BlockingDiskIo.collectFiles_more (Nat.le_max_left fuel enough) hlisting
      have hsame := BlockingDiskIo.collectFiles_more (Nat.le_max_right fuel enough) hlist
      obtain rfl := Except.ok.inj (Option.some.inj (hmore.symm.trans hsame))
      exact streams_listed hsound rfl Doc hleads hfound (hroot htext location hleads)

end JoinStream

end Saps.Files
