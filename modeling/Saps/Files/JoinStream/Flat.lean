import Mathlib.Data.Finset.Max
import Saps.Files.FlatEngines.Theorems
import Saps.Files.JoinStream

-- The join stream of the engines that keep a map from paths to texts.
namespace Saps.Files.JoinStream

open MemFileStreamer (states)

section Loading

variable {Doc : Type} [Yrs Doc] {Store : Type} [FileIo Store]

-- The pair of a file that is loaded.
def streamed (Doc : Type) [Yrs Doc] (store : Store) (path : Path .file) :
    Option (Str × Yrs.Update Doc) :=
  match FileIo.readFile store path with
  | .ok contents => some (path.relativeString, stateOf Doc contents)
  | .error _ => none

theorem streamed_of_ok {store : Store} {path : Path .file} {contents : Str}
    (h : FileIo.readFile store path = .ok contents) :
    streamed Doc store path = some (path.relativeString, stateOf Doc contents) := by
  unfold streamed
  rw [h]

theorem streamed_of_error {store : Store} {path : Path .file} {error : FileError}
    (h : FileIo.readFile store path = .error error) : streamed Doc store path = none := by
  unfold streamed
  rw [h]

-- Files that are not open yet are loaded one beside the other, and the store is only read.
theorem loadAll_states {store : Store} {listed : List (Path .file)} {guard : MemFileGuard Doc}
    (hnodup : (listed.map Path.key).Nodup)
    (hfresh : ∀ path ∈ listed, guard.fileMap.lookup path.key = none) :
    (states (guard.loadAll store listed).1).Perm
      (listed.filterMap (streamed Doc store) ++ states guard) := by
  induction listed generalizing guard with
  | nil => exact .refl _
  | cons path listed ih =>
      obtain ⟨hnew, hrest⟩ := List.nodup_cons.mp hnodup
      have hnone := hfresh path List.mem_cons_self
      unfold MemFileGuard.loadAll
      rw [List.foldl_cons]
      cases hread : FileIo.readFile store path with
      | error error =>
          have hadd : (guard.addFile store path).2 = (guard, store) := by
            unfold MemFileGuard.addFile MemFile.fromFile
            rw [hread]
          rw [hadd, List.filterMap_cons_none (streamed_of_error hread)]
          exact ih hrest fun other hother => hfresh other (List.mem_cons_of_mem _ hother)
      | ok contents =>
          let loaded : MemFileGuard Doc :=
            ⟨guard.fileMap.insert path.key (.fromString path contents)⟩
          have hadd : (guard.addFile store path).2 = (loaded, store) := by
            unfold MemFileGuard.addFile MemFile.fromFile
            rw [hread]
            dsimp only
            rw [hnone]
          have hstates : (states loaded).Perm
              ((path.relativeString, stateOf Doc contents) :: states guard) :=
            (guard.fileMap.values_insert_perm hnone _).map _
          have hothers (other : Path .file) (hother : other ∈ listed) :
              loaded.fileMap.lookup other.key = none := by
            rw [HashMap.lookup_insert, if_neg]
            · exact hfresh other (List.mem_cons_of_mem _ hother)
            · intro heq
              exact hnew (heq ▸ List.mem_map_of_mem hother)
          rw [hadd, List.filterMap_cons_some (streamed_of_ok hread)]
          refine (ih hrest hothers).trans ?_
          refine (hstates.append_left _).trans ?_
          exact List.perm_middle

-- What is open stays open, and what can be read whatever is written is opened.
theorem loadAll_present (holds : Store → Prop) {listed : List (Path .file)}
    (hread : ∀ store, holds store → ∀ path ∈ listed, ∃ contents,
      FileIo.readFile store path = .ok contents)
    (hwrite : ∀ (file : MemFile Doc) store, holds store → holds (file.drop store))
    {store : Store} (hholds : holds store) {guard : MemFileGuard Doc} {key : PathBuf.Key}
    (h : (guard.fileMap.lookup key).isSome ∨ key ∈ listed.map Path.key) :
    ((guard.loadAll store listed).1.fileMap.lookup key).isSome := by
  induction listed generalizing guard store with
  | nil => exact h.resolve_right (by simp)
  | cons path listed ih =>
      obtain ⟨contents, hcontents⟩ := hread store hholds path List.mem_cons_self
      obtain ⟨after, hafter, hadd⟩ : ∃ after, holds after ∧ (guard.addFile store path).2 =
          (⟨guard.fileMap.insert path.key (.fromString path contents)⟩, after) := by
        unfold MemFileGuard.addFile MemFile.fromFile
        rw [hcontents]
        dsimp only
        cases guard.fileMap.lookup path.key with
        | none => exact ⟨store, hholds, rfl⟩
        | some old => exact ⟨old.drop store, hwrite old store hholds, rfl⟩
      unfold MemFileGuard.loadAll
      rw [List.foldl_cons, hadd]
      refine ih (fun store hstore other hother =>
        hread store hstore other (List.mem_cons_of_mem _ hother)) hafter ?_
      by_cases heq : key = path.key
      · exact .inl (by simp [heq])
      · rw [HashMap.lookup_insert, if_neg heq]
        exact h.imp_right fun hmem => (List.mem_cons.mp hmem).resolve_left heq

end Loading

section Keys

open PathBuf (Key)

theorem fullPath_new {kind : PathType} (text : Str) :
    (Path.new text : Path kind).fullPath = ⟨text⟩ := by
  unfold Path.new Path.build PathBuf.join
  simp

theorem components_placeOf (root key : Str) :
    (placeOf root key).components = (PathBuf.mk root).components.join (PathBuf.mk key).components :=
  PathBuf.components_join _ _

theorem relativeTo_of_append {root path rest : Key}
    (h : path.components = root.components ++ rest.components) : root.relativeTo path = rest := by
  unfold Key.relativeTo Key.stripPrefix
  have hprefix : path.startsWith root = true :=
    (Components.startsWith_iff _ _).mpr (h ▸ List.prefix_append _ _)
  rw [if_pos hprefix, Option.getD_some]
  refine Key.ext ?_
  simp [h]

theorem relativeTo_of_outside {root path : Key} (h : path.startsWith root = false) :
    root.relativeTo path = path := by
  unfold Key.relativeTo Key.stripPrefix
  rw [if_neg (by simp [h])]
  rfl

-- Beneath a folder, only an absolute path does not lie under the root of the folder.
theorem absolute_of_outside {root rel : Str} {key : Key}
    (hunder : key.startsWith (Path.build root rel : Path .folder).key = true)
    (houtside : key.startsWith (PathBuf.mk root).key = false) :
    key.components.head? = some .rootDir := by
  have hunder := (Components.startsWith_iff _ _).mp hunder
  have hfolder : (Path.build root rel : Path .folder).key.components =
      (PathBuf.mk root).components.join (PathBuf.mk rel).components :=
    PathBuf.components_join _ _
  rw [hfolder] at hunder
  by_cases hrel : (PathBuf.mk rel).components.head? = some .rootDir
  · obtain ⟨rest, hrest⟩ := List.head?_eq_some_iff.mp hrel
    rw [hrest] at hunder
    obtain ⟨tail, htail⟩ := hunder
    rw [← htail]
    rfl
  · have hroot := (Components.startsWith_iff _ _).mp
      (Components.startsWith_join (PathBuf.mk root).components _ hrel)
    have hstarts : key.startsWith (PathBuf.mk root).key = true :=
      (Components.startsWith_iff _ _).mpr (hroot.trans hunder)
    rw [hstarts] at houtside
    contradiction

theorem join_absolute (base : Components) {rel : Components} (h : rel.head? = some .rootDir) :
    base.join rel = rel := by
  obtain ⟨rest, rfl⟩ := List.head?_eq_some_iff.mp h
  rfl

-- A whole path is placed where it belongs from an empty root, and from one that it is not under.
theorem placeOf_whole {root text : Str} (h : root = [] ∨
    (PathBuf.mk text).key.startsWith (PathBuf.mk root).key = false ∧
      (PathBuf.mk text).components.head? = some .rootDir) :
    placeOf root text = (PathBuf.mk text).key ∧
      (PathBuf.mk root).key.relativeTo (PathBuf.mk text).key = (PathBuf.mk text).key := by
  rcases h with rfl | ⟨houtside, habsolute⟩
  · refine ⟨PathBuf.Key.ext ?_, relativeTo_of_append rfl⟩
    rw [components_placeOf]
    exact Components.nil_join _
  · refine ⟨PathBuf.Key.ext ?_, relativeTo_of_outside houtside⟩
    rw [components_placeOf, join_absolute _ habsolute]
    rfl

-- Behind a root that the path lies under, the join puts the root in front once more or not
-- at all.
theorem join_under {base rel : Components} (hbase : base ≠ []) (h : base <+: rel) :
    ∃ rest, base.join rel = base ++ rest ∧ (rest = rel ∨ rest.length < rel.length) := by
  obtain ⟨tail, rfl⟩ := h
  have htail : tail.length < (base ++ tail).length := by
    have := List.length_pos_iff.mpr hbase
    rw [List.length_append]
    omega
  obtain ⟨first, front, rfl⟩ := List.exists_cons_of_ne_nil hbase
  cases first with
  | rootDir => exact ⟨tail, rfl, .inr htail⟩
  | curDir => exact ⟨front ++ tail, rfl, .inr (by simp)⟩
  | parentDir => exact ⟨_, rfl, .inl rfl⟩
  | normal name => exact ⟨_, rfl, .inl rfl⟩

-- Under another root a whole path is placed further down, if it is relative at all.
theorem placeOf_under {root text : Str} (hroot : root ≠ [])
    (hunder : (PathBuf.mk text).key.startsWith (PathBuf.mk root).key = true)
    (hrelative : (PathBuf.mk text).key = (PathBuf.mk root).key.relativeTo (placeOf root text)) :
    (placeOf root text).startsWith (PathBuf.mk root).key = true ∧
      (PathBuf.mk text).key.components.length < (placeOf root text).components.length := by
  have hbase : (PathBuf.mk root).components ≠ [] := fun h =>
    hroot (PathBuf.components_eq_nil _ h)
  obtain ⟨rest, hjoin, hrest⟩ := join_under hbase ((Components.startsWith_iff _ _).mp hunder)
  have hplace : (placeOf root text).components = (PathBuf.mk root).components ++ rest :=
    (components_placeOf root text).trans hjoin
  have hstrip : (PathBuf.mk text).components = rest := by
    have hstarts : (placeOf root text).startsWith (PathBuf.mk root).key = true :=
      (Components.startsWith_iff _ _).mpr (hplace ▸ List.prefix_append _ _)
    unfold Key.relativeTo Key.stripPrefix at hrelative
    rw [if_pos hstarts, Option.getD_some] at hrelative
    have hcomponents := congrArg Key.components hrelative
    dsimp only at hcomponents
    rw [hplace] at hcomponents
    exact hcomponents.trans List.drop_left
  refine ⟨(Components.startsWith_iff _ _).mpr (hplace ▸ List.prefix_append _ _), ?_⟩
  have hlength := List.length_pos_iff.mpr hbase
  have heq : (PathBuf.mk text).key.components = rest := hstrip
  rw [hplace, heq, List.length_append]
  omega

end Keys

section Flat

variable {Name : Type} [DecidableEq Name] {files : HashMap Name Str} {meaning : Name → PathBuf.Key}

theorem map_fst_filterMap {Item Place Value : Type} (items : List Item) (place : Item → Place)
    {value : Item → Option Value} (h : ∀ item ∈ items, (value item).isSome) :
    (items.filterMap fun item => (value item).map fun found => (place item, found)).map Prod.fst =
      items.map place := by
  rw [List.map_filterMap, ← List.filterMap_eq_map]
  refine List.filterMap_congr fun item hitem => ?_
  obtain ⟨found, hfound⟩ := Option.isSome_iff_exists.mp (h item hitem)
  rw [hfound]
  rfl

theorem filesBeneath_eq (files : HashMap Name Str) (meaning : Name → PathBuf.Key)
    (folder : Path .folder) :
    (filesBeneath files meaning folder).map Prod.fst =
      (files.keys.filter fun name => folder.Beneath (meaning name)).map meaning :=
  map_fst_filterMap _ meaning fun name hname =>
    (files.mem_keys name).mp (List.mem_of_mem_filter hname)

variable {Doc : Type} [Yrs Doc] {root rel : Str} {text : Name → Str}

-- Of the whole paths of the files beneath a folder, none may lie under the root.
theorem outside_of_streams {pairs : List (Str × Yrs.Update Doc)}
    (htext : ∀ name, (files.lookup name).isSome → (PathBuf.mk (text name)).key = meaning name)
    (hpairs : ∀ name, (files.lookup name).isSome →
      (Path.build root rel : Path .folder).Beneath (meaning name) → text name ∈ pairs.map Prod.fst)
    (h : Streams Doc root (filesBeneath files meaning (Path.build root rel)) pairs)
    (name : Name) (hstored : (files.lookup name).isSome)
    (hbeneath : (Path.build root rel : Path .folder).Beneath (meaning name)) :
    root = [] ∨ (meaning name).startsWith (PathBuf.mk root).key = false := by
  by_contra hnot
  obtain ⟨hroot, hunder⟩ := not_or.mp hnot
  have hunder : (meaning name).startsWith (PathBuf.mk root).key = true := by simpa using hunder
  -- Among the files under the root, one with the most components is placed at no file.
  let inside := (files.keys.filter fun name =>
    (Path.build root rel : Path .folder).Beneath (meaning name) ∧
      (meaning name).startsWith (PathBuf.mk root).key = true).toFinset
  have hinside (name : Name) : name ∈ inside ↔ (files.lookup name).isSome ∧
      (Path.build root rel : Path .folder).Beneath (meaning name) ∧
        (meaning name).startsWith (PathBuf.mk root).key = true := by
    rw [List.mem_toFinset, List.mem_filter, files.mem_keys]
    simp
  obtain ⟨deepest, hdeepest, hmax⟩ := inside.exists_max_image
    (fun name => (meaning name).components.length) ⟨name, (hinside name).mpr ⟨hstored, hbeneath, hunder⟩⟩
  obtain ⟨hstored, hbeneath, hunder⟩ := (hinside deepest).mp hdeepest
  obtain ⟨pair, hpair, htexts⟩ := List.mem_map.mp (hpairs deepest hstored hbeneath)
  have hrelative := h.relative pair hpair
  rw [htexts] at hrelative
  have hkey := htext deepest hstored
  obtain ⟨hstarts, hlonger⟩ := placeOf_under hroot (hkey ▸ hunder) hrelative
  have hplace : placeOf root (text deepest) ∈
      (filesBeneath files meaning (Path.build root rel)).map Prod.fst := by
    have hmem := (h.placed.map Prod.fst).mem_iff.mp
      (List.mem_map_of_mem (List.mem_map_of_mem hpair))
    rw [htexts, List.map_map] at hmem
    exact hmem
  rw [filesBeneath_eq] at hplace
  obtain ⟨other, hother, heq⟩ := List.mem_map.mp hplace
  obtain ⟨hmem, hbelow⟩ := List.mem_filter.mp hother
  have hle := hmax other ((hinside other).mpr
    ⟨(files.mem_keys other).mp hmem, of_decide_eq_true hbelow, heq ▸ hstarts⟩)
  rw [heq, ← hkey] at hle
  omega

-- The whole paths of what is stored under the folder.
def whole (files : HashMap Name Str) (meaning : Name → PathBuf.Key) (text : Name → Str)
    (folder : Path .folder) : List (Path .file) :=
  (files.keys.filter fun name => (meaning name).startsWith folder.key).map fun name =>
    Path.new (text name)

variable {Store : Type} [FileIo Store] {store : Store}

-- The store reads its map, and keeps what is in it whatever a buffer writes.
structure Flat (Doc : Type) [Yrs Doc] (store : Store) (files : HashMap Name Str)
    (meaning : Name → PathBuf.Key) (text : Name → Str) (holds : Store → Prop) : Prop where
  spelled : ∀ name, (files.lookup name).isSome → (PathBuf.mk (text name)).key = meaning name
  read : ∀ name contents, files.lookup name = some contents →
    FileIo.readFile store (Path.new (text name)) = .ok contents
  start : holds store
  kept : ∀ after, holds after → ∀ name, (files.lookup name).isSome → ∃ contents,
    FileIo.readFile after (Path.new (text name)) = .ok contents
  written : ∀ (file : MemFile Doc) after, holds after → holds (file.drop after)

variable {holds : Store → Prop} (hflat : Flat Doc store files meaning text holds)

include hflat

theorem Flat.key_whole (folder : Path .folder) :
    (whole files meaning text folder).map Path.key =
      (files.keys.filter fun name => (meaning name).startsWith folder.key).map meaning := by
  unfold whole
  rw [List.map_map]
  refine List.map_congr_left fun name hname => ?_
  have hstored := (files.mem_keys name).mp (List.mem_of_mem_filter hname)
  exact (FlatEngines.key_new (text name)).trans (hflat.spelled name hstored)

-- A file at the folder's own path would be streamed in addition.
theorem Flat.own_of_streams {folder : Path .folder}
    (h : Streams Doc root (filesBeneath files meaning folder)
      (states (MemFileGuard.new.loadAll store (whole files meaning text folder) :
        MemFileGuard Doc × Store).1))
    (name : Name) (hstored : (files.lookup name).isSome) : meaning name ≠ folder.key := by
  intro hown
  let beneath := files.keys.filter fun name => folder.Beneath (meaning name)
  let guard := (MemFileGuard.new.loadAll store (whole files meaning text folder) :
    MemFileGuard Doc × Store).1
  have hplaces : (beneath.map meaning).Nodup := by
    have hnodup := h.distinct
    have hperm := h.placed.map Prod.fst
    rw [List.map_map, List.map_map] at hperm
    rw [← filesBeneath_eq]
    exact hperm.nodup_iff.mp hnodup
  have hcount : (states guard).length = (beneath.map meaning).length := by
    have hlength := h.placed.length_eq
    rw [List.length_map, List.length_map] at hlength
    rw [← filesBeneath_eq, List.length_map]
    exact hlength
  have hpresent (other : Name) (hother : (files.lookup other).isSome)
      (hunder : (meaning other).startsWith folder.key = true) :
      meaning other ∈ guard.fileMap.keys := by
    rw [HashMap.mem_keys]
    refine loadAll_present holds ?_ hflat.written hflat.start (.inr ?_)
    · intro after hafter path hpath
      obtain ⟨listed, hlisted, rfl⟩ := List.mem_map.mp hpath
      exact hflat.kept after hafter listed
        ((files.mem_keys listed).mp (List.mem_of_mem_filter hlisted))
    · rw [hflat.key_whole]
      exact List.mem_map_of_mem
        (List.mem_filter.mpr ⟨(files.mem_keys other).mpr hother, hunder⟩)
  have hsubset : folder.key :: beneath.map meaning ⊆ guard.fileMap.keys := by
    intro key hkey
    rcases List.mem_cons.mp hkey with rfl | hkey
    · rw [← hown]
      exact hpresent name hstored
        ((Components.startsWith_iff _ _).mpr (hown ▸ List.prefix_refl _))
    · obtain ⟨other, hother, rfl⟩ := List.mem_map.mp hkey
      obtain ⟨hmem, hbelow⟩ := List.mem_filter.mp hother
      exact hpresent other ((files.mem_keys other).mp hmem) (of_decide_eq_true hbelow).1
  have hnodup : (folder.key :: beneath.map meaning).Nodup := by
    refine List.nodup_cons.mpr ⟨fun hmem => ?_, hplaces⟩
    obtain ⟨other, hother, heq⟩ := List.mem_map.mp hmem
    exact (of_decide_eq_true (List.mem_filter.mp hother).2).2 heq
  have hlength := (List.subperm_of_subset hnodup hsubset).length_le
  rw [List.length_cons, ← hcount, MemFileStreamer.length_states] at hlength
  unfold MemFileStreamer.count at hlength
  omega

-- Names of different paths are streamed one for one.
theorem Flat.states_perm {folder : Path .folder}
    (hown : ∀ name, (files.lookup name).isSome → meaning name ≠ folder.key)
    (hsingle : ∀ name other, (files.lookup name).isSome → (files.lookup other).isSome →
      folder.Beneath (meaning name) → meaning name = meaning other → name = other) :
    (states (MemFileGuard.new.loadAll store (whole files meaning text folder) :
        MemFileGuard Doc × Store).1).Perm
      ((files.keys.filter fun name => folder.Beneath (meaning name)).filterMap fun name =>
        (files.lookup name).map fun contents => (text name, stateOf Doc contents)) := by
  have hsame : (files.keys.filter fun name => (meaning name).startsWith folder.key) =
      files.keys.filter fun name => folder.Beneath (meaning name) := by
    refine List.filter_congr fun name hname => ?_
    have hne := hown name ((files.mem_keys name).mp hname)
    simp [Path.Beneath, hne]
  have hnodup : ((whole files meaning text folder).map Path.key).Nodup := by
    rw [hflat.key_whole, hsame]
    refine (files.keys_nodup.filter _).map_on fun name hname other hother heq => ?_
    obtain ⟨hmem, hbeneath⟩ := List.mem_filter.mp hname
    exact hsingle name other ((files.mem_keys name).mp hmem)
      ((files.mem_keys other).mp (List.mem_of_mem_filter hother)) (of_decide_eq_true hbeneath) heq
  have hfresh : ∀ path ∈ whole files meaning text folder,
      (MemFileGuard.new : MemFileGuard Doc).fileMap.lookup path.key = none :=
    fun path _ => HashMap.lookup_new path.key
  have hnone : states (MemFileGuard.new : MemFileGuard Doc) = [] := rfl
  refine (loadAll_states hnodup hfresh).trans (List.Perm.of_eq ?_)
  rw [hnone, List.append_nil]
  unfold whole
  rw [hsame, List.filterMap_map]
  refine List.filterMap_congr fun name hname => ?_
  obtain ⟨contents, hcontents⟩ := Option.isSome_iff_exists.mp
    ((files.mem_keys name).mp (List.mem_of_mem_filter hname))
  rw [hcontents]
  exact streamed_of_ok (hflat.read name contents hcontents)

theorem Flat.streams_of_fits (h : Fits files meaning root rel) :
    Streams Doc root (filesBeneath files meaning (Path.build root rel))
      (states (MemFileGuard.new.loadAll store (whole files meaning text (Path.build root rel)) :
        MemFileGuard Doc × Store).1) := by
  have hperm := hflat.states_perm h.own h.single
  -- Each pair is that of a file, at whose path it is placed.
  have hwhole (name : Name) (hstored : (files.lookup name).isSome)
      (hbeneath : (Path.build root rel : Path .folder).Beneath (meaning name)) :
      placeOf root (text name) = meaning name ∧
        (PathBuf.mk root).key.relativeTo (meaning name) = meaning name := by
    have hkey := hflat.spelled name hstored
    rw [← hkey]
    refine placeOf_whole ((h.outside name hstored hbeneath).imp_right fun houtside => ?_)
    have habsolute : (PathBuf.mk (text name)).key.components.head? = some .rootDir :=
      hkey ▸ absolute_of_outside hbeneath.1 houtside
    exact ⟨hkey ▸ houtside, habsolute⟩
  have hplaced := hperm.map fun pair => (placeOf root pair.1, pair.2)
  rw [List.map_filterMap] at hplaced
  have hfiles : ((files.keys.filter fun name =>
      (Path.build root rel : Path .folder).Beneath (meaning name)).filterMap fun name =>
        ((files.lookup name).map fun contents => (text name, stateOf Doc contents)).map
          fun pair => (placeOf root pair.1, pair.2)) =
      (filesBeneath files meaning (Path.build root rel)).map
        fun file => (file.1, stateOf Doc file.2) := by
    unfold filesBeneath
    rw [List.map_filterMap]
    refine List.filterMap_congr fun name hname => ?_
    obtain ⟨hmem, hbeneath⟩ := List.mem_filter.mp hname
    have hplace := (hwhole name ((files.mem_keys name).mp hmem) (of_decide_eq_true hbeneath)).1
    rw [Option.map_map, Option.map_map]
    refine Option.map_congr fun contents _ => ?_
    simp [hplace]
  rw [hfiles] at hplaced
  refine ⟨hplaced, fun pair hpair => ?_, ?_⟩
  · obtain ⟨name, hname, hvalue⟩ := List.mem_filterMap.mp (hperm.mem_iff.mp hpair)
    obtain ⟨contents, _, rfl⟩ := Option.map_eq_some_iff.mp hvalue
    obtain ⟨hmem, hbeneath⟩ := List.mem_filter.mp hname
    have hstored := (files.mem_keys name).mp hmem
    obtain ⟨hplace, hrelative⟩ := hwhole name hstored (of_decide_eq_true hbeneath)
    dsimp only
    rw [hplace, hrelative, hflat.spelled name hstored]
  · have hperm := hplaced.map Prod.fst
    rw [List.map_map, List.map_map] at hperm
    refine hperm.nodup_iff.mpr ?_
    change ((filesBeneath files meaning (Path.build root rel)).map Prod.fst).Nodup
    rw [filesBeneath_eq]
    refine (files.keys_nodup.filter _).map_on fun name hname other hother heq => ?_
    obtain ⟨hmem, hbeneath⟩ := List.mem_filter.mp hname
    exact h.single name other ((files.mem_keys name).mp hmem)
      ((files.mem_keys other).mp (List.mem_of_mem_filter hother)) (of_decide_eq_true hbeneath) heq

theorem Flat.joins_iff (root rel : Str) :
    Joins Doc store root (filesBeneath files meaning (Path.build root rel))
        (.ok (whole files meaning text (Path.build root rel))) ↔ Fits files meaning root rel := by
  constructor
  · intro h
    have hstreams := h _ rfl
    have hown := hflat.own_of_streams hstreams
    have hsingle (name other : Name) (hname : (files.lookup name).isSome)
        (hother : (files.lookup other).isSome)
        (hbeneath : (Path.build root rel : Path .folder).Beneath (meaning name))
        (heq : meaning name = meaning other) : name = other := by
      have hperm := hstreams.placed.map Prod.fst
      rw [List.map_map, List.map_map] at hperm
      have hnodup : ((filesBeneath files meaning (Path.build root rel)).map Prod.fst).Nodup :=
        hperm.nodup_iff.mp hstreams.distinct
      rw [filesBeneath_eq] at hnodup
      refine List.inj_on_of_nodup_map hnodup ?_ ?_ heq
      · exact List.mem_filter.mpr ⟨(files.mem_keys name).mpr hname, decide_eq_true hbeneath⟩
      · exact List.mem_filter.mpr ⟨(files.mem_keys other).mpr hother, decide_eq_true (heq ▸ hbeneath)⟩
    refine ⟨hown, hsingle, outside_of_streams hflat.spelled (fun name hstored hbeneath => ?_) hstreams⟩
    have hperm := (hflat.states_perm hown hsingle).map Prod.fst
    refine hperm.mem_iff.mpr (List.mem_map.mpr ?_)
    obtain ⟨contents, hcontents⟩ := Option.isSome_iff_exists.mp hstored
    refine ⟨(text name, stateOf Doc contents), List.mem_filterMap.mpr ⟨name, ?_, ?_⟩, rfl⟩
    · exact List.mem_filter.mpr ⟨(files.mem_keys name).mpr hstored, decide_eq_true hbeneath⟩
    · rw [hcontents]
      rfl
  · rintro h paths hpaths
    cases hpaths
    exact hflat.streams_of_fits h

end Flat

theorem mem_flat (Doc : Type) [Yrs Doc] (store : SpelledMem) :
    Flat Doc store.io store.io.files id (fun key => (store.text key).text) fun after =>
      ∀ key, (store.io.files.lookup key).isSome → (after.files.lookup key).isSome := by
  have hspelled (key : PathBuf.Key) (hstored : (store.io.files.lookup key).isSome) :
      (Path.new (store.text key).text : Path .file).key = key :=
    (FlatEngines.key_new _).trans (store.spells key hstored)
  refine ⟨store.spells, fun key contents hcontents => ?_, fun _ => id, fun after hafter key hstored =>
    ?_, fun file after hafter key hstored => ?_⟩
  · change BlockingMemIo.readFile _ _ = _
    unfold BlockingMemIo.readFile
    rw [hspelled key (by rw [hcontents]; rfl), hcontents]
  · obtain ⟨contents, hcontents⟩ := Option.isSome_iff_exists.mp (hafter key hstored)
    refine ⟨contents, ?_⟩
    change BlockingMemIo.readFile _ _ = _
    unfold BlockingMemIo.readFile
    rw [hspelled key hstored, hcontents]
  · have hkept := hafter key hstored
    unfold MemFile.drop
    split
    · change ((after.files.insert file.path.key file.contents).lookup key).isSome
      rw [HashMap.lookup_insert]
      split
      · rfl
      · exact hkept
    · exact hkept

theorem kv_flat (Doc : Type) [Yrs Doc] (io : KvBlockingIo) :
    Flat Doc io io.files FlatEngines.meaning id fun after =>
      ∀ name, (io.files.lookup name).isSome → (after.files.lookup name).isSome := by
  refine ⟨fun _ _ => rfl, fun name contents hcontents => ?_, fun _ => id, fun after hafter name
    hstored => ?_, fun file after hafter name hstored => ?_⟩
  · change KvBlockingIo.readFile _ _ = _
    unfold KvBlockingIo.readFile
    rw [fullPath_new, id, hcontents]
  · obtain ⟨contents, hcontents⟩ := Option.isSome_iff_exists.mp (hafter name hstored)
    refine ⟨contents, ?_⟩
    change KvBlockingIo.readFile _ _ = _
    unfold KvBlockingIo.readFile
    rw [fullPath_new, id, hcontents]
  · have hkept := hafter name hstored
    unfold MemFile.drop
    split
    · change ((after.files.insert file.path.fullPath.text file.contents).lookup name).isSome
      rw [HashMap.lookup_insert]
      split
      · rfl
      · exact hkept
    · exact hkept

end Saps.Files.JoinStream
