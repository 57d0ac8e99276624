import Saps.Files.Beneath
import Saps.Files.Relocation.Theorems

namespace Saps.Files.Beneath

open HashMap (rekey duplicate)

-- A child of a folder is beneath it.
theorem beneath_of_parent {folder : Path .folder} {key : PathBuf.Key}
    (h : key.components.parent = some folder.key.components) : folder.Beneath key := by
  unfold Components.parent at h
  split at h
  · contradiction
  · contradiction
  · next last _ hlast =>
    obtain ⟨front, hfront⟩ := List.getLast?_eq_some_iff.mp hlast
    have hdrop := Option.some.inj h
    rw [hfront, List.dropLast_concat] at hdrop
    subst hdrop
    refine ⟨?_, fun heq => ?_⟩
    · unfold PathBuf.Key.startsWith
      rw [Components.startsWith_iff, hfront]
      exact List.prefix_append _ _
    · have hlength := congrArg (fun key : PathBuf.Key => key.components.length) heq
      simp [hfront] at hlength

namespace Engine

variable {Io Name Listed : Type} [DecidableEq Name] {engine : Engine Io Name Listed}

def under (engine : Engine Io Name Listed) (io : Io) (folder : Path .folder) : List Name :=
  (engine.files io).keys.filter fun name => (engine.meaning name).startsWith folder.key

-- An operation that gives up on an empty folder and goes through its names otherwise.
def Loops (engine : Engine Io Name Listed) (folder : Path .folder)
    (turn : HashMap Name Str → Name → HashMap Name Str) (op : Io → Except FileError Unit × Io) :
    Prop :=
  ∃ error, ∀ io, (op io).1 = (if engine.under io folder = [] then .error error else .ok ()) ∧
    (engine.files (op io).2).lookup = ((engine.under io folder).foldl turn (engine.files io)).lookup

-- What the operations of both engines come to.
structure Flat (engine : Engine Io Name Listed) (list : Name → Listed)
    (new : Path .folder → Path .folder → Name → Name) : Prop where
  folderExists : ∀ io folder, engine.folderExists io folder =
    (engine.files io).keys.any fun name => (engine.meaning name).startsWith folder.key
  childFiles : ∀ io folder, engine.childFiles io folder =
    .ok (((engine.files io).keys.filter fun name =>
      (engine.meaning name).components.parent = some folder.key.components).map list)
  allChildFiles : ∀ io folder, engine.allChildFiles io folder =
    .ok ((engine.under io folder).map list)
  deleteFolder : ∀ folder, engine.Loops folder HashMap.erase (engine.deleteFolder · folder)
  moveFolder : ∀ folder target, engine.Loops folder (rekey (new folder target))
    (engine.moveFolder · folder target)
  copyFolder : ∀ folder target, engine.Loops folder (duplicate (new folder target))
    (engine.copyFolder · folder target)

section Part

variable {folder : Path .folder} {io part : Io}

-- No file is stored at the folder's own path.
def Vacant (engine : Engine Io Name Listed) (io : Io) (folder : Path .folder) : Prop :=
  ∀ name ∈ (engine.files io).keys, engine.meaning name ≠ folder.key

theorem Part.filter (hpart : engine.Part folder io part) {p : Name → Bool}
    (hp : ∀ name ∈ (engine.files io).keys, p name = true → folder.Beneath (engine.meaning name)) :
    (engine.files part).keys.filter p = (engine.files io).keys.filter p := by
  rw [hpart.keys, List.filter_filter]
  refine List.filter_congr fun name hname => ?_
  by_cases hpn : p name
  · simp [hpn, hp name hname hpn]
  · simp [hpn]

theorem Part.under_eq (hpart : engine.Part folder io part) (hvacant : engine.Vacant io folder) :
    engine.under part folder = engine.under io folder :=
  hpart.filter fun name hname hprefixed => ⟨hprefixed, hvacant name hname⟩

theorem Part.through (hpart : engine.Part folder io part) :
    (engine.files io).lookup =
      Overlay.through (engine.files part).lookup (engine.outside folder io) := by
  funext name
  unfold Overlay.through outside
  by_cases hbeneath : folder.Beneath (engine.meaning name)
  · rw [if_pos hbeneath, hpart.lookup name hbeneath, Option.or_none]
  · have hnone : (engine.files part).lookup name = none := by
      by_contra hsome
      have hmem := ((engine.files part).mem_keys name).mpr (Option.isSome_iff_ne_none.mpr hsome)
      rw [hpart.keys] at hmem
      exact hbeneath (by simpa using (List.mem_filter.mp hmem).2)
    rw [if_neg hbeneath, hnone, Option.none_or]

-- A turn that reads one name, and does the same to a map and to a part of it.
def Through (turn : HashMap Name Str → Name → HashMap Name Str) (name : Name) : Prop :=
  ∀ (files part : HashMap Name Str) (back : Name → Option Str), back name = none →
    files.lookup = Overlay.through part.lookup back →
    (turn files name).lookup = Overlay.through (turn part name).lookup back

theorem through_erase (name : Name) : Through HashMap.erase name := by
  intro files part back hback h
  funext other
  have hother := congrFun h other
  unfold Overlay.through at hother ⊢
  rw [HashMap.lookup_erase, HashMap.lookup_erase, hother]
  by_cases heq : other = name
  · simp [heq, hback]
  · simp [heq]

theorem through_rekey (new : Name → Name) (name : Name) : Through (rekey new) name := by
  intro files part back hback h
  have hname := congrFun h name
  unfold Overlay.through at hname
  rw [hback, Option.or_none] at hname
  cases hread : part.lookup name with
  | none => rw [HashMap.rekey_none new part hread, HashMap.rekey_none new files (hname.trans hread), h]
  | some text =>
      funext other
      have hother := congrFun h other
      unfold Overlay.through at hother ⊢
      rw [HashMap.lookup_rekey new part name other hread,
        HashMap.lookup_rekey new files name other (hname.trans hread), hother]
      by_cases hnew : other = new name
      · simp [hnew]
      · by_cases heq : other = name
        · simp [heq, hback]
        · simp [hnew, heq]

theorem through_duplicate (new : Name → Name) (name : Name) : Through (duplicate new) name := by
  intro files part back hback h
  have hname := congrFun h name
  unfold Overlay.through at hname
  rw [hback, Option.or_none] at hname
  cases hread : part.lookup name with
  | none =>
      rw [HashMap.duplicate_none new part hread,
        HashMap.duplicate_none new files (hname.trans hread), h]
  | some text =>
      funext other
      have hother := congrFun h other
      unfold Overlay.through at hother ⊢
      rw [HashMap.lookup_duplicate new part name other hread,
        HashMap.lookup_duplicate new files name other (hname.trans hread), hother]
      by_cases hnew : other = new name
      · simp [hnew]
      · simp [hnew]

theorem foldl_through {turn : HashMap Name Str → Name → HashMap Name Str}
    {back : Name → Option Str} {names : List Name} (hturn : ∀ name ∈ names, Through turn name)
    (hback : ∀ name ∈ names, back name = none) (files part : HashMap Name Str)
    (h : files.lookup = Overlay.through part.lookup back) :
    (names.foldl turn files).lookup = Overlay.through (names.foldl turn part).lookup back := by
  induction names generalizing files part with
  | nil => exact h
  | cons name names ih =>
      obtain ⟨hfirst, hturn⟩ := List.forall_mem_cons.mp hturn
      obtain ⟨hname, hback⟩ := List.forall_mem_cons.mp hback
      exact ih hturn hback _ _ (hfirst files part back hname h)

theorem Loops.actsOn {turn : HashMap Name Str → Name → HashMap Name Str}
    {op : Io → Except FileError Unit × Io} (hop : engine.Loops folder turn op)
    (hturn : ∀ name, Through turn name) (hpart : engine.Part folder io part)
    (hvacant : engine.Vacant io folder) : engine.ActsOn folder op io part := by
  obtain ⟨error, hop⟩ := hop
  obtain ⟨hresult, hfiles⟩ := hop io
  obtain ⟨hresultPart, hfilesPart⟩ := hop part
  have hunder := hpart.under_eq hvacant
  refine ⟨by rw [hresult, hresultPart, hunder], ?_⟩
  rw [hfiles, hfilesPart, hunder]
  refine foldl_through (fun name _ => hturn name) (fun name hname => ?_) _ _ hpart.through
  obtain ⟨hstored, hprefixed⟩ := List.mem_filter.mp hname
  exact if_pos ⟨hprefixed, hvacant name hstored⟩

end Part

variable {list : Name → Listed} {new : Path .folder → Path .folder → Name → Name}

theorem Flat.onlyBeneath (hflat : engine.Flat list new) {io : Io} {folder : Path .folder}
    (hvacant : engine.Vacant io folder) : engine.OnlyBeneath io folder := by
  refine ⟨?_, ?_, ?_, ?_, ?_, ?_⟩
  · intro part hpart
    rw [hflat.folderExists, hflat.folderExists, Bool.eq_iff_iff]
    have hunder := hpart.under_eq hvacant
    unfold under at hunder
    simp only [List.any_eq_true]
    have hmem (name : Name) := congrArg (name ∈ ·) hunder
    simp only [List.mem_filter] at hmem
    exact exists_congr fun name => (hmem name).symm ▸ .rfl
  · intro part hpart
    rw [hflat.childFiles, hflat.childFiles, hpart.filter fun name _ hparent =>
      beneath_of_parent (of_decide_eq_true hparent)]
  · intro part hpart
    rw [hflat.allChildFiles, hflat.allChildFiles, hpart.under_eq hvacant]
  · exact fun part hpart => (hflat.deleteFolder folder).actsOn through_erase hpart hvacant
  · exact fun part hpart target =>
      (hflat.moveFolder folder target).actsOn (through_rekey _) hpart hvacant
  · exact fun part hpart target =>
      (hflat.copyFolder folder target).actsOn (through_duplicate _) hpart hvacant

theorem exists_part (hmake : ∀ files, ∃ io, engine.files io = files) (io : Io)
    (folder : Path .folder) : ∃ part, engine.Part folder io part := by
  let away := (engine.files io).keys.filter fun name => !folder.Beneath (engine.meaning name)
  let left := away.foldl (fun files name => files.erase name) (engine.files io)
  have hleft (name : Name) : left.lookup name =
      if name ∈ away then none else (engine.files io).lookup name :=
    HashMap.lookup_foldl_erase away (engine.files io) name
  have haway (name : Name) : name ∈ away ↔
      name ∈ (engine.files io).keys ∧ ¬folder.Beneath (engine.meaning name) := by
    simp [away]
  let kept := (engine.files io).keys.filter fun name => folder.Beneath (engine.meaning name)
  have hperm : kept.Perm left.keys := by
    rw [List.perm_ext_iff_of_nodup ((engine.files io).keys_nodup.filter _) left.keys_nodup]
    intro name
    rw [HashMap.mem_keys, hleft, List.mem_filter, HashMap.mem_keys]
    by_cases hmem : name ∈ away
    · simp [hmem, ((haway name).mp hmem).2]
    · rw [if_neg hmem, and_iff_left_of_imp]
      intro hstored
      by_contra hbeneath
      exact hmem ((haway name).mpr ⟨((engine.files io).mem_keys name).mpr hstored, by
        simpa using hbeneath⟩)
  obtain ⟨files, hlookup, hkeys⟩ := left.exists_keys_eq kept hperm
  obtain ⟨part, rfl⟩ := hmake files
  refine ⟨part, hkeys, fun name hbeneath => ?_⟩
  rw [hlookup, hleft, if_neg fun hmem => ((haway name).mp hmem).2 hbeneath]

-- A file at the folder's own path is listed with the files of the folder.
theorem Flat.vacant (hflat : engine.Flat list new) (hmake : ∀ files, ∃ io, engine.files io = files)
    {io : Io} {folder : Path .folder} (h : engine.OnlyBeneath io folder) :
    engine.Vacant io folder := by
  intro name hname heq
  obtain ⟨part, hpart⟩ := exists_part hmake io folder
  have hlisted := h.allChildFiles part hpart
  rw [hflat.allChildFiles, hflat.allChildFiles] at hlisted
  have hlength := congrArg List.length (Except.ok.inj hlisted)
  rw [List.length_map, List.length_map] at hlength
  have hsublist : (engine.under part folder).Sublist (engine.under io folder) := by
    unfold under
    rw [hpart.keys]
    exact (List.filter_sublist).filter _
  have hsame := hsublist.eq_of_length hlength.symm
  have hmem : name ∈ engine.under part folder := by
    rw [hsame]
    refine List.mem_filter.mpr ⟨hname, ?_⟩
    rw [heq]
    exact (Components.startsWith_iff _ _).mpr (List.prefix_refl _)
  have hkept := List.mem_of_mem_filter hmem
  rw [hpart.keys] at hkept
  have hbeneath : folder.Beneath (engine.meaning name) := by
    simpa using (List.mem_filter.mp hkept).2
  exact hbeneath.2 heq

theorem Flat.onlyBeneath_iff (hflat : engine.Flat list new)
    (hmake : ∀ files, ∃ io, engine.files io = files) (io : Io) (folder : Path .folder) :
    engine.OnlyBeneath io folder ↔ engine.Vacant io folder :=
  ⟨hflat.vacant hmake, hflat.onlyBeneath⟩

theorem loops_of_eq {turn : HashMap Name Str → Name → HashMap Name Str}
    {op : Io → Except FileError Unit × Io} {folder : Path .folder} (error : FileError)
    (make : HashMap Name Str → Io) (hmake : ∀ files, engine.files (make files) = files)
    (hop : ∀ io, op io = if engine.under io folder = [] then (.error error, io)
      else (.ok (), make ((engine.under io folder).foldl turn (engine.files io)))) :
    engine.Loops folder turn op := by
  refine ⟨error, fun io => ?_⟩
  rw [hop io]
  by_cases hnil : engine.under io folder = []
  · rw [if_pos hnil, if_pos hnil, hnil]
    exact ⟨rfl, rfl⟩
  · rw [if_neg hnil, if_neg hnil, hmake]
    exact ⟨rfl, rfl⟩

end Engine

theorem memEngine_flat : memEngine.Flat id fun source target =>
    FlatEngines.newKey source.key target.key where
  folderExists _ _ := rfl
  childFiles _ _ := by
    rw [List.map_id]
    rfl
  allChildFiles _ _ := by
    rw [List.map_id]
    rfl
  deleteFolder _ := Engine.loops_of_eq _ BlockingMemIo.mk (fun _ => rfl) fun _ => rfl
  moveFolder source target := Engine.loops_of_eq _ BlockingMemIo.mk (fun _ => rfl)
    (Relocation.moveFolder_loops source target)
  copyFolder source target := Engine.loops_of_eq _ BlockingMemIo.mk (fun _ => rfl)
    (Relocation.copyFolder_loops source target)

theorem kvEngine_flat : kvEngine.Flat Path.new Relocation.newName where
  folderExists _ _ := rfl
  childFiles _ _ := rfl
  allChildFiles _ _ := rfl
  deleteFolder _ := Engine.loops_of_eq _ KvBlockingIo.mk (fun _ => rfl) fun _ => rfl
  moveFolder _ _ := Engine.loops_of_eq _ KvBlockingIo.mk (fun _ => rfl) fun _ => rfl
  copyFolder _ _ := Engine.loops_of_eq _ KvBlockingIo.mk (fun _ => rfl) fun _ => rfl

-- The folder operations act on the files beneath the folder and on no others exactly
-- when no file is stored at the folder's own path.
theorem only_beneath_iff (mem : BlockingMemIo) (kv : KvBlockingIo) (folder : Path .folder) :
    (memEngine.OnlyBeneath mem folder ↔ ∀ key ∈ mem.files.keys, key ≠ folder.key) ∧
      (kvEngine.OnlyBeneath kv folder ↔
        ∀ name ∈ kv.files.keys, FlatEngines.meaning name ≠ folder.key) :=
  ⟨memEngine_flat.onlyBeneath_iff (fun files => ⟨⟨files⟩, rfl⟩) mem folder,
    kvEngine_flat.onlyBeneath_iff (fun files => ⟨⟨files⟩, rfl⟩) kv folder⟩

def fileOnly : BlockingMemIo × KvBlockingIo :=
  ((BlockingMemIo.new.writeFile (Path.new "a".toList) ['x']).2,
    (KvBlockingIo.new.writeFile (Path.new "a".toList) ['x']).2)

-- A folder of a file's name exists, and deleting it deletes the file.
theorem only_beneath_hits_file :
    fileOnly.1.folderExists (Path.new "a".toList) = true ∧
      (fileOnly.1.deleteFolder (Path.new "a".toList)).1 = .ok () ∧
      (fileOnly.1.deleteFolder (Path.new "a".toList)).2.files.keys = [] ∧
      fileOnly.2.folderExists (Path.new "a".toList) = true ∧
      (fileOnly.2.deleteFolder (Path.new "a".toList)).1 = .ok () ∧
      (fileOnly.2.deleteFolder (Path.new "a".toList)).2.files.keys = [] ∧
      ¬memEngine.OnlyBeneath fileOnly.1 (Path.new "a".toList) ∧
      ¬kvEngine.OnlyBeneath fileOnly.2 (Path.new "a".toList) := by
  refine ⟨by decide +kernel, by decide +kernel, by decide +kernel, by decide +kernel,
    by decide +kernel, by decide +kernel, fun h => ?_, fun h => ?_⟩
  · have hvacant := memEngine_flat.vacant (fun files => ⟨⟨files⟩, rfl⟩) h
    exact hvacant (Path.new "a".toList : Path .folder).key (by decide +kernel) rfl
  · have hvacant := kvEngine_flat.vacant (fun files => ⟨⟨files⟩, rfl⟩) h
    exact hvacant "a".toList (by decide +kernel) (by decide +kernel)

end Saps.Files.Beneath
