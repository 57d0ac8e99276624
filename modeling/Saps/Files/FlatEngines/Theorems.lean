import Saps.Files.FlatEngines

namespace Saps.Files.FlatEngines

open Naming Transition

theorem key_new (text : Str) : (Path.new text : Path .file).key = meaning text := by
  unfold Path.key Path.new Path.build meaning KvBlockingIo.keyPath
  congr 1
  unfold PathBuf.join
  split
  · rfl
  · rfl

theorem key_path {kind : PathType} (path : Path kind) : path.key = meaning path.fullPath.text :=
  rfl

-- Swapping the prefix of a string moves what it stands for.
theorem meaning_swapPrefix (source target : Path .folder) {key : Str}
    (h : (KvBlockingIo.keyPath key).components.startsWith source.fullPath.components = true) :
    meaning (KvBlockingIo.swapPrefix source.fullPath target.fullPath key) =
      newKey source.key target.key (meaning key) := by
  have hstrip : (KvBlockingIo.keyPath key).stripPrefix source.fullPath =
      some ⟨(KvBlockingIo.keyPath key).stripped source.fullPath.components.length⟩ := if_pos h
  have hkey := PathBuf.key_stripPrefix hstrip
  have hmeaning : (meaning key).stripPrefix source.key =
    some (PathBuf.key ⟨(KvBlockingIo.keyPath key).stripped source.fullPath.components.length⟩) :=
      hkey
  unfold newKey KvBlockingIo.swapPrefix
  rw [hstrip, hmeaning]
  exact PathBuf.Key.ext (PathBuf.components_join _ _)

theorem meaning_matched (kv : KvBlockingIo) (source target : Path .folder) (key : Str)
    (h : key ∈ kv.matchingKeys source) :
    meaning (KvBlockingIo.swapPrefix source.fullPath target.fullPath key) =
      newKey source.key target.key (meaning key) := by
  unfold KvBlockingIo.matchingKeys at h
  obtain ⟨_, hprefix⟩ := List.mem_filter.mp h
  exact meaning_swapPrefix source target hprefix

theorem matchingKeys_nodup (kv : KvBlockingIo) (folder : Path .folder) :
    (kv.matchingKeys folder).Nodup :=
  kv.files.keys_nodup.filter _

theorem matchingKeys_stored (kv : KvBlockingIo) (folder : Path .folder) (key : Str)
    (h : key ∈ kv.matchingKeys folder) : (kv.files.lookup key).isSome :=
  (kv.files.mem_keys key).mp (List.mem_of_mem_filter h)

theorem moveKey_eq (source target : PathBuf.Key) (files : HashMap PathBuf.Key Str)
    {key : PathBuf.Key} (h : key.startsWith source = true) :
    BlockingMemIo.moveKey source target files key = files.rekey (newKey source target) key := by
  unfold BlockingMemIo.moveKey HashMap.rekey newKey PathBuf.Key.stripPrefix
  rw [if_pos h]
  cases files.lookup key with
  | none => rfl
  | some contents => rfl

theorem copyKey_eq (source target : PathBuf.Key) (files : HashMap PathBuf.Key Str)
    {key : PathBuf.Key} (h : key.startsWith source = true) :
    BlockingMemIo.copyKey source target files key = files.duplicate (newKey source target) key := by
  unfold BlockingMemIo.copyKey HashMap.duplicate newKey PathBuf.Key.stripPrefix
  rw [if_pos h]
  cases files.lookup key with
  | none => rfl
  | some contents => rfl

section Folds

variable (io : BlockingMemIo) (source target : Path .folder)

theorem keysUnder_nodup : (io.keysUnder source).Nodup :=
  io.files.keys_nodup.filter _

theorem keysUnder_stored : ∀ key ∈ io.keysUnder source, (io.files.lookup key).isSome :=
  fun key hkey => (io.files.mem_keys key).mp (List.mem_of_mem_filter hkey)

theorem foldl_moveKey_eq :
    (io.keysUnder source).foldl (BlockingMemIo.moveKey source.key target.key) io.files =
      (io.keysUnder source).foldl (HashMap.rekey (newKey source.key target.key)) io.files := by
  refine List.foldl_ext _ _ _ fun files key hkey => moveKey_eq _ _ _ ?_
  exact (List.mem_filter.mp hkey).2

theorem foldl_copyKey_eq :
    (io.keysUnder source).foldl (BlockingMemIo.copyKey source.key target.key) io.files =
      (io.keysUnder source).foldl (HashMap.duplicate (newKey source.key target.key)) io.files := by
  refine List.foldl_ext _ _ _ fun files key hkey => copyKey_eq _ _ _ ?_
  exact (List.mem_filter.mp hkey).2

theorem foldl_moveKey
    (hapart : HashMap.Apart (newKey source.key target.key) (io.keysUnder source)) :
    HashMap.Moved False (newKey source.key target.key) (io.keysUnder source) io.files
      ((io.keysUnder source).foldl (BlockingMemIo.moveKey source.key target.key) io.files) := by
  rw [foldl_moveKey_eq]
  exact HashMap.foldl_rekey (newKey source.key target.key) io.files
    (keysUnder_nodup io source) hapart (keysUnder_stored io source)

theorem foldl_copyKey
    (hapart : HashMap.Apart (newKey source.key target.key) (io.keysUnder source)) :
    HashMap.Moved True (newKey source.key target.key) (io.keysUnder source) io.files
      ((io.keysUnder source).foldl (BlockingMemIo.copyKey source.key target.key) io.files) := by
  rw [foldl_copyKey_eq]
  exact HashMap.foldl_duplicate (newKey source.key target.key) io.files
    (keysUnder_nodup io source) hapart (keysUnder_stored io source)

end Folds

section Calls

variable {kv : KvBlockingIo} {mem : BlockingMemIo} (h : Names meaning kv.files mem.files)

include h

theorem mem_matchingKeys (folder : Path .folder) (key : Str) :
    key ∈ kv.matchingKeys folder ↔ key ∈ kv.files.keys ∧ meaning key ∈ mem.keysUnder folder := by
  unfold KvBlockingIo.matchingKeys BlockingMemIo.keysUnder
  rw [List.mem_filter, List.mem_filter]
  constructor
  · rintro ⟨hkey, hprefix⟩
    exact ⟨hkey, (h.mem_iff _).mpr ⟨key, hkey, rfl⟩, hprefix⟩
  · rintro ⟨hkey, _, hprefix⟩
    exact ⟨hkey, hprefix⟩

theorem mem_keysUnder (folder : Path .folder) (key : PathBuf.Key) :
    key ∈ mem.keysUnder folder ↔ ∃ name ∈ kv.matchingKeys folder, meaning name = key := by
  constructor
  · intro hkey
    obtain ⟨name, hname, rfl⟩ := (h.mem_iff key).mp (List.mem_of_mem_filter hkey)
    exact ⟨name, (mem_matchingKeys h folder name).mpr ⟨hname, hkey⟩, rfl⟩
  · rintro ⟨name, hname, rfl⟩
    exact ((mem_matchingKeys h folder name).mp hname).2

theorem keysUnder_eq_nil (folder : Path .folder) :
    mem.keysUnder folder = [] ↔ kv.matchingKeys folder = [] := by
  rw [List.eq_nil_iff_forall_not_mem, List.eq_nil_iff_forall_not_mem]
  constructor
  · intro hnone name hname
    exact hnone _ ((mem_keysUnder h folder _).mpr ⟨name, hname, rfl⟩)
  · intro hnone key hkey
    obtain ⟨name, hname, _⟩ := (mem_keysUnder h folder key).mp hkey
    exact hnone name hname

-- The two engines read a path the same way when it is spelled as it is stored.
theorem readFile_eq_iff (path : Path .file) :
    mem.readFile path = kv.readFile path ↔ Spelled meaning kv.files path.fullPath.text := by
  rw [← h.lookup_eq_iff]
  unfold BlockingMemIo.readFile KvBlockingIo.readFile
  rw [key_path]
  cases mem.files.lookup (meaning path.fullPath.text) with
  | none =>
      cases kv.files.lookup path.fullPath.text with
      | none => exact iff_of_true rfl rfl
      | some found => exact iff_of_false nofun nofun
  | some contents =>
      cases kv.files.lookup path.fullPath.text with
      | none => exact iff_of_false nofun nofun
      | some found =>
          constructor
          · intro heq
            exact congrArg some (Except.ok.inj heq).symm
          · intro heq
            exact congrArg Except.ok (Option.some.inj heq).symm

theorem fileExists_eq (path : Path .file) (hspelled : Spelled meaning kv.files path.fullPath.text) :
    mem.fileExists path = kv.fileExists path := by
  unfold BlockingMemIo.fileExists KvBlockingIo.fileExists
  rw [key_path, (h.lookup_eq_iff _).mpr hspelled]

theorem folderExists_eq (path : Path .folder) : mem.folderExists path = kv.folderExists path := by
  rw [Bool.eq_iff_iff]
  unfold BlockingMemIo.folderExists KvBlockingIo.folderExists
  rw [List.any_eq_true, List.any_eq_true]
  constructor
  · rintro ⟨key, hkey, hprefix⟩
    obtain ⟨name, hname, rfl⟩ := (h.mem_iff key).mp hkey
    exact ⟨name, hname, hprefix⟩
  · rintro ⟨name, hname, hprefix⟩
    exact ⟨meaning name, (h.mem_iff _).mpr ⟨name, hname, rfl⟩, hprefix⟩

theorem deleteFile_same (path : Path .file)
    (hspelled : Spelled meaning kv.files path.fullPath.text) :
    (mem.deleteFile path).1 = (kv.deleteFile path).1 ∧
      Names meaning (kv.deleteFile path).2.files (mem.deleteFile path).2.files := by
  have hlookup := (h.lookup_eq_iff _).mpr hspelled
  unfold BlockingMemIo.deleteFile KvBlockingIo.deleteFile
  rw [key_path, hlookup]
  cases mem.files.lookup (meaning path.fullPath.text) with
  | none => exact ⟨rfl, h⟩
  | some contents => exact ⟨rfl, h.erase _ hspelled⟩

-- Both engines find the same file to move or to copy.
theorem lookup_source {source : Path .file}
    (hsource : Spelled meaning kv.files source.fullPath.text) {spelled : Prop}
    (htarget : kv.fileExists source = true → spelled) :
    kv.files.lookup source.fullPath.text = mem.files.lookup source.key ∧
      ((mem.files.lookup source.key).isSome → spelled) := by
  rw [key_path]
  have hlookup := (h.lookup_eq_iff _).mpr hsource
  refine ⟨hlookup, fun hfound => htarget ?_⟩
  unfold KvBlockingIo.fileExists
  rw [hlookup]
  exact hfound

theorem moveFile_same (source target : Path .file) (hfits : Fits kv (.moveFile source target)) :
    (mem.moveFile source target).1 = (kv.moveFile source target).1 ∧
      Names meaning (kv.moveFile source target).2.files
        (mem.moveFile source target).2.files := by
  obtain ⟨hsource, htarget⟩ := hfits
  obtain ⟨hlookup, hspelled⟩ := lookup_source h hsource htarget
  unfold BlockingMemIo.moveFile KvBlockingIo.moveFile
  rw [hlookup]
  cases hfound : mem.files.lookup source.key with
  | none => exact ⟨rfl, h⟩
  | some contents =>
      rw [hfound] at hspelled
      rw [key_path, key_path]
      exact ⟨rfl, (h.erase _ hsource).insert _ _ (hspelled rfl)⟩

theorem copyFile_same (source target : Path .file) (hfits : Fits kv (.copyFile source target)) :
    (mem.copyFile source target).1 = (kv.copyFile source target).1 ∧
      Names meaning (kv.copyFile source target).2.files
        (mem.copyFile source target).2.files := by
  obtain ⟨hsource, htarget⟩ := hfits
  obtain ⟨hlookup, hspelled⟩ := lookup_source h hsource htarget
  unfold BlockingMemIo.copyFile KvBlockingIo.copyFile
  rw [hlookup]
  cases hfound : mem.files.lookup source.key with
  | none => exact ⟨rfl, h⟩
  | some contents =>
      rw [hfound] at hspelled
      rw [key_path]
      exact ⟨rfl, h.insert _ _ (hspelled rfl)⟩

theorem deleteFolder_same (path : Path .folder) :
    (mem.deleteFolder path).1 = (kv.deleteFolder path).1 ∧
      Names meaning (kv.deleteFolder path).2.files (mem.deleteFolder path).2.files := by
  unfold BlockingMemIo.deleteFolder KvBlockingIo.deleteFolder
  by_cases hnone : mem.keysUnder path = []
  · rw [if_pos hnone, if_pos ((keysUnder_eq_nil h path).mp hnone)]
    exact ⟨rfl, h⟩
  · rw [if_neg hnone, if_neg fun hkv => hnone ((keysUnder_eq_nil h path).mpr hkv)]
    exact ⟨rfl, h.removed (mem_matchingKeys h path)⟩

theorem apart_keysUnder {source target : Path .folder} (hapart : FolderApart kv source target) :
    HashMap.Apart (newKey source.key target.key) (mem.keysUnder source) := by
  have hmem (key : PathBuf.Key) (hkey : key ∈ mem.keysUnder source) :
      key ∈ (kv.matchingKeys source).map meaning :=
    List.mem_map.mpr ((mem_keysUnder h source key).mp hkey)
  refine ⟨?_, ?_⟩
  · intro left hleft right hright
    exact hapart.distinct left (hmem left hleft) right (hmem right hright)
  · intro left hleft right hright
    exact hapart.unchained left (hmem left hleft) right (hmem right hright)

theorem apart_matchingKeys {source target : Path .folder} (hapart : FolderApart kv source target) :
    HashMap.Apart (KvBlockingIo.swapPrefix source.fullPath target.fullPath)
      (kv.matchingKeys source) :=
  h.apart (mem_matchingKeys h source) (meaning_matched kv source target)
    (apart_keysUnder h hapart)

theorem moveFolder_same (source target : Path .folder)
    (hfits : Fits kv (.moveFolder source target)) :
    (mem.moveFolder source target).1 = (kv.moveFolder source target).1 ∧
      Names meaning (kv.moveFolder source target).2.files
        (mem.moveFolder source target).2.files := by
  obtain ⟨hapart, hspelled⟩ := hfits
  unfold BlockingMemIo.moveFolder KvBlockingIo.moveFolder
  by_cases hnone : mem.keysUnder source = []
  · rw [if_pos hnone, if_pos ((keysUnder_eq_nil h source).mp hnone)]
    exact ⟨rfl, h⟩
  · rw [if_neg hnone, if_neg fun hkv => hnone ((keysUnder_eq_nil h source).mpr hkv)]
    refine ⟨rfl, h.moved (mem_matchingKeys h source) ?_ (meaning_matched kv source target)
      (apart_keysUnder h hapart) ?_ ?_ (foldl_moveKey mem source target (apart_keysUnder h hapart))⟩
    · exact fun key hkey => List.mem_of_mem_filter hkey
    · intro key hkey other hother hstays
      exact hspelled key hkey other hother (hstays.resolve_left not_false)
    · exact HashMap.foldl_rekey _ kv.files (matchingKeys_nodup kv source)
        (apart_matchingKeys h hapart) (matchingKeys_stored kv source)

theorem copyFolder_same (source target : Path .folder)
    (hfits : Fits kv (.copyFolder source target)) :
    (mem.copyFolder source target).1 = (kv.copyFolder source target).1 ∧
      Names meaning (kv.copyFolder source target).2.files
        (mem.copyFolder source target).2.files := by
  obtain ⟨hapart, hspelled⟩ := hfits
  unfold BlockingMemIo.copyFolder KvBlockingIo.copyFolder
  by_cases hnone : mem.keysUnder source = []
  · rw [if_pos hnone, if_pos ((keysUnder_eq_nil h source).mp hnone)]
    exact ⟨rfl, h⟩
  · rw [if_neg hnone, if_neg fun hkv => hnone ((keysUnder_eq_nil h source).mpr hkv)]
    refine ⟨rfl, h.moved (mem_matchingKeys h source) ?_ (meaning_matched kv source target)
      (apart_keysUnder h hapart) ?_ ?_ (foldl_copyKey mem source target (apart_keysUnder h hapart))⟩
    · exact fun key hkey => List.mem_of_mem_filter hkey
    · exact fun key hkey other hother _ => hspelled key hkey other hother
    · exact HashMap.foldl_duplicate _ kv.files (matchingKeys_nodup kv source)
        (apart_matchingKeys h hapart) (matchingKeys_stored kv source)

theorem childFiles_same (path : Path .folder) :
    Same ((mem.childFiles path).map .paths) (listed (kv.childFiles path)) := by
  intro key
  rw [List.map_map, List.mem_map, List.mem_filter]
  constructor
  · rintro ⟨hkey, hparent⟩
    obtain ⟨name, hname, rfl⟩ := (h.mem_iff key).mp hkey
    exact ⟨name, List.mem_filter.mpr ⟨hname, hparent⟩, key_new name⟩
  · rintro ⟨name, hname, rfl⟩
    obtain ⟨hname, hparent⟩ := List.mem_filter.mp hname
    rw [Function.comp_apply, key_new]
    exact ⟨(h.mem_iff _).mpr ⟨name, hname, rfl⟩, hparent⟩

theorem allChildFiles_same (path : Path .folder) :
    Same ((mem.allChildFiles path).map .paths) (listed (kv.allChildFiles path)) := by
  intro key
  rw [List.map_map, List.mem_map, mem_keysUnder h path key]
  constructor
  · rintro ⟨name, hname, rfl⟩
    exact ⟨name, hname, key_new name⟩
  · rintro ⟨name, hname, rfl⟩
    exact ⟨name, hname, (key_new name).symm⟩

end Calls


theorem Same.of_eq {left right : Outcome} (h : left = right) : Same left right := by
  subst h
  cases left with
  | error error => rfl
  | ok output =>
      cases output with
      | paths keys => exact fun key => .rfl
      | unit => rfl
      | text contents => rfl
      | bool answer => rfl

-- One operation that fits: the same outcome, and the same files under the same names.
theorem call_same {kv : KvBlockingIo} {mem : BlockingMemIo}
    (h : Names meaning kv.files mem.files) (op : Op) (hfits : Fits kv op) :
    Same (memCall mem op).1 (kvCall kv op).1 ∧
      Names meaning (kvCall kv op).2.files (memCall mem op).2.files := by
  cases op with
  | readFile path =>
      exact ⟨.of_eq (congrArg (Except.map Output.text) ((readFile_eq_iff h path).mpr hfits)), h⟩
  | writeFile path data => exact ⟨rfl, h.insert _ data hfits⟩
  | fileExists path =>
      exact ⟨.of_eq (congrArg (Except.ok ∘ Output.bool) (fileExists_eq h path hfits)), h⟩
  | deleteFile path =>
      obtain ⟨hresult, hnames⟩ := deleteFile_same h path hfits
      exact ⟨.of_eq (congrArg done hresult), hnames⟩
  | moveFile source target =>
      obtain ⟨hresult, hnames⟩ := moveFile_same h source target hfits
      exact ⟨.of_eq (congrArg done hresult), hnames⟩
  | copyFile source target =>
      obtain ⟨hresult, hnames⟩ := copyFile_same h source target hfits
      exact ⟨.of_eq (congrArg done hresult), hnames⟩
  | childFiles path => exact ⟨childFiles_same h path, h⟩
  | allChildFiles path => exact ⟨allChildFiles_same h path, h⟩
  | childFolders path => exact ⟨.of_eq rfl, h⟩
  | createFolder path => exact ⟨.of_eq rfl, h⟩
  | folderExists path =>
      exact ⟨.of_eq (congrArg (Except.ok ∘ Output.bool) (folderExists_eq h path)), h⟩
  | deleteFolder path =>
      obtain ⟨hresult, hnames⟩ := deleteFolder_same h path
      exact ⟨.of_eq (congrArg done hresult), hnames⟩
  | moveFolder source target =>
      obtain ⟨hresult, hnames⟩ := moveFolder_same h source target hfits
      exact ⟨.of_eq (congrArg done hresult), hnames⟩
  | copyFolder source target =>
      obtain ⟨hresult, hnames⟩ := copyFolder_same h source target hfits
      exact ⟨.of_eq (congrArg done hresult), hnames⟩

def Agree (engines : Engines) : Prop :=
  Names meaning engines.kv.files engines.mem.files

theorem agree_new : Agree .new := by
  refine ⟨?_, ?_, ?_⟩
  · intro left hleft
    obtain ⟨value, hvalue⟩ := lookup_of_mem hleft
    cases hvalue
  · intro name value hvalue
    cases hvalue
  · intro key value hvalue
    cases hvalue

-- A step whose operation fits the table it finds.
def FittingStep (before : Engines) (label : Op × Outcome × Outcome) (after : Engines) : Prop :=
  Step before label after ∧ Fits before.kv label.1

theorem step_same (before : Engines) (label : Op × Outcome × Outcome) (after : Engines)
    (h : Agree before) (step : FittingStep before label after) :
    Agree after ∧ Same label.2.1 label.2.2 := by
  obtain ⟨⟨mem, hmem, hmemCall, hkvCall⟩, hfits⟩ := step
  obtain ⟨hsame, hnames⟩ := call_same (h.congr hmem) label.1 hfits
  rw [hmemCall, hkvCall] at hsame hnames
  exact ⟨hnames, hsame⟩

-- As long as no path comes in two spellings, and no folder moves into its own
-- files, the engines answer the same. A read tells them apart at once otherwise.
theorem engines_agree (trace : List (Op × Outcome × Outcome)) (finish : Engines)
    (run : Run FittingStep .new trace finish) :
    (∀ label ∈ trace, Same label.2.1 label.2.2) ∧
      ∀ path, finish.mem.readFile path = finish.kv.readFile path ↔
        Fits finish.kv (.readFile path) := by
  obtain ⟨hfinish, hsame⟩ := run.forall_label Agree (fun label => Same label.2.1 label.2.2)
    agree_new step_same
  exact ⟨hsame, fun path => readFile_eq_iff hfinish path⟩

def Engines.call (engines : Engines) (op : Op) : (Outcome × Outcome) × Engines :=
  (((memCall engines.mem op).1, (kvCall engines.kv op).1),
    ⟨(memCall engines.mem op).2, (kvCall engines.kv op).2⟩)

theorem fittingStep_call (engines : Engines) (op : Op) (hfits : Fits engines.kv op) :
    FittingStep engines (op, (engines.call op).1) (engines.call op).2 :=
  ⟨⟨engines.mem, rfl, rfl, rfl⟩, hfits⟩

-- A file under an odd spelling is copied, the copy moved, and its folder deleted.
def script : List Op :=
  [.writeFile (Path.new "a//b".toList) ['x'], .copyFile (Path.new "a//b".toList) (Path.new ['c']),
    .moveFile (Path.new ['c']) (Path.new "d/e".toList), .readFile (Path.new "d/e".toList),
    .deleteFolder (Path.new ['a']), .readFile (Path.new "a//b".toList)]

theorem script_fits : Along Engines.call (fun engines => Fits engines.kv) .new script := by
  refine ⟨?_, ?_, ?_, ?_, trivial, ?_, trivial⟩
  · simp only [Fits]
    decide +kernel
  · simp only [Fits]
    decide +kernel
  · simp only [Fits]
    decide +kernel
  · simp only [Fits]
    decide +kernel
  · simp only [Fits]
    decide +kernel

theorem engines_agree_written :
    let engines := played Engines.call .new script
    engines.1.map (fun label => label.2.1) = [.ok .unit, .ok .unit, .ok .unit, .ok (.text ['x']),
      .ok .unit, .error (BlockingMemIo.fileNotFound ⟨"a//b".toList⟩)] ∧
    (∀ label ∈ engines.1, Same label.2.1 label.2.2) ∧
      ∀ path, engines.2.mem.readFile path = engines.2.kv.readFile path ↔
        Fits engines.2.kv (.readFile path) :=
  ⟨by decide +kernel, engines_agree _ _ (run_along fittingStep_call script_fits)⟩

-- Two engines that are given one file.
def written : Engines :=
  ⟨(BlockingMemIo.new.writeFile (Path.new "a//b".toList) ['x']).2,
    (KvBlockingIo.new.writeFile (Path.new "a//b".toList) ['x']).2⟩

theorem step_written : Step .new (.writeFile (Path.new "a//b".toList) ['x'], .ok .unit, .ok .unit)
    written :=
  ⟨.new, rfl, rfl, rfl⟩

-- The file is found under its other spelling by one engine and not by the other.
theorem engines_agree_spelled : ¬∀ (trace : List (Op × Outcome × Outcome)) (finish : Engines),
    Run Step .new trace finish → ∀ label ∈ trace, Same label.2.1 label.2.2 := by
  intro h
  let path : Path .file := Path.new "a/b".toList
  let missing : Outcome := .error (KvBlockingIo.fileNotFound "a/b".toList)
  have hread : Step written (.readFile path, .ok (.text ['x']), missing) written := by
    refine ⟨written.mem, rfl, Prod.ext ?_ rfl, Prod.ext ?_ rfl⟩
    · decide +kernel
    · decide +kernel
  have hsame := h _ written (.snoc (.snoc .nil step_written) hread) _
    (List.mem_append_right _ (List.mem_singleton_self _))
  cases hsame

end Saps.Files.FlatEngines
