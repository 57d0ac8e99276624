import Saps.Files.IndexedDb.Theorems
import Saps.Files.IndexedDb.Users
import Saps.Files.Relocation.Theorems

namespace Saps.Files.IndexedDbIo.Users

open Transition TwoPhase
open FlatEngines (Outcome done listed kvCall)
open Relocation (newName namesUnder entriesUnder)

theorem Alike.of_eq {left right : Outcome} (h : left = right) : Alike left right := by
  subst h
  cases left with
  | error error => rfl
  | ok output =>
      cases output with
      | paths keys => exact List.Perm.refl _
      | unit => rfl
      | text contents => rfl
      | bool answer => rfl

theorem listed_perm {left right : List Str} (hperm : left.Perm right) :
    Alike (listed (.ok (left.map (@Path.new .file)))) (listed (.ok (right.map (@Path.new .file)))) :=
  (hperm.map Path.new).map Path.key

section Alone

variable (io : IndexedDbIo)

theorem alone_deleteFile (path : Path .file) :
    ops.alone io (.deleteFile path) =
      match io.files.lookup path.fullPath.text with
      | none => (.error (fileNotFound path.fullPath.text), io)
      | some _ => (.ok (), ⟨io.files.erase path.fullPath.text⟩) := by
  cases h : io.files.lookup path.fullPath.text with
  | none =>
      refine alone_of_error ?_
      change look io (.deleteFile path) = _
      simp only [look, IndexedDbIo.get, h]
      rfl
  | some contents =>
      refine @alone_of_look _ _ _ ops io (.deleteFile path) () ?_
      change look io (.deleteFile path) = _
      simp only [look, IndexedDbIo.get, h]
      rfl

theorem alone_copyFile (source target : Path .file) :
    ops.alone io (.copyFile source target) =
      match io.files.lookup source.fullPath.text with
      | none => (.error (fileNotFound source.fullPath.text), io)
      | some contents => (.ok (), ⟨io.files.insert target.fullPath.text contents⟩) := by
  cases h : io.files.lookup source.fullPath.text with
  | none =>
      refine alone_of_error ?_
      change look io (.copyFile source target) = _
      simp only [look, IndexedDbIo.get, h]
      rfl
  | some contents =>
      refine alone_of_look ?_
      change look io (.copyFile source target) = _
      simp only [look, IndexedDbIo.get, h]
      rfl

theorem alone_deleteFolder (path : Path .folder) :
    ops.alone io (.deleteFolder path) =
      if namesUnder io path = [] then (.error (folderNotFound path.fullPath.text), io)
      else (.ok (), ⟨(namesUnder io path).foldl (fun files key => files.erase key) io.files⟩) := by
  by_cases hnil : namesUnder io path = []
  · rw [if_pos hnil]
    exact alone_of_error (if_pos hnil)
  · rw [if_neg hnil]
    exact alone_of_look (if_neg hnil)

end Alone

section Calls

variable {io : IndexedDbIo} {kv : KvBlockingIo} (h : io.files.lookup = kv.files.lookup)

include h

theorem allKeys_perm : io.allKeys.Perm kv.files.keys :=
  HashMap.keys_perm io.files kv.files fun key => by rw [h]

theorem namesUnder_perm (folder : Path .folder) : (namesUnder io folder).Perm (kv.matchingKeys folder) :=
  (allKeys_perm h).filter _

theorem namesUnder_eq_nil (folder : Path .folder) :
    namesUnder io folder = [] ↔ kv.matchingKeys folder = [] := by
  constructor
  · intro hnil
    exact (hnil ▸ (namesUnder_perm h folder).symm).eq_nil
  · intro hnil
    exact (hnil ▸ namesUnder_perm h folder).eq_nil

theorem entriesUnder_eq_nil (folder : Path .folder) :
    entriesUnder io folder = [] ↔ kv.matchingKeys folder = [] := by
  rw [← List.map_eq_nil_iff, Relocation.map_fst_entriesUnder, namesUnder_eq_nil h]

theorem readFile_eq (path : Path .file) : io.readFile path = kv.readFile path := by
  unfold IndexedDbIo.readFile KvBlockingIo.readFile IndexedDbIo.get
  rw [h]
  rfl

theorem fileExists_eq (path : Path .file) : io.fileExists path = kv.fileExists path := by
  unfold IndexedDbIo.fileExists KvBlockingIo.fileExists IndexedDbIo.get
  rw [h]

theorem folderExists_eq (path : Path .folder) : io.folderExists path = kv.folderExists path :=
  (allKeys_perm h).any_eq

theorem answer_alike {op : FlatEngines.Op} {outcome : Outcome} (hanswer : io.answer op = some outcome) :
    Alike outcome (kvCall kv op).1 ∧ (kvCall kv op).2 = kv := by
  cases op with
  | readFile path =>
      cases hanswer
      exact ⟨.of_eq (congrArg (Except.map FlatEngines.Output.text) (readFile_eq h path)), rfl⟩
  | fileExists path =>
      cases hanswer
      exact ⟨.of_eq (congrArg (Except.ok ∘ FlatEngines.Output.bool) (fileExists_eq h path)), rfl⟩
  | childFiles path =>
      cases hanswer
      exact ⟨listed_perm ((allKeys_perm h).filter _), rfl⟩
  | allChildFiles path =>
      cases hanswer
      exact ⟨listed_perm (namesUnder_perm h path), rfl⟩
  | childFolders path =>
      cases hanswer
      exact ⟨List.Perm.refl _, rfl⟩
  | createFolder path =>
      cases hanswer
      exact ⟨rfl, rfl⟩
  | folderExists path =>
      cases hanswer
      exact ⟨.of_eq (congrArg (Except.ok ∘ FlatEngines.Output.bool) (folderExists_eq h path)), rfl⟩
  | writeFile | deleteFile | moveFile | copyFile | deleteFolder | moveFolder | copyFolder =>
      cases hanswer

-- Moving the files one by one and in one transaction comes to moving them at once.
theorem moveFolder_alike (source target : Path .folder) (hfits : Fits io (.moveFolder source target)) :
    (ops.alone io (.moveFolder source target)).1 = (kv.moveFolder source target).1 ∧
      (ops.alone io (.moveFolder source target)).2.files.lookup =
        (kv.moveFolder source target).2.files.lookup := by
  obtain ⟨hagree, hfree⟩ := hfits
  have hperm := namesUnder_perm h source
  have hio := Relocation.alone_moveFolder io source target
  unfold Relocation.alone at hio
  rw [hio]
  have hkv : kv.moveFolder source target = if kv.matchingKeys source = [] then
      (.error (KvBlockingIo.folderNotFound source.fullPath.text), kv)
    else (.ok (), ⟨(kv.matchingKeys source).foldl (HashMap.rekey (newName source target)) kv.files⟩) :=
    rfl
  rw [hkv]
  by_cases hnil : kv.matchingKeys source = []
  · rw [if_pos hnil, if_pos ((entriesUnder_eq_nil h source).mpr hnil)]
    exact ⟨rfl, h⟩
  · have hsome : ¬entriesUnder io source = [] := fun hnone =>
      hnil ((entriesUnder_eq_nil h source).mp hnone)
    rw [if_neg hnil, if_neg hsome]
    refine ⟨rfl, ?_⟩
    have hmoved := (Relocation.movesFolder_iff io source target).mpr
      ⟨hagree, fun key hkey hland => absurd hland (hfree key hkey)⟩
    unfold Relocation.IndexedDbMovesFolder at hmoved
    rw [Relocation.alone_moveFolder, if_neg hsome] at hmoved
    have hmoved := (hmoved rfl).congr fun key => hperm.mem_iff
    rw [h] at hmoved hagree
    refine hmoved.unique (HashMap.foldl_rekey_atOnce _ _ (FlatEngines.matchingKeys_nodup kv source)
      (FlatEngines.matchingKeys_stored kv source) ?_ ?_)
    · intro left hleft right hright
      exact hagree left (hperm.mem_iff.mpr hleft) right (hperm.mem_iff.mpr hright)
    · refine List.pairwise_of_forall_mem_list fun key hkey later hlater heq => ?_
      refine absurd ?_ (hfree key (hperm.mem_iff.mpr hkey))
      rw [heq]
      exact hperm.mem_iff.mpr hlater

theorem copyFolder_alike (source target : Path .folder) (hfits : Fits io (.copyFolder source target)) :
    (ops.alone io (.copyFolder source target)).1 = (kv.copyFolder source target).1 ∧
      (ops.alone io (.copyFolder source target)).2.files.lookup =
        (kv.copyFolder source target).2.files.lookup := by
  obtain ⟨hagree, hsame⟩ := hfits
  have hperm := namesUnder_perm h source
  have hio := Relocation.alone_copyFolder io source target
  unfold Relocation.alone at hio
  rw [hio]
  have hkv : kv.copyFolder source target = if kv.matchingKeys source = [] then
      (.error (KvBlockingIo.folderNotFound source.fullPath.text), kv)
    else (.ok (), ⟨(kv.matchingKeys source).foldl (HashMap.duplicate (newName source target))
      kv.files⟩) := rfl
  rw [hkv]
  by_cases hnil : kv.matchingKeys source = []
  · rw [if_pos hnil, if_pos ((entriesUnder_eq_nil h source).mpr hnil)]
    exact ⟨rfl, h⟩
  · rw [if_neg hnil, if_neg fun hnone => hnil ((entriesUnder_eq_nil h source).mp hnone)]
    refine ⟨rfl, ?_⟩
    have hcopied := (HashMap.foldl_put_atOnce_iff (newName source target) io.files
      (Relocation.entriesUnder_seen io source)).mpr (by
        rw [Relocation.map_fst_entriesUnder]
        exact hagree)
    rw [Relocation.map_fst_entriesUnder] at hcopied
    have hcopied := hcopied.congr fun key => hperm.mem_iff
    rw [h] at hcopied hagree hsame
    refine hcopied.unique (HashMap.foldl_duplicate_atOnce _ _
      (FlatEngines.matchingKeys_stored kv source) ?_ ?_)
    · intro left hleft right hright
      exact hagree left (hperm.mem_iff.mpr hleft) right (hperm.mem_iff.mpr hright)
    · refine List.pairwise_of_forall_mem_list fun key hkey later hlater heq => ?_
      rw [← heq]
      exact (hsame key (hperm.mem_iff.mpr hkey) (heq ▸ hperm.mem_iff.mpr hlater)).symm

theorem deleteFolder_alike (path : Path .folder) :
    (ops.alone io (.deleteFolder path)).1 = (kv.deleteFolder path).1 ∧
      (ops.alone io (.deleteFolder path)).2.files.lookup =
        (kv.deleteFolder path).2.files.lookup := by
  rw [alone_deleteFolder]
  unfold KvBlockingIo.deleteFolder
  by_cases hnil : kv.matchingKeys path = []
  · rw [if_pos hnil, if_pos ((namesUnder_eq_nil h path).mpr hnil)]
    exact ⟨rfl, h⟩
  · rw [if_neg hnil, if_neg fun hnone => hnil ((namesUnder_eq_nil h path).mp hnone)]
    refine ⟨rfl, ?_⟩
    funext key
    dsimp only
    rw [HashMap.lookup_foldl_erase, HashMap.lookup_foldl_erase, h]
    by_cases hkey : key ∈ kv.matchingKeys path
    · rw [if_pos ((namesUnder_perm h path).mem_iff.mpr hkey), if_pos hkey]
    · rw [if_neg fun hmem => hkey ((namesUnder_perm h path).mem_iff.mp hmem), if_neg hkey]

theorem deleteFile_alike (path : Path .file) :
    (ops.alone io (.deleteFile path)).1 = (kv.deleteFile path).1 ∧
      (ops.alone io (.deleteFile path)).2.files.lookup =
        (kv.deleteFile path).2.files.lookup := by
  rw [alone_deleteFile]
  unfold KvBlockingIo.deleteFile
  rw [← h]
  cases io.files.lookup path.fullPath.text with
  | none => exact ⟨rfl, h⟩
  | some contents =>
      refine ⟨rfl, ?_⟩
      funext key
      simp [h]

theorem copyFile_alike (source target : Path .file) :
    (ops.alone io (.copyFile source target)).1 = (kv.copyFile source target).1 ∧
      (ops.alone io (.copyFile source target)).2.files.lookup =
        (kv.copyFile source target).2.files.lookup := by
  rw [alone_copyFile]
  unfold KvBlockingIo.copyFile
  rw [← h]
  cases io.files.lookup source.fullPath.text with
  | none => exact ⟨rfl, h⟩
  | some contents =>
      refine ⟨rfl, ?_⟩
      funext key
      simp [h]

-- The browser puts before it deletes, redb the other way round.
theorem moveFile_alike (source target : Path .file) (hfits : Fits io (.moveFile source target)) :
    (ops.alone io (.moveFile source target)).1 = (kv.moveFile source target).1 ∧
      (ops.alone io (.moveFile source target)).2.files.lookup =
        (kv.moveFile source target).2.files.lookup := by
  have hio := Relocation.alone_moveFile io source target
  unfold Relocation.alone at hio
  rw [hio]
  unfold KvBlockingIo.moveFile
  rw [← h]
  have hne : (io.files.lookup source.fullPath.text).isSome = true →
      source.fullPath.text ≠ target.fullPath.text := hfits
  cases hfound : io.files.lookup source.fullPath.text with
  | none => exact ⟨rfl, h⟩
  | some contents =>
      rw [hfound] at hne
      refine ⟨rfl, ?_⟩
      funext key
      simp only [HashMap.lookup_insert, HashMap.lookup_erase, h]
      by_cases hkey : key = source.fullPath.text
      · rw [if_pos hkey, if_neg (hkey ▸ hne rfl), if_pos hkey]
      · rw [if_neg hkey, if_neg hkey]

-- A change with no other one in flight: the same result, and the same files.
theorem change_alike (op : Op) (hfits : Fits io op) :
    Alike (done (ops.alone io op).1) (kvCall kv op.call).1 ∧
      (ops.alone io op).2.files.lookup = (kvCall kv op.call).2.files.lookup := by
  cases op with
  | writeFile path data =>
      refine ⟨rfl, ?_⟩
      funext key
      change (io.files.insert path.fullPath.text data).lookup key =
        (kv.files.insert path.fullPath.text data).lookup key
      simp [h]
  | deleteFile path =>
      obtain ⟨hresult, hfiles⟩ := deleteFile_alike h path
      exact ⟨.of_eq (congrArg done hresult), hfiles⟩
  | moveFile source target =>
      obtain ⟨hresult, hfiles⟩ := moveFile_alike h source target hfits
      exact ⟨.of_eq (congrArg done hresult), hfiles⟩
  | copyFile source target =>
      obtain ⟨hresult, hfiles⟩ := copyFile_alike h source target
      exact ⟨.of_eq (congrArg done hresult), hfiles⟩
  | deleteFolder path =>
      obtain ⟨hresult, hfiles⟩ := deleteFolder_alike h path
      exact ⟨.of_eq (congrArg done hresult), hfiles⟩
  | moveFolder source target =>
      obtain ⟨hresult, hfiles⟩ := moveFolder_alike h source target hfits
      exact ⟨.of_eq (congrArg done hresult), hfiles⟩
  | copyFolder source target =>
      obtain ⟨hresult, hfiles⟩ := copyFolder_alike h source target hfits
      exact ⟨.of_eq (congrArg done hresult), hfiles⟩

end Calls

-- A step completes no call and changes no file, or the redb store makes the same call.
theorem settledStep_alike {before after : State ops} {event : Event}
    (step : SettledStep before event after) {kv : KvBlockingIo}
    (h : before.store.files.lookup = kv.files.lookup) :
    (event.completed = none ∧ after.store = before.store) ∨
      ∃ op outcome kvOutcome kvAfter, event.completed = some (op, outcome) ∧
        KvStep kv (op, kvOutcome) kvAfter ∧ Alike outcome kvOutcome ∧
        after.store.files.lookup = kvAfter.files.lookup := by
  obtain ⟨step, hsettled⟩ := step
  cases step with
  | answer op outcome hanswer =>
      obtain ⟨halike, hsame⟩ := answer_alike h hanswer
      refine .inr ⟨op, outcome, (kvCall kv op).1, (kvCall kv op).2, rfl, rfl, halike, ?_⟩
      rw [hsame, h]
  | change label after step =>
      obtain ⟨hfresh, hfits⟩ := hsettled
      rcases (timelyStep_of_upToDate ⟨step, hfresh⟩).serial with
        ⟨hnone, hstore⟩ | ⟨finished, hsome, hserial⟩
      · refine .inl ⟨?_, hstore⟩
        change label.completed.map _ = none
        rw [hnone]
        rfl
      · have hop : finished.1 = label.op := by
          cases label with
          | started id op => cases hsome
          | finished id op result => cases hsome; rfl
        obtain ⟨halike, hfiles⟩ := change_alike h finished.1 (hop ▸ hfits finished hsome)
        have hserial : ops.alone before.store finished.1 = (finished.2, after.store) := hserial
        rw [hserial] at halike hfiles
        refine .inr ⟨finished.1.call, done finished.2, (kvCall kv finished.1.call).1,
          (kvCall kv finished.1.call).2, ?_, rfl, halike, hfiles⟩
        change label.completed.map _ = _
        rw [hsome]
        rfl

-- However the calls of its users overlap, the browser store answers and ends as the redb
-- store does where the same calls are made one after the other, as long as no user acts
-- on what is no longer so and no file lands on its own name or on one that moves as well.
theorem users_serial (io : IndexedDbIo) (kv : KvBlockingIo) (trace : List Event)
    (finish : State ops) (hsame : io.files.lookup = kv.files.lookup)
    (run : Run SettledStep (begin ops io) trace finish) :
    ∃ order kvFinish, Run KvStep kv order kvFinish ∧
      List.Forall₂ (fun left right => left.1 = right.1 ∧ Alike left.2 right.2)
        (trace.filterMap Event.completed) order ∧
      finish.store.files.lookup = kvFinish.files.lookup := by
  induction run with
  | nil => exact ⟨[], kv, .nil, .nil, hsame⟩
  | snoc _ last ih =>
      obtain ⟨order, kvMid, hrun, hall, hfiles⟩ := ih
      rw [List.filterMap_append]
      rcases settledStep_alike last hfiles with
        ⟨hnone, hstore⟩ | ⟨op, outcome, kvOutcome, kvAfter, hsome, hkv, halike, hafter⟩
      · rw [List.filterMap_cons_none hnone, List.filterMap_nil, List.append_nil, hstore]
        exact ⟨order, kvMid, hrun, hall, hfiles⟩
      · rw [List.filterMap_cons_some hsome, List.filterMap_nil]
        exact ⟨order ++ [(op, kvOutcome)], kvAfter, .snoc hrun hkv,
          List.rel_append hall (.cons ⟨rfl, halike⟩ .nil), hafter⟩

section Example

def folderA : Path .folder :=
  Path.new ['a']

def folderB : Path .folder :=
  Path.new ['b']

def moveAToB : Op :=
  .moveFolder folderA folderB

def singleKv : KvBlockingIo :=
  (KvBlockingIo.new.writeFile (Path.new "a/x".toList) ['x']).2

def seenA : ops.Seen moveAToB :=
  ([("a/x".toList, ['x'])] : List (Str × Str))

def moving : State ops :=
  { begin ops Relocation.single with
    issued := Function.update (fun _ => none) 0 (some moveAToB)
    flights := Function.update (fun _ => none) 0 (some ⟨moveAToB, seenA⟩) }

def movedAway : State ops :=
  { moving with
    store := Relocation.single.act moveAToB seenA
    flights := Function.update moving.flights 0 none }

-- One user reads a file while another one is about to move its folder.
def overlapping : List Event :=
  [.changing (.started 0 moveAToB), .answered (.readFile (Path.new "a/x".toList)) (.ok (.text ['x'])),
    .changing (.finished 0 moveAToB (.ok ()))]

theorem entriesUnder_single : entriesUnder Relocation.single folderA = [("a/x".toList, ['x'])] := by
  decide +kernel

theorem namesUnder_single : namesUnder Relocation.single folderA = ["a/x".toList] := by
  decide +kernel

theorem upToDate_single : UpToDate Relocation.single moveAToB seenA :=
  ⟨List.cons_ne_nil _ _, entriesUnder_single⟩

theorem fits_single : Fits Relocation.single moveAToB := by
  have hnew : newName folderA folderB "a/x".toList = "b/x".toList := by decide +kernel
  refine ⟨?_, ?_⟩
  · rw [namesUnder_single]
    simp [HashMap.Agree]
  · rw [namesUnder_single]
    intro key hkey
    rw [List.mem_singleton.mp hkey, hnew]
    decide

theorem overlapping_run : Run SettledStep (begin ops Relocation.single) overlapping movedAway := by
  have hsees : ops.look Relocation.single moveAToB = .ok seenA :=
    look_entries (List.cons_ne_nil _ _) entriesUnder_single
  have hlook : SettledStep (begin ops Relocation.single) (.changing (.started 0 moveAToB)) moving := by
    refine ⟨.change _ _ (.look 0 moveAToB seenA rfl rfl hsees), ?_, ?_⟩
    · exact fun seen hseen => by cases hseen
    · exact fun finished hfinished => by cases hfinished
  have hread : SettledStep moving
      (.answered (.readFile (Path.new "a/x".toList)) (.ok (.text ['x']))) moving :=
    ⟨.answer _ _ (by decide +kernel), trivial⟩
  have hflight : moving.flights 0 = some ⟨moveAToB, seenA⟩ := rfl
  have hact : SettledStep moving (.changing (.finished 0 moveAToB (.ok ()))) movedAway := by
    refine ⟨.change _ _ (.act 0 moveAToB seenA hflight), ?_, fun _ _ => fits_single⟩
    intro seen hseen
    have hsame : some (⟨moveAToB, seenA⟩ : (op : Op) × ops.Seen op) = some ⟨moveAToB, seen⟩ :=
      hflight.symm.trans hseen
    cases hsame
    exact upToDate_single
  exact .snoc (.snoc (.snoc .nil hlook) hread) hact

theorem users_serial_overlapping :
    ∃ order kvFinish, Run KvStep singleKv order kvFinish ∧
      List.Forall₂ (fun left right => left.1 = right.1 ∧ Alike left.2 right.2)
        (overlapping.filterMap Event.completed) order ∧
      movedAway.store.files.lookup = kvFinish.files.lookup :=
  users_serial Relocation.single singleKv overlapping movedAway rfl overlapping_run

end Example

end Saps.Files.IndexedDbIo.Users
