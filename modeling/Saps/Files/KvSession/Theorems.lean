import Saps.Files.KvSession
import Saps.Files.Relocation.Theorems
import Saps.Files.Session.Theorems

namespace Saps.Files.KvSession

open FlatEngines (meaning newKey)
open Naming (Names Spelled)
open Relocation (Unnested newName)
open Session (Call Outcome PlainStep)
open Transition

-- The redb store beside an in-memory one with the same files, each in one known spelling.
structure Beside (names : Set Str) (kv : KvBlockingIo) (mem : BlockingMemIo) : Prop where
  named : Names meaning kv.files mem.files
  known : ∀ name ∈ kv.files.keys, name ∈ names

variable {names : Set Str} {kv : KvBlockingIo} {mem : BlockingMemIo}

theorem apart_of_unnested {source target : Path .folder} (h : Unnested source target)
    {keys : List PathBuf.Key} (hkeys : ∀ key ∈ keys, key.startsWith source.key = true) :
    HashMap.Apart (newKey source.key target.key) keys := by
  refine ⟨?_, ?_⟩
  · intro left hleft right hright heq
    exact Relocation.newKey_injective h.nonempty (hkeys left hleft) (hkeys right hright) heq
  · intro left hleft right hright heq
    have houtside := h.newKey_outside (hkeys left hleft)
    rw [heq, hkeys right hright] at houtside
    cases houtside

theorem folderApart (kv : KvBlockingIo) {source target : Path .folder}
    (h : Unnested source target) : FlatEngines.FolderApart kv source target := by
  refine apart_of_unnested h ?_
  intro key hkey
  obtain ⟨name, hname, rfl⟩ := List.mem_map.mp hkey
  exact (List.mem_filter.mp hname).2

theorem under_of_mem {folder : Path .folder} {name : Str} (h : name ∈ kv.matchingKeys folder) :
    name ∈ kv.files.keys ∧ (meaning name).startsWith folder.key = true :=
  List.mem_filter.mp h

variable (hnames : Set.InjOn meaning names) (h : Beside names kv mem)

include hnames h

theorem Beside.spelled {name : Str} (hname : name ∈ names) : Spelled meaning kv.files name :=
  fun other hother heq => hnames (h.known other hother) hname heq

theorem Beside.spelled_erase (key : Str) {name : Str} (hname : name ∈ names) :
    Spelled meaning (kv.files.erase key) name := by
  intro other hother heq
  obtain ⟨text, htext⟩ := Naming.lookup_of_mem hother
  rw [HashMap.lookup_erase] at htext
  split at htext
  · cases htext
  · exact hnames (h.known other (Naming.mem_of_lookup htext)) hname heq

omit hnames h in
theorem beside_of {kv : KvBlockingIo} {mem : BlockingMemIo} (hnamed : Names meaning kv.files mem.files)
    (hknown : ∀ name text, kv.files.lookup name = some text → name ∈ names) :
    Beside names kv mem := by
  refine ⟨hnamed, ?_⟩
  intro name hname
  obtain ⟨text, htext⟩ := Naming.lookup_of_mem hname
  exact hknown name text htext

omit hnames in
theorem Beside.stored {name text : Str} (hname : kv.files.lookup name = some text) : name ∈ names :=
  h.known name (Naming.mem_of_lookup hname)

theorem readFile_alike {path : Path .file} (hpath : Known names path) :
    kv.readFile path = mem.readFile path :=
  ((FlatEngines.readFile_eq_iff h.named path).mpr (h.spelled hnames hpath)).symm

theorem fileExists_alike {path : Path .file} (hpath : Known names path) :
    kv.fileExists path = mem.fileExists path :=
  (FlatEngines.fileExists_eq h.named path (h.spelled hnames hpath)).symm

theorem writeFile_alike {path : Path .file} (hpath : Known names path) (data : Str) :
    (kv.writeFile path data).1 = (mem.writeFile path data).1 ∧
      Beside names (kv.writeFile path data).2 (mem.writeFile path data).2 := by
  refine ⟨rfl, beside_of (h.named.insert _ data (h.spelled hnames hpath)) ?_⟩
  intro name text hname
  have hname : (kv.files.insert path.fullPath.text data).lookup name = some text := hname
  rw [HashMap.lookup_insert] at hname
  split at hname
  · next heq => exact heq ▸ hpath
  · exact h.stored hname

theorem deleteFile_alike {path : Path .file} (hpath : Known names path) :
    (kv.deleteFile path).1 = (mem.deleteFile path).1 ∧
      Beside names (kv.deleteFile path).2 (mem.deleteFile path).2 := by
  obtain ⟨hresult, hnamed⟩ := FlatEngines.deleteFile_same h.named path (h.spelled hnames hpath)
  refine ⟨hresult.symm, beside_of hnamed ?_⟩
  intro name text hname
  unfold KvBlockingIo.deleteFile at hname
  split at hname
  · simp only [HashMap.lookup_erase] at hname
    split at hname
    · cases hname
    · exact h.stored hname
  · exact h.stored hname

theorem moveFile_alike {source target : Path .file} (hsource : Known names source)
    (htarget : Known names target) :
    (kv.moveFile source target).1 = (mem.moveFile source target).1 ∧
      Beside names (kv.moveFile source target).2 (mem.moveFile source target).2 := by
  obtain ⟨hresult, hnamed⟩ := FlatEngines.moveFile_same h.named source target
    ⟨h.spelled hnames hsource, fun _ => h.spelled_erase hnames _ htarget⟩
  refine ⟨hresult.symm, beside_of hnamed ?_⟩
  intro name text hname
  unfold KvBlockingIo.moveFile at hname
  split at hname
  · simp only [HashMap.lookup_insert, HashMap.lookup_erase] at hname
    split at hname
    · next heq => exact heq ▸ htarget
    · split at hname
      · cases hname
      · exact h.stored hname
  · exact h.stored hname

theorem copyFile_alike {source target : Path .file} (hsource : Known names source)
    (htarget : Known names target) :
    (kv.copyFile source target).1 = (mem.copyFile source target).1 ∧
      Beside names (kv.copyFile source target).2 (mem.copyFile source target).2 := by
  obtain ⟨hresult, hnamed⟩ := FlatEngines.copyFile_same h.named source target
    ⟨h.spelled hnames hsource, fun _ => h.spelled hnames htarget⟩
  refine ⟨hresult.symm, beside_of hnamed ?_⟩
  intro name text hname
  unfold KvBlockingIo.copyFile at hname
  split at hname
  · simp only [HashMap.lookup_insert] at hname
    split at hname
    · next heq => exact heq ▸ htarget
    · exact h.stored hname
  · exact h.stored hname

omit hnames in
theorem deleteFolder_alike (path : Path .folder) :
    (kv.deleteFolder path).1 = (mem.deleteFolder path).1 ∧
      Beside names (kv.deleteFolder path).2 (mem.deleteFolder path).2 := by
  obtain ⟨hresult, hnamed⟩ := FlatEngines.deleteFolder_same h.named path
  refine ⟨hresult.symm, beside_of hnamed ?_⟩
  intro name text hname
  unfold KvBlockingIo.deleteFolder at hname
  dsimp only at hname
  split at hname
  · exact h.stored hname
  · rw [HashMap.lookup_foldl_erase] at hname
    split at hname
    · cases hname
    · exact h.stored hname

-- Where a file stands after a folder has gone, it stood before or has been taken to.
omit hnames in
theorem Beside.moved {keep : Prop} {source target : Path .folder}
    (hrelocates : Relocates names source target) {after : HashMap Str Str}
    (hmoved : HashMap.Moved keep (newName source target) (kv.matchingKeys source) kv.files after)
    {name text : Str} (hname : after.lookup name = some text) : name ∈ names := by
  rcases (hmoved name text).mp hname with ⟨old, hold, rfl, _⟩ | ⟨_, _, hstays⟩
  · obtain ⟨hstored, hunder⟩ := under_of_mem hold
    exact hrelocates.2 old (h.known old hstored) hunder
  · exact h.stored hstays

theorem moveFolder_alike {source target : Path .folder}
    (hrelocates : Relocates names source target) :
    (kv.moveFolder source target).1 = (mem.moveFolder source target).1 ∧
      Beside names (kv.moveFolder source target).2 (mem.moveFolder source target).2 := by
  have hapart := folderApart kv hrelocates.1
  have hfits : FlatEngines.Fits kv (.moveFolder source target) := by
    refine ⟨hapart, ?_⟩
    intro key hkey other hother _ heq
    obtain ⟨hstored, hunder⟩ := under_of_mem hkey
    exact hnames (h.known other hother) (hrelocates.2 key (h.known key hstored) hunder) heq
  obtain ⟨hresult, hnamed⟩ := FlatEngines.moveFolder_same h.named source target hfits
  refine ⟨hresult.symm, beside_of hnamed ?_⟩
  intro name text hname
  unfold KvBlockingIo.moveFolder at hname
  dsimp only at hname
  split at hname
  · exact h.stored hname
  · exact h.moved hrelocates (HashMap.foldl_rekey _ kv.files
      (FlatEngines.matchingKeys_nodup kv source) (FlatEngines.apart_matchingKeys h.named hapart)
      (FlatEngines.matchingKeys_stored kv source)) hname

theorem copyFolder_alike {source target : Path .folder}
    (hrelocates : Relocates names source target) :
    (kv.copyFolder source target).1 = (mem.copyFolder source target).1 ∧
      Beside names (kv.copyFolder source target).2 (mem.copyFolder source target).2 := by
  have hapart := folderApart kv hrelocates.1
  have hfits : FlatEngines.Fits kv (.copyFolder source target) := by
    refine ⟨hapart, ?_⟩
    intro key hkey
    obtain ⟨hstored, hunder⟩ := under_of_mem hkey
    exact h.spelled hnames (hrelocates.2 key (h.known key hstored) hunder)
  obtain ⟨hresult, hnamed⟩ := FlatEngines.copyFolder_same h.named source target hfits
  refine ⟨hresult.symm, beside_of hnamed ?_⟩
  intro name text hname
  unfold KvBlockingIo.copyFolder at hname
  dsimp only at hname
  split at hname
  · exact h.stored hname
  · exact h.moved hrelocates (HashMap.foldl_duplicate _ kv.files
      (FlatEngines.matchingKeys_nodup kv source) (FlatEngines.apart_matchingKeys h.named hapart)
      (FlatEngines.matchingKeys_stored kv source)) hname

omit h

theorem alikeFiles : Parametric.AlikeFiles (Beside names) (Known names) where
  readFile h _ hpath := readFile_alike hnames h hpath
  fileExists h _ hpath := fileExists_alike hnames h hpath
  writeFile h _ hpath data := writeFile_alike hnames h hpath data
  deleteFile h _ hpath := deleteFile_alike hnames h hpath
  moveFile h _ _ hsource htarget := moveFile_alike hnames h hsource htarget
  copyFile h _ _ hsource htarget := copyFile_alike hnames h hsource htarget

theorem alikeFolders : Parametric.AlikeFolders (Beside names) (Relocates names) where
  deleteFolder h path := deleteFolder_alike h path
  moveFolder h _ _ hrelocates := moveFolder_alike hnames h hrelocates
  copyFolder h _ _ hrelocates := copyFolder_alike hnames h hrelocates

omit hnames

-- Both stores show the same files.
theorem Beside.shown (h : Beside names kv mem) : shown kv = mem.files.lookup := by
  funext key
  unfold KvSession.shown
  cases hfind : kv.files.keys.find? fun name => decide (meaning name = key) with
  | none =>
      have hnone : ∀ name ∈ kv.files.keys, meaning name ≠ key := by
        simpa using List.find?_eq_none.mp hfind
      cases hlookup : mem.files.lookup key with
      | none => rfl
      | some text =>
          obtain ⟨name, hmeaning, hname⟩ := h.named.complete key text hlookup
          exact absurd hmeaning (hnone name (Naming.mem_of_lookup hname))
  | some name =>
      have hmeaning : meaning name = key := by simpa using List.find?_some hfind
      obtain ⟨text, htext⟩ := Naming.lookup_of_mem (List.mem_of_find?_eq_some hfind)
      rw [Option.bind_some, htext, ← hmeaning, h.named.sound name text htext]

theorem exists_beside (hnames : Set.InjOn meaning names)
    (hknown : ∀ name ∈ kv.files.keys, name ∈ names) :
    ∃ mem, Beside names kv mem := by
  have hunique : ∀ left ∈ kv.files.keys, ∀ right ∈ kv.files.keys,
      meaning left = meaning right → left = right := fun left hleft right hright =>
    hnames (hknown left hleft) (hknown right hright)
  obtain ⟨files, hnamed⟩ := Naming.exists_names kv.files hunique
  exact ⟨⟨files⟩, hnamed, hknown⟩

section Sessions

variable {Doc : Type} [Yrs Doc]

-- The guard of a session over the redb store does over the in-memory one what it does.
structure Shadows (names : Set Str) (state : State Doc) (mem : BlockingMemIo) : Prop where
  beside : Beside names state.store mem
  holds : Parametric.Holds (Known names) state.guard
  wellFormed : state.guard.WellFormed

theorem Shadows.view {state : State Doc} (h : Shadows names state mem) :
    state.view = Session.view state.guard mem := by
  unfold State.view Session.view
  rw [h.beside.shown]

omit [Yrs Doc] in
theorem Shadows.reordered {state : State Doc} (h : Shadows names state mem)
    {guard : MemFileGuard Doc} (hguard : guard.fileMap.lookup = state.guard.fileMap.lookup) :
    Parametric.Holds (Known names) guard ∧ guard.WellFormed := by
  refine ⟨?_, ?_⟩
  · intro key file hfile
    rw [hguard] at hfile
    exact h.holds key file hfile
  · intro key file hfile
    rw [hguard] at hfile
    exact h.wellFormed key file hfile

variable [LawfulYrs Doc] (hnames : Set.InjOn meaning names)

include hnames

theorem step_shadows {before after : State Doc} {label : Call × Outcome}
    (h : Shadows names before mem) (step : KnownStep names before label after) :
    PlainStep Doc before.view label after.view ∧ ∃ mem', Shadows names after mem' := by
  obtain ⟨⟨guard, hguard, hcall⟩, hknows⟩ := step
  obtain ⟨hholds, hwell⟩ := h.reordered hguard
  obtain ⟨result, guard', store, mem', hleft, hright, hheld, hbeside⟩ :=
    (Parametric.call_same (alikeFiles hnames) (alikeFolders hnames) h.beside hholds label.1
      hknows).cases
  rw [hcall] at hleft
  obtain ⟨hresult, hafter⟩ := Prod.mk.inj hleft
  obtain ⟨rfl, rfl⟩ := Prod.mk.inj hafter
  have hstep : Session.Step ⟨before.guard, mem⟩ label ⟨after.guard, mem'⟩ := by
    refine ⟨⟨guard, mem⟩, ⟨hguard, rfl⟩, ?_⟩
    rw [Parametric.call_eq, hright, hresult]
  obtain ⟨hwell', hplain⟩ := Session.step_simulated h.wellFormed hstep
  have hshadows : Shadows names after mem' := ⟨hbeside, hheld, hwell'⟩
  rw [h.view, hshadows.view]
  exact ⟨hplain, mem', hshadows⟩

omit [LawfulYrs Doc] in
-- Dropping the guard leaves in the table what the session showed.
theorem drop_shown {state : State Doc} (h : Shadows names state mem) {guard : MemFileGuard Doc}
    (hguard : guard.fileMap.lookup = state.guard.fileMap.lookup) :
    shown (guard.drop state.store) = state.view := by
  obtain ⟨hholds, hwell⟩ := h.reordered hguard
  have hstores := (Parametric.evictAll_same (alikeFiles hnames) guard.fileMap.keys hholds
    h.beside).stores
  have hlookup : shown (guard.drop state.store) = (guard.drop mem).files.lookup := Beside.shown hstores
  rw [hlookup, h.view, Session.drop_lookup hwell]
  unfold Session.view
  congr 1
  funext key
  simp only [MemFileGuard.text, hguard]

-- A session over the redb store is a session without buffers: it answers what the same
-- calls on a plain map of the files answer, a failed call changes nothing of what it
-- shows, and at any time dropping the guard stores what it shows, as long as every file
-- comes in one spelling and no folder goes into itself.
theorem kv_session_refines_plain (kv : KvBlockingIo) (hknown : ∀ name ∈ kv.files.keys, name ∈ names)
    (trace : List (Call × Outcome)) (finish : State Doc)
    (run : Run (KnownStep names) ⟨.new, kv⟩ trace finish) :
    Run (PlainStep Doc) (shown kv) trace finish.view ∧
      (∀ guard : MemFileGuard Doc, guard.fileMap.lookup = finish.guard.fileMap.lookup →
        shown (guard.drop finish.store) = finish.view) ∧
      ∀ command error after, KnownStep names finish (command, .error error) after →
        after.view = finish.view := by
  let shows (state : State Doc) (seen : Session.View) :=
    state.view = seen ∧ ∃ mem, Shadows names state mem
  let start : State Doc := ⟨.new, kv⟩
  obtain ⟨mem, hbeside⟩ := exists_beside hnames hknown
  have hshadows : Shadows names start mem :=
    ⟨hbeside, Parametric.holds_new _, Session.wellFormed_new⟩
  have hnew : start.view = shown kv := by
    funext key
    simp [State.view, Overlay.through, start, MemFileGuard.text, MemFileGuard.new]
  have hstep : ∀ before label after seen, shows before seen → KnownStep names before label after →
      ∃ seen', PlainStep Doc seen label seen' ∧ shows after seen' := by
    rintro before label after seen ⟨rfl, mem, hbefore⟩ step
    obtain ⟨hplain, hafter⟩ := step_shadows hnames hbefore step
    exact ⟨after.view, hplain, rfl, hafter⟩
  obtain ⟨seen, hplain, rfl, mem', hfinish⟩ := run.simulate shows ⟨rfl, mem, hshadows⟩ hstep
  refine ⟨hnew ▸ hplain, fun guard hguard => drop_shown hnames hfinish hguard, ?_⟩
  intro command error after step
  obtain ⟨⟨before, later, hbefore, hcall, hlater⟩, _⟩ := step_shadows hnames hfinish step
  rw [← hlater, Session.plain_error hcall, hbefore]

end Sessions

-- A session that writes and reads a file under an odd spelling.
def odd : Path .file :=
  Path.new "a//b".toList

def oddNames : Set Str :=
  {"a//b".toList}

def oddTrace : List (Call × Outcome) :=
  [(.write odd ['x'], .ok .unit), (.read odd, .ok (.text ['x']))]

def oddWritten : State OpLog :=
  let after := Parametric.call (MemFileGuard.new : MemFileGuard OpLog) KvBlockingIo.new
    (.write odd ['x'])
  ⟨after.2.1, after.2.2⟩

theorem odd_run : Run (KnownStep oddNames) ⟨.new, .new⟩ oddTrace oddWritten := by
  have hknown : Known oddNames odd := rfl
  have hwrite : Step ⟨.new, .new⟩ (.write odd ['x'], .ok .unit) oddWritten := by
    refine ⟨.new, rfl, Prod.ext ?_ rfl⟩
    decide +kernel
  have hread : Step oddWritten (.read odd, .ok (.text ['x'])) oddWritten := by
    refine ⟨oddWritten.guard, rfl, Prod.ext ?_ rfl⟩
    decide +kernel
  exact .snoc (.snoc .nil ⟨hwrite, hknown⟩) ⟨hread, hknown⟩

theorem kv_session_refines_plain_odd :
    Run (PlainStep OpLog) (shown .new) oddTrace oddWritten.view ∧
      (∀ guard : MemFileGuard OpLog, guard.fileMap.lookup = oddWritten.guard.fileMap.lookup →
        shown (guard.drop oddWritten.store) = oddWritten.view) ∧
      ∀ command error after, KnownStep oddNames oddWritten (command, .error error) after →
        after.view = oddWritten.view :=
  kv_session_refines_plain (Set.injOn_singleton _ _) .new
    (fun _ hname => absurd hname List.not_mem_nil) oddTrace oddWritten odd_run

end Saps.Files.KvSession
