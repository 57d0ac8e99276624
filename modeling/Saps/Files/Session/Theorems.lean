import Saps.Files.Guard.Transactions
import Saps.Files.Session.Folders

namespace Saps.Files.Session

open MemFileGuard Transition

variable {Doc : Type}

-- The order of iteration shows neither in the invariant nor in the view.
theorem Reordered.wellFormed {before after : State Doc} (h : Reordered before after)
    (hbefore : before.guard.WellFormed) : after.guard.WellFormed := by
  intro key file hlookup
  rw [h.buffers] at hlookup
  exact hbefore key file hlookup

variable [Yrs Doc]

-- One call on the buffers is the same call on the plain map of what they show.
def Simulated (state : State Doc) (command : Call) : Prop :=
  (call state command).2.guard.WellFormed ∧
    PlainStep Doc state.view (command, (call state command).1) (call state command).2.view

theorem simulated_of_mirrored {state : State Doc} {command : Call}
    {guard : MemFileGuard Doc} {store : BlockingMemIo}
    {op : BlockingMemIo → Except FileError Unit × BlockingMemIo}
    (hcall : call state command = (done (op store).1, ⟨guard, (op store).2⟩))
    (hplain : ∀ io, plain Doc io command = (done (op io).1, (op io).2))
    (hguard : guard.WellFormed) (hview : view guard store = state.view)
    (h : Mirrored guard store op) : Simulated state command := by
  obtain ⟨io, io', hio, hop, hio'⟩ := h
  unfold Simulated
  rw [hcall]
  refine ⟨hguard, io, io', hio.trans hview, ?_, hio'⟩
  rw [hplain, hop]

theorem delete_simulated {state : State Doc} (hstate : state.guard.WellFormed)
    (path : Path .file) : Simulated state (.delete path) := by
  have hdrop := dropFile_evicted hstate state.store path
  have hplain (io : BlockingMemIo) :
      plain Doc io (.delete path) = (done (io.deleteFile path).1, (io.deleteFile path).2) := by
    cases hlookup : io.files.lookup path.key with
    | none =>
        simp only [plain, BlockingMemIo.deleteFile, hlookup]
        rfl
    | some contents =>
        simp only [plain, BlockingMemIo.deleteFile, hlookup]
        rfl
  refine simulated_of_mirrored ?_ hplain hdrop.wellFormed hdrop.view ?_
  · rfl
  exact deleteFile_mirrored hdrop.wellFormed _ path (hdrop.gone _ rfl)

theorem moveFile_simulated {state : State Doc} (hstate : state.guard.WellFormed)
    (source target : Path .file) : Simulated state (.moveFile source target) := by
  have hsource := dropFile_evicted hstate state.store source
  have hboth := hsource.trans (dropFile_evicted hsource.wellFormed _ target)
  have hplain (io : BlockingMemIo) : plain Doc io (.moveFile source target) =
      (done (io.moveFile source target).1, (io.moveFile source target).2) := by
    cases hlookup : io.files.lookup source.key with
    | none =>
        simp only [plain, BlockingMemIo.moveFile, hlookup]
        rfl
    | some contents =>
        simp only [plain, BlockingMemIo.moveFile, hlookup]
        rfl
  refine simulated_of_mirrored ?_ hplain hboth.wellFormed hboth.view ?_
  · rfl
  exact moveFile_mirrored hboth.wellFormed _ source target hboth.gone

theorem deleteFolder_simulated {state : State Doc} (hstate : state.guard.WellFormed)
    (path : Path .folder) : Simulated state (.deleteFolder path) := by
  have hdrop := dropDir_evicted hstate state.store path
  refine simulated_of_mirrored rfl (fun _ => rfl) hdrop.wellFormed hdrop.view ?_
  exact deleteFolder_mirrored hdrop.wellFormed _ path hdrop.gone

theorem moveFolder_simulated {state : State Doc} (hstate : state.guard.WellFormed)
    (source target : Path .folder) : Simulated state (.moveFolder source target) := by
  have hsource := dropDir_evicted hstate state.store source
  have hboth := hsource.trans (dropDir_evicted hsource.wellFormed _ target)
  refine simulated_of_mirrored rfl (fun _ => rfl) hboth.wellFormed hboth.view ?_
  exact moveFolder_mirrored hboth.wellFormed _ source target hboth.gone

theorem copyFolder_simulated {state : State Doc} (hstate : state.guard.WellFormed)
    (source target : Path .folder) : Simulated state (.copyFolder source target) := by
  obtain ⟨guard, store, heq, hsaved, hstored⟩ := snapshot_saved hstate state.store
  have hdrop := dropDir_evicted hsaved.wellFormed store target
  have hcall : call state (.copyFolder source target) =
      (done ((guard.dropDir store target).2.copyFolder source target).1,
        ⟨(guard.dropDir store target).1,
          ((guard.dropDir store target).2.copyFolder source target).2⟩) := by
    simp only [call, Api.copyFolder, heq]
    rfl
  refine simulated_of_mirrored hcall (fun _ => rfl) hdrop.wellFormed
    (hdrop.view.trans hsaved.view) ?_
  refine copyFolder_mirrored _ _ source target hdrop.gone (funext fun key => ?_)
  have hkey : store.files.lookup key = view guard store key := by rw [hstored, hsaved.view]
  rw [hdrop.view, hdrop.settled key hkey]

-- A call that only moves text between buffers and store is no step of the map.
theorem simulated_of_view {state : State Doc} {command : Call} {outcome : Outcome}
    {after : State Doc} (hcall : call state command = (outcome, after))
    (hstate : state.guard.WellFormed) (hafter : after.guard.WellFormed)
    (hview : after.view = state.view)
    (hplain : ∀ io : BlockingMemIo, io.files.lookup = state.view →
      plain Doc io command = (outcome, io)) : Simulated state command := by
  have hseen := drop_lookup hstate state.store
  unfold Simulated
  rw [hcall]
  exact ⟨hafter, state.guard.drop state.store, state.guard.drop state.store, hseen,
    hplain _ hseen, hseen.trans hview.symm⟩

theorem dropFile_simulated {state : State Doc} (hstate : state.guard.WellFormed)
    (path : Path .file) : Simulated state (.dropFile path) := by
  have hdrop := dropFile_evicted hstate state.store path
  exact simulated_of_view rfl hstate hdrop.wellFormed hdrop.view fun _ _ => rfl

theorem dropDir_simulated {state : State Doc} (hstate : state.guard.WellFormed)
    (dir : Path .folder) : Simulated state (.dropDir dir) := by
  have hdrop := dropDir_evicted hstate state.store dir
  exact simulated_of_view rfl hstate hdrop.wellFormed hdrop.view fun _ _ => rfl

theorem snapshot_simulated {state : State Doc} (hstate : state.guard.WellFormed) :
    Simulated state .snapshot := by
  obtain ⟨guard, store, heq, hsaved, _⟩ := snapshot_saved hstate state.store
  have hcall : call state .snapshot = (.ok .unit, ⟨guard, store⟩) := by
    simp only [call, heq]
    rfl
  exact simulated_of_view hcall hstate hsaved.wellFormed hsaved.view fun _ _ => rfl

-- A file exists in the session when the view holds it.
theorem fileExists_eq (guard : MemFileGuard Doc) (store : BlockingMemIo) (path : Path .file) :
    Api.fileExists guard store path = (view guard store path.key).isSome := by
  unfold Api.fileExists isResident view Overlay.through text
  cases guard.fileMap.lookup path.key with
  | none => rfl
  | some file => rfl

theorem fileExists_simulated {state : State Doc} (hstate : state.guard.WellFormed)
    (path : Path .file) : Simulated state (.fileExists path) := by
  refine simulated_of_view rfl hstate hstate rfl fun io hio => ?_
  simp only [plain, hio, fileExists_eq, State.view]

theorem extractPath_simulated {state : State Doc} (hstate : state.guard.WellFormed)
    (rootPath relPath : Str) : Simulated state (.extractPath rootPath relPath) := by
  refine simulated_of_view rfl hstate hstate rfl fun io hio => ?_
  have hprobe : (fun path : Path .file => (io.files.lookup path.key).isSome) =
      Api.fileExists state.guard state.store := by
    funext path
    rw [hio, fileExists_eq, State.view]
  simp only [plain, hprobe]
  rfl

theorem read_simulated [LawfulYrs Doc] {state : State Doc} (hstate : state.guard.WellFormed)
    (path : Path .file) : Simulated state (.read path) := by
  rcases getFile_cases hstate state.store path with ⟨file, guard, heq, hload⟩ | ⟨hnone, heq⟩
  · have hcall : call state (.read path) = (.ok (.text file.contents), ⟨guard, state.store⟩) := by
      simp only [call, Api.read, heq]
      rfl
    refine simulated_of_view hcall hstate hload.wellFormed hload.view fun io hio => ?_
    have hcontents : state.view path.key = some file.contents := hload.contents
    simp only [plain, hio, hcontents]
  · have hcall : call state (.read path) =
        (.error (BlockingMemIo.fileNotFound path.fullPath), state) := by
      simp only [call, Api.read, heq]
      rfl
    refine simulated_of_view hcall hstate hstate rfl fun io hio => ?_
    have hcontents : state.view path.key = none := hnone
    simp only [plain, hio, hcontents]

-- A call that leaves one text at one path is a write of the map.
theorem simulated_of_write {state : State Doc} {command : Call} {after : State Doc}
    (path : Path .file) (data : Str) (hcall : call state command = (.ok .unit, after))
    (hstate : state.guard.WellFormed) (hafter : after.guard.WellFormed)
    (hview : ∀ key, after.view key = if key = path.key then some data else state.view key)
    (hplain : ∀ io : BlockingMemIo, io.files.lookup = state.view →
      plain Doc io command = (.ok .unit, ⟨io.files.insert path.key data⟩)) :
    Simulated state command := by
  have hseen := drop_lookup hstate state.store
  unfold Simulated
  rw [hcall]
  refine ⟨hafter, state.guard.drop state.store, _, hseen, hplain _ hseen, ?_⟩
  funext key
  rw [hview, HashMap.lookup_insert, hseen]
  rfl

theorem resetFile_wellFormed {guard : MemFileGuard Doc} (hguard : guard.WellFormed)
    (path : Path .file) (contents : Str) : (guard.resetFile path contents).WellFormed :=
  wellFormed_insert (wellFormed_erase hguard path.key) path.key
    (MemFile.fromString path contents) rfl rfl

theorem resetFile_view [LawfulYrs Doc] (guard : MemFileGuard Doc) (store : BlockingMemIo)
    (path : Path .file) (contents : Str) (key : PathBuf.Key) :
    view (guard.resetFile path contents) store key =
      if key = path.key then some contents else view guard store key := by
  unfold view Overlay.through resetFile
  rw [text_insert ⟨_⟩, contents_fromString]
  split
  · rfl
  · next hkey => rw [text_erase, if_neg hkey]

theorem resetFile_simulated [LawfulYrs Doc] {state : State Doc}
    (hstate : state.guard.WellFormed) (path : Path .file) (contents : Str) :
    Simulated state (.resetFile path contents) :=
  simulated_of_write path contents rfl hstate (resetFile_wellFormed hstate path contents)
    (resetFile_view state.guard state.store path contents) fun _ _ => rfl

-- `save` on a path: the file is loaded if it has to be, and then stored.
theorem saveFile_cases [LawfulYrs Doc] {guard : MemFileGuard Doc} (hguard : guard.WellFormed)
    (store : BlockingMemIo) (path : Path .file) :
    (∃ contents after saved, Api.saveFile guard store path = (.ok (), after, saved) ∧
      Saved guard store after saved ∧ view guard store path.key = some contents ∧
        saved.files.lookup path.key = some contents) ∨
    (view guard store path.key = none ∧ Api.saveFile guard store path =
      (.error (BlockingMemIo.fileNotFound path.fullPath), guard, store)) := by
  rcases getFile_cases hguard store path with ⟨file, loaded, heq, hload⟩ | ⟨hmissing, heq⟩
  · obtain ⟨hsaved, hstored⟩ := save_saved hload.wellFormed store hload.lookup
    have hview := hsaved.view.trans hload.view
    have hsettled := hsaved.settled
    rw [hload.view] at hsettled hstored
    refine .inl ⟨file.contents, _, _, ?_, ⟨hsaved.wellFormed, hview, hsettled⟩, hload.contents,
      hstored.trans hload.contents⟩
    simp only [Api.saveFile, heq, save_eq]
    rfl
  · exact .inr ⟨hmissing, by simp only [Api.saveFile, heq]⟩

theorem write_simulated [LawfulYrs Doc] {state : State Doc} (hstate : state.guard.WellFormed)
    (path : Path .file) (data : Str) : Simulated state (.write path data) := by
  have hreset := resetFile_wellFormed hstate path data
  have hseen := resetFile_view state.guard state.store path data
  rcases saveFile_cases hreset state.store path with
    ⟨_, guard, store, heq, hsaved, _⟩ | ⟨hmissing, _⟩
  · have hcall : call state (.write path data) = (.ok .unit, ⟨guard, store⟩) := by
      simp only [call, Api.write, heq]
      rfl
    refine simulated_of_write path data hcall hstate hsaved.wellFormed ?_ fun _ _ => rfl
    exact fun key => (congrFun hsaved.view key).trans (hseen key)
  · simp [hseen] at hmissing

-- A missing source is the store's own error, and nothing changes.
theorem simulated_of_missing {state : State Doc} {command : Call} (path : Path .file)
    (hcall : call state command = (.error (BlockingMemIo.fileNotFound path.fullPath), state))
    (hstate : state.guard.WellFormed) (hmissing : state.view path.key = none)
    (hplain : ∀ io : BlockingMemIo, io.files.lookup path.key = none →
      plain Doc io command = (.error (BlockingMemIo.fileNotFound path.fullPath), io)) :
    Simulated state command := by
  refine simulated_of_view hcall hstate hstate rfl fun io hio => hplain io ?_
  rw [hio, hmissing]

theorem copy_simulated [LawfulYrs Doc] {state : State Doc} (hstate : state.guard.WellFormed)
    (source target : Path .file) : Simulated state (.copy source target) := by
  rcases saveFile_cases hstate state.store source with
    ⟨contents, guard, store, heq, hsaved, hseen, hstored⟩ | ⟨hmissing, heq⟩
  · have hdrop := dropFile_evicted hsaved.wellFormed store target
    have hview := hdrop.view.trans hsaved.view
    have hkept : store.files.lookup source.key = view guard store source.key := by
      rw [hstored, hsaved.view, hseen]
    have hsource : (guard.dropFile store target).2.files.lookup source.key = some contents := by
      rw [hdrop.settled source.key hkept, hsaved.view, hseen]
    let copied : State Doc := ⟨(guard.dropFile store target).1,
      ⟨(guard.dropFile store target).2.files.insert target.key contents⟩⟩
    have hcall : call state (.copy source target) = (.ok .unit, copied) := by
      simp only [call, Api.copy, heq, FileIo.copyFile, BlockingMemIo.copyFile, hsource]
      rfl
    refine simulated_of_write target contents hcall hstate hdrop.wellFormed ?_ ?_
    · intro key
      unfold copied State.view view Overlay.through
      rw [HashMap.lookup_insert]
      split
      · next hkey => rw [hkey, hdrop.gone _ rfl]; rfl
      · exact congrFun hview key
    · intro io hio
      have hread : io.files.lookup source.key = some contents := by
        rw [hio]
        exact hseen
      simp only [plain, hread]
  · refine simulated_of_missing source ?_ hstate hmissing ?_
    · simp only [call, Api.copy, heq]
      rfl
    · intro io hio
      simp only [plain, hio]

theorem applyTransaction_simulated [LawfulYrs Doc] {state : State Doc}
    (hstate : state.guard.WellFormed) (path : Path .file) (transaction : Transaction) :
    Simulated state (.applyTransaction path transaction) := by
  rcases getFile_cases hstate state.store path with ⟨file, loaded, heq, hload⟩ | ⟨hmissing, heq⟩
  · obtain ⟨hpath, hflush⟩ := hload.wellFormed _ _ hload.lookup
    obtain ⟨update, buffer, store, hrun, hstays⟩ := applyTransaction_ok state.guard loaded
      state.store state.store path transaction file heq fun _ _ => rfl
    have hedited : edited Doc path file.contents transaction =
        Yrs.getString (Edit.applyAll file.doc transaction.edits) :=
      Edit.applyAll_congr _ _ _ (contents_fromString path file.contents)
    have hcall : call state (.applyTransaction path transaction) =
        (.ok .unit, ⟨loaded.putFile path buffer, store⟩) := by
      simp only [call, hrun]
      rfl
    have hbuffer := wellFormed_insert hload.wellFormed path.key buffer
      (by rw [hstays.path, hpath]) (by rw [hstays.flushOnDrop, hflush])
    refine simulated_of_write path (edited Doc path file.contents transaction) hcall hstate
      hbuffer ?_ ?_
    · intro key
      have hview := view_putFile loaded buffer hstays.writes hpath key
      rw [hload.view] at hview
      rw [hedited, ← hstays.doc]
      exact hview
    · intro io hio
      have hcontents : state.view path.key = some file.contents := hload.contents
      simp only [plain, hio, hcontents]
  · refine simulated_of_missing path ?_ hstate hmissing ?_
    · simp only [call, applyTransaction, heq]
      rfl
    · intro io hio
      simp only [plain, hio]

theorem call_simulated [LawfulYrs Doc] {state : State Doc} (hstate : state.guard.WellFormed)
    (command : Call) : Simulated state command := by
  cases command with
  | read path => exact read_simulated hstate path
  | write path data => exact write_simulated hstate path data
  | delete path => exact delete_simulated hstate path
  | moveFile source target => exact moveFile_simulated hstate source target
  | copy source target => exact copy_simulated hstate source target
  | fileExists path => exact fileExists_simulated hstate path
  | applyTransaction path transaction => exact applyTransaction_simulated hstate path transaction
  | extractPath rootPath relPath => exact extractPath_simulated hstate rootPath relPath
  | copyFolder source target => exact copyFolder_simulated hstate source target
  | moveFolder source target => exact moveFolder_simulated hstate source target
  | deleteFolder path => exact deleteFolder_simulated hstate path
  | dropFile path => exact dropFile_simulated hstate path
  | dropDir dir => exact dropDir_simulated hstate dir
  | snapshot => exact snapshot_simulated hstate
  | resetFile path contents => exact resetFile_simulated hstate path contents

theorem Reordered.view {before after : State Doc} (h : Reordered before after) :
    after.view = before.view := by
  unfold State.view Session.view
  rw [h.files]
  congr 1
  funext key
  simp only [text, h.buffers]

theorem step_simulated [LawfulYrs Doc] {before after : State Doc} {label : Call × Outcome}
    (hbefore : before.guard.WellFormed) (h : Step before label after) :
    after.guard.WellFormed ∧ PlainStep Doc before.view label after.view := by
  obtain ⟨state, hsame, hcall⟩ := h
  have hsim := call_simulated (hsame.wellFormed hbefore) label.1
  unfold Simulated at hsim
  rw [hcall, hsame.view] at hsim
  exact hsim

-- A call on the plain map that fails changes nothing.
theorem plain_error {io after : BlockingMemIo} {command : Call} {error : FileError}
    (h : plain Doc io command = (.error error, after)) : after = io := by
  cases command with
  | delete path =>
      simp only [plain] at h
      split at h <;> simp_all
  | moveFile source target =>
      simp only [plain] at h
      split at h <;> simp_all
  | copy source target =>
      simp only [plain] at h
      split at h <;> simp_all
  | copyFolder source target =>
      simp only [plain, BlockingMemIo.copyFolder] at h
      split at h <;> simp_all [done, Except.map]
  | moveFolder source target =>
      simp only [plain, BlockingMemIo.moveFolder] at h
      split at h <;> simp_all [done, Except.map]
  | deleteFolder path =>
      simp only [plain, BlockingMemIo.deleteFolder] at h
      split at h <;> simp_all [done, Except.map]
  | applyTransaction path transaction =>
      simp only [plain] at h
      split at h <;> simp_all
  | write path data => simp [plain] at h
  | resetFile path contents => simp [plain] at h
  | read path =>
      simp only [plain] at h
      split at h <;> simp_all
  | extractPath rootPath relPath => exact (Prod.mk.inj h).2.symm
  | fileExists path => exact (Prod.mk.inj h).2.symm
  | dropFile path => exact (Prod.mk.inj h).2.symm
  | dropDir dir => exact (Prod.mk.inj h).2.symm
  | snapshot => exact (Prod.mk.inj h).2.symm

-- The buffers of a session are invisible: every call answers what the same call
-- on the plain map of the view answers and leaves the view as the map is left, a
-- failed call leaves the view alone, and at any time dropping the guard makes the
-- store the view.
theorem session_refines_plain [LawfulYrs Doc] (io : BlockingMemIo)
    (trace : List (Call × Outcome)) (finish : State Doc)
    (run : Run Step ⟨.new, io⟩ trace finish) :
    Run (PlainStep Doc) io.files.lookup trace finish.view ∧
      (∀ state, Reordered finish state →
        (state.guard.drop state.store).files.lookup = finish.view) ∧
      ∀ command error after, Step finish (command, .error error) after →
        after.view = finish.view := by
  let shows (state : State Doc) (seen : View) := state.guard.WellFormed ∧ state.view = seen
  let start : State Doc := ⟨.new, io⟩
  have hstart : shows start start.view := ⟨wellFormed_new, rfl⟩
  have hnew : start.view = io.files.lookup := by
    funext key
    exact view_of_text_none (by simp [start, text, MemFileGuard.new]) io
  have hstep : ∀ before label after seen, shows before seen → Step before label after →
      ∃ seen', PlainStep Doc seen label seen' ∧ shows after seen' := by
    rintro before label after seen ⟨hguard, rfl⟩ hstep
    obtain ⟨hafter, hplain⟩ := step_simulated hguard hstep
    exact ⟨after.view, hplain, hafter, rfl⟩
  obtain ⟨seen, hplain, hguard, rfl⟩ := run.simulate shows hstart hstep
  refine ⟨hnew ▸ hplain, ?_, ?_⟩
  · intro state hsame
    rw [drop_lookup (hsame.wellFormed hguard)]
    exact hsame.view
  · intro command error after hstep
    obtain ⟨_, before, later, hbefore, hcall, hlater⟩ := step_simulated hguard hstep
    rw [← hlater, plain_error hcall, hbefore]

-- A file is edited in its buffer, moved in another spelling and evicted.
def script : List Call :=
  let edit : Transaction := ⟨[.insert ⟨0, 0⟩ ['y']]⟩
  [.write (Path.new "d/a".toList) ['x'], .applyTransaction (Path.new "d/a".toList) edit,
    .moveFile (Path.new "d//a".toList) (Path.new ['b']), .applyTransaction (Path.new ['b']) edit,
    .dropFile (Path.new ['b']), .read (Path.new ['b']), .read (Path.new "d/a".toList)]

theorem step_call (state : State Doc) (command : Call) :
    Step state (command, (call state command).1) (call state command).2 :=
  ⟨state, ⟨rfl, rfl⟩, rfl⟩

theorem session_refines_plain_written :
    let session := played call (⟨.new, .new⟩ : State OpLog) script
    session.1.map Prod.snd = [.ok .unit, .ok .unit, .ok .unit, .ok .unit, .ok .unit,
      .ok (.text "yyx".toList), .error (BlockingMemIo.fileNotFound ⟨"d/a".toList⟩)] ∧
    Run (PlainStep OpLog) BlockingMemIo.new.files.lookup session.1 session.2.view ∧
      (∀ state, Reordered session.2 state →
        (state.guard.drop state.store).files.lookup = session.2.view) ∧
      ∀ command error after, Step session.2 (command, .error error) after →
        after.view = session.2.view :=
  ⟨by decide +kernel, session_refines_plain .new _ _ (run_played step_call _ script)⟩

end Saps.Files.Session
