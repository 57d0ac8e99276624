import Saps.Files.AsyncMem
import Saps.Files.DiffStream.Theorems
import Saps.Files.Durability

namespace Saps.Files

namespace Logged

variable {Store : Type} [FileIo Store]

-- The answer of a write is kept with the others.
theorem writes_writeFile (logged : Logged Store) (path : Path .file) (data : Str) :
    (FileIo.writeFile logged path data).2.writes =
      logged.writes ++ [(FileIo.writeFile logged path data).1] := rfl

instance [WritesSettle Store] : WritesSettle (Logged Store) where
  read_written {store after path data} h := by
    obtain ⟨hresult, hafter⟩ := Prod.ext_iff.mp h
    have hwrite : FileIo.writeFile store.store path data = (.ok (), after.store) :=
      Prod.ext hresult (congrArg Logged.store hafter)
    have hread : FileIo.readFile after.store path = .ok data := WritesSettle.read_written hwrite
    exact hread
  read_refused {store after path data error} h := by
    obtain ⟨hresult, hafter⟩ := Prod.ext_iff.mp h
    have hwrite : FileIo.writeFile store.store path data = (.error error, after.store) :=
      Prod.ext hresult (congrArg Logged.store hafter)
    have hread : FileIo.readFile after.store path = FileIo.readFile store.store path :=
      WritesSettle.read_refused hwrite
    exact hread

end Logged

namespace Durability

open Transition

variable {Doc : Type} [Yrs Doc] {Store : Type} [FileIo Store]

-- A call edits the buffer and saves it, or only counts the edit if it is a single
-- character and not many have gone before.
theorem Call.run_eq (call : Call) (file : MemFile Doc) (store : Logged Store) :
    call.run file store =
      if call.Single then
        if SAVE_THRESHOLD ≤ file.opsSinceSave + 1 then
          MemFile.save ⟨call.edit file.doc, file.path, file.opsSinceSave + 1, file.flushOnDrop⟩ store
        else (.ok (), ⟨call.edit file.doc, file.path, file.opsSinceSave + 1, file.flushOnDrop⟩, store)
      else MemFile.save ⟨call.edit file.doc, file.path, file.opsSinceSave, file.flushOnDrop⟩ store := by
  cases call with
  | insertChar position character => rfl
  | deleteChar position => rfl
  | insertText position data => rfl
  | deleteRange position delta => rfl
  | save => rfl

-- What a save comes to, told from the answer of its one write.
inductive Saved (file : MemFile Doc) (store : Logged Store) :
    Except FileError Unit × MemFile Doc × Logged Store → Prop
  | written (after : Logged Store) (hread : FileIo.readFile after file.path = .ok file.contents)
      (hwrites : after.writes = store.writes ++ [.ok ()]) :
      Saved file store (.ok (), { file with opsSinceSave := 0 }, after)
  | refused (error : FileError) (after : Logged Store)
      (hread : FileIo.readFile after file.path = FileIo.readFile store file.path)
      (hwrites : after.writes = store.writes ++ [.error error]) :
      Saved file store (.error error, file, after)

theorem save_saved [WritesSettle Store] (file : MemFile Doc) (store : Logged Store) :
    Saved file store (file.save store) := by
  have hwrites := Logged.writes_writeFile store file.path file.contents
  unfold MemFile.save
  rcases h : FileIo.writeFile store file.path file.contents with ⟨_ | _, after⟩
  · rw [h] at hwrites
    exact .refused _ after (WritesSettle.read_refused h) hwrites
  · rw [h] at hwrites
    exact .written after (WritesSettle.read_written h) hwrites

-- All that a call can do.
inductive Called (before : State Doc Store) (label : Label) (after : State Doc Store) : Prop
  | counted (hsingle : label.call.Single) (hresult : label.result = .ok ())
      (hwrote : label.wrote = false) (hfew : after.file.opsSinceSave < SAVE_THRESHOLD)
      (hcount : after.file.opsSinceSave = before.file.opsSinceSave + 1)
      (hstored : after.stored = before.stored)
  | written (hresult : label.result = .ok ()) (hwrote : label.wrote = true)
      (hcount : after.file.opsSinceSave = 0) (hstored : after.stored = .ok label.contents)
  | refused (error : FileError) (hresult : label.result = .error error)
      (hwrote : label.wrote = false) (hstored : after.stored = before.stored)
      (hdoc : after.file.doc = label.call.edit before.file.doc)

theorem saved_called {before after : State Doc Store} {label : Label} {file : MemFile Doc}
    (hsaved : Saved file before.store (label.result, after.file, after.store))
    (hpath : file.path = before.file.path) (hdoc : file.doc = label.call.edit before.file.doc)
    (hwrites : after.store.writes = before.store.writes ++ label.writes)
    (hcontents : label.contents = after.file.contents) : Called before label after := by
  obtain ⟨call, result, writes, contents⟩ := label
  obtain ⟨buffer, store⟩ := after
  dsimp only at hdoc hsaved hwrites hcontents
  generalize houtcome : (result, buffer, store) = outcome at hsaved
  cases hsaved with
  | written after hread hlog =>
      obtain ⟨rfl, rfl, rfl⟩ := houtcome
      obtain rfl : writes = [.ok ()] := List.append_cancel_left (hwrites.symm.trans hlog)
      exact .written rfl rfl rfl (hread.trans (congrArg Except.ok hcontents.symm))
  | refused error after hread hlog =>
      obtain ⟨rfl, rfl, rfl⟩ := houtcome
      obtain rfl : writes = [.error error] := List.append_cancel_left (hwrites.symm.trans hlog)
      refine .refused error rfl rfl ?_ hdoc
      unfold State.stored
      rw [hread, hpath]

theorem step_called [WritesSettle Store] {before after : State Doc Store} {label : Label}
    (hstep : Step before label after) : Called before label after := by
  obtain ⟨hcall, hwrites, hcontents⟩ := hstep
  rw [Call.run_eq] at hcall
  have hsave (count : Nat)
      (h : MemFile.save ⟨label.call.edit before.file.doc, before.file.path, count,
        before.file.flushOnDrop⟩ before.store = (label.result, after.file, after.store)) :
      Called before label after := by
    have hsaved := save_saved (⟨label.call.edit before.file.doc, before.file.path, count,
      before.file.flushOnDrop⟩ : MemFile Doc) before.store
    rw [h] at hsaved
    exact saved_called hsaved rfl rfl hwrites hcontents
  by_cases hsingle : label.call.Single
  · rw [if_pos hsingle] at hcall
    by_cases hdue : SAVE_THRESHOLD ≤ before.file.opsSinceSave + 1
    · rw [if_pos hdue] at hcall
      exact hsave _ hcall
    · rw [if_neg hdue] at hcall
      obtain ⟨call, result, writes, contents⟩ := label
      obtain ⟨buffer, store⟩ := after
      obtain ⟨rfl, rfl, rfl⟩ := hcall
      obtain rfl : writes = [] := List.append_cancel_left (hwrites.symm.trans (by simp))
      exact .counted hsingle rfl rfl (by simpa using hdue) rfl rfl
  · rw [if_neg hsingle] at hcall
    exact hsave _ hcall

theorem since_of_wrote {trace : List Label} {label : Label} (h : label.wrote = true) :
    since (trace ++ [label]) = [] := by
  unfold since
  rw [List.rtakeWhile_concat_neg _ _ _ (by simp [h])]

theorem since_of_not_wrote {trace : List Label} {label : Label} (h : label.wrote = false) :
    since (trace ++ [label]) = since trace ++ [label] := by
  unfold since
  rw [List.rtakeWhile_concat_pos _ _ _ (by simp [h])]

theorem written_of_wrote (start : Str) {trace : List Label} {label : Label}
    (h : label.wrote = true) : written start (trace ++ [label]) = label.contents := by
  simp [written, h]

theorem written_of_not_wrote (start : Str) {trace : List Label} {label : Label}
    (h : label.wrote = false) : written start (trace ++ [label]) = written start trace := by
  simp [written, h]

theorem Lags.step {start : Str} {trace : List Label} {before after : State Doc Store}
    {label : Label} (h : Lags start trace before) (hcalled : Called before label after) :
    Lags start (trace ++ [label]) after := by
  cases hcalled with
  | counted hsingle hresult hwrote hfew hcount hstored =>
      refine ⟨?_, ?_⟩
      · rw [hstored, written_of_not_wrote _ hwrote, h.stored]
      · rw [since_of_not_wrote hwrote]
        intro hok
        obtain ⟨hall, hlength, _⟩ := h.counted fun other hother =>
          hok other (List.mem_append_left _ hother)
        refine ⟨?_, ?_, by unfold SAVE_THRESHOLD at hfew; omega⟩
        · intro other hother
          rcases List.mem_append.mp hother with hother | hother
          · exact hall other hother
          · rw [List.mem_singleton.mp hother]
            exact hsingle
        · rw [List.length_append, hlength, hcount]
          rfl
  | written hresult hwrote hcount hstored =>
      refine ⟨?_, ?_⟩
      · rw [hstored, written_of_wrote _ hwrote]
      · rw [since_of_wrote hwrote, hcount]
        intro _
        exact ⟨by simp, rfl, by omega⟩
  | refused error hresult hwrote hstored hdoc =>
      refine ⟨?_, ?_⟩
      · rw [hstored, written_of_not_wrote _ hwrote, h.stored]
      · rw [since_of_not_wrote hwrote]
        intro hok
        have hlast := hok label (List.mem_append_right _ (List.mem_singleton_self _))
        rw [hresult] at hlast
        contradiction

theorem Called.kept {before after : State Doc Store} {label : Label}
    (h : Called before label after) : Kept before label after := by
  intro error herror
  cases h with
  | counted _ hresult => rw [hresult] at herror; contradiction
  | written hresult => rw [hresult] at herror; contradiction
  | refused _ _ _ hstored hdoc => exact ⟨hstored, hdoc⟩

theorem flushes [WritesSettle Store] (state : State Doc Store) : Flushes state := by
  intro hflush hwrite
  unfold MemFile.drop
  rw [if_pos hflush]
  have hwritten : FileIo.writeFile state.store state.file.path state.file.contents =
      (.ok (), (FileIo.writeFile state.store state.file.path state.file.contents).2) :=
    Prod.ext hwrite rfl
  exact WritesSettle.read_written hwritten

-- Along every run the store holds what the last successful write stored, a few
-- counted edits behind the buffer at most.
theorem durability_lag [WritesSettle Store] (start : State Doc Store) (hstart : Loaded start)
    (trace : List Label) (finish : State Doc Store) (run : Run Step start trace finish) :
    Lags start.file.contents trace finish ∧
      Run (fun before label after => Step before label after ∧ Kept before label after)
        start trace finish ∧ Flushes finish := by
  refine ⟨?_, run.mono fun before label after hstep => ⟨hstep, (step_called hstep).kept⟩,
    flushes finish⟩
  induction run with
  | nil =>
      refine ⟨hstart.1, fun _ => ⟨by simp [since], ?_, ?_⟩⟩
      · rw [hstart.2]
        rfl
      · rw [hstart.2]
        omega
  | snoc _ last ih => exact ih.step (step_called last)

-- The in-memory stores of both colours never refuse a write.
instance : WritesSettle BlockingMemIo where
  read_written h := by
    cases h
    simp [FileIo.readFile, BlockingMemIo.readFile]
  read_refused h := by cases h

instance : WritesSettle AsyncMemIo where
  read_written h := by
    cases h
    simp [FileIo.readFile, AsyncMemIo.readFile]
  read_refused h := by cases h

instance {Store : Type} [FileIo Store] [WritesSettle Store] : WritesSettle (Failing Store) where
  read_written {store after path data} h := by
    obtain ⟨io, refusals⟩ := store
    have hread (rest : List Bool)
        (hwrite : (FileIo.writeFile io path data).map id (Failing.mk · rest) = (.ok (), after)) :
        FileIo.readFile after.io path = .ok data := by
      obtain ⟨hresult, rfl⟩ := Prod.ext_iff.mp hwrite
      exact WritesSettle.read_written (Prod.ext hresult rfl)
    rcases refusals with _ | ⟨_ | _, rest⟩
    · exact hread [] h
    · exact hread rest h
    · cases h
  read_refused {store after path data error} h := by
    obtain ⟨io, refusals⟩ := store
    have hread (rest : List Bool)
        (hwrite : (FileIo.writeFile io path data).map id (Failing.mk · rest) = (.error error, after)) :
        FileIo.readFile after.io path = FileIo.readFile io path := by
      obtain ⟨hresult, rfl⟩ := Prod.ext_iff.mp hwrite
      exact WritesSettle.read_refused (Prod.ext hresult rfl)
    rcases refusals with _ | ⟨_ | _, rest⟩
    · exact hread [] h
    · exact hread rest h
    · cases h
      rfl

-- An empty file, just loaded, whose first save is refused.
def fresh : State OpLog DiffStream.Refusing :=
  ⟨MemFile.fromString DiffStream.file [], ⟨DiffStream.loaded.store, []⟩⟩

-- The state after a call, with what the call showed.
def perform (state : State OpLog DiffStream.Refusing) (call : Call) :
    Label × State OpLog DiffStream.Refusing :=
  let (result, file, store) := call.run state.file state.store
  (⟨call, result, store.writes.drop state.store.writes.length, file.contents⟩, ⟨file, store⟩)

def pasted : Label × State OpLog DiffStream.Refusing :=
  perform fresh (.insertText ⟨0, 0⟩ ['a', 'b'])

def typed : Label × State OpLog DiffStream.Refusing :=
  perform pasted.2 (.insertChar ⟨0, 0⟩ 'c')

theorem durability_lag_typed :
    typed.2.stored = .ok [] ∧ typed.2.file.contents = "cab".toList ∧
      Lags [] [pasted.1, typed.1] typed.2 := by
  have hstart : Loaded fresh := ⟨by decide +kernel, rfl⟩
  have hpaste : Step fresh pasted.1 pasted.2 := ⟨rfl, by decide +kernel, rfl⟩
  have htype : Step pasted.2 typed.1 typed.2 := ⟨rfl, by decide +kernel, rfl⟩
  have hlag := durability_lag fresh hstart _ _ (.snoc (.snoc .nil hpaste) htype)
  exact ⟨by decide +kernel, by decide +kernel, hlag.1⟩

end Durability

end Saps.Files
