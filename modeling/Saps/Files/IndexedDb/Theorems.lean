import Saps.Files.IndexedDb
import Mathlib.Data.List.Permutation

namespace Saps.Files.IndexedDbIo

open Transition TwoPhase

theorem look_entries {io : IndexedDbIo} {source : Path .folder} {entries : List (Str × Str)}
    (hne : entries ≠ [])
    (h : io.allEntries.filter (fun entry => under source entry.1) = entries) :
    (if io.allEntries.filter (fun entry => under source entry.1) = [] then
        (.error (folderNotFound source.fullPath.text) : Except FileError (List (Str × Str)))
      else .ok (io.allEntries.filter fun entry => under source entry.1)) = .ok entries := by
  rw [h, if_neg hne]

-- An operation whose sight is up to date acts as if it had looked just now.
theorem alone_of_upToDate {io : IndexedDbIo} {op : Op} {seen : op.Seen}
    (h : UpToDate io op seen) : ops.alone io op = (.ok (), io.act op seen) := by
  have hlook (now : op.Seen) (hnow : io.look op = .ok now) (hact : io.act op now = io.act op seen) :
      ops.alone io op = (.ok (), io.act op seen) := by
    rw [← hact]
    exact alone_of_look hnow
  cases op with
  | writeFile path data => exact hlook () rfl rfl
  | deleteFile path =>
      have hsome : ¬(io.get path.fullPath.text).isNone = true := by
        obtain ⟨contents, hcontents⟩ := Option.isSome_iff_exists.mp h
        rw [hcontents]
        exact Bool.false_ne_true
      exact hlook () (if_neg hsome) rfl
  | moveFile source target =>
      have hget : io.get source.fullPath.text = some seen := h
      refine hlook seen ?_ rfl
      simp only [look, hget]
  | copyFile source target =>
      have hget : io.get source.fullPath.text = some seen := h
      refine hlook seen ?_ rfl
      simp only [look, hget]
  | deleteFolder path =>
      obtain ⟨⟨key, hkey, hunder⟩, hall⟩ := h
      have hne : io.allKeys.filter (under path) ≠ [] :=
        List.ne_nil_of_mem (List.mem_filter.mpr ⟨hkey, hunder⟩)
      refine hlook (io.allKeys.filter (under path)) (if_neg hne) ?_
      refine congrArg IndexedDbIo.mk (HashMap.foldl_erase_congr io.files fun other hother => ?_)
      have hother' : other ∈ io.allKeys := hother
      rw [← hall other hother', List.mem_filter]
      exact and_iff_right hother'
  | moveFolder source target => exact hlook seen (look_entries h.1 h.2) rfl
  | copyFolder source target => exact hlook seen (look_entries h.1 h.2) rfl

-- A step whose operation, if it acts on what it saw before, is up to date.
def UpToDateStep (before : State ops) (label : Label Op FileError) (after : State ops) : Prop :=
  Step ops before label after ∧
    ∀ seen, before.flights label.id = some ⟨label.op, seen⟩ → UpToDate before.store label.op seen

theorem timelyStep_of_upToDate {before after : State ops} {label : Label Op FileError}
    (step : UpToDateStep before label after) : TimelyStep ops before label after := by
  obtain ⟨step, hfresh⟩ := step
  refine ⟨step, ?_⟩
  cases label with
  | started id op => trivial
  | finished id op result => exact fun seen hflight => alone_of_upToDate (hfresh seen hflight)

-- The finished operations of a run, done one after the other in some order, have
-- the same results and leave the same files.
def Serializable (io : IndexedDbIo) (trace : List (Label Op FileError)) (finish : State ops) :
    Prop :=
  ∃ order store, order.Perm (trace.filterMap Label.completed) ∧
    Run (SerialStep ops) io order store ∧ store.files.lookup = finish.store.files.lookup

-- Operations that overlap are serial in the order in which they finish, as long as
-- none of them acts on what is no longer so.
theorem overlaps_serializable (io : IndexedDbIo) (trace : List (Label Op FileError))
    (finish : State ops) (run : Run UpToDateStep (begin ops io) trace finish) :
    Serializable io trace finish ∧
      Run (SerialStep ops) io (trace.filterMap Label.completed) finish.store ∧
      Accounted trace finish.issued finish.flights := by
  have hserial := run_serial (run.mono fun _ _ _ => timelyStep_of_upToDate)
  refine ⟨⟨_, _, .refl _, hserial, rfl⟩, hserial, ?_⟩
  exact run_accounted (run.mono fun _ _ _ step => step.1)

section Example

def source : Path .file :=
  Path.new ['a']

def target : Path .file :=
  Path.new ['b']

-- A store with one file.
def stored : IndexedDbIo :=
  new.act (.writeFile source ['1']) ()

def moveAway : Op :=
  .moveFile source target

def overwrite : Op :=
  .writeFile source ['2']

def writeOther : Op :=
  .writeFile (Path.new ['c']) ['3']

def seen : ops.Seen moveAway :=
  (['1'] : Str)

-- The move has read its file, another write comes to its end, and the move acts.
def moving : State ops :=
  { begin ops stored with
    issued := Function.update (fun _ => none) 0 (some moveAway)
    flights := Function.update (begin ops stored).flights 0 (some ⟨moveAway, seen⟩) }

def overtaken (write : Op) (hseen : write.Seen) : State ops :=
  { moving with
    store := stored.act write hseen
    issued := Function.update moving.issued 1 (some write) }

def moved (write : Op) (hseen : write.Seen) : State ops :=
  { overtaken write hseen with
    store := (overtaken write hseen).store.act moveAway seen
    flights := Function.update moving.flights 0 none }

theorem step_look : Step ops (begin ops stored) (.started 0 moveAway) moving :=
  .look 0 moveAway seen rfl rfl rfl

theorem step_act (write : Op) (hseen : write.Seen) :
    Step ops (overtaken write hseen) (.finished 0 moveAway (.ok ())) (moved write hseen) :=
  .act 0 moveAway seen rfl

-- A write of another file comes in between, and the move still finds what it has seen.
theorem overlaps_serializable_beside :
    let trace := [.started 0 moveAway, .finished 1 writeOther (.ok ()), .finished 0 moveAway (.ok ())]
    Serializable stored trace (moved writeOther ()) ∧
      Run (SerialStep ops) stored [(writeOther, .ok ()), (moveAway, .ok ())]
        (moved writeOther ()).store ∧
      Accounted trace (moved writeOther ()).issued (moved writeOther ()).flights := by
  have hlook : UpToDateStep (begin ops stored) (.started 0 moveAway) moving :=
    ⟨step_look, fun _ hflight => by cases hflight⟩
  have hwrite : UpToDateStep moving (.finished 1 writeOther (.ok ())) (overtaken writeOther ()) :=
    ⟨.once 1 writeOther rfl rfl, fun _ hflight => by cases hflight⟩
  have hact : UpToDateStep (overtaken writeOther ()) (.finished 0 moveAway (.ok ()))
      (moved writeOther ()) := by
    refine ⟨step_act writeOther (), fun now hflight => ?_⟩
    have hsame : some (⟨moveAway, seen⟩ : (op : Op) × ops.Seen op) = some ⟨moveAway, now⟩ := hflight
    obtain rfl : seen = now := by
      cases hsame
      rfl
    have hthere : (stored.act writeOther ()).get ['a'] = some ['1'] := by decide +kernel
    exact hthere
  exact overlaps_serializable stored _ _ (.snoc (.snoc (.snoc .nil hlook) hwrite) hact)

-- A file is written after its move has read it, and the move then deletes the new
-- text and keeps the old one.
theorem overlaps_serializable_lost : ¬∀ (io : IndexedDbIo) (trace : List (Label Op FileError))
    (finish : State ops), Run (Step ops) (begin ops io) trace finish →
      (∀ id, finish.flights id = none) → Serializable io trace finish := by
  intro h
  let finish := moved overwrite ()
  have hwrite : Step ops moving (.finished 1 overwrite (.ok ())) (overtaken overwrite ()) :=
    .once 1 overwrite rfl rfl
  have hidle (id : Nat) : finish.flights id = none := by
    by_cases hid : id = 0
    · rw [hid]
      rfl
    · have hlater : finish.flights id = moving.flights id := Function.update_of_ne hid _ _
      have hbefore : moving.flights id = (begin ops stored).flights id :=
        Function.update_of_ne hid _ _
      exact hlater.trans hbefore
  obtain ⟨order, store, hperm, hrun, hsame⟩ := h stored _ finish
    (.snoc (.snoc (.snoc .nil step_look) hwrite) (step_act overwrite ())) hidle
  have hstore := serial_store hrun
  have horder : order = [(overwrite, .ok ()), (moveAway, .ok ())] ∨
      order = [(moveAway, .ok ()), (overwrite, .ok ())] := List.perm_pair.mp hperm
  rcases horder with rfl | rfl
  · have hb := congrFun hsame ['b']
    rw [hstore] at hb
    exact absurd hb (by decide +kernel)
  · have ha := congrFun hsame ['a']
    rw [hstore] at ha
    exact absurd ha (by decide +kernel)

end Example

end Saps.Files.IndexedDbIo
