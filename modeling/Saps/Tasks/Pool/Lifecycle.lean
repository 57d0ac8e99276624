import Saps.Tasks.Pool.Theorems

-- What becomes of a task that a worker has taken.
namespace Saps.Tasks

open Transition

variable {Uuid : Type}

-- The calls of the workers, where the database answers every one of them, and
-- what is posted meanwhile.
def Pool.Succeeds : Pool.Act Uuid → Prop
  | .insert _ => True
  | .poll _ _ => True
  | .lookUp _ => True
  | .finish _ _ => True
  | .record _ => True
  | _ => False

-- `Pending -> InProgress -> terminal`.
inductive TaskStatus.Moves : TaskStatus → TaskStatus → Prop
  | same (status : TaskStatus) : Moves status status
  | starts : Moves .pending .inProgress
  | completes : Moves .inProgress .completed
  | exits : Moves .inProgress .exited

-- The lifecycle of a task, at the end of the iteration that took it.
structure Lifecycle (log : List (Event Uuid)) (task : QueuedTask Uuid) (outcome : Option Outcome)
    (row : Row Uuid) : Prop where
  completed : TaskStatus.tryFrom row.status = .ok .completed ↔
    outcome = some (.returned (.ok ()))
  exited : outcome ≠ some (.returned (.ok ())) → TaskStatus.tryFrom row.status = .ok .exited
  moves : ∀ before after, .moved task.id before after ∈ log → ∃ old new,
    TaskStatus.tryFrom before = .ok old ∧ TaskStatus.tryFrom after = .ok new ∧
      TaskStatus.Moves old new
  started : ∀ columns, .started task columns ∈ log → ∃ row ∈ columns, row.timeStarted ≠ none

-- The task was in progress already when it was taken, and its handler did not
-- return an error; or it had exited already and there was no handler for it.
def Fits (task : QueuedTask Uuid) : Option Outcome → Prop
  | none => task.status = .exited
  | some (.returned (.ok _)) =>
    (task.status = .inProgress ∨ task.status = .completed) ∧ task.timeStarted ≠ none
  | some (.returned (.error _)) => False
  | some .panicked =>
    (task.status = .inProgress ∨ task.status = .exited) ∧ task.timeStarted ≠ none

-- The status that a worker writes after the outcome.
def Outcome.final : Outcome → TaskStatus
  | returned _ => .completed
  | panicked => .exited

namespace Pool

def Held (pool : Pool Uuid) (id : Uuid) : Prop :=
  ∃ worker task, (pool.workers worker).task = some task ∧ task.id = id

variable {pool after : Pool Uuid}

-- No other worker has the task.
theorem Good.same_worker (good : pool.Good) {worker other : Nat} {task task' : QueuedTask Uuid}
    (h : (pool.workers worker).task = some task) (h' : (pool.workers other).task = some task')
    (hid : task'.id = task.id) : other = worker :=
  good.apart other worker task' task h' h hid

-- The worker that has let go of its task was the only one to have it.
theorem Good.not_held (good : pool.Good) {worker : Nat} {task : QueuedTask Uuid}
    (htask : (pool.workers worker).task = some task)
    (hworkers : after.workers = Function.update pool.workers worker .polling) :
    ¬after.Held task.id := by
  rintro ⟨other, task', h, hid⟩
  by_cases hother : other = worker
  · rw [hworkers, hother, Function.update_self] at h
    cases h
  · rw [hworkers, Function.update_of_ne hother] at h
    exact hother (good.same_worker htask h hid)

end Pool

variable [DecidableEq Uuid]

def Event.about (id : Uuid) : Event Uuid → Bool
  | gotNext other => other = id
  | moved other _ _ => other = id
  | started task _ => task.id = id
  | ended task _ _ => task.id = id
  | _ => false

-- The row has what was read from it.
def Mirrors (table : QueuedTasks Uuid) (task : QueuedTask Uuid) : Prop :=
  ∃ row, Table.lookup Row.id task.id table = some row ∧
    TaskStatus.tryFrom row.status = .ok task.status ∧ row.timeStarted = task.timeStarted

namespace Pool

-- All that the log can say about one id, the latest first.
inductive Story (pool : Pool Uuid) (id : Uuid) : List (Event Uuid) → Prop
  | free (hfree : ¬pool.Held id) : Story pool id []
  | lost (hfree : ¬pool.Held id) (hlocked : Locked pool.table id) : Story pool id [.gotNext id]
  | taken (worker : Nat) (task : QueuedTask Uuid) (hid : task.id = id)
      (hworker : pool.workers worker = .taken task) (hmirrors : Mirrors pool.table task) :
      Story pool id [.gotNext id]
  | running (worker : Nat) (task : QueuedTask Uuid) (row : Row Uuid) (hid : task.id = id)
      (hworker : pool.workers worker = .running task ∨
        ∃ outcome, pool.workers worker = .finished task outcome)
      (hmirrors : Mirrors pool.table task) (hstarted : row.timeStarted = task.timeStarted) :
      Story pool id [.started task (some row), .gotNext id]
  | unregistered (task : QueuedTask Uuid) (row : Row Uuid) (hid : task.id = id)
      (hfree : ¬pool.Held id) (hlocked : Locked pool.table id)
      (hstatus : TaskStatus.tryFrom row.status = .ok task.status) :
      Story pool id [.ended task none (some row), .gotNext id]
  | ended (task : QueuedTask Uuid) (outcome : Outcome) (row started : Row Uuid) (before : Str)
      (hid : task.id = id) (hfree : ¬pool.Held id) (hlocked : Locked pool.table id)
      (hbefore : TaskStatus.tryFrom before = .ok task.status)
      (hstarted : started.timeStarted = task.timeStarted)
      (hstatus : row.status = outcome.final.toStr) :
      Story pool id [.ended task (some outcome) (some row), .moved id before outcome.final.toStr,
        .started task (some started), .gotNext id]

-- A step that has nothing to do with the id.
theorem Story.frame {pool after : Pool Uuid} {id : Uuid} {events : List (Event Uuid)}
    (story : pool.Story id events)
    (hworkers : ∀ worker task, task.id = id → ((pool.workers worker).task = some task ∨
      (after.workers worker).task = some task) → after.workers worker = pool.workers worker)
    (hlocked : Locked pool.table id → Locked after.table id)
    (hmirrors : ∀ task : QueuedTask Uuid, task.id = id → Mirrors pool.table task →
      Mirrors after.table task) : after.Story id events := by
  have hfree : ¬pool.Held id → ¬after.Held id := by
    rintro h ⟨worker, task, hworker, hid⟩
    have hsame := hworkers worker task hid (.inr hworker)
    exact h ⟨worker, task, hsame ▸ hworker, hid⟩
  cases story with
  | free h => exact .free (hfree h)
  | lost h hlock => exact .lost (hfree h) (hlocked hlock)
  | taken worker task hid hworker hmirror =>
      have hsame := hworkers worker task hid (.inl (by rw [hworker]; rfl))
      exact .taken worker task hid (hsame.trans hworker) (hmirrors task hid hmirror)
  | running worker task row hid hworker hmirror hstarted =>
      have htask : (pool.workers worker).task = some task := by
        rcases hworker with h | ⟨outcome, h⟩
        · rw [h]
          rfl
        · rw [h]
          rfl
      have hsame := hworkers worker task hid (.inl htask)
      refine .running worker task row hid ?_ (hmirrors task hid hmirror) hstarted
      rwa [hsame]
  | unregistered task row hid h hlock hstatus =>
      exact .unregistered task row hid (hfree h) (hlocked hlock) hstatus
  | ended task outcome row started before hid h hlock hbefore hstarted hstatus =>
      exact .ended task outcome row started before hid (hfree h) (hlocked hlock) hbefore hstarted
        hstatus

structure Chronicled (pool : Pool Uuid) : Prop where
  good : pool.Good
  story : ∀ id, pool.Story id (pool.log.filter (Event.about id))

variable {pool after : Pool Uuid}

theorem Chronicled.taken_story (chronicled : pool.Chronicled) {worker : Nat}
    {task : QueuedTask Uuid} (hworker : pool.workers worker = .taken task) :
    pool.log.filter (Event.about task.id) = [.gotNext task.id] ∧ Mirrors pool.table task := by
  have htask : (pool.workers worker).task = some task := by rw [hworker]; rfl
  have hheld : pool.Held task.id := ⟨worker, task, htask, rfl⟩
  have hstory := chronicled.story task.id
  generalize hevents : pool.log.filter (Event.about task.id) = events at hstory ⊢
  cases hstory with
  | free h => exact absurd hheld h
  | lost h => exact absurd hheld h
  | taken other task' hid hother hmirrors =>
      obtain rfl := chronicled.good.same_worker htask (by rw [hother]; rfl) hid
      obtain rfl := Phase.taken.inj (hworker.symm.trans hother)
      exact ⟨rfl, hmirrors⟩
  | running other task' row hid hother hmirrors =>
      exfalso
      rcases hother with hother | ⟨outcome, hother⟩
      · obtain rfl := chronicled.good.same_worker htask (by rw [hother]; rfl) hid
        exact nomatch hworker.symm.trans hother
      · obtain rfl := chronicled.good.same_worker htask (by rw [hother]; rfl) hid
        exact nomatch hworker.symm.trans hother
  | unregistered task' row hid h => exact absurd hheld h
  | ended task' outcome row started before hid h => exact absurd hheld h

theorem Chronicled.running_story (chronicled : pool.Chronicled) {worker : Nat}
    {task : QueuedTask Uuid} (hworker : pool.workers worker = .running task ∨
      ∃ outcome, pool.workers worker = .finished task outcome) :
    ∃ row, pool.log.filter (Event.about task.id) = [.started task (some row), .gotNext task.id] ∧
      Mirrors pool.table task ∧ row.timeStarted = task.timeStarted := by
  have htask : (pool.workers worker).task = some task := by
    rcases hworker with h | ⟨outcome, h⟩
    · rw [h]
      rfl
    · rw [h]
      rfl
  have hheld : pool.Held task.id := ⟨worker, task, htask, rfl⟩
  have hstory := chronicled.story task.id
  generalize hevents : pool.log.filter (Event.about task.id) = events at hstory ⊢
  cases hstory with
  | free h => exact absurd hheld h
  | lost h => exact absurd hheld h
  | taken other task' hid hother hmirrors =>
      exfalso
      obtain rfl := chronicled.good.same_worker htask (by rw [hother]; rfl) hid
      rcases hworker with h | ⟨outcome, h⟩
      · exact nomatch h.symm.trans hother
      · exact nomatch h.symm.trans hother
  | running other task' row hid hother hmirrors hstarted =>
      have htask' : (pool.workers other).task = some task' := by
        rcases hother with h | ⟨outcome, h⟩
        · rw [h]
          rfl
        · rw [h]
          rfl
      obtain rfl := chronicled.good.same_worker htask htask' hid
      obtain rfl := Option.some.inj (htask.symm.trans htask')
      exact ⟨row, rfl, hmirrors, hstarted⟩
  | unregistered task' row hid h => exact absurd hheld h
  | ended task' outcome row started before hid h => exact absurd hheld h

-- Nothing has happened yet to a row that is free.
theorem Chronicled.free_story (chronicled : pool.Chronicled) {id : Uuid}
    (hunlocked : ¬Locked pool.table id) :
    pool.log.filter (Event.about id) = [] ∧ ¬pool.Held id := by
  have hfree : ¬pool.Held id := by
    rintro ⟨worker, task, hworker, rfl⟩
    exact hunlocked (chronicled.good.held worker task hworker)
  have hstory := chronicled.story id
  generalize hevents : pool.log.filter (Event.about id) = events at hstory ⊢
  cases hstory with
  | free h => exact ⟨rfl, h⟩
  | lost h hlocked => exact absurd hlocked hunlocked
  | taken worker task hid hworker => exact absurd ⟨worker, task, by rw [hworker]; rfl, hid⟩ hfree
  | running worker task row hid hworker =>
      rcases hworker with hworker | ⟨outcome, hworker⟩
      · exact absurd ⟨worker, task, by rw [hworker]; rfl, hid⟩ hfree
      · exact absurd ⟨worker, task, by rw [hworker]; rfl, hid⟩ hfree
  | unregistered task row hid h hlocked => exact absurd hlocked hunlocked
  | ended task outcome row started before hid h hlocked => exact absurd hlocked hunlocked

-- A step of one worker on one id.
theorem Chronicled.step_on (chronicled : pool.Chronicled) (good : after.Good) (worker : Nat)
    (key : Uuid)
    (hlog : ∀ id, id ≠ key → after.log.filter (Event.about id) = pool.log.filter (Event.about id))
    (hothers : ∀ other, other ≠ worker → after.workers other = pool.workers other)
    (hworker : ∀ task, (pool.workers worker).task = some task ∨
      (after.workers worker).task = some task → task.id = key)
    (hlocked : ∀ id, Locked pool.table id → Locked after.table id)
    (hlookup : ∀ id, id ≠ key →
      Table.lookup Row.id id after.table = Table.lookup Row.id id pool.table)
    (hstory : after.Story key (after.log.filter (Event.about key))) : after.Chronicled := by
  refine ⟨good, fun id => ?_⟩
  by_cases hid : id = key
  · rw [hid]
    exact hstory
  · rw [hlog id hid]
    refine (chronicled.story id).frame ?_ (hlocked id) ?_
    · intro other task htask h
      refine hothers other fun hother => hid ?_
      rw [← htask]
      exact hworker task (hother ▸ h)
    · rintro task htask ⟨row, hrow, hmirrors⟩
      refine ⟨row, ?_, hmirrors⟩
      rwa [hlookup task.id (htask ▸ hid)]

theorem Chronicled.insert (chronicled : pool.Chronicled) (task : QueuedTask Uuid) :
    (pool.insert task).Chronicled := by
  refine ⟨chronicled.good.insert task, fun id => ?_⟩
  refine (chronicled.story id).frame (fun _ _ _ _ => rfl) ?_ ?_
  · rintro ⟨row, hrow, h⟩
    unfold Pool.insert insertBackgroundTask
    split
    · exact ⟨row, hrow, h⟩
    · split
      · exact ⟨row, hrow, h⟩
      · exact ⟨row, List.mem_cons_of_mem _ hrow, h⟩
  · rintro held - ⟨row, hrow, h⟩
    unfold Pool.insert insertBackgroundTask
    split
    · exact ⟨row, hrow, h⟩
    · split
      · exact ⟨row, hrow, h⟩
      · next hnew =>
          refine ⟨row, ?_, h⟩
          have hne : ¬task.id = held.id := by
            intro heq
            obtain ⟨hmem, hkey⟩ := Table.lookup_mem hrow
            exact hnew (List.mem_map.mpr ⟨row, hmem, hkey.trans heq.symm⟩)
          simpa [Table.lookup, hne] using hrow

theorem Chronicled.poll (chronicled : pool.Chronicled) (worker : Nat) {chosen : Option (Row Uuid)}
    (hworker : pool.workers worker = .polling) (hselects : Selects isUnlocked pool.table chosen) :
    (pool.poll worker chosen).Chronicled := by
  cases chosen with
  | none => exact chronicled
  | some row =>
      have hgood := chronicled.good.poll worker hselects
      have hids := chronicled.good.ids
      obtain ⟨hmem, hunlocked, _⟩ := mem_earliest.mp hselects
      obtain ⟨hnil, hfree⟩ := chronicled.free_story
        (not_locked hids hmem (by simpa [isUnlocked] using hunlocked))
      obtain ⟨hlog, htable⟩ := poll_eq pool worker (some row)
      rw [fetch_some pool hids hmem] at hlog htable
      have hmine : (pool.poll worker (some row)).log.filter (Event.about row.id) =
          [.gotNext row.id] := by
        rw [hlog, List.filter_cons_of_pos (by simp [Event.about]), hnil]
      have hlockedRow : Locked (pool.poll worker (some row)).table row.id := by
        rw [htable]
        exact ⟨{ row with locked := true }, Table.mem_update.mpr (.inl ⟨row, hmem, rfl, rfl⟩),
          rfl, rfl⟩
      -- Either the worker takes the task or the row cannot be read.
      have hcases : ((pool.poll worker (some row)).workers = pool.workers ∧
            ¬(pool.poll worker (some row)).Held row.id) ∨
          ∃ task, QueuedTask.fromRow { row with locked := true } = .ok task ∧
            (pool.poll worker (some row)).workers =
              Function.update pool.workers worker (.taken task) := by
        unfold Pool.poll
        split
        · next task hanswer =>
            obtain ⟨_, heq, _, hparse⟩ := getNext_some hids hselects hanswer
            obtain rfl := Option.some.inj heq
            refine .inr ⟨task, hparse, ?_⟩
            rw [fetch_some pool hids hmem]
            rfl
        · rw [fetch_some pool hids hmem]
          exact .inl ⟨rfl, hfree⟩
        · rw [fetch_some pool hids hmem]
          exact .inl ⟨rfl, hfree⟩
      have hstep : (∀ task, ((pool.poll worker (some row)).workers worker).task = some task →
            task.id = row.id) →
          (∀ other, other ≠ worker →
            (pool.poll worker (some row)).workers other = pool.workers other) →
          (pool.poll worker (some row)).Story row.id [.gotNext row.id] →
          (pool.poll worker (some row)).Chronicled := by
        intro htask hothers hstory
        refine chronicled.step_on hgood worker row.id ?_ hothers ?_ ?_ ?_ (hmine ▸ hstory)
        · intro id hid
          rw [hlog, List.filter_cons_of_neg (by simp [Event.about, Ne.symm hid])]
        · rintro task (h | h)
          · rw [hworker] at h
            cases h
          · exact htask task h
        · rw [htable]
          exact fun id h => h.update row.id (fun _ => rfl) fun _ _ => rfl
        · intro id hid
          rw [htable, Table.lookup_update]
          · cases hfound : Table.lookup Row.id id pool.table with
            | none => rfl
            | some found =>
                have hkey : found.id ≠ row.id := (Table.lookup_mem hfound).2.symm ▸ hid
                simp [hkey]
          · exact fun _ => rfl
      rcases hcases with ⟨hworkers, hheld⟩ | ⟨task, hparse, hworkers⟩
      · refine hstep ?_ (fun other _ => by rw [hworkers]) (.lost hheld hlockedRow)
        intro task h
        rw [hworkers, hworker] at h
        cases h
      · obtain ⟨status, hstatus, rfl⟩ := fromRow_id hparse
        have hself : (pool.poll worker (some row)).workers worker = .taken _ :=
          hworkers ▸ Function.update_self _ _ _
        refine hstep ?_ ?_ (.taken worker _ rfl hself ?_)
        · intro task h
          rw [hself] at h
          obtain rfl := Option.some.inj h
          rfl
        · intro other hother
          rw [hworkers, Function.update_of_ne hother]
        · refine ⟨{ row with locked := true }, ?_, hstatus, rfl⟩
          rw [htable, Table.lookup_update]
          · rw [Table.lookup_of_mem hids hmem]
            simp
          · exact fun _ => rfl

-- The worker goes on, or is done, with the task that it has.
theorem Chronicled.advance (chronicled : pool.Chronicled) {worker : Nat} {task : QueuedTask Uuid}
    (htask : (pool.workers worker).task = some task) {phase : Phase Uuid}
    (hphase : phase.task = none ∨ phase.task = some task) (good : after.Good)
    (hworkers : after.workers = Function.update pool.workers worker phase)
    (htable : after.table = pool.table ∨ ∃ status now,
      after.table = (markAs status now task.id pool.table).2)
    (hlog : ∀ id, id ≠ task.id →
      after.log.filter (Event.about id) = pool.log.filter (Event.about id))
    (hstory : after.Story task.id (after.log.filter (Event.about task.id))) :
    after.Chronicled := by
  refine chronicled.step_on good worker task.id hlog ?_ ?_ ?_ ?_ hstory
  · intro other hother
    rw [hworkers, Function.update_of_ne hother]
  · intro task' h
    rw [hworkers, Function.update_self, htask] at h
    rcases h with h | h
    · rw [Option.some.inj h]
    · rcases hphase with hnone | hsome
      · rw [hnone] at h
        cases h
      · rw [Option.some.inj (hsome.symm.trans h)]
  · rcases htable with h | ⟨status, now, h⟩
    · rw [h]
      exact fun _ h => h
    · rw [h]
      exact fun _ h => h.update task.id (fun _ => rfl) fun _ hrow => hrow
  · intro id hid
    rcases htable with h | ⟨status, now, h⟩
    · rw [h]
    · rw [h, markAs, Table.lookup_update]
      · cases hfound : Table.lookup Row.id id pool.table with
        | none => rfl
        | some found =>
            have hkey : found.id ≠ task.id := (Table.lookup_mem hfound).2.symm ▸ hid
            simp [hkey]
      · exact fun _ => rfl

theorem Chronicled.lookUp (chronicled : pool.Chronicled) (registered : Str → Bool) {worker : Nat}
    {task : QueuedTask Uuid} (hworker : pool.workers worker = .taken task) :
    (pool.lookUp registered worker task).Chronicled := by
  have hgood := chronicled.good.lookUp registered hworker
  have htask : (pool.workers worker).task = some task := by rw [hworker]; rfl
  obtain ⟨hstory, row, hrow, hmirrors⟩ := chronicled.taken_story hworker
  unfold Pool.lookUp at hgood ⊢
  by_cases hregistered : registered task.functionName = true
  · rw [if_pos hregistered] at hgood ⊢
    refine chronicled.advance htask (.inr rfl) hgood rfl (.inl rfl) ?_ ?_
    · exact fun id hid => List.filter_cons_of_neg (by simp [Event.about, Ne.symm hid])
    · rw [hrow, List.filter_cons_of_pos (by simp [Event.about]), hstory]
      exact .running worker task row rfl (.inl (enter_self _ _ _)) ⟨row, hrow, hmirrors⟩ hmirrors.2
  · rw [if_neg hregistered] at hgood ⊢
    refine chronicled.advance htask (.inl rfl) hgood rfl (.inl rfl) ?_ ?_
    · exact fun id hid => List.filter_cons_of_neg (by simp [Event.about, Ne.symm hid])
    · simp only [conclude, hrow]
      rw [List.filter_cons_of_pos (by simp [Event.about]), hstory]
      exact .unregistered task row rfl (chronicled.good.not_held htask rfl)
        (chronicled.good.held worker task htask) hmirrors.1

theorem Chronicled.finish (chronicled : pool.Chronicled) {worker : Nat} {task : QueuedTask Uuid}
    (hworker : pool.workers worker = .running task) (outcome : Outcome) :
    (pool.enter worker (.finished task outcome)).Chronicled := by
  have htask : (pool.workers worker).task = some task := by rw [hworker]; rfl
  obtain ⟨row, hstory, hmirrors, hstarted⟩ := chronicled.running_story (.inl hworker)
  have hgood : (pool.enter worker (.finished task outcome)).Good :=
    chronicled.good.enter (.inr htask.symm) fun _ h => nomatch h
  refine chronicled.advance htask (.inr rfl) hgood rfl (.inl rfl) (fun _ _ => rfl) ?_
  change Story _ task.id (pool.log.filter (Event.about task.id))
  rw [hstory]
  exact .running worker task row rfl (.inr ⟨outcome, enter_self _ _ _⟩) hmirrors hstarted

theorem Chronicled.record (chronicled : pool.Chronicled) (now : Int) {worker : Nat}
    {task : QueuedTask Uuid} {outcome : Outcome}
    (hworker : pool.workers worker = .finished task outcome) :
    (pool.record now worker task outcome).Chronicled := by
  have htask : (pool.workers worker).task = some task := by rw [hworker]; rfl
  obtain ⟨started, hstory, ⟨row, hrow, hstatus, htime⟩, hstarted⟩ :=
    chronicled.running_story (.inr ⟨outcome, hworker⟩)
  have hmem : task.id ∈ pool.table.map Row.id := by
    obtain ⟨hmem, hid⟩ := Table.lookup_mem hrow
    exact List.mem_map.mpr ⟨row, hmem, hid⟩
  have hrecord : pool.record now worker task outcome =
      (pool.mark outcome.final now task.id).conclude worker task (some outcome) := by
    cases outcome <;> rfl
  have hgood : ((pool.mark outcome.final now task.id).conclude worker task (some outcome)).Good :=
    (chronicled.good.mark outcome.final now task.id).conclude worker task (some outcome)
  have hfound : Table.lookup Row.id task.id (markAs outcome.final now task.id pool.table).2 =
      some { row with status := outcome.final.toStr, timeFinished := some now } := by
    rw [markAs, Table.lookup_update]
    · rw [hrow, Option.map_some, if_pos (Table.lookup_mem hrow).2]
    · exact fun _ => rfl
  have hmoves : moves pool.table (markAs outcome.final now task.id pool.table).2 task.id =
      [.moved task.id row.status outcome.final.toStr] := by
    simp only [moves, hrow, hfound]
  rw [hrecord]
  rw [mark_some pool outcome.final now hmem, hmoves] at hgood ⊢
  refine chronicled.advance htask (.inl rfl) hgood rfl (.inr ⟨outcome.final, now, rfl⟩) ?_ ?_
  · intro id hid
    simp [conclude, Event.about, Ne.symm hid]
  · have hlog : ∀ columns, List.filter (Event.about task.id)
        (.ended task (some outcome) columns ::
          ([.moved task.id row.status outcome.final.toStr] ++ .marked task.id :: pool.log)) =
        [.ended task (some outcome) columns, .moved task.id row.status outcome.final.toStr,
          .started task (some started), .gotNext task.id] := by
      intro columns
      simp [Event.about, hstory]
    simp only [conclude, hfound, hlog]
    refine .ended task outcome _ started row.status rfl (chronicled.good.not_held htask rfl) ?_
      hstatus hstarted rfl
    exact (chronicled.good.held worker task htask).update task.id (fun _ => rfl) fun _ h => h

theorem step_chronicled {registered : Str → Bool} {before after : Pool Uuid}
    {label : Int × Act Uuid} (chronicled : before.Chronicled)
    (step : Step registered before label after) (hsucceeds : Succeeds label.2) :
    after.Chronicled := by
  cases step with
  | insert now task => exact chronicled.insert task
  | claim now functionName chosen hselects => exact absurd hsucceeds id
  | mark now status key hterminal => exact absurd hsucceeds id
  | poll now worker chosen hworker hselects => exact chronicled.poll worker hworker hselects
  | pollFails now worker ran hworker hselects => exact absurd hsucceeds id
  | lookUp now worker task hworker => exact chronicled.lookUp registered hworker
  | finish now worker task outcome hworker => exact chronicled.finish hworker outcome
  | record now worker task outcome hworker => exact chronicled.record now hworker
  | recordFails now worker task outcome hworker => exact absurd hsucceeds id

theorem starts_chronicled (h : pool.Starts) : pool.Chronicled := by
  refine ⟨starts_good h, fun id => ?_⟩
  rw [h.2.2]
  refine .free ?_
  rintro ⟨worker, task, htask, -⟩
  rw [h.2.1 worker] at htask
  cases htask

theorem mem_about {log events : List (Event Uuid)} {id : Uuid}
    (hlog : log.filter (Event.about id) = events) {event : Event Uuid}
    (habout : event.about id = true) : event ∈ log ↔ event ∈ events := by
  rw [← hlog, List.mem_filter, and_iff_left habout]

-- Without a handler nothing is written.
theorem lifecycle_unregistered {log : List (Event Uuid)} {task : QueuedTask Uuid} {row : Row Uuid}
    (hlog : log.filter (Event.about task.id) = [.ended task none (some row), .gotNext task.id])
    (hstatus : TaskStatus.tryFrom row.status = .ok task.status) :
    Lifecycle log task none row ↔ Fits task none := by
  constructor
  · intro h
    exact Except.ok.inj (hstatus.symm.trans (h.exited (by simp)))
  · intro hfits
    have hexited : TaskStatus.tryFrom row.status = .ok .exited := hstatus.trans (congrArg _ hfits)
    refine ⟨?_, fun _ => hexited, ?_, ?_⟩
    · simp [hexited]
    · intro before after h
      have hthere := (mem_about hlog (by simp [Event.about])).mp h
      simp at hthere
    · intro columns h
      have hthere := (mem_about hlog (by simp [Event.about])).mp h
      simp at hthere

-- With one the status goes straight from what it was to the last one.
theorem lifecycle_ended {log : List (Event Uuid)} {task : QueuedTask Uuid} {outcome : Outcome}
    {row started : Row Uuid} {before : Str}
    (hlog : log.filter (Event.about task.id) = [.ended task (some outcome) (some row),
      .moved task.id before outcome.final.toStr, .started task (some started), .gotNext task.id])
    (hbefore : TaskStatus.tryFrom before = .ok task.status)
    (hstarted : started.timeStarted = task.timeStarted)
    (hstatus : row.status = outcome.final.toStr) :
    Lifecycle log task (some outcome) row ↔ Fits task (some outcome) := by
  have hfinal : TaskStatus.tryFrom row.status = .ok outcome.final := by
    rw [hstatus, TaskStatus.tryFrom_toStr]
  constructor
  · intro h
    have hmoved : Event.moved task.id before outcome.final.toStr ∈ log :=
      (mem_about hlog (by simp [Event.about])).mpr (by simp)
    have hran : Event.started task (some started) ∈ log :=
      (mem_about hlog (by simp [Event.about])).mpr (by simp)
    obtain ⟨old, new, hold, hnew, hmoves⟩ := h.moves _ _ hmoved
    obtain rfl := Except.ok.inj (hbefore.symm.trans hold)
    rw [TaskStatus.tryFrom_toStr] at hnew
    obtain rfl := Except.ok.inj hnew
    obtain ⟨_, hcolumns, htime⟩ := h.started _ hran
    obtain rfl := Option.some.inj hcolumns
    rw [hstarted] at htime
    cases outcome with
    | returned result =>
        cases result with
        | ok _ =>
            refine ⟨?_, htime⟩
            generalize task.status = status at hmoves ⊢
            cases hmoves with
            | same => exact .inr rfl
            | completes => exact .inl rfl
        | error e => exact nomatch h.completed.mp hfinal
    | panicked =>
        refine ⟨?_, htime⟩
        generalize task.status = status at hmoves ⊢
        cases hmoves with
        | same => exact .inr rfl
        | exits => exact .inl rfl
  · intro hfits
    have hmoves : TaskStatus.Moves task.status outcome.final ∧ task.timeStarted ≠ none ∧
        (outcome.final = .completed ↔ some outcome = some (.returned (.ok ()))) := by
      cases outcome with
      | returned result =>
          cases result with
          | ok _ =>
              refine ⟨?_, hfits.2, by simp [Outcome.final]⟩
              rcases hfits.1 with h | h
              · exact h ▸ .completes
              · exact h ▸ .same _
          | error e => exact hfits.elim
      | panicked =>
          refine ⟨?_, hfits.2, by simp [Outcome.final]⟩
          rcases hfits.1 with h | h
          · exact h ▸ .exits
          · exact h ▸ .same _
    obtain ⟨hmoves, htime, hcompleted⟩ := hmoves
    refine ⟨?_, ?_, ?_, ?_⟩
    · rw [hfinal, Except.ok.injEq]
      exact hcompleted
    · intro hne
      rw [hfinal]
      cases outcome with
      | returned result => exact absurd (hcompleted.mp rfl) hne
      | panicked => rfl
    · intro old new h
      have hthere := (mem_about hlog (by simp [Event.about])).mp h
      simp only [List.mem_cons, reduceCtorEq, Event.moved.injEq, true_and, false_or, or_false,
        List.not_mem_nil] at hthere
      obtain ⟨rfl, rfl⟩ := hthere
      exact ⟨task.status, outcome.final, hbefore, TaskStatus.tryFrom_toStr _, hmoves⟩
    · intro columns h
      have hthere := (mem_about hlog (by simp [Event.about])).mp h
      simp only [List.mem_cons, reduceCtorEq, Event.started.injEq, true_and, false_or, or_false,
        List.not_mem_nil] at hthere
      subst hthere
      exact ⟨started, rfl, hstarted ▸ htime⟩

theorem Chronicled.ended (chronicled : pool.Chronicled) {task : QueuedTask Uuid}
    {outcome : Option Outcome} {columns : Option (Row Uuid)}
    (h : .ended task outcome columns ∈ pool.log) :
    ∃ row, columns = some row ∧ (Lifecycle pool.log task outcome row ↔ Fits task outcome) := by
  have hmem : .ended task outcome columns ∈ pool.log.filter (Event.about task.id) :=
    List.mem_filter.mpr ⟨h, by simp [Event.about]⟩
  have hstory := chronicled.story task.id
  generalize hevents : pool.log.filter (Event.about task.id) = events at hstory hmem
  cases hstory with
  | free _ => cases hmem
  | lost _ _ => simp at hmem
  | taken _ _ _ _ _ => simp at hmem
  | running _ _ _ _ _ _ _ => simp at hmem
  | unregistered task' row hid hfree hlocked hstatus =>
      simp only [List.mem_cons, Event.ended.injEq, reduceCtorEq, List.not_mem_nil, or_false] at hmem
      obtain ⟨rfl, rfl, rfl⟩ := hmem
      exact ⟨row, rfl, lifecycle_unregistered hevents hstatus⟩
  | ended task' outcome' row started before hid hfree hlocked hbefore hstarted hstatus =>
      simp only [List.mem_cons, Event.ended.injEq, reduceCtorEq, List.not_mem_nil, or_false] at hmem
      obtain ⟨rfl, rfl, rfl⟩ := hmem
      exact ⟨row, rfl, lifecycle_ended hevents hbefore hstarted hstatus⟩

-- Every task that a worker is done with has been through its lifecycle
-- exactly if it fits what the cycle does.
theorem lifecycle_iff (registered : Str → Bool) (start finish : Pool Uuid)
    (trace : List (Int × Act Uuid)) (hstart : start.Starts)
    (run : Run (Step registered) start trace finish) (hsucceeds : ∀ label ∈ trace, Succeeds label.2)
    (task : QueuedTask Uuid) (outcome : Option Outcome) (columns : Option (Row Uuid))
    (hended : .ended task outcome columns ∈ finish.log) :
    ∃ row, columns = some row ∧
      (Lifecycle finish.log task outcome row ↔ Fits task outcome) := by
  have chronicled : finish.Chronicled :=
    (run.restrict hsucceeds).invariant Chronicled (starts_chronicled hstart)
      fun _ _ _ h step => step_chronicled h step.1 step.2
  exact chronicled.ended hended

-- The one task of a queue, taken by the first worker.
theorem worked {row : Row Nat} {status : TaskStatus} (hstatus : row.status = status.toStr)
    (hfree : row.locked = false) (outcome : Outcome) :
    ∃ (start finish : Pool Nat) (trace : List (Int × Act Nat)) (task : QueuedTask Nat)
      (columns : Option (Row Nat)), start.Starts ∧ start.table = [row] ∧
      Run (Step fun _ => true) start trace finish ∧ (∀ label ∈ trace, Succeeds label.2) ∧
      finish.Chronicled ∧ .ended task (some outcome) columns ∈ finish.log ∧
      task.status = status ∧ task.timeStarted = row.timeStarted := by
  let task : QueuedTask Nat := ⟨row.id, row.functionName, row.params, status, row.timePosted,
    row.timeStarted, row.timeFinished, true⟩
  let start : Pool Nat := ⟨[row], fun _ => .polling, []⟩
  have hstart : start.Starts := ⟨List.nodup_singleton _, fun _ => rfl, rfl⟩
  have hmem : row ∈ start.table := List.mem_singleton_self _
  have hselects : Selects isUnlocked start.table (some row) :=
    mem_earliest.mpr ⟨hmem, by simp [isUnlocked, hfree], by simp [start]⟩
  have hanswer : (getNextBackgroundTask (some row) start.table).1 = .ok (some task) := by
    simp only [getNextBackgroundTask, getNextTask, updateChosen_some hstart.1 hmem,
      QueuedTask.fromRow, hstatus, TaskStatus.tryFrom_toStr]
    rfl
  have hpolled : (start.poll 0 (some row)).workers 0 = .taken task := by
    simp only [Pool.poll, hanswer]
    exact enter_self _ _ _
  let running := (start.poll 0 (some row)).lookUp (fun _ => true) 0 task
  have hrunning : running.workers 0 = .running task := by simp [running, Pool.lookUp]
  let finished := running.enter 0 (.finished task outcome)
  have hfinished : finished.workers 0 = .finished task outcome := enter_self _ _ _
  have hrun : Run (Step fun _ => true) start
      [(0, .poll 0 (some row)), (0, .lookUp 0), (0, .finish 0 outcome), (0, .record 0)]
      (finished.record 0 0 task outcome) :=
    .snoc (.snoc (.snoc (.snoc .nil (.poll 0 0 (some row) rfl hselects)) (.lookUp 0 0 task hpolled))
      (.finish 0 0 task outcome hrunning)) (.record 0 0 task outcome hfinished)
  have hsucceeds : ∀ label ∈ [((0 : Int), (.poll 0 (some row) : Act Nat)), (0, .lookUp 0),
      (0, .finish 0 outcome), (0, .record 0)], Succeeds label.2 := by
    simp [Succeeds]
  have hchronicled : (finished.record 0 0 task outcome).Chronicled :=
    (hrun.restrict hsucceeds).invariant Chronicled (starts_chronicled hstart)
      fun _ _ _ h step => step_chronicled h step.1 step.2
  obtain ⟨columns, hended⟩ : ∃ columns, .ended task (some outcome) columns ∈
      (finished.record 0 0 task outcome).log := by
    cases outcome <;> exact ⟨_, List.mem_cons_self⟩
  exact ⟨start, _, _, task, columns, hstart, rfl, hrun, hsucceeds, hchronicled, hended, rfl, rfl⟩

-- A task that was marked as in progress before it came into the queue.
theorem lifecycle_iff_started : ∃ (finish : Pool Nat) (task : QueuedTask Nat) (row : Row Nat),
    .ended task (some (.returned (.ok ()))) (some row) ∈ finish.log ∧
      Lifecycle finish.log task (some (.returned (.ok ()))) row := by
  obtain ⟨start, finish, trace, task, columns, hstart, -, hrun, hsucceeds, -, hended, hstatus,
    htime⟩ := worked
      (show Row.status (⟨1, "add".toList, .null, TaskStatus.inProgress.toStr, 0, some 1, none,
        false⟩ : Row Nat) = TaskStatus.inProgress.toStr from rfl) rfl (.returned (.ok ()))
  obtain ⟨row, rfl, hiff⟩ := lifecycle_iff _ start finish trace hstart hrun hsucceeds task _ columns
    hended
  exact ⟨finish, task, row, hended, hiff.mpr ⟨.inl hstatus, by simp [htime]⟩⟩

-- The handler of a posted task returns an error, and the task is completed.
theorem lifecycle_iff_failed : ∃ (start finish : Pool Nat) (trace : List (Int × Act Nat))
    (task : QueuedTask Nat) (e : SapsError) (row : Row Nat), start.Starts ∧
      (∀ row ∈ start.table, row.status = TaskStatus.pending.toStr ∧ row.locked = false) ∧
      Run (Step fun _ => true) start trace finish ∧ (∀ label ∈ trace, Succeeds label.2) ∧
      .ended task (some (.returned (.error e))) (some row) ∈ finish.log ∧
      ¬Lifecycle finish.log task (some (.returned (.error e))) row := by
  obtain ⟨start, finish, trace, task, columns, hstart, htable, hrun, hsucceeds, hchronicled, hended,
    -, -⟩ := worked
      (show Row.status (⟨1, "add".toList, .null, TaskStatus.pending.toStr, 0, none, none,
        false⟩ : Row Nat) = TaskStatus.pending.toStr from rfl) rfl
      (.returned (.error (.badRequest "no".toList)))
  obtain ⟨row, rfl, hiff⟩ := hchronicled.ended hended
  refine ⟨start, finish, trace, task, _, row, hstart, ?_, hrun, hsucceeds, hended, hiff.mp⟩
  simp [htable]

end Pool

end Saps.Tasks
