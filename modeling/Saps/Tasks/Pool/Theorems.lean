import Saps.Tasks.Pool
import Mathlib.Data.List.MinMax

namespace Saps.Tasks

open Transition

variable {Uuid : Type}

theorem mem_earliest {keep : Row Uuid → Bool} {table : QueuedTasks Uuid} {row : Row Uuid} :
    row ∈ earliest keep table ↔ row ∈ table ∧ keep row = true ∧
      ∀ other ∈ table, keep other = true → row.timePosted ≤ other.timePosted := by
  simp only [earliest, List.mem_filter, List.all_eq_true, decide_eq_true_eq, and_imp, and_assoc]

-- The procedure finds no row only where there is none to find.
theorem earliest_nil {keep : Row Uuid → Bool} {table : QueuedTasks Uuid}
    (h : earliest keep table = []) : ∀ row ∈ table, keep row = false := by
  intro row hrow
  by_contra hkeep
  rw [Bool.not_eq_false] at hkeep
  have hkept : row ∈ table.filter keep := List.mem_filter.mpr ⟨hrow, hkeep⟩
  cases hleast : (table.filter keep).argmin Row.timePosted with
  | none =>
      rw [List.argmin_eq_none.mp hleast] at hkept
      cases hkept
  | some least =>
      obtain ⟨hmem, hkeepLeast⟩ := List.mem_filter.mp (List.argmin_mem hleast)
      have hearliest : least ∈ earliest keep table := by
        refine mem_earliest.mpr ⟨hmem, hkeepLeast, ?_⟩
        intro other hother hkeepOther
        exact List.le_of_mem_argmin (List.mem_filter.mpr ⟨hother, hkeepOther⟩) hleast
      rw [h] at hearliest
      cases hearliest

theorem fromRow_id {row : Row Uuid} {task : QueuedTask Uuid}
    (h : QueuedTask.fromRow row = .ok task) : ∃ status, TaskStatus.tryFrom row.status = .ok status ∧
      task = ⟨row.id, row.functionName, row.params, status, row.timePosted, row.timeStarted,
        row.timeFinished, row.locked⟩ := by
  unfold QueuedTask.fromRow at h
  cases hstatus : TaskStatus.tryFrom row.status with
  | error e =>
      rw [hstatus] at h
      cases h
  | ok status =>
      rw [hstatus] at h
      exact ⟨status, rfl, (Except.ok.inj h).symm⟩

-- The row of the id is locked.
def Locked (table : QueuedTasks Uuid) (id : Uuid) : Prop :=
  ∃ row ∈ table, row.id = id ∧ row.locked = true

theorem not_locked {table : QueuedTasks Uuid} (hids : (table.map Row.id).Nodup) {row : Row Uuid}
    (hrow : row ∈ table) (hlocked : row.locked = false) : ¬Locked table row.id := by
  rintro ⟨other, hother, hid, hother'⟩
  obtain rfl := List.inj_on_of_nodup_map hids hother hrow hid
  rw [hlocked] at hother'
  cases hother'

namespace Event

def startedId {Uuid : Type} : Event Uuid → Option Uuid
  | started task _ => some task.id
  | _ => none

end Event

namespace Pool

-- The rows whose handlers were started, as often as they were.
def startedIds {Uuid : Type} (pool : Pool Uuid) : List Uuid :=
  pool.log.filterMap Event.startedId

structure Good (pool : Pool Uuid) : Prop where
  ids : (pool.table.map Row.id).Nodup
  held : ∀ worker task, (pool.workers worker).task = some task → Locked pool.table task.id
  started : ∀ id ∈ pool.startedIds, Locked pool.table id
  fresh : ∀ worker task, pool.workers worker = .taken task → task.id ∉ pool.startedIds
  apart : ∀ worker worker' task task', (pool.workers worker).task = some task →
    (pool.workers worker').task = some task' → task.id = task'.id → worker = worker'
  once : pool.startedIds.Nodup

variable {pool : Pool Uuid}

theorem Good.follow (good : pool.Good) {table : QueuedTasks Uuid}
    (hids : (table.map Row.id).Nodup) (hlocked : ∀ id, Locked pool.table id → Locked table id)
    {log : List (Event Uuid)} (hlog : log.filterMap Event.startedId = pool.startedIds) :
    Good { pool with table := table, log := log } := by
  have hstarted : startedIds { pool with table := table, log := log } = pool.startedIds := hlog
  refine ⟨hids, fun worker task h => hlocked _ (good.held worker task h), ?_, ?_, good.apart, ?_⟩
  · rw [hstarted]
    exact fun id hid => hlocked id (good.started id hid)
  · rw [hstarted]
    exact good.fresh
  · rw [hstarted]
    exact good.once

@[simp] theorem enter_self (pool : Pool Uuid) (worker : Nat) (phase : Phase Uuid) :
    (pool.enter worker phase).workers worker = phase :=
  Function.update_self _ _ _

theorem enter_other (pool : Pool Uuid) {worker other : Nat} (h : other ≠ worker)
    (phase : Phase Uuid) : (pool.enter worker phase).workers other = pool.workers other :=
  Function.update_of_ne h _ _

-- A worker that goes on with its task, or with none.
theorem Good.enter (good : pool.Good) {worker : Nat} {phase : Phase Uuid}
    (htask : phase.task = none ∨ phase.task = (pool.workers worker).task)
    (hphase : ∀ task, phase ≠ .taken task) : (pool.enter worker phase).Good := by
  have hkept : ∀ other task, ((pool.enter worker phase).workers other).task = some task →
      (pool.workers other).task = some task := by
    intro other task h
    by_cases hother : other = worker
    · subst hother
      rw [enter_self] at h
      rcases htask with hnone | hsame
      · rw [hnone] at h
        cases h
      · rw [← hsame, h]
    · rwa [enter_other _ hother] at h
  refine ⟨good.ids, fun other task h => good.held other task (hkept other task h), good.started, ?_,
    ?_, good.once⟩
  · intro other task h
    by_cases hother : other = worker
    · subst hother
      rw [enter_self] at h
      exact absurd h (hphase task)
    · rw [enter_other _ hother] at h
      exact good.fresh other task h
  · intro other other' task task' h h'
    exact good.apart other other' task task' (hkept other task h) (hkept other' task' h')

theorem Good.release (good : pool.Good) (worker : Nat) : (pool.enter worker .polling).Good :=
  good.enter (.inl rfl) fun _ h => nomatch h

theorem Good.take (good : pool.Good) (worker : Nat) {task : QueuedTask Uuid}
    (hlocked : Locked pool.table task.id) (hfresh : task.id ∉ pool.startedIds)
    (hfree : ∀ other task', (pool.workers other).task = some task' → task'.id ≠ task.id) :
    (pool.enter worker (.taken task)).Good := by
  refine ⟨good.ids, ?_, good.started, ?_, ?_, good.once⟩
  · intro other task' h
    by_cases hother : other = worker
    · subst hother
      rw [enter_self] at h
      obtain rfl := Option.some.inj h
      exact hlocked
    · rw [enter_other _ hother] at h
      exact good.held other task' h
  · intro other task' h
    by_cases hother : other = worker
    · subst hother
      rw [enter_self] at h
      obtain rfl := Phase.taken.inj h
      exact hfresh
    · rw [enter_other _ hother] at h
      exact good.fresh other task' h
  · intro other other' task' task'' h h' hsame
    by_cases hother : other = worker
    · by_cases hother' : other' = worker
      · exact hother.trans hother'.symm
      · rw [hother, enter_self] at h
        rw [enter_other _ hother'] at h'
        obtain rfl := Option.some.inj h
        exact absurd hsame.symm (hfree other' task'' h')
    · rw [enter_other _ hother] at h
      by_cases hother' : other' = worker
      · rw [hother', enter_self] at h'
        obtain rfl := Option.some.inj h'
        exact absurd hsame (hfree other task' h)
      · rw [enter_other _ hother'] at h'
        exact good.apart other other' task' task'' h h' hsame

theorem starts_good (h : pool.Starts) : pool.Good := by
  obtain ⟨hids, hworkers, hlog⟩ := h
  have hstarted : pool.startedIds = [] := by rw [startedIds, hlog]; rfl
  have hidle : ∀ worker task, (pool.workers worker).task ≠ some task := by
    intro worker task h
    rw [hworkers] at h
    cases h
  refine ⟨hids, fun worker task h => absurd h (hidle worker task), ?_, ?_,
    fun worker _ task _ h => absurd h (hidle worker task), ?_⟩
  · simp [hstarted]
  · simp [hstarted]
  · simp [hstarted]

end Pool

variable [DecidableEq Uuid]

theorem updateChosen_some {table : QueuedTasks Uuid} (hids : (table.map Row.id).Nodup)
    {row : Row Uuid} (hrow : row ∈ table) (change : Row Uuid → Row Uuid) :
    updateChosen (some row) change table =
      (some (change row), Table.update Row.id row.id change table) := by
  simp only [updateChosen, Table.lookup_of_mem hids hrow, Option.map_some]

-- The task of the answer is the row that was chosen, locked now.
theorem getNext_some {table : QueuedTasks Uuid} (hids : (table.map Row.id).Nodup)
    {chosen : Option (Row Uuid)} (hselects : Selects isUnlocked table chosen)
    {task : QueuedTask Uuid} (h : (getNextBackgroundTask chosen table).1 = .ok (some task)) :
    ∃ row, chosen = some row ∧ row ∈ earliest isUnlocked table ∧
      QueuedTask.fromRow { row with locked := true } = .ok task := by
  cases chosen with
  | none => simp [getNextBackgroundTask, getNextTask, updateChosen] at h
  | some row =>
      have hrow := (mem_earliest.mp hselects).1
      simp only [getNextBackgroundTask, getNextTask, updateChosen_some hids hrow] at h
      refine ⟨row, rfl, hselects, ?_⟩
      cases hparse : QueuedTask.fromRow { row with locked := true } with
      | error e =>
          rw [hparse] at h
          cases h
      | ok parsed =>
          rw [hparse] at h
          exact congrArg Except.ok (Option.some.inj (Except.ok.inj h))

theorem getNext_none {table : QueuedTasks Uuid} (hids : (table.map Row.id).Nodup)
    {chosen : Option (Row Uuid)} (hselects : Selects isUnlocked table chosen)
    (h : (getNextBackgroundTask chosen table).1 = .ok none) : ∀ row ∈ table, row.locked = true := by
  cases chosen with
  | none =>
      intro row hrow
      simpa [isUnlocked] using earliest_nil hselects row hrow
  | some row =>
      have hrow := (mem_earliest.mp hselects).1
      simp only [getNextBackgroundTask, getNextTask, updateChosen_some hids hrow] at h
      cases hparse : QueuedTask.fromRow { row with locked := true } with
      | error e =>
          rw [hparse] at h
          cases h
      | ok parsed =>
          rw [hparse] at h
          cases h

-- No statement frees a row.
theorem Locked.update {table : QueuedTasks Uuid} {id : Uuid} (h : Locked table id) (key : Uuid)
    {change : Row Uuid → Row Uuid} (hid : ∀ row, (change row).id = row.id)
    (hlocked : ∀ row, row.locked = true → (change row).locked = true) :
    Locked (Table.update Row.id key change table) id := by
  obtain ⟨row, hrow, rfl, hrowLocked⟩ := h
  by_cases hkey : row.id = key
  · exact ⟨change row, Table.mem_update.mpr (.inl ⟨row, hrow, hkey, rfl⟩), hid row,
      hlocked row hrowLocked⟩
  · exact ⟨row, Table.mem_update.mpr (.inr ⟨hrow, hkey⟩), rfl, hrowLocked⟩

-- What holds of every statement that keeps the ids and the locks.
theorem updateChosen_keeps {table : QueuedTasks Uuid} (hids : (table.map Row.id).Nodup)
    (chosen : Option (Row Uuid)) {change : Row Uuid → Row Uuid}
    (hid : ∀ row, (change row).id = row.id)
    (hlocked : ∀ row, row.locked = true → (change row).locked = true) :
    ((updateChosen chosen change table).2.map Row.id).Nodup ∧
      ∀ id, Locked table id → Locked (updateChosen chosen change table).2 id := by
  cases chosen with
  | none => exact ⟨hids, fun _ h => h⟩
  | some row =>
      refine ⟨?_, fun _ h => h.update row.id hid hlocked⟩
      change ((Table.update Row.id row.id change table).map Row.id).Nodup
      rwa [Table.update_keys row.id hid]

namespace Pool

variable {pool : Pool Uuid}

theorem Good.insert (good : pool.Good) (task : QueuedTask Uuid) : (pool.insert task).Good := by
  refine good.follow ?_ ?_ rfl
  · unfold insertBackgroundTask
    split
    · exact good.ids
    · split
      · exact good.ids
      · next hnew => exact List.nodup_cons.mpr ⟨hnew, good.ids⟩
  · intro id hlocked
    unfold insertBackgroundTask
    split
    · exact hlocked
    · split
      · exact hlocked
      · obtain ⟨row, hrow, hid⟩ := hlocked
        exact ⟨row, List.mem_cons_of_mem _ hrow, hid⟩

theorem moves_startedId (before after : QueuedTasks Uuid) (id : Uuid) :
    (moves before after id).filterMap Event.startedId = [] := by
  unfold moves
  split <;> rfl

theorem Good.mark (good : pool.Good) (status : TaskStatus) (now : Int) (id : Uuid) :
    (pool.mark status now id).Good := by
  have hids : ((markAs status now id pool.table).2.map Row.id).Nodup := by
    unfold markAs
    rw [Table.update_keys]
    · exact good.ids
    · exact fun _ => rfl
  have hlocked : ∀ other, Locked pool.table other →
      Locked (markAs status now id pool.table).2 other :=
    fun other h => h.update id (fun _ => rfl) fun _ hrow => hrow
  unfold Pool.mark
  dsimp only
  split
  · refine good.follow hids hlocked ?_
    rw [List.filterMap_append, moves_startedId]
    rfl
  · exact good.follow hids hlocked rfl

theorem Good.claim (good : pool.Good) (now : Int) (chosen : Option (Row Uuid)) :
    (pool.claim now chosen).Good := by
  obtain ⟨hids, hlocked⟩ : ((claimTask now chosen pool.table).2.map Row.id).Nodup ∧
      ∀ id, Locked pool.table id → Locked (claimTask now chosen pool.table).2 id :=
    updateChosen_keeps good.ids chosen (fun _ => rfl) fun _ h => h
  unfold Pool.claim
  dsimp only
  split
  · refine good.follow hids hlocked ?_
    rw [List.filterMap_append, moves_startedId]
    rfl
  · exact good.follow hids hlocked rfl

theorem Good.fetch (good : pool.Good) (chosen : Option (Row Uuid)) : (pool.fetch chosen).Good := by
  obtain ⟨hids, hlocked⟩ : ((getNextTask chosen pool.table).2.map Row.id).Nodup ∧
      ∀ id, Locked pool.table id → Locked (getNextTask chosen pool.table).2 id :=
    updateChosen_keeps good.ids chosen (fun _ => rfl) fun _ _ => rfl
  unfold Pool.fetch
  split <;> next heq =>
    rw [heq] at hids hlocked
    exact good.follow hids hlocked rfl

theorem Good.conclude (good : pool.Good) (worker : Nat) (task : QueuedTask Uuid)
    (outcome : Option Outcome) : (pool.conclude worker task outcome).Good := by
  have hentered := good.release worker
  exact hentered.follow good.ids (fun _ h => h) rfl

theorem fetch_some (pool : Pool Uuid) (hids : (pool.table.map Row.id).Nodup) {row : Row Uuid}
    (hrow : row ∈ pool.table) : pool.fetch (some row) = { pool with
      table := Table.update Row.id row.id (fun row => { row with locked := true }) pool.table
      log := .gotNext row.id :: pool.log } := by
  simp only [Pool.fetch, getNextTask, updateChosen_some hids hrow]

theorem poll_eq (pool : Pool Uuid) (worker : Nat) (chosen : Option (Row Uuid)) :
    (pool.poll worker chosen).log = (pool.fetch chosen).log ∧
      (pool.poll worker chosen).table = (pool.fetch chosen).table := by
  unfold Pool.poll
  split <;> exact ⟨rfl, rfl⟩

theorem mark_some (pool : Pool Uuid) (status : TaskStatus) (now : Int) {id : Uuid}
    (h : id ∈ pool.table.map Row.id) : pool.mark status now id = { pool with
      table := (markAs status now id pool.table).2
      log := moves pool.table (markAs status now id pool.table).2 id ++ .marked id :: pool.log } := by
  simp only [Pool.mark, markAs, h, decide_true, ite_true]

theorem mark_none (pool : Pool Uuid) (status : TaskStatus) (now : Int) {id : Uuid}
    (h : id ∉ pool.table.map Row.id) : pool.mark status now id = pool := by
  simp only [Pool.mark, markAs, h, decide_false, Bool.false_eq_true, ite_false,
    Table.update_missing h]

-- The row that comes out was not locked, so no worker has had it.
theorem Good.poll (good : pool.Good) (worker : Nat) {chosen : Option (Row Uuid)}
    (hselects : Selects isUnlocked pool.table chosen) : (pool.poll worker chosen).Good := by
  have hfetched := good.fetch chosen
  unfold Pool.poll
  split
  · next task hanswer =>
      obtain ⟨row, rfl, hrow, hparse⟩ := getNext_some good.ids hselects hanswer
      obtain ⟨hmem, hunlocked, _⟩ := mem_earliest.mp hrow
      obtain ⟨_, _, rfl⟩ := fromRow_id hparse
      have hfree : ¬Locked pool.table row.id :=
        not_locked good.ids hmem (by simpa [isUnlocked] using hunlocked)
      rw [fetch_some pool good.ids hmem] at hfetched ⊢
      refine hfetched.take worker ?_ ?_ ?_
      · exact ⟨{ row with locked := true }, Table.mem_update.mpr (.inl ⟨row, hmem, rfl, rfl⟩), rfl, rfl⟩
      · exact fun hstarted => hfree (good.started row.id hstarted)
      · intro other task' h hsame
        have hheld := good.held other task' h
        rw [hsame] at hheld
        exact hfree hheld
  · exact hfetched
  · exact hfetched

theorem Good.lookUp (good : pool.Good) (registered : Str → Bool) {worker : Nat}
    {task : QueuedTask Uuid} (hworker : pool.workers worker = .taken task) :
    (pool.lookUp registered worker task).Good := by
  unfold Pool.lookUp
  split
  · have htask : (pool.workers worker).task = some task := by rw [hworker]; rfl
    have hentered : (pool.enter worker (.running task)).Good :=
      good.enter (.inr htask.symm) fun _ h => nomatch h
    have hnew := good.fresh worker task hworker
    refine ⟨good.ids, hentered.held, ?_, ?_, hentered.apart, List.nodup_cons.mpr ⟨hnew, good.once⟩⟩
    · intro id hid
      rcases List.mem_cons.mp hid with rfl | hold
      · exact good.held worker task htask
      · exact good.started id hold
    · intro other task' h hid
      have hother : other ≠ worker := by
        rintro rfl
        rw [enter_self] at h
        cases h
      rw [enter_other _ hother] at h
      rcases List.mem_cons.mp hid with hsame | hold
      · have htask' : (pool.workers other).task = some task' := by rw [h]; rfl
        exact hother (good.apart other worker task' task htask' htask hsame)
      · exact good.fresh other task' h hold
  · exact good.conclude worker task none

theorem step_good {registered : Str → Bool} {before after : Pool Uuid} {label : Int × Act Uuid}
    (good : before.Good) (step : Step registered before label after) : after.Good := by
  cases step with
  | insert now task => exact good.insert task
  | claim now functionName chosen hselects => exact good.claim now chosen
  | mark now status id hterminal => exact good.mark status now id
  | poll now worker chosen hworker hselects => exact good.poll worker hselects
  | pollFails now worker ran hworker hselects => exact good.fetch ran
  | lookUp now worker task hworker => exact good.lookUp registered hworker
  | finish now worker task outcome hworker =>
      refine good.enter (.inr ?_) fun _ h => nomatch h
      rw [hworker]
      rfl
  | record now worker task outcome hworker =>
      unfold Pool.record
      cases outcome with
      | returned result => exact (good.mark .completed now task.id).conclude worker task _
      | panicked => exact (good.mark .exited now task.id).conclude worker task _
  | recordFails now worker task outcome hworker => exact good.conclude worker task _

-- No row has its handler started twice, and whichever row comes first, what
-- `get_next_task` answers is the oldest of those that are free.
theorem started_once (registered : Str → Bool) (start finish : Pool Uuid)
    (trace : List (Int × Act Uuid)) (hstart : start.Starts)
    (run : Run (Step registered) start trace finish) :
    finish.startedIds.Nodup ∧
      ∀ chosen, Selects isUnlocked finish.table chosen →
        (∀ task, (getNextBackgroundTask chosen finish.table).1 = .ok (some task) →
          ∃ row ∈ finish.table, row.id = task.id ∧ row.locked = false ∧
            ∀ other ∈ finish.table, other.locked = false → row.timePosted ≤ other.timePosted) ∧
        ((getNextBackgroundTask chosen finish.table).1 = .ok none →
          ∀ row ∈ finish.table, row.locked = true) := by
  have good : finish.Good :=
    run.invariant Good (starts_good hstart) fun _ _ _ => step_good
  refine ⟨good.once, ?_⟩
  intro chosen hselects
  refine ⟨?_, getNext_none good.ids hselects⟩
  intro task hanswer
  obtain ⟨row, _, hrow, hparse⟩ := getNext_some good.ids hselects hanswer
  obtain ⟨hmem, hunlocked, hleast⟩ := mem_earliest.mp hrow
  obtain ⟨_, _, rfl⟩ := fromRow_id hparse
  refine ⟨row, hmem, rfl, by simpa [isUnlocked] using hunlocked, ?_⟩
  intro other hother hfree
  exact hleast other hother (by simpa [isUnlocked] using hfree)

-- One task, posted and taken by the first worker.
theorem started_once_posted : ∃ finish : Pool Nat,
    (∃ start trace, start.Starts ∧ Run (Step fun _ => true) start trace finish ∧
      finish.startedIds = [1]) ∧
    finish.startedIds.Nodup ∧
      ∀ chosen, Selects isUnlocked finish.table chosen →
        (∀ task, (getNextBackgroundTask chosen finish.table).1 = .ok (some task) →
          ∃ row ∈ finish.table, row.id = task.id ∧ row.locked = false ∧
            ∀ other ∈ finish.table, other.locked = false → row.timePosted ≤ other.timePosted) ∧
        ((getNextBackgroundTask chosen finish.table).1 = .ok none →
          ∀ row ∈ finish.table, row.locked = true) := by
  let task : QueuedTask Nat := .new 1 0 "add".toList .null
  let row : Row Nat := ⟨1, "add".toList, .null, TaskStatus.pending.toStr, 0, none, none, false⟩
  let taken : QueuedTask Nat := { task with locked := true }
  let start : Pool Nat := ⟨[], fun _ => .polling, []⟩
  let posted := start.insert task
  let polled := posted.poll 0 (some row)
  have htable : posted.table = [row] := by decide +kernel
  have hids : (posted.table.map Row.id).Nodup := by simp [htable]
  have hanswer : (getNextBackgroundTask (some row) posted.table).1 = .ok (some taken) := by
    have hmem : row ∈ posted.table := by simp [htable]
    simp only [getNextBackgroundTask, getNextTask, updateChosen_some hids hmem, QueuedTask.fromRow,
      row, TaskStatus.tryFrom_toStr]
    rfl
  have hpolled : polled.workers 0 = .taken taken := by
    simp only [polled, Pool.poll, hanswer]
    exact enter_self _ _ _
  have hselects : Selects isUnlocked posted.table (some row) := by
    rw [htable]
    exact mem_earliest.mpr ⟨by simp, rfl, by simp⟩
  have hstart : start.Starts := ⟨List.nodup_nil, fun _ => rfl, rfl⟩
  have hrun : Run (Step fun _ => true) start
      [(0, .insert task), (0, .poll 0 (some row)), (0, .lookUp 0)]
      (polled.lookUp (fun _ => true) 0 taken) :=
    .snoc (.snoc (.snoc .nil (.insert 0 task)) (.poll 0 0 (some row) rfl hselects))
      (.lookUp 0 0 taken hpolled)
  have hlog : polled.startedIds = [] := by
    have hmem : row ∈ posted.table := by simp [htable]
    simp only [polled, Pool.poll, hanswer, fetch_some posted hids hmem]
    rfl
  refine ⟨_, ⟨start, _, hstart, hrun, ?_⟩, started_once _ start _ _ hstart hrun⟩
  exact congrArg (1 :: ·) hlog

end Pool

end Saps.Tasks
