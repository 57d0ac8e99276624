import Saps.Auth.Dal
import Saps.Lib.Table

-- The table `saps.queued_tasks`, one statement at a time.
namespace Saps.Tasks

open Auth (Jsonb)

inductive TaskStatus where
  | pending
  | inProgress
  | completed
  | exited
  deriving DecidableEq

namespace TaskStatus

def toStr : TaskStatus → Str
  | pending => "pending".toList
  | inProgress => "in_progress".toList
  | completed => "completed".toList
  | exited => "exited".toList

-- No other character than an ASCII letter has one of these in lower case.
def tryFrom (value : Str) : Except SapsError TaskStatus :=
  let lower := value.map Char.toLower
  if lower = toStr pending then .ok .pending
  else if lower = toStr inProgress then .ok .inProgress
  else if lower = toStr completed then .ok .completed
  else if lower = toStr exited then .ok .exited
  else .error (.badRequest ("Unknown task status: ".toList ++ value))

theorem toStr_injective {left right : TaskStatus} (h : toStr left = toStr right) :
    left = right := by
  revert h
  cases left <;> cases right <;> decide +kernel

theorem tryFrom_toStr (status : TaskStatus) : tryFrom (toStr status) = .ok status := by
  cases status <;> decide +kernel

end TaskStatus

-- A row of the table. A timestamp is in microseconds.
structure Row (Uuid : Type) where
  id : Uuid
  functionName : Str
  params : Jsonb
  status : Str
  timePosted : Int
  timeStarted : Option Int
  timeFinished : Option Int
  locked : Bool
  deriving DecidableEq

structure QueuedTask (Uuid : Type) where
  id : Uuid
  functionName : Str
  params : Jsonb
  status : TaskStatus
  timePosted : Int
  timeStarted : Option Int
  timeFinished : Option Int
  locked : Bool
  deriving DecidableEq

namespace QueuedTask

variable {Uuid : Type}

def fromRow (row : Row Uuid) : Except SapsError (QueuedTask Uuid) := do
  let status ← TaskStatus.tryFrom row.status
  return ⟨row.id, row.functionName, row.params, status, row.timePosted, row.timeStarted,
    row.timeFinished, row.locked⟩

-- `fresh` is what `Uuid::new_v4()` returned.
def new (fresh : Uuid) (now : Int) (functionName : Str) (params : Jsonb) : QueuedTask Uuid :=
  ⟨fresh, functionName, params, .pending, now, none, none, false⟩

end QueuedTask

abbrev QueuedTasks (Uuid : Type) := List (Row Uuid)

variable {Uuid : Type} [DecidableEq Uuid]

-- `function_name` is a `VARCHAR(255)` and `id` the primary key. The database cuts blanks
-- off the end of a name that is too long for them alone; no task name ends in blanks.
def insertBackgroundTask (task : QueuedTask Uuid) (table : QueuedTasks Uuid) :
    Except SqlxError Bool × QueuedTasks Uuid :=
  if 255 < task.functionName.length then
    (.error (.database "22001".toList
      "value too long for type character varying(255)".toList), table)
  else if task.id ∈ table.map Row.id then
    (.error (.database "23505".toList
      "duplicate key value violates unique constraint \"queued_tasks_pkey\"".toList), table)
  else
    let row : Row Uuid := ⟨task.id, task.functionName, task.params, task.status.toStr,
      task.timePosted, task.timeStarted, task.timeFinished, task.locked⟩
    (.ok true, row :: table)

-- `WHERE .. ORDER BY time_posted ASC LIMIT 1`: the rows that may come first.
def earliest (keep : Row Uuid → Bool) (table : QueuedTasks Uuid) : List (Row Uuid) :=
  let kept := table.filter keep
  kept.filter fun row => kept.all fun other => row.timePosted ≤ other.timePosted

-- `chosen` is the row that came first, if there is one.
def Selects (keep : Row Uuid → Bool) (table : QueuedTasks Uuid) : Option (Row Uuid) → Prop
  | some chosen => chosen ∈ earliest keep table
  | none => earliest keep table = []

def isPending (functionName : Str) (row : Row Uuid) : Bool :=
  row.functionName = functionName ∧ row.status = TaskStatus.pending.toStr

def isUnlocked (row : Row Uuid) : Bool :=
  row.locked = false

-- `UPDATE .. WHERE id = task_record.id RETURNING * INTO task_record`.
def updateChosen (chosen : Option (Row Uuid)) (change : Row Uuid → Row Uuid)
    (table : QueuedTasks Uuid) : Option (Row Uuid) × QueuedTasks Uuid :=
  match chosen with
  | none => (none, table)
  | some row =>
    ((Table.lookup Row.id row.id table).map change, Table.update Row.id row.id change table)

-- `saps.claim_task`, where the `SELECT` chose among the pending rows of a function.
def claimTask (now : Int) (chosen : Option (Row Uuid)) (table : QueuedTasks Uuid) :
    Option (Row Uuid) × QueuedTasks Uuid :=
  updateChosen chosen
    (fun row => { row with status := TaskStatus.inProgress.toStr, timeStarted := some now }) table

-- `saps.get_next_task`, where the `SELECT` chose among the unlocked rows.
def getNextTask (chosen : Option (Row Uuid)) (table : QueuedTasks Uuid) :
    Option (Row Uuid) × QueuedTasks Uuid :=
  updateChosen chosen (fun row => { row with locked := true }) table

def getNextBackgroundTask (chosen : Option (Row Uuid)) (table : QueuedTasks Uuid) :
    Except SqlxError (Option (QueuedTask Uuid)) × QueuedTasks Uuid :=
  let (row, table) := getNextTask chosen table
  match row with
  | none => (.ok none, table)
  | some row => (((QueuedTask.fromRow row).mapError fun e => .protocol e.message).map some, table)

-- What the two marks have in common.
def markAs (status : TaskStatus) (now : Int) (id : Uuid) (table : QueuedTasks Uuid) :
    Bool × QueuedTasks Uuid :=
  (id ∈ table.map Row.id, Table.update Row.id id
    (fun row => { row with status := status.toStr, timeFinished := some now }) table)

def markBackgroundTaskAsCompleted (now : Int) (id : Uuid) (table : QueuedTasks Uuid) :
    Bool × QueuedTasks Uuid :=
  markAs .completed now id table

def markBackgroundTaskAsExited (now : Int) (id : Uuid) (table : QueuedTasks Uuid) :
    Bool × QueuedTasks Uuid :=
  markAs .exited now id table

end Saps.Tasks
