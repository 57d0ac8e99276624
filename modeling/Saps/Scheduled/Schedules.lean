import Saps.Tasks.Queue

-- The table `saps.scheduled_tasks`, one statement at a time.
namespace Saps.Scheduled

open Auth (Jsonb)
open Tasks (QueuedTask QueuedTasks insertBackgroundTask)

-- What the `cron` crate reads from an expression: the first occurrence after a time.
abbrev Cron := Str → Except Str (Int → Option Int)

-- The next occurrence is strictly after the time it is asked from.
def Cron.Strict (cron : Cron) : Prop :=
  ∀ expression upcoming asked next, cron expression = .ok upcoming → upcoming asked = some next →
    asked < next

-- A row of the table and what is read from it. A timestamp is in microseconds.
structure ScheduledTask (Uuid : Type) where
  id : Int
  functionName : Str
  params : Jsonb
  taskId : Option Uuid
  timeScheduled : Option Int
  timeCompleted : Option Int
  cronString : Str
  locked : Bool
  deriving DecidableEq

-- `sequence` is the next value of the `SERIAL` column.
structure Schedules (Uuid : Type) where
  rows : List (ScheduledTask Uuid)
  sequence : Int
  deriving DecidableEq

-- The two tables that the scheduler writes.
structure Store (Uuid : Type) where
  queue : QueuedTasks Uuid
  schedules : Schedules Uuid

variable {Uuid : Type}

-- `DROP TABLE IF EXISTS` and `CREATE TABLE`.
def Schedules.migrated : Schedules Uuid :=
  ⟨[], 1⟩

def ScheduledTask.new (cron : Cron) (now : Int) (functionName : Str) (params : Jsonb)
    (cronString : Str) : Except SapsError (ScheduledTask Uuid) :=
  match cron cronString with
  | .error e =>
    .error (.badRequest ("invalid cron '".toList ++ cronString ++ "': ".toList ++ e))
  | .ok upcoming =>
    match upcoming now with
    | none =>
      .error (.badRequest ("cron '".toList ++ cronString ++ "' has no upcoming firing".toList))
    | some next => .ok ⟨0, functionName, params, none, some next, none, cronString, false⟩

-- The id is taken from the sequence, whether the row gets in or not.
def insertScheduledTask (task : ScheduledTask Uuid) (schedules : Schedules Uuid) :
    Except SqlxError Bool × Schedules Uuid :=
  if 255 < task.functionName.length ∨ 255 < task.cronString.length then
    (.error (.database "22001".toList
      "value too long for type character varying(255)".toList), schedules)
  else if 2147483647 < schedules.sequence then
    (.error (.database "2200H".toList ("nextval: reached maximum value of sequence ".toList ++
      "\"scheduled_tasks_id_seq\" (2147483647)".toList)), schedules)
  else
    let id := schedules.sequence
    if id ∈ schedules.rows.map ScheduledTask.id then
      (.error (.database "23505".toList ("duplicate key value violates unique constraint ".toList ++
        "\"scheduled_tasks_pkey\"".toList)), { schedules with sequence := id + 1 })
    else (.ok true, ⟨{ task with id := id } :: schedules.rows, id + 1⟩)

def registerScheduledTask (cron : Cron) (now : Int) (functionName : Str) (params : Jsonb)
    (cronString : Str) (schedules : Schedules Uuid) : Except SapsError Bool × Schedules Uuid :=
  match ScheduledTask.new cron now functionName params cronString with
  | .error e => (.error e, schedules)
  | .ok task =>
    let (result, schedules) := insertScheduledTask task schedules
    (result.mapError fun e => .unknown e.text, schedules)

-- `locked = FALSE AND time_scheduled IS NOT NULL AND time_scheduled <= NOW()`.
def isDue (now : Int) (row : ScheduledTask Uuid) : Bool :=
  !row.locked && row.timeScheduled.any fun time => decide (time ≤ now)

def lock (row : ScheduledTask Uuid) : ScheduledTask Uuid :=
  { row with locked := true }

-- `saps.claim_due_scheduled_tasks`. Between two transactions no row is held,
-- so none is skipped.
def claimDueScheduledTasks (now : Int) (schedules : Schedules Uuid) :
    List (ScheduledTask Uuid) × Schedules Uuid :=
  ((schedules.rows.filter (isDue now)).map lock,
    { schedules with rows := schedules.rows.map fun row => if isDue now row then lock row else row })

-- What the `UPDATE` of a post writes.
def advance (task : ScheduledTask Uuid) (queuedId : Uuid) (row : ScheduledTask Uuid) :
    ScheduledTask Uuid :=
  { row with
    timeScheduled := task.timeScheduled
    timeCompleted := task.timeCompleted
    taskId := some queuedId
    locked := false }

variable [DecidableEq Uuid]

-- One transaction: where the `INSERT` fails the `UPDATE` is never made. `fresh`
-- is for a task without an id.
def postScheduledTask (now : Int) (fresh : Uuid) (task : ScheduledTask Uuid) (store : Store Uuid) :
    Except SqlxError Bool × Store Uuid :=
  let queuedId := task.taskId.getD fresh
  match insertBackgroundTask (.new queuedId now task.functionName task.params) store.queue with
  | (.error e, _) => (.error e, store)
  | (.ok _, queue) =>
    let rows := store.schedules.rows
    (.ok (task.id ∈ rows.map ScheduledTask.id),
      ⟨queue, { store.schedules with
        rows := Table.update ScheduledTask.id task.id (advance task queuedId) rows }⟩)

end Saps.Scheduled
