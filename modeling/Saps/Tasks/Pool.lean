import Saps.Tasks.Queue
import Saps.Lib.Transition

-- Any number of workers on one queue, among whoever else uses it.
namespace Saps.Tasks

-- What `spawn_blocking` gives back: what the handler returned, or that it panicked.
inductive Outcome where
  | returned (result : Except SapsError Unit)
  | panicked

-- Where a worker is in its cycle.
inductive Phase (Uuid : Type) where
  | polling
  | taken (task : QueuedTask Uuid)
  | running (task : QueuedTask Uuid)
  | finished (task : QueuedTask Uuid) (outcome : Outcome)

def Phase.task {Uuid : Type} : Phase Uuid → Option (QueuedTask Uuid)
  | polling => none
  | taken task => some task
  | running task => some task
  | finished task _ => some task

-- What happened, with the columns of the row at that time.
inductive Event (Uuid : Type) where
  | gotNext (id : Uuid)
  | claimed (id : Uuid)
  | marked (id : Uuid)
  | moved (id : Uuid) (before after : Str)
  | started (task : QueuedTask Uuid) (row : Option (Row Uuid))
  | ended (task : QueuedTask Uuid) (outcome : Option Outcome) (row : Option (Row Uuid))

-- `log` has what happened, the latest first.
structure Pool (Uuid : Type) where
  table : QueuedTasks Uuid
  workers : Nat → Phase Uuid
  log : List (Event Uuid)

variable {Uuid : Type} [DecidableEq Uuid]

namespace Pool

inductive Act (Uuid : Type) where
  | insert (task : QueuedTask Uuid)
  | claim (functionName : Str) (chosen : Option (Row Uuid))
  | mark (status : TaskStatus) (id : Uuid)
  | poll (worker : Nat) (chosen : Option (Row Uuid))
  | pollFails (worker : Nat) (ran : Option (Row Uuid))
  | lookUp (worker : Nat)
  | finish (worker : Nat) (outcome : Outcome)
  | record (worker : Nat)
  | recordFails (worker : Nat)

-- The statuses that a statement on the row of an id has written.
def moves (before after : QueuedTasks Uuid) (id : Uuid) : List (Event Uuid) :=
  match Table.lookup Row.id id before, Table.lookup Row.id id after with
  | some old, some new => [.moved id old.status new.status]
  | _, _ => []

def insert (task : QueuedTask Uuid) (pool : Pool Uuid) : Pool Uuid :=
  { pool with table := (insertBackgroundTask task pool.table).2 }

def claim (now : Int) (chosen : Option (Row Uuid)) (pool : Pool Uuid) : Pool Uuid :=
  let (row, table) := claimTask now chosen pool.table
  match row with
  | some row =>
    { pool with table := table, log := moves pool.table table row.id ++ .claimed row.id :: pool.log }
  | none => { pool with table := table }

def mark (status : TaskStatus) (now : Int) (id : Uuid) (pool : Pool Uuid) : Pool Uuid :=
  let (marked, table) := markAs status now id pool.table
  if marked then
    { pool with table := table, log := moves pool.table table id ++ .marked id :: pool.log }
  else { pool with table := table }

-- A worker that moves on.
def enter (worker : Nat) (phase : Phase Uuid) (pool : Pool Uuid) : Pool Uuid :=
  { pool with workers := Function.update pool.workers worker phase }

-- The row that the procedure locked is one it returned, whoever gets to see it.
def fetch (chosen : Option (Row Uuid)) (pool : Pool Uuid) : Pool Uuid :=
  match getNextTask chosen pool.table with
  | (some row, table) => { pool with table := table, log := .gotNext row.id :: pool.log }
  | (none, table) => { pool with table := table }

-- Step 1 of the cycle.
def poll (worker : Nat) (chosen : Option (Row Uuid)) (pool : Pool Uuid) : Pool Uuid :=
  match (getNextBackgroundTask chosen pool.table).1 with
  | .ok (some task) => (pool.fetch chosen).enter worker (.taken task)
  | .ok none => pool.fetch chosen
  | .error _ => pool.fetch chosen

-- The iteration is over.
def conclude (worker : Nat) (task : QueuedTask Uuid) (outcome : Option Outcome)
    (pool : Pool Uuid) : Pool Uuid :=
  { pool.enter worker .polling with
    log := .ended task outcome (Table.lookup Row.id task.id pool.table) :: pool.log }

-- Step 2 of the cycle and the start of step 3.
def lookUp (registered : Str → Bool) (worker : Nat) (task : QueuedTask Uuid)
    (pool : Pool Uuid) : Pool Uuid :=
  if registered task.functionName then
    { pool.enter worker (.running task) with
      log := .started task (Table.lookup Row.id task.id pool.table) :: pool.log }
  else pool.conclude worker task none

-- Step 4 of the cycle: any `Ok` is completed.
def record (now : Int) (worker : Nat) (task : QueuedTask Uuid) (outcome : Outcome)
    (pool : Pool Uuid) : Pool Uuid :=
  match outcome with
  | .returned _ => (pool.mark .completed now task.id).conclude worker task (some outcome)
  | .panicked => (pool.mark .exited now task.id).conclude worker task (some outcome)

-- A call of the database that fails may have run or not.
inductive Step (registered : Str → Bool) (before : Pool Uuid) :
    Int × Act Uuid → Pool Uuid → Prop
  | insert (now : Int) (task : QueuedTask Uuid) :
      Step registered before (now, .insert task) (before.insert task)
  | claim (now : Int) (functionName : Str) (chosen : Option (Row Uuid))
      (hselects : Selects (isPending functionName) before.table chosen) :
      Step registered before (now, .claim functionName chosen) (before.claim now chosen)
  | mark (now : Int) (status : TaskStatus) (id : Uuid)
      (hterminal : status = .completed ∨ status = .exited) :
      Step registered before (now, .mark status id) (before.mark status now id)
  | poll (now : Int) (worker : Nat) (chosen : Option (Row Uuid))
      (hworker : before.workers worker = .polling)
      (hselects : Selects isUnlocked before.table chosen) :
      Step registered before (now, .poll worker chosen) (before.poll worker chosen)
  | pollFails (now : Int) (worker : Nat) (ran : Option (Row Uuid))
      (hworker : before.workers worker = .polling)
      (hselects : ∀ row ∈ ran, row ∈ earliest isUnlocked before.table) :
      Step registered before (now, .pollFails worker ran) (before.fetch ran)
  | lookUp (now : Int) (worker : Nat) (task : QueuedTask Uuid)
      (hworker : before.workers worker = .taken task) :
      Step registered before (now, .lookUp worker) (before.lookUp registered worker task)
  | finish (now : Int) (worker : Nat) (task : QueuedTask Uuid) (outcome : Outcome)
      (hworker : before.workers worker = .running task) :
      Step registered before (now, .finish worker outcome)
        (before.enter worker (.finished task outcome))
  | record (now : Int) (worker : Nat) (task : QueuedTask Uuid) (outcome : Outcome)
      (hworker : before.workers worker = .finished task outcome) :
      Step registered before (now, .record worker) (before.record now worker task outcome)
  | recordFails (now : Int) (worker : Nat) (task : QueuedTask Uuid) (outcome : Outcome)
      (hworker : before.workers worker = .finished task outcome) :
      Step registered before (now, .recordFails worker)
        (before.conclude worker task (some outcome))

-- Whatever is in the queue, no worker has done anything yet.
def Starts (pool : Pool Uuid) : Prop :=
  (pool.table.map Row.id).Nodup ∧ (∀ worker, pool.workers worker = .polling) ∧ pool.log = []

end Pool

end Saps.Tasks
