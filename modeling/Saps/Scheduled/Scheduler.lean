import Saps.Scheduled.Schedules
import Saps.Lib.Transition

-- Any number of scheduler instances on one database, among whoever else uses it.
namespace Saps.Scheduled

open Auth (Jsonb)
open Tasks (QueuedTasks)

-- Where an instance is in its cycle. `generation` says from which table the
-- rows were claimed.
inductive Phase (Uuid : Type) where
  | sleeping
  | posting (generation : Nat) (due : List (ScheduledTask Uuid))
  | computed (generation : Nat) (task updated : ScheduledTask Uuid)
      (due : List (ScheduledTask Uuid))
  | stopped

def Phase.held {Uuid : Type} : Phase Uuid → List (ScheduledTask Uuid)
  | sleeping => []
  | posting _ due => due
  | computed _ task _ due => task :: due
  | stopped => []

-- One call of `post_scheduled_task`, for a row that was claimed from the table
-- of a generation.
structure Post (Uuid : Type) where
  claimed : ScheduledTask Uuid
  generation : Nat
  current : Nat
  result : Except SqlxError Bool
  before : Store Uuid
  after : Store Uuid

-- `log` has the posts, the latest first. Every migration makes the table of
-- the next generation.
structure System (Uuid : Type) where
  clock : Int
  store : Store Uuid
  generation : Nat
  instances : Nat → Phase Uuid
  log : List (Post Uuid)

inductive Act (Uuid : Type) where
  | claim (actor : Nat) (due : List (ScheduledTask Uuid))
  | claimFails (actor : Nat) (ran : Bool)
  | compute (actor : Nat) (asked : Int) (fresh : Uuid)
  | post (actor : Nat) (spare : Uuid)
  | postFails (actor : Nat) (e : SqlxError)
  | sleep (actor : Nat)
  | stop (actor : Nat)
  | register (functionName : Str) (params : Jsonb) (cronString : Str)
  | insert (task : ScheduledTask Uuid)
  | others (queue : QueuedTasks Uuid)
  | migrate

variable {Uuid : Type}

namespace System

def enter (actor : Nat) (phase : Phase Uuid) (system : System Uuid) : System Uuid :=
  { system with instances := Function.update system.instances actor phase }

-- The procedure has run.
def lockDue (now : Int) (system : System Uuid) : System Uuid :=
  { system with store := ⟨system.store.queue, (claimDueScheduledTasks now system.store.schedules).2⟩ }

def claim (now : Int) (actor : Nat) (due : List (ScheduledTask Uuid)) (system : System Uuid) :
    System Uuid :=
  (system.lockDue now).enter actor (.posting system.generation due)

-- One row of the loop, up to the post. The application reads the clock twice.
def compute (cron : Cron) (now asked : Int) (fresh : Uuid) (actor generation : Nat)
    (task : ScheduledTask Uuid) (due : List (ScheduledTask Uuid)) (system : System Uuid) :
    System Uuid :=
  match cron task.cronString with
  | .error _ => system.enter actor (.posting generation due)
  | .ok upcoming =>
    system.enter actor (.computed generation task { task with
      taskId := some fresh
      timeScheduled := upcoming asked
      timeCompleted := some now } due)

-- The post has answered, and the loop goes on whatever it was.
def posted (actor generation : Nat) (task : ScheduledTask Uuid) (due : List (ScheduledTask Uuid))
    (result : Except SqlxError Bool) (store : Store Uuid) (system : System Uuid) : System Uuid :=
  { system.enter actor (.posting generation due) with
    store := store
    log := ⟨task, generation, system.generation, result, system.store, store⟩ :: system.log }

def register (cron : Cron) (now : Int) (functionName : Str) (params : Jsonb) (cronString : Str)
    (system : System Uuid) : System Uuid :=
  { system with store := ⟨system.store.queue,
    (registerScheduledTask cron now functionName params cronString system.store.schedules).2⟩ }

def insert (task : ScheduledTask Uuid) (system : System Uuid) : System Uuid :=
  { system with
    store := ⟨system.store.queue, (insertScheduledTask task system.store.schedules).2⟩ }

def migrate (system : System Uuid) : System Uuid :=
  { system with
    store := ⟨system.store.queue, Schedules.migrated⟩
    generation := system.generation + 1 }

variable [DecidableEq Uuid]

def post (now : Int) (spare : Uuid) (actor generation : Nat) (task updated : ScheduledTask Uuid)
    (due : List (ScheduledTask Uuid)) (system : System Uuid) : System Uuid :=
  let (result, store) := postScheduledTask now spare updated system.store
  system.posted actor generation task due result store

-- What a party does at one reading of the clock. A call of the database that
-- fails may have run or not; a transaction that fails has not.
inductive Effect (cron : Cron) (before : System Uuid) : Int × Act Uuid → System Uuid → Prop
  | claim (now : Int) (actor : Nat) (due : List (ScheduledTask Uuid))
      (hactor : before.instances actor = .sleeping)
      (hdue : due.Perm (claimDueScheduledTasks now before.store.schedules).1) :
      Effect cron before (now, .claim actor due) (before.claim now actor due)
  | claimFails (now : Int) (actor : Nat) (ran : Bool)
      (hactor : before.instances actor = .sleeping) :
      Effect cron before (now, .claimFails actor ran) (if ran then before.lockDue now else before)
  | compute (now asked : Int) (fresh : Uuid) (actor generation : Nat) (task : ScheduledTask Uuid)
      (due : List (ScheduledTask Uuid))
      (hactor : before.instances actor = .posting generation (task :: due))
      (hasked : before.clock ≤ asked ∧ asked ≤ now) :
      Effect cron before (now, .compute actor asked fresh)
        (before.compute cron now asked fresh actor generation task due)
  | post (now : Int) (spare : Uuid) (actor generation : Nat) (task updated : ScheduledTask Uuid)
      (due : List (ScheduledTask Uuid))
      (hactor : before.instances actor = .computed generation task updated due) :
      Effect cron before (now, .post actor spare)
        (before.post now spare actor generation task updated due)
  | postFails (now : Int) (e : SqlxError) (actor generation : Nat)
      (task updated : ScheduledTask Uuid) (due : List (ScheduledTask Uuid))
      (hactor : before.instances actor = .computed generation task updated due) :
      Effect cron before (now, .postFails actor e)
        (before.posted actor generation task due (.error e) before.store)
  | sleep (now : Int) (actor generation : Nat)
      (hactor : before.instances actor = .posting generation []) :
      Effect cron before (now, .sleep actor) (before.enter actor .sleeping)
  | stop (now : Int) (actor : Nat) :
      Effect cron before (now, .stop actor) (before.enter actor .stopped)
  | register (now : Int) (functionName : Str) (params : Jsonb) (cronString : Str) :
      Effect cron before (now, .register functionName params cronString)
        (before.register cron now functionName params cronString)
  | insert (now : Int) (task : ScheduledTask Uuid) :
      Effect cron before (now, .insert task) (before.insert task)
  | others (now : Int) (queue : QueuedTasks Uuid) :
      Effect cron before (now, .others queue)
        { before with store := ⟨queue, before.store.schedules⟩ }
  | migrate (now : Int) : Effect cron before (now, .migrate) before.migrate

-- One clock for all of them, which never goes back.
def Step (cron : Cron) (before : System Uuid) (label : Int × Act Uuid) (after : System Uuid) :
    Prop :=
  before.clock ≤ label.1 ∧ ∃ left, Effect cron before label left ∧
    after = { left with clock := label.1 }

-- Whatever is in the two tables, no instance has done anything yet.
def Starts (system : System Uuid) : Prop :=
  (system.store.schedules.rows.map ScheduledTask.id).Nodup ∧
    (∀ actor, system.instances actor = .sleeping) ∧ system.log = []

end System

end Saps.Scheduled
