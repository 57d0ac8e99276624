import Saps.Scheduled.Scheduler.Liveness.Theorems
import Saps.Tasks.Pool.Liveness.Theorems

-- The scheduler and the workers on one database, from a schedule to the handler.
namespace Saps.Scheduled

open Transition

-- The queue is the one in the store of the system.
structure Site (Uuid : Type) where
  system : System Uuid
  workers : Nat → Tasks.Phase Uuid
  events : List (Tasks.Event Uuid)

namespace Site

variable {Uuid : Type}

def pool (site : Site Uuid) : Tasks.Pool Uuid :=
  ⟨site.system.store.queue, site.workers, site.events⟩

-- What the workers and the callers have left.
def worked (now : Int) (pool : Tasks.Pool Uuid) (site : Site Uuid) : Site Uuid :=
  ⟨{ site.system with
      clock := now
      store := ⟨pool.table, site.system.store.schedules⟩ }, pool.workers, pool.log⟩

inductive Act (Uuid : Type) where
  | schedule (act : Scheduled.Act Uuid)
  | work (act : Tasks.Pool.Act Uuid)

-- What the others do to the queue is told by the pool.
def isOthers : Scheduled.Act Uuid → Bool
  | .others _ => true
  | _ => false

def Act.advances : Act Uuid → Option Nat
  | .schedule _ => none
  | .work act => act.advances

def Act.loses (id : Uuid) : Act Uuid → Prop
  | .schedule _ => False
  | .work act => act.loses id

-- An act as the scheduler sees it, when it left a queue.
def Act.seen (queue : Tasks.QueuedTasks Uuid) : Act Uuid → Scheduled.Act Uuid
  | .schedule act => act
  | .work _ => .others queue

variable [DecidableEq Uuid]

inductive Step (cron : Cron) (registered : Str → Bool) (before : Site Uuid) :
    Int × Act Uuid → Site Uuid → Prop
  | schedule (now : Int) (act : Scheduled.Act Uuid) (after : System Uuid)
      (hact : isOthers act = false) (hstep : System.Step cron before.system (now, act) after) :
      Step cron registered before (now, .schedule act) { before with system := after }
  | work (now : Int) (act : Tasks.Pool.Act Uuid) (after : Tasks.Pool Uuid)
      (hclock : before.system.clock ≤ now)
      (hstep : Tasks.Pool.Step registered before.pool (now, act) after) :
      Step cron registered before (now, .work act) (before.worked now after)

theorem Step.system {cron : Cron} {registered : Str → Bool} {before after : Site Uuid}
    {label : Int × Act Uuid} (step : Step cron registered before label after) :
    System.Step cron before.system (label.1, label.2.seen after.system.store.queue)
      after.system := by
  cases step with
  | schedule now act after hact hstep => exact hstep
  | work now act after hclock hstep => exact ⟨hclock, _, .others now after.table, rfl⟩

-- A run, as the scheduler sees it.
def onSystem {cron : Cron} {registered : Str → Bool}
    (endless : @Endless (Site Uuid) _ (Step cron registered)) :
    @Endless (System Uuid) _ (System.Step cron) where
  state time := (endless.state time).system
  label time := ((endless.label time).1,
    (endless.label time).2.seen (endless.state (time + 1)).system.store.queue)
  next time := (endless.next time).system

end Site

end Saps.Scheduled
