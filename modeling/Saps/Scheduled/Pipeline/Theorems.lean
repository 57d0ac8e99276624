import Mathlib.Data.Fintype.EquivFin
import Saps.Scheduled.Pipeline

-- An occurrence that is due gets its function run.
namespace Saps.Scheduled

open Transition

variable {Uuid : Type} [DecidableEq Uuid]

namespace Site

omit [DecidableEq Uuid] in
-- There is always a function that nobody has posted.
theorem fresh_function (table : Tasks.QueuedTasks Uuid) :
    ∃ name : Str, Tasks.Selects (Tasks.isPending name) table none := by
  obtain ⟨name, hname⟩ := Infinite.exists_notMem_finset (table.map Tasks.Row.functionName).toFinset
  refine ⟨name, ?_⟩
  have hnone : table.filter (Tasks.isPending name) = [] := by
    refine List.filter_eq_nil_iff.mpr ?_
    intro row hrow hpending
    have hrow' : row.functionName = name := by
      simp only [Tasks.isPending, decide_eq_true_eq] at hpending
      exact hpending.1
    exact hname (List.mem_toFinset.mpr (List.mem_map.mpr ⟨row, hrow, hrow'⟩))
  simp only [Tasks.Selects, Tasks.earliest, hnone]
  rfl

theorem insert_error {task : Tasks.QueuedTask Uuid} {table : Tasks.QueuedTasks Uuid}
    {e : SqlxError} (h : (Tasks.insertBackgroundTask task table).1 = .error e) :
    (Tasks.insertBackgroundTask task table).2 = table := by
  unfold Tasks.insertBackgroundTask at h ⊢
  split at h
  · next hlong => rw [if_pos hlong]
  · next hshort =>
    rw [if_neg hshort]
    split at h
    · next htwice => rw [if_pos htwice]
    · cases h

theorem post_inserts (now : Int) (fresh : Uuid) (updated : ScheduledTask Uuid)
    (store : Store Uuid) : (postScheduledTask now fresh updated store).2.queue =
      (Tasks.insertBackgroundTask (.new (updated.taskId.getD fresh) now updated.functionName
        updated.params) store.queue).2 := by
  unfold postScheduledTask
  cases hinsert : Tasks.insertBackgroundTask (.new (updated.taskId.getD fresh) now
      updated.functionName updated.params) store.queue with
  | mk result queue =>
      cases result with
      | error e =>
          have hsame := insert_error (congrArg Prod.fst hinsert)
          rw [hinsert] at hsame
          simp only [hinsert]
          exact hsame.symm
      | ok answer => simp only [hinsert]

-- All that the scheduler does to the queue is to post tasks of the present time.
theorem system_queue {cron : Cron} {before after : System Uuid} {label : Int × Scheduled.Act Uuid}
    (step : System.Step cron before label after) (hact : isOthers label.2 = false) :
    after.store.queue = before.store.queue ∨ ∃ task : Tasks.QueuedTask Uuid,
      task.timePosted = label.1 ∧
        after.store.queue = (Tasks.insertBackgroundTask task before.store.queue).2 := by
  obtain ⟨_, left, effect, rfl⟩ := step
  cases effect with
  | claim now actor due hactor hdue => exact .inl rfl
  | claimFails now actor ran hactor => cases ran <;> exact .inl rfl
  | compute now asked fresh actor generation task due hactor hasked =>
      left
      unfold System.compute
      split <;> rfl
  | post now spare actor generation task updated due hactor =>
      exact .inr ⟨_, rfl, post_inserts now spare updated before.store⟩
  | postFails now e actor generation task updated due hactor => exact .inl rfl
  | sleep now actor generation hactor => exact .inl rfl
  | stop now actor => exact .inl rfl
  | register now functionName params cronString => exact .inl rfl
  | insert now task => exact .inl rfl
  | others now queue => cases hact
  | migrate now => exact .inl rfl

-- What a step is to the pool: its own act, or a task that the scheduler posts.
structure Shown (label : Int × Act Uuid) (shown : Int × Tasks.Pool.Act Uuid) : Prop where
  advances : shown.2.advances = label.2.advances
  loses : ∀ id, shown.2.loses id ↔ label.2.loses id
  inserts : ∀ task, shown.2 = .insert task →
    label.2 = .work (.insert task) ∨ task.timePosted = label.1

theorem step_shown {cron : Cron} {registered : Str → Bool} {before after : Site Uuid}
    {label : Int × Act Uuid} (step : Step cron registered before label after) :
    ∃ shown, Tasks.Pool.Step registered before.pool shown after.pool ∧ Shown label shown := by
  cases step with
  | schedule now act after hact hstep =>
      rcases system_queue hstep hact with hsame | ⟨task, htime, hinserts⟩
      · obtain ⟨name, hselects⟩ := fresh_function before.system.store.queue
        refine ⟨(now, .claim name none), ?_, rfl, fun _ => Iff.rfl, fun _ h => by cases h⟩
        have hpool : pool { before with system := after } = before.pool := by
          simp only [pool, hsame]
        rw [hpool]
        exact .claim now name none hselects
      · refine ⟨(now, .insert task), ?_, rfl, fun _ => Iff.rfl, ?_⟩
        · have hpool : pool { before with system := after } = before.pool.insert task := by
            simp only [pool, Tasks.Pool.insert, hinserts]
          rw [hpool]
          exact .insert now task
        · intro task' h
          obtain rfl := Tasks.Pool.Act.insert.inj h
          exact .inr htime
  | work now act after hclock hstep =>
      exact ⟨(now, act), hstep, rfl, fun _ => Iff.rfl, fun task h => .inl (congrArg Act.work h)⟩

-- A run, as the workers see it.
theorem onPool {cron : Cron} {registered : Str → Bool}
    (endless : @Endless (Site Uuid) _ (Step cron registered)) :
    ∃ work : @Endless (Tasks.Pool Uuid) _ (Tasks.Pool.Step registered),
      (∀ time, work.state time = (endless.state time).pool) ∧
        ∀ time, Shown (endless.label time) (work.label time) := by
  choose shown hstep hshown using fun time => step_shown (endless.next time)
  exact ⟨⟨fun time => (endless.state time).pool, shown, hstep⟩, fun _ => rfl, hshown⟩

-- The pipeline from a schedule to its handler. Where time passes, a scheduler and the
-- workers go on for ever and the table of schedules is not made anew, every schedule that
-- is not locked has its next occurrence put on the queue, and the task that this makes is
-- run to the end by a worker; or one of the errors that the loops log has come between,
-- while that occurrence waited to be put on the queue.
theorem occurrence_runs (cron : Cron) (hcron : cron.Strict) (registered : Str → Bool)
    (count : Nat) (hcount : 0 < count) (endless : @Endless (Site Uuid) _ (Step cron registered))
    (hsystem : (endless.state 0).system.Starts) (hpool : (endless.state 0).pool.Starts)
    (hreads : ∀ queued ∈ (endless.state 0).pool.table, queued.Readable)
    (hkeeps : ∀ time, System.Keeps ((onSystem endless).label time).2)
    (hclock : ∀ bound, ∃ time, bound ≤ (endless.state time).system.clock) (live : Nat)
    (hlive : System.Lives (onSystem endless) live)
    (hgoes : ∀ time actor due, ((onSystem endless).label time).2 = .claim actor due →
      System.Lives (onSystem endless) actor ∨
        ∃ later > time, ((onSystem endless).label later).2 = .stop actor)
    (hworkers : ∀ time worker, (endless.label time).2.advances = some worker → worker < count)
    (hfair : ∀ worker < count, ∀ time, ∃ later, time ≤ later ∧
      (endless.label later).2.advances = some worker)
    (hposted : ∀ bound, ∃ quiet, ∀ later ≥ quiet, ∀ task,
      (endless.label later).2 = .work (.insert task) → bound < task.timePosted)
    (time : Nat) (row : ScheduledTask Uuid)
    (hrow : row ∈ (endless.state time).system.store.schedules.rows) (hfree : row.locked = false)
    (moment : Int) (htime : row.timeScheduled = some moment) :
    (∃ posted ≥ time, ∃ queued, System.Queues row moment (endless.label posted).1
      (endless.state posted).system (endless.state (posted + 1)).system queued ∧
        ((∃ later > posted, Tasks.Pool.Ended registered queued (endless.state later).pool) ∨
          ∃ later > posted, (endless.label later).2.loses queued.id)) ∨
      ∃ later ≥ time, (endless.state later).system.Unposted row moment ∧
        (endless.state later).system.Drops cron row ((onSystem endless).label later) := by
  have good : ∀ now, ((onSystem endless).state now).Good cron := by
    intro now
    induction now with
    | zero => exact System.starts_good hsystem
    | succ now ih => exact System.step_good hcron ih (hkeeps now) ((onSystem endless).next now)
  rcases System.free_settled good hkeeps hclock hlive hgoes hfree htime hrow with
    ⟨posted, hafter, queued, hqueues⟩ | hdrops
  · left
    refine ⟨posted, hafter, queued, hqueues, ?_⟩
    obtain ⟨work, hstate, hshown⟩ := onPool endless
    obtain ⟨passed, hpassed⟩ := hclock (queued.timePosted + 1)
    obtain ⟨quiet, hquiet⟩ := hposted queued.timePosted
    have hwaiting : (work.state (posted + 1)).Waiting queued := by
      refine ⟨queued, ?_, hqueues.locked ▸ .refl queued⟩
      have hqueue : (endless.state (posted + 1)).system.store.queue =
          queued :: (endless.state posted).system.store.queue := hqueues.queue
      rw [hstate, pool, hqueue]
      exact List.mem_cons_self
    -- Whoever posts from now on posts later.
    have hlater : ∀ later ≥ max passed quiet, ∀ task, (work.label later).2 = .insert task →
        queued.timePosted < task.timePosted := by
      intro later hlate task hinsert
      rcases (hshown later).inserts task hinsert with hcaller | hpost
      · exact hquiet later (by omega) task hcaller
      · have hnow : (endless.state later).system.clock ≤ (endless.label later).1 :=
          (endless.next later).system.1
        have hmono : (endless.state passed).system.clock ≤ (endless.state later).system.clock :=
          @System.clock_mono _ _ _ (onSystem endless) passed later (by omega)
        omega
    have hfair' : ∀ worker < count, ∀ now, ∃ later, now ≤ later ∧
        (work.label later).2.advances = some worker := by
      intro worker hworker now
      obtain ⟨later, hle, hadvances⟩ := hfair worker hworker now
      exact ⟨later, hle, (hshown later).advances.trans hadvances⟩
    rcases Tasks.Pool.waiting_ends hcount (hstate 0 ▸ hpool) (hstate 0 ▸ hreads)
      (fun now worker h => hworkers now worker ((hshown now).advances ▸ h)) hfair' hlater
      hwaiting with ⟨later, hlate, hended⟩ | ⟨later, hlate, hloses⟩
    · exact .inl ⟨later, by omega, hstate later ▸ hended⟩
    · exact .inr ⟨later, by omega, ((hshown later).loses queued.id).mp hloses⟩
  · exact .inr hdrops

-- One schedule with one occurrence, which is run; after that the loops go round idle.
def once : Cron :=
  fun _ => .ok fun _ => none

def onceRow : ScheduledTask Nat :=
  ⟨1, "add".toList, .null, none, some 0, none, "0 0 0 1 1 * 2030".toList, false⟩

def onceUpdated : ScheduledTask Nat :=
  { lock onceRow with taskId := some 7, timeScheduled := none, timeCompleted := some 0 }

def onceQueued : Tasks.Row Nat :=
  ⟨7, "add".toList, .null, Tasks.TaskStatus.pending.toStr, 0, none, none, false⟩

def onceTask : Tasks.QueuedTask Nat :=
  ⟨7, "add".toList, .null, .pending, 0, none, none, true⟩

-- The rounds of the loops when there is nothing to do.
def idleNext (now : Int) : Nat → Site Nat → Site Nat
  | 0, site => { site with system := { site.system.claim now 0 [] with clock := now } }
  | 1, site => { site with system := { site.system.enter 0 .sleeping with clock := now } }
  | _, site => site.worked now (site.pool.poll 0 none)

def idleLabel (now : Int) : Nat → Int × Act Nat
  | 0 => (now, .schedule (.claim 0 []))
  | 1 => (now, .schedule (.sleep 0))
  | _ => (now, .work (.poll 0 none))

def onceNext : Nat → Site Nat → Site Nat
  | 0, site => { site with system := site.system.claim 0 0 [lock onceRow] }
  | 1, site => { site with system := site.system.compute once 0 0 7 0 0 (lock onceRow) [] }
  | 2, site => { site with system := site.system.post 0 8 0 0 (lock onceRow) onceUpdated [] }
  | 3, site => site.worked 0 (site.pool.poll 0 (some onceQueued))
  | 4, site => site.worked 0 (site.pool.lookUp (fun _ => true) 0 onceTask)
  | 5, site => site.worked 0 (site.pool.enter 0 (.finished onceTask .panicked))
  | 6, site => site.worked 0 (site.pool.record 0 0 onceTask .panicked)
  | 7, site => { site with system := site.system.enter 0 .sleeping }
  | time + 8, site => idleNext (time + 1) (time % 3) site

def onceLabel : Nat → Int × Act Nat
  | 0 => (0, .schedule (.claim 0 [lock onceRow]))
  | 1 => (0, .schedule (.compute 0 0 7))
  | 2 => (0, .schedule (.post 0 8))
  | 3 => (0, .work (.poll 0 (some onceQueued)))
  | 4 => (0, .work (.lookUp 0))
  | 5 => (0, .work (.finish 0 .panicked))
  | 6 => (0, .work (.record 0))
  | 7 => (0, .schedule (.sleep 0))
  | time + 8 => idleLabel (time + 1) (time % 3)

def onceState : Nat → Site Nat
  | 0 => ⟨⟨0, ⟨[], ⟨[onceRow], 2⟩⟩, 0, fun _ => .sleeping, []⟩, fun _ => .polling, []⟩
  | time + 1 => onceNext time (onceState time)

-- Both tables when all is done, and where the loops are.
structure OnceIdle (time : Nat) (site : Site Nat) : Prop where
  queue : site.system.store.queue = [{ onceQueued with
    locked := true, status := Tasks.TaskStatus.exited.toStr, timeFinished := some 0 }]
  schedules : site.system.store.schedules.rows = [{ onceUpdated with locked := false }]
  clock : site.system.clock = time
  generation : site.system.generation = 0
  scheduler : site.system.instances 0 = if time % 3 = 1 then .posting 0 [] else .sleeping
  worker : site.workers 0 = .polling

theorem onceQueued_read :
    Tasks.QueuedTask.fromRow { onceQueued with locked := true } = .ok onceTask := by
  simp only [Tasks.QueuedTask.fromRow, onceQueued, Tasks.TaskStatus.tryFrom_toStr]
  rfl

theorem once_queue : (onceState 3).system.store.queue = [onceQueued] := by
  decide +kernel

theorem once_polled : (onceState 4).pool = ⟨[{ onceQueued with locked := true }],
    Function.update (fun _ => .polling) 0 (.taken onceTask), [.gotNext 7]⟩ := by
  have hids : (([onceQueued] : Tasks.QueuedTasks Nat).map Tasks.Row.id).Nodup := by simp
  have hanswer : (Tasks.getNextBackgroundTask (some onceQueued) [onceQueued]).1 =
      .ok (some onceTask) := by
    simp only [Tasks.getNextBackgroundTask, Tasks.getNextTask,
      Tasks.updateChosen_some hids List.mem_cons_self, onceQueued_read]
    rfl
  have hpool : (onceState 3).pool = ⟨[onceQueued], fun _ => .polling, []⟩ := by
    simp only [pool, once_queue]
    rfl
  have hnext : (onceState 4).pool = (onceState 3).pool.poll 0 (some onceQueued) := rfl
  rw [hnext, hpool]
  simp only [Tasks.Pool.poll, hanswer]
  rfl

-- The rows of the schedules are never due again.
theorem once_claims {schedules : Schedules Nat}
    (h : schedules.rows = [{ onceUpdated with locked := false }]) (now : Int) :
    claimDueScheduledTasks now schedules = ([], schedules) := by
  obtain ⟨rows, sequence⟩ := schedules
  obtain rfl := h
  rfl

theorem once_idle (time : Nat) : OnceIdle time (onceState (time + 8)) := by
  induction time with
  | zero =>
      have hpool : (onceState 8).pool =
          (((onceState 4).pool.lookUp (fun _ => true) 0 onceTask).enter 0
            (.finished onceTask .panicked)).record 0 0 onceTask .panicked := rfl
      rw [once_polled] at hpool
      refine ⟨congrArg Tasks.Pool.table hpool, ?_, rfl, rfl, rfl, ?_⟩
      · decide +kernel
      · exact congrFun (congrArg Tasks.Pool.workers hpool) 0
  | succ time ih =>
      have hnext : onceState (time + 1 + 8) =
        idleNext (time + 1) (time % 3) (onceState (time + 8)) := rfl
      have hscheduler := ih.scheduler
      rcases (by omega : time % 3 = 0 ∨ time % 3 = 1 ∨ time % 3 = 2) with h | h | h
      · rw [hnext, h]
        refine ⟨ih.queue, ?_, rfl, ih.generation, ?_, ih.worker⟩
        · change (claimDueScheduledTasks _ _).2.rows = _
          rw [once_claims ih.schedules]
          exact ih.schedules
        · have hself : (idleNext (time + 1) 0 (onceState (time + 8))).system.instances 0 =
              .posting (onceState (time + 8)).system.generation [] :=
            System.enter_self ((onceState (time + 8)).system.lockDue (time + 1)) 0 _
          rw [if_pos (by omega), hself, ih.generation]
      · rw [hnext, h]
        refine ⟨ih.queue, ih.schedules, rfl, ih.generation, ?_, ih.worker⟩
        rw [if_neg (by omega)]
        exact System.enter_self (onceState (time + 8)).system 0 .sleeping
      · rw [hnext, h]
        refine ⟨ih.queue, ih.schedules, rfl, ih.generation, ?_, ih.worker⟩
        rw [if_neg (by omega)] at hscheduler ⊢
        exact hscheduler

theorem idle_next {time : Nat} {site : Site Nat} (idle : OnceIdle time site) :
    Step once (fun _ => true) site (idleLabel (time + 1) (time % 3))
      (idleNext (time + 1) (time % 3) site) := by
  have hclock : site.system.clock ≤ (time : Int) + 1 := by
    rw [idle.clock]
    omega
  have hscheduler := idle.scheduler
  rcases (by omega : time % 3 = 0 ∨ time % 3 = 1 ∨ time % 3 = 2) with h | h | h
  · rw [h] at hscheduler ⊢
    refine .schedule _ _ _ rfl ⟨hclock, _, .claim _ 0 [] hscheduler ?_, rfl⟩
    rw [once_claims idle.schedules]
  · rw [h] at hscheduler ⊢
    exact .schedule _ _ _ rfl ⟨hclock, _, .sleep _ 0 0 hscheduler, rfl⟩
  · rw [h]
    refine .work _ _ _ hclock (.poll _ 0 none idle.worker ?_)
    change Tasks.earliest Tasks.isUnlocked site.system.store.queue = []
    rw [idle.queue]
    rfl

theorem once_next : ∀ time,
    Step once (fun _ => true) (onceState time) (onceLabel time) (onceState (time + 1))
  | 0 => .schedule _ _ _ rfl ⟨le_rfl, _, .claim 0 0 [lock onceRow] rfl (.refl _), rfl⟩
  | 1 => .schedule _ _ _ rfl
      ⟨le_rfl, _, .compute 0 0 7 0 0 (lock onceRow) [] rfl ⟨le_rfl, le_rfl⟩, rfl⟩
  | 2 => .schedule _ _ _ rfl ⟨le_rfl, _, .post 0 8 0 0 (lock onceRow) onceUpdated [] rfl, rfl⟩
  | 3 => .work _ _ _ le_rfl (.poll 0 0 (some onceQueued) rfl (by
      change onceQueued ∈ Tasks.earliest Tasks.isUnlocked (onceState 3).system.store.queue
      rw [once_queue]
      exact List.mem_singleton.mpr rfl))
  | 4 => .work _ _ _ le_rfl (.lookUp 0 0 onceTask (by rw [once_polled]; rfl))
  | 5 => .work _ _ _ le_rfl (.finish 0 0 onceTask .panicked rfl)
  | 6 => .work _ _ _ le_rfl (.record 0 0 onceTask .panicked rfl)
  | 7 => .schedule _ _ _ rfl ⟨le_rfl, _, .sleep 0 0 0 rfl, rfl⟩
  | time + 8 => idle_next (once_idle time)

def onceRun : @Endless (Site Nat) _ (Step once fun _ => true) :=
  ⟨onceState, onceLabel, once_next⟩

theorem once_round (time : Nat) : (onceLabel (3 * time + 8)).2 = .schedule (.claim 0 []) ∧
    (onceLabel (3 * time + 10)).2 = .work (.poll 0 none) := by
  have hlabel : ∀ time, onceLabel (time + 8) = idleLabel (time + 1) (time % 3) := fun _ => rfl
  have hclaim : 3 * time % 3 = 0 := by omega
  have hpoll : (3 * time + 2) % 3 = 2 := by omega
  have hten : 3 * time + 10 = 3 * time + 2 + 8 := rfl
  rw [hten, hlabel, hlabel, hclaim, hpoll]
  exact ⟨rfl, rfl⟩

-- Whose steps they are.
structure Alone (act : Act Nat) : Prop where
  worker : ∀ worker, act.advances = some worker → worker = 0
  poster : ∀ task, act ≠ .work (.insert task)
  keeps : ∀ queue, System.Keeps (act.seen queue)
  claims : ∀ queue actor due, act.seen queue = .claim actor due → actor = 0

theorem schedule_alone {act : Scheduled.Act Nat} (hkeeps : System.Keeps act)
    (hclaims : ∀ actor due, act = .claim actor due → actor = 0) : Alone (.schedule act) := by
  refine ⟨?_, ?_, fun _ => hkeeps, fun _ => hclaims⟩
  · intro worker h
    cases h
  · intro task h
    cases h

theorem work_alone {act : Tasks.Pool.Act Nat} (h : act.advances = some 0) : Alone (.work act) := by
  refine ⟨?_, ?_, fun _ => trivial, ?_⟩
  · intro worker hworker
    exact (Option.some.inj (h.symm.trans hworker)).symm
  · intro task hinsert
    rw [Act.work.inj hinsert] at h
    cases h
  · intro queue actor due hclaim
    cases hclaim

theorem idle_alone (now : Int) : ∀ round, Alone (idleLabel now round).2
  | 0 => schedule_alone trivial fun _ _ h => (Scheduled.Act.claim.inj h).1.symm
  | 1 => schedule_alone trivial fun _ _ h => by cases h
  | _ + 2 => work_alone rfl

theorem once_alone : ∀ time, Alone (onceLabel time).2
  | 0 => schedule_alone trivial fun _ _ h => (Scheduled.Act.claim.inj h).1.symm
  | 1 => schedule_alone trivial fun _ _ h => by cases h
  | 2 => schedule_alone trivial fun _ _ h => by cases h
  | 3 => work_alone rfl
  | 4 => work_alone rfl
  | 5 => work_alone rfl
  | 6 => work_alone rfl
  | 7 => schedule_alone trivial fun _ _ h => by cases h
  | time + 8 => idle_alone (time + 1) (time % 3)

theorem occurrence_runs_once :
    (∃ posted ≥ 0, ∃ queued, System.Queues onceRow 0 (onceRun.label posted).1
      (onceRun.state posted).system (onceRun.state (posted + 1)).system queued ∧
        ((∃ later > posted, Tasks.Pool.Ended (fun _ => true) queued (onceRun.state later).pool) ∨
          ∃ later > posted, (onceRun.label later).2.loses queued.id)) ∨
      ∃ later ≥ 0, (onceRun.state later).system.Unposted onceRow 0 ∧
        (onceRun.state later).system.Drops once onceRow ((onSystem onceRun).label later) := by
  have hlives : System.Lives (onSystem onceRun) 0 := by
    intro time
    refine ⟨3 * time + 8, by omega, ?_⟩
    change ((onceLabel (3 * time + 8)).2.seen _).advances = _
    rw [(once_round time).1]
    rfl
  refine occurrence_runs once ?_ (fun _ => true) 1 Nat.one_pos onceRun ?_ ?_ ?_ ?_ ?_ 0 hlives ?_
    ?_ ?_ ?_ 0 onceRow (List.mem_singleton.mpr rfl) rfl 0 rfl
  · intro expression upcoming asked next hparse hnext
    obtain rfl := Except.ok.inj hparse
    cases hnext
  · exact ⟨List.nodup_singleton _, fun _ => rfl, rfl⟩
  · exact ⟨List.nodup_nil, fun _ => rfl, rfl⟩
  · intro queued hqueued
    cases hqueued
  · exact fun time => (once_alone time).keeps _
  · intro bound
    refine ⟨bound.toNat + 8, ?_⟩
    change bound ≤ (onceState (bound.toNat + 8)).system.clock
    rw [(once_idle bound.toNat).clock]
    omega
  · intro time actor due hclaim
    obtain rfl := (once_alone time).claims _ actor due hclaim
    exact .inl hlives
  · intro time worker hworker
    have hzero := (once_alone time).worker worker hworker
    omega
  · intro worker hworker time
    obtain rfl : worker = 0 := by omega
    refine ⟨3 * time + 10, by omega, ?_⟩
    change (onceLabel (3 * time + 10)).2.advances = _
    rw [(once_round time).2]
    rfl
  · exact fun bound => ⟨0, fun later _ task hinsert => absurd hinsert ((once_alone later).poster task)⟩

end Site

end Saps.Scheduled
