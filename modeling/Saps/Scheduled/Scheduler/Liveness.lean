import Saps.Scheduled.Scheduler.Theorems
import Saps.Lib.Fair

-- What each step does to a schedule that waits for its occurrence.
namespace Saps.Scheduled

open Transition

variable {Uuid : Type}

-- How far an instance is from its next claim.
def Phase.rank : Phase Uuid → Nat
  | sleeping => 0
  | posting _ due => 2 * due.length + 1
  | computed _ _ _ due => 2 * due.length + 2
  | stopped => 0

-- The instance that a step takes on. A claim that the database does not answer is none.
def Act.advances : Act Uuid → Option Nat
  | .claim actor _ => some actor
  | .compute actor _ _ => some actor
  | .post actor _ => some actor
  | .postFails actor _ => some actor
  | .sleep actor => some actor
  | _ => none

namespace System

-- An instance lets go of a row that it has claimed, or claims it and is never told.
def Drops (cron : Cron) (row : ScheduledTask Uuid) (system : System Uuid) :
    Int × Act Uuid → Prop
  | (now, .claimFails _ ran) => ran = true ∧ row ∈ system.store.schedules.rows ∧
    isDue now row = true
  | (_, .stop actor) => lock row ∈ (system.instances actor).held
  | (_, .compute actor _ _) => ∃ generation due,
    system.instances actor = .posting generation (lock row :: due) ∧
      ∃ e, cron row.cronString = .error e
  | (_, .post actor spare) => ∃ generation updated due,
    system.instances actor = .computed generation (lock row) updated due ∧
      Refused system.store.queue (updated.taskId.getD spare) updated
  | (_, .postFails actor _) => ∃ generation updated due,
    system.instances actor = .computed generation (lock row) updated due
  | _ => False

-- An occurrence that has not been put on the queue.
def Unposted (row : ScheduledTask Uuid) (time : Int) (system : System Uuid) : Prop :=
  (row.id, some time) ∉ system.log.filterMap Post.occurrence

-- One of the instances has a row.
def Holds (actor : Nat) (row : ScheduledTask Uuid) (system : System Uuid) : Prop :=
  lock row ∈ (system.instances actor).held

-- The occurrence is put on the queue, as a new task of the function.
structure Queues (row : ScheduledTask Uuid) (time now : Int) (before after : System Uuid)
    (queued : Tasks.Row Uuid) : Prop where
  queue : after.store.queue = queued :: before.store.queue
  functionName : queued.functionName = row.functionName
  params : queued.params = row.params
  status : queued.status = Tasks.TaskStatus.pending.toStr
  timePosted : queued.timePosted = now
  locked : queued.locked = false
  logged : (row.id, some time) ∈ after.log.filterMap Post.occurrence

theorem drops_failed {cron : Cron} {system : System Uuid} {label : Int × Act Uuid} {actor : Nat}
    (hlabel : label.2 = .claimFails actor true) {row : ScheduledTask Uuid}
    (hrow : row ∈ system.store.schedules.rows) (hisDue : isDue label.1 row = true) :
    system.Drops cron row label := by
  obtain ⟨now, act⟩ := label
  obtain rfl := hlabel
  exact ⟨rfl, hrow, hisDue⟩

theorem drops_stopped {cron : Cron} {system : System Uuid} {label : Int × Act Uuid} {actor : Nat}
    (hlabel : label.2 = .stop actor) {row : ScheduledTask Uuid} (h : system.Holds actor row) :
    system.Drops cron row label := by
  obtain ⟨now, act⟩ := label
  obtain rfl := hlabel
  exact h

-- A row in the table, or with an instance, has not been posted for its time.
theorem unposted_of_row {cron : Cron} {system : System Uuid} (good : system.Good cron)
    {row left : ScheduledTask Uuid} (hleft : left ∈ system.store.schedules.rows)
    (hid : left.id = row.id) {time : Int} (htime : left.timeScheduled = some time) :
    system.Unposted row time := by
  intro hposted
  obtain ⟨other, hother, hsame, hnext⟩ := good.passed row.id time hposted
  obtain rfl := List.inj_on_of_nodup_map good.ids hother hleft (hsame.trans hid.symm)
  exact lt_irrefl _ (hnext time htime)

-- What is dropped is an occurrence that has not been put on the queue.
theorem drops_unposted {cron : Cron} {system : System Uuid} (good : system.Good cron)
    {label : Int × Act Uuid} {row : ScheduledTask Uuid} {time : Int}
    (htime : row.timeScheduled = some time) (h : system.Drops cron row label) :
    system.Unposted row time := by
  have hholds (actor : Nat) (hheld : lock row ∈ (system.instances actor).held) :
      system.Unposted row time :=
    unposted_of_row good (good.held actor (lock row) hheld).mem rfl htime
  obtain ⟨now, act⟩ := label
  cases act with
  | claimFails actor ran => exact unposted_of_row good h.2.1 rfl htime
  | stop actor => exact hholds actor h
  | compute actor asked fresh =>
      obtain ⟨generation, due, hactor, _⟩ := h
      exact hholds actor (by rw [hactor]; exact List.mem_cons_self)
  | post actor spare =>
      obtain ⟨generation, updated, due, hactor, _⟩ := h
      exact hholds actor (by rw [hactor]; exact List.mem_cons_self)
  | postFails actor e =>
      obtain ⟨generation, updated, due, hactor⟩ := h
      exact hholds actor (by rw [hactor]; exact List.mem_cons_self)
  | claim | sleep | register | insert | others | migrate => exact absurd h id

variable [DecidableEq Uuid]

theorem claim_holds {cron : Cron} {before after : System Uuid} {label : Int × Act Uuid}
    (step : Step cron before label after) {actor : Nat} {due : List (ScheduledTask Uuid)}
    (hlabel : label.2 = .claim actor due) {row : ScheduledTask Uuid}
    (hrow : row ∈ before.store.schedules.rows) (hisDue : isDue label.1 row = true) :
    after.Holds actor row := by
  obtain ⟨_, left, effect, rfl⟩ := step
  cases effect with
  | claim now other due' hactor hdue =>
      obtain ⟨rfl, rfl⟩ := Act.claim.inj hlabel
      have hself : ((before.claim now other due').instances other).held = due' := by
        simp only [claim, enter_self, Phase.held]
      change lock row ∈ ((before.claim now other due').instances other).held
      rw [hself]
      exact hdue.mem_iff.mpr (List.mem_map_of_mem (List.mem_filter.mpr ⟨hrow, hisDue⟩))
  | claimFails | compute | post | postFails | sleep | stop | register | insert | others | migrate =>
      cases hlabel

-- What a post leaves, where the queue takes the task.
theorem post_queued {updated : ScheduledTask Uuid} {store : Store Uuid} {fresh : Uuid}
    (h : ¬Refused store.queue (updated.taskId.getD fresh) updated) (now : Int) :
    (postScheduledTask now fresh updated store).2 =
      ⟨⟨updated.taskId.getD fresh, updated.functionName, updated.params,
        Tasks.TaskStatus.pending.toStr, now, none, none, false⟩ :: store.queue,
        { store.schedules with
          rows := Table.update ScheduledTask.id updated.id
            (advance updated (updated.taskId.getD fresh)) store.schedules.rows }⟩ := by
  obtain ⟨hname, hid⟩ := not_or.mp h
  have hinsert : Tasks.insertBackgroundTask (.new (updated.taskId.getD fresh) now
      updated.functionName updated.params) store.queue =
      (.ok true, ⟨updated.taskId.getD fresh, updated.functionName, updated.params,
        Tasks.TaskStatus.pending.toStr, now, none, none, false⟩ :: store.queue) :=
    (if_neg hname).trans (if_neg hid)
  simp only [postScheduledTask, hinsert]

theorem post_result {updated : ScheduledTask Uuid} {store : Store Uuid} {fresh : Uuid}
    (h : ¬Refused store.queue (updated.taskId.getD fresh) updated) (now : Int) :
    ∃ answer, (postScheduledTask now fresh updated store).1 = .ok answer := by
  obtain ⟨queued, _, _, hpost⟩ := post_accepted h now
  exact ⟨_, congrArg Prod.fst hpost⟩

-- A row that is free stays what it is till it is claimed.
theorem step_free {cron : Cron} {before after : System Uuid} {label : Int × Act Uuid}
    (good : before.Good cron) (hkeeps : Keeps label.2) (step : Step cron before label after)
    {row : ScheduledTask Uuid} (hrow : row ∈ before.store.schedules.rows)
    (hfree : row.locked = false) :
    row ∈ after.store.schedules.rows ∨ (∃ actor due, label.2 = .claim actor due ∧
      after.Holds actor row) ∨
        (isDue label.1 row = true ∧ ∃ actor, label.2 = .claimFails actor true) := by
  have hholds : ∀ actor due, label.2 = .claim actor due → isDue label.1 row = true →
      after.Holds actor row := fun _ _ hlabel => claim_holds step hlabel hrow
  obtain ⟨hclock, left, effect, rfl⟩ := step
  have hlocked : ∀ now, isDue now row = false →
      row ∈ (claimDueScheduledTasks now before.store.schedules).2.rows := by
    intro now hnot
    refine List.mem_map.mpr ⟨row, hrow, if_neg ?_⟩
    simp [hnot]
  cases effect with
  | claim now actor due hactor hdue =>
      cases hisDue : isDue now row with
      | false => exact .inl (hlocked now hisDue)
      | true => exact .inr (.inl ⟨actor, due, rfl, hholds actor due rfl hisDue⟩)
  | claimFails now actor ran hactor =>
      cases ran with
      | false => exact .inl hrow
      | true =>
          cases hisDue : isDue now row with
          | false => exact .inl (hlocked now hisDue)
          | true => exact .inr (.inr ⟨rfl, actor, rfl⟩)
  | compute now asked fresh actor generation task due hactor hasked =>
      left
      unfold System.compute
      split <;> exact hrow
  | post now spare actor generation task updated due hactor =>
      left
      have hheld : task ∈ (before.instances actor).held := by
        rw [hactor]
        exact List.mem_cons_self
      have claimed := good.held actor task hheld
      have hready : Updated cron task updated := by simpa [hactor, Phase.Ready] using good.ready actor
      -- The row of the post is locked.
      have hother : row.id ≠ updated.id := by
        rw [hready.id]
        intro hid
        obtain rfl := List.inj_on_of_nodup_map good.ids hrow claimed.mem hid
        rw [claimed.locked] at hfree
        cases hfree
      unfold System.post
      by_cases hrefused : Refused before.store.queue (updated.taskId.getD spare) updated
      · obtain ⟨e, h⟩ := post_refused hrefused now
        rw [h]
        exact hrow
      · obtain ⟨queued, _, _, h⟩ := post_accepted hrefused now
        rw [h]
        exact Table.mem_update.mpr (.inr ⟨hrow, hother⟩)
  | postFails now e actor generation task updated due hactor => exact .inl hrow
  | sleep now actor generation hactor => exact .inl hrow
  | stop now actor => exact .inl hrow
  | register now functionName params cronString =>
      left
      change row ∈ (registerScheduledTask cron now functionName params cronString
        before.store.schedules).2.rows
      unfold registerScheduledTask
      split
      · exact hrow
      · exact mem_insertScheduledTask _ hrow
  | insert now task => exact .inl (mem_insertScheduledTask task hrow)
  | others now queue => exact .inl hrow
  | migrate now => exact absurd hkeeps id

theorem post_instances (now : Int) (spare : Uuid) (actor generation : Nat)
    (task updated : ScheduledTask Uuid) (due : List (ScheduledTask Uuid)) (system : System Uuid) :
    (system.post now spare actor generation task updated due).instances =
      Function.update system.instances actor (.posting generation due) :=
  rfl

-- Only its own steps, and being stopped, move an instance.
theorem step_other {cron : Cron} {before after : System Uuid} {label : Int × Act Uuid}
    (step : Step cron before label after) {actor : Nat} (h : label.2.advances ≠ some actor)
    (hstop : label.2 ≠ .stop actor) : after.instances actor = before.instances actor := by
  obtain ⟨_, left, effect, rfl⟩ := step
  have hne : ∀ other, label.2.advances = some other → actor ≠ other := by
    intro other hother hsame
    exact h (hsame ▸ hother)
  cases effect with
  | claim now other due hactor hdue => exact enter_other _ (hne other rfl) _
  | claimFails now other ran hactor => cases ran <;> rfl
  | compute now asked fresh other generation task due hactor hasked =>
      unfold System.compute
      split
      · exact enter_other before (hne other rfl) _
      · exact enter_other before (hne other rfl) _
  | post now spare other generation task updated due hactor =>
      exact Function.update_of_ne (hne other rfl) _ _
  | postFails now e other generation task updated due hactor =>
      exact enter_other before (hne other rfl) _
  | sleep now other generation hactor => exact enter_other before (hne other rfl) _
  | stop now other =>
      refine enter_other before ?_ _
      rintro rfl
      exact hstop rfl
  | register now functionName params cronString => rfl
  | insert now task => rfl
  | others now queue => rfl
  | migrate now => rfl

theorem step_stopped {cron : Cron} {before after : System Uuid} {label : Int × Act Uuid}
    (step : Step cron before label after) {actor : Nat} (h : label.2 = .stop actor) :
    after.instances actor = .stopped := by
  obtain ⟨_, left, effect, rfl⟩ := step
  cases effect with
  | stop now other =>
      obtain rfl := Act.stop.inj h
      exact enter_self before other _
  | claim | claimFails | compute | post | postFails | sleep | register | insert | others | migrate =>
      cases h

-- A step of its own is a claim, or it brings the instance nearer to the next one.
theorem step_advances {cron : Cron} {before after : System Uuid} {label : Int × Act Uuid}
    (step : Step cron before label after) {actor : Nat} (h : label.2.advances = some actor) :
    (∃ due, label.2 = .claim actor due ∧ before.instances actor = .sleeping) ∨
      (after.instances actor).rank < (before.instances actor).rank := by
  obtain ⟨_, left, effect, rfl⟩ := step
  cases effect with
  | claim now other due hactor hdue =>
      obtain rfl := Option.some.inj h
      exact .inl ⟨due, rfl, hactor⟩
  | claimFails now other ran hactor => cases h
  | compute now asked fresh other generation task due hactor hasked =>
      obtain rfl := Option.some.inj h
      right
      unfold System.compute
      split
      · simp only [enter_self, hactor, Phase.rank, List.length_cons]
        omega
      · simp only [enter_self, hactor, Phase.rank, List.length_cons]
        omega
  | post now spare other generation task updated due hactor =>
      obtain rfl := Option.some.inj h
      right
      simp only [post_instances, Function.update_self, hactor, Phase.rank]
      omega
  | postFails now e other generation task updated due hactor =>
      obtain rfl := Option.some.inj h
      right
      have hself : (before.posted other generation task due (.error e) before.store).instances
          other = .posting generation due := enter_self before other _
      simp only [hself, hactor, Phase.rank]
      omega
  | sleep now other generation hactor =>
      obtain rfl := Option.some.inj h
      right
      simp only [enter_self, hactor, Phase.rank]
      omega
  | stop now other => cases h
  | register now functionName params cronString => cases h
  | insert now task => cases h
  | others now queue => cases h
  | migrate now => cases h

-- An instance that has a row goes on to post it, or an error makes it go on to the next.
theorem step_holds {cron : Cron} {before after : System Uuid} {label : Int × Act Uuid}
    (good : before.Good cron) (step : Step cron before label after) {row : ScheduledTask Uuid}
    {moment : Int} (htime : row.timeScheduled = some moment) {actor : Nat}
    (h : before.Holds actor row) : before.Drops cron row label ∨
      (∃ queued, Queues row moment label.1 before after queued) ∨ after.Holds actor row := by
  by_cases hstop : label.2 = .stop actor
  · exact .inl (drops_stopped hstop h)
  · by_cases hadvances : label.2.advances = some actor
    · obtain ⟨_, left, effect, rfl⟩ := step
      unfold Holds at h
      cases effect with
      | claim now other due hactor hdue =>
          obtain rfl := Option.some.inj hadvances
          rw [hactor] at h
          cases h
      | claimFails now other ran hactor => cases hadvances
      | compute now asked fresh other generation task due hactor hasked =>
          obtain rfl := Option.some.inj hadvances
          rw [hactor] at h
          unfold System.compute Holds
          cases hparse : cron task.cronString with
          | error e =>
              rcases List.mem_cons.mp h with rfl | hrest
              · exact .inl ⟨generation, due, hactor, e, hparse⟩
              · refine .inr (.inr ?_)
                simp only [enter_self]
                exact hrest
          | ok upcoming =>
              refine .inr (.inr ?_)
              simp only [enter_self]
              exact h
      | post now spare other generation task updated due hactor =>
          obtain rfl := Option.some.inj hadvances
          rw [hactor] at h
          rcases List.mem_cons.mp h with rfl | hrest
          · by_cases hrefused : Refused before.store.queue (updated.taskId.getD spare) updated
            · exact .inl ⟨generation, updated, due, hactor, hrefused⟩
            · have hready : Updated cron (lock row) updated := by
                simpa [hactor, Phase.Ready] using good.ready other
              refine .inr (.inl ⟨_, congrArg Store.queue (post_queued hrefused now),
                hready.functionName, hready.params, rfl, rfl, rfl, ?_⟩)
              obtain ⟨answer, hanswer⟩ := post_result hrefused now
              simp only [System.post, hanswer, posted, List.filterMap_cons, Post.occurrence, lock,
                htime]
              exact List.mem_cons_self
          · refine .inr (.inr ?_)
            simp only [Holds, post_instances, Function.update_self]
            exact hrest
      | postFails now e other generation task updated due hactor =>
          obtain rfl := Option.some.inj hadvances
          rw [hactor] at h
          rcases List.mem_cons.mp h with rfl | hrest
          · exact .inl ⟨generation, updated, due, hactor⟩
          · refine .inr (.inr ?_)
            have hself : (before.posted other generation task due (.error e) before.store).instances
                other = .posting generation due := enter_self before other _
            simp only [Holds, hself]
            exact hrest
      | sleep now other generation hactor =>
          obtain rfl := Option.some.inj hadvances
          rw [hactor] at h
          cases h
      | stop now other => cases hadvances
      | register now functionName params cronString => cases hadvances
      | insert now task => cases hadvances
      | others now queue => cases hadvances
      | migrate now => cases hadvances
    · refine .inr (.inr ?_)
      unfold Holds
      rw [step_other step hadvances hstop]
      exact h

theorem step_holds_rank {cron : Cron} {before after : System Uuid} {label : Int × Act Uuid}
    (step : Step cron before label after) {actor : Nat}
    (hbusy : before.instances actor ≠ .sleeping) (hstop : label.2 ≠ .stop actor) :
    (label.2.advances = some actor →
      (after.instances actor).rank < (before.instances actor).rank) ∧
      (label.2.advances ≠ some actor →
        (after.instances actor).rank ≤ (before.instances actor).rank) := by
  constructor
  · intro hadvances
    rcases step_advances step hadvances with ⟨_, _, hsleeping⟩ | hlower
    · exact absurd hsleeping hbusy
    · exact hlower
  · intro hother
    rw [step_other step hother hstop]

end System

end Saps.Scheduled
