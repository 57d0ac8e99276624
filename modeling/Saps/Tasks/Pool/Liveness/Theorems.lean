import Saps.Tasks.Pool.Liveness

-- Nobody waits in the queue for ever.
namespace Saps.Tasks

open Transition

namespace Pool

variable {Uuid : Type} [DecidableEq Uuid]

section

variable {registered : Str → Bool} (endless : @Endless (Pool Uuid) _ (Step registered))

-- The last step took the row out of the queue.
def TakenBy (row : Row Uuid) (moment : Nat) : Prop :=
  ∃ last, moment = last + 1 ∧ (endless.state last).Waiting row ∧
    (endless.label last).2.locks = some row.id

variable {endless}

-- The queue before a row gets shorter, whichever worker goes on, till the row is taken out.
theorem waiting_taken (good : ∀ time, (endless.state time).Good) {row : Row Uuid} {worker : Nat}
    (hfair : ∀ time, ∃ later, time ≤ later ∧ (endless.label later).2.advances = some worker)
    {quiet : Nat} (hquiet : ∀ later ≥ quiet, ∀ task, (endless.label later).2 = .insert task →
      row.timePosted < task.timePosted)
    {time : Nat} (h : (endless.state time).Waiting row) :
    ∃ moment > time, TakenBy endless row moment := by
  have hstay : ∀ moment, (endless.state moment).Waiting row →
      TakenBy endless row (moment + 1) ∨ (endless.state (moment + 1)).Waiting row := by
    intro moment hwaiting
    by_cases hlocks : (endless.label moment).2.locks = some row.id
    · exact .inl ⟨moment, rfl, hwaiting, hlocks⟩
    · exact .inr (step_waiting (good moment) (endless.next moment) hwaiting hlocks)
  have hfalls : ∀ moment, (quiet ≤ moment ∧ (endless.state moment).Waiting row) →
      TakenBy endless row (moment + 1) ∨
        ((quiet ≤ moment + 1 ∧ (endless.state (moment + 1)).Waiting row) ∧
          queueRank worker row.timePosted (endless.state (moment + 1)) ≤
            queueRank worker row.timePosted (endless.state moment)) := by
    rintro moment ⟨hafter, hwaiting⟩
    obtain ⟨hown, hother⟩ := step_queue (good moment) (endless.next moment) hwaiting
      (hquiet moment hafter) worker
    rcases hstay moment hwaiting with htaken | hstill
    · exact .inl htaken
    · refine .inr ⟨⟨by omega, hstill⟩, ?_⟩
      by_cases hadvances : (endless.label moment).2.advances = some worker
      · exact (hown hadvances).le
      · exact hother hadvances
  have hhelps : ∀ moment, (quiet ≤ moment ∧ (endless.state moment).Waiting row) →
      ∃ later, moment ≤ later ∧ ((quiet ≤ later ∧ (endless.state later).Waiting row) →
        TakenBy endless row (later + 1) ∨
          queueRank worker row.timePosted (endless.state (later + 1)) <
            queueRank worker row.timePosted (endless.state later)) := by
    intro moment _
    obtain ⟨later, hle, hadvances⟩ := hfair moment
    refine ⟨later, hle, ?_⟩
    rintro ⟨hafter, hwaiting⟩
    exact .inr ((step_queue (good later) (endless.next later) hwaiting (hquiet later hafter)
      worker).1 hadvances)
  rcases waits_till hstay (Nat.le_max_left time quiet) h with
    ⟨moment, hafter, _, htaken⟩ | hwaiting
  · exact ⟨moment, hafter, htaken⟩
  · obtain ⟨moment, hafter, htaken⟩ := served_eventually
      (fun moment => quiet ≤ moment ∧ (endless.state moment).Waiting row) (TakenBy endless row)
      (fun moment => queueRank worker row.timePosted (endless.state moment)) hfalls hhelps
      ⟨Nat.le_max_right time quiet, hwaiting⟩
    exact ⟨moment, by omega, htaken⟩

-- A worker that is at a task gets to its end.
theorem serving_ends {row : Row Uuid} {worker : Nat}
    (hfair : ∀ time, ∃ later, time ≤ later ∧ (endless.label later).2.advances = some worker)
    {time : Nat} (h : Serves registered row ((endless.state time).workers worker)) :
    ∃ later > time, Ended registered row (endless.state later) := by
  refine served_eventually
    (fun moment => Serves registered row ((endless.state moment).workers worker))
    (fun moment => Ended registered row (endless.state moment))
    (fun moment => ((endless.state moment).workers worker).rank) ?_ ?_ h
  · intro moment hserves
    rcases step_serves (endless.next moment) hserves with hended | hstill
    · exact .inl hended
    · refine .inr ⟨hstill, ?_⟩
      obtain ⟨hown, hother⟩ := step_serves_rank (endless.next moment) hserves
      by_cases hadvances : (endless.label moment).2.advances = some worker
      · exact (hown hadvances).le
      · exact hother hadvances
  · intro moment _
    obtain ⟨later, hle, hadvances⟩ := hfair moment
    exact ⟨later, hle, fun hserves =>
      .inr ((step_serves_rank (endless.next later) hserves).1 hadvances)⟩

-- A row of the queue is run to the end by a worker that took it, or it is lost.
theorem waiting_ends {count : Nat} (hcount : 0 < count) (hstart : (endless.state 0).Starts)
    (hreads : ∀ row ∈ (endless.state 0).table, row.Readable)
    (hworkers : ∀ time worker, (endless.label time).2.advances = some worker → worker < count)
    (hfair : ∀ worker < count, ∀ time, ∃ later, time ≤ later ∧
      (endless.label later).2.advances = some worker)
    {quiet : Nat} {row : Row Uuid} (hquiet : ∀ later ≥ quiet, ∀ task,
      (endless.label later).2 = .insert task → row.timePosted < task.timePosted)
    {time : Nat} (hwaiting : (endless.state time).Waiting row) :
    (∃ later > time, Ended registered row (endless.state later)) ∨
      ∃ later ≥ time, (endless.label later).2.loses row.id := by
  have good : ∀ time, (endless.state time).Good :=
    endless.always Good (starts_good hstart) fun _ _ _ => step_good
  have hreadable := endless.always (fun pool => pool.Good ∧ ∀ row ∈ pool.table, row.Readable)
    ⟨good 0, hreads⟩ fun _ _ _ inv step =>
      ⟨step_good inv.1 step, step_readable inv.1 step inv.2⟩
  obtain ⟨_, hafter, last, rfl, hwaits, hlocks⟩ :=
    waiting_taken good (hfair 0 hcount) hquiet hwaiting
  rcases locks_serves (good last) (hreadable last).2 (endless.next last) hwaits hlocks with
    hloses | ⟨worker, hadvances, hserves⟩
  · exact .inr ⟨last, by omega, hloses⟩
  · obtain ⟨later, hlate, hended⟩ :=
      serving_ends (hfair worker (hworkers last worker hadvances)) hserves
    exact .inl ⟨later, by omega, hended⟩

end

-- Nobody starves. Where every worker goes on for ever and the tasks that are still to be
-- posted come later, a row of the queue is run to the end by a worker that took it, or a
-- poll that the database did not answer took it away.
theorem task_ends (registered : Str → Bool) (count : Nat) (hcount : 0 < count)
    (endless : @Endless (Pool Uuid) _ (Step registered)) (hstart : (endless.state 0).Starts)
    (hreads : ∀ row ∈ (endless.state 0).table, row.Readable)
    (hworkers : ∀ time worker, (endless.label time).2.advances = some worker → worker < count)
    (hfair : ∀ worker < count, ∀ time, ∃ later, time ≤ later ∧
      (endless.label later).2.advances = some worker)
    (time : Nat) (row : Row Uuid) (hrow : row ∈ (endless.state time).table)
    (hfree : row.locked = false)
    (hlater : ∃ quiet, ∀ later ≥ quiet, ∀ task, (endless.label later).2 = .insert task →
      row.timePosted < task.timePosted) :
    (∃ later > time, Ended registered row (endless.state later)) ∨
      ∃ later ≥ time, (endless.label later).2.loses row.id := by
  obtain ⟨quiet, hquiet⟩ := hlater
  have hwaiting : (endless.state time).Waiting row := ⟨row, hrow, hfree ▸ .refl row⟩
  exact waiting_ends hcount hstart hreads hworkers hfair hquiet hwaiting

-- One worker and one task, and then nothing but polls.
def addRow : Row Nat :=
  ⟨1, "add".toList, .null, TaskStatus.pending.toStr, 0, none, none, false⟩

def addTask : QueuedTask Nat :=
  ⟨1, "add".toList, .null, .pending, 0, none, none, true⟩

def soloNext : Nat → Pool Nat → Pool Nat
  | 0, pool => pool.poll 0 (some addRow)
  | 1, pool => pool.lookUp (fun _ => true) 0 addTask
  | 2, pool => pool.enter 0 (.finished addTask .panicked)
  | 3, pool => pool.record 0 0 addTask .panicked
  | _, pool => pool.poll 0 none

def soloState : Nat → Pool Nat
  | 0 => ⟨[addRow], fun _ => .polling, []⟩
  | time + 1 => soloNext time (soloState time)

def soloLabel : Nat → Int × Act Nat
  | 0 => (0, .poll 0 (some addRow))
  | 1 => (0, .lookUp 0)
  | 2 => (0, .finish 0 .panicked)
  | 3 => (0, .record 0)
  | _ => (0, .poll 0 none)

theorem addRow_read : QueuedTask.fromRow { addRow with locked := true } = .ok addTask := by
  simp only [QueuedTask.fromRow, addRow, TaskStatus.tryFrom_toStr]
  rfl

theorem solo_polled : soloState 1 = ⟨[{ addRow with locked := true }],
    Function.update (fun _ => .polling) 0 (.taken addTask), [.gotNext 1]⟩ := by
  have hids : (([addRow] : QueuedTasks Nat).map Row.id).Nodup := by simp
  have hanswer : (getNextBackgroundTask (some addRow) [addRow]).1 = .ok (some addTask) := by
    simp only [getNextBackgroundTask, getNextTask, updateChosen_some hids List.mem_cons_self,
      addRow_read]
    rfl
  simp only [soloState, soloNext, Pool.poll, hanswer]
  rfl

theorem solo_idle (time : Nat) : soloState (time + 4) = ⟨[{ addRow with
      locked := true, status := TaskStatus.exited.toStr, timeFinished := some 0 }],
    (soloState 4).workers, (soloState 4).log⟩ := by
  induction time with
  | zero =>
      have hfour : soloState 4 = soloNext 3 (soloNext 2 (soloNext 1 (soloState 1))) := rfl
      rw [hfour, solo_polled]
      rfl
  | succ time ih =>
      have hnext : soloState (time + 1 + 4) = (soloState (time + 4)).poll 0 none := rfl
      rw [hnext, ih]
      rfl

theorem solo_polling : (soloState 4).workers 0 = .polling :=
  conclude_self _ _ _ _

theorem solo_next : ∀ time,
    Step (fun _ => true) (soloState time) (soloLabel time) (soloState (time + 1))
  | 0 => .poll 0 0 (some addRow) rfl
      (mem_earliest.mpr ⟨by simp [soloState], rfl, by simp [soloState]⟩)
  | 1 => .lookUp 0 0 addTask (by rw [solo_polled]; rfl)
  | 2 => .finish 0 0 addTask .panicked rfl
  | 3 => .record 0 0 addTask .panicked (enter_self _ _ _)
  | time + 4 => by
      have hpolling : (soloState (time + 4)).workers 0 = .polling := by
        rw [solo_idle]
        exact solo_polling
      have hselects : Selects isUnlocked (soloState (time + 4)).table none := by
        rw [solo_idle]
        rfl
      exact .poll 0 0 none hpolling hselects

def solo : @Endless (Pool Nat) _ (Step fun _ => true) :=
  ⟨soloState, soloLabel, solo_next⟩

theorem solo_advances : ∀ time, (soloLabel time).2.advances = some 0
  | 0 => rfl
  | 1 => rfl
  | 2 => rfl
  | 3 => rfl
  | _ + 4 => rfl

theorem task_ends_solo :
    (∃ later > 0, Ended (fun _ => true) addRow (solo.state later)) ∨
      ∃ later ≥ 0, (solo.label later).2.loses addRow.id := by
  have hmem : ∀ row ∈ (solo.state 0).table, row = addRow := fun _ h => List.mem_singleton.mp h
  refine task_ends (fun _ => true) 1 Nat.one_pos solo ?_ ?_ ?_ ?_ 0 addRow
    (List.mem_singleton.mpr rfl) rfl ?_
  · exact ⟨List.nodup_singleton _, fun _ => rfl, rfl⟩
  · intro row hrow
    rw [hmem row hrow]
    exact ⟨.pending, TaskStatus.tryFrom_toStr .pending⟩
  · intro time worker hworker
    have hzero : worker = 0 := Option.some.inj (hworker.symm.trans (solo_advances time))
    omega
  · intro worker hworker time
    obtain rfl : worker = 0 := by omega
    exact ⟨time, Nat.le_refl _, solo_advances time⟩
  · refine ⟨0, fun later _ task hinsert => ?_⟩
    have hadvances := solo_advances later
    have hlabel : (soloLabel later).2 = .insert task := hinsert
    rw [hlabel] at hadvances
    cases hadvances

end Pool

end Saps.Tasks
