import Saps.Tasks.Pool.Theorems
import Saps.Lib.Fair

-- What each step does to those who wait in the queue.
namespace Saps.Tasks

open Transition

variable {Uuid : Type}

def Row.Readable (row : Row Uuid) : Prop :=
  ∃ status, TaskStatus.tryFrom row.status = .ok status

-- What a statement leaves of a row, where it is locked or not afterwards.
structure Row.Becomes (row : Row Uuid) (locked : Bool) (after : Row Uuid) : Prop where
  id : after.id = row.id
  functionName : after.functionName = row.functionName
  params : after.params = row.params
  timePosted : after.timePosted = row.timePosted
  locked : after.locked = locked
  readable : row.Readable → after.Readable

theorem Row.Becomes.refl (row : Row Uuid) : row.Becomes row.locked row :=
  ⟨rfl, rfl, rfl, rfl, rfl, fun h => h⟩

theorem Row.Becomes.trans {row mid after : Row Uuid} {locked locked' : Bool}
    (first : row.Becomes locked mid) (second : mid.Becomes locked' after) :
    row.Becomes locked' after :=
  ⟨second.id.trans first.id, second.functionName.trans first.functionName,
    second.params.trans first.params, second.timePosted.trans first.timePosted, second.locked,
    fun h => second.readable (first.readable h)⟩

-- A task that was read from the row.
structure QueuedTask.From (task : QueuedTask Uuid) (row : Row Uuid) : Prop where
  id : task.id = row.id
  functionName : task.functionName = row.functionName
  params : task.params = row.params

-- How many are in the queue that may come before one that was posted at a time.
def ahead (time : Int) (table : QueuedTasks Uuid) : Nat :=
  table.countP fun row => row.locked = false ∧ row.timePosted ≤ time

-- How far a worker is from its next poll.
def Phase.rank : Phase Uuid → Nat
  | polling => 0
  | taken _ => 3
  | running _ => 2
  | finished _ _ => 1

namespace Pool

-- The worker that a step takes on. A poll that the database does not answer is none.
def Act.advances : Act Uuid → Option Nat
  | .poll worker _ => some worker
  | .lookUp worker => some worker
  | .finish worker _ => some worker
  | .record worker => some worker
  | .recordFails worker => some worker
  | _ => none

-- The row that a step takes out of the queue.
def Act.locks : Act Uuid → Option Uuid
  | .poll _ chosen => chosen.map Row.id
  | .pollFails _ ran => ran.map Row.id
  | _ => none

-- The row was locked by a poll that told nobody.
def Act.loses (id : Uuid) : Act Uuid → Prop
  | .pollFails _ ran => ran.map Row.id = some id
  | _ => False

-- The row is still in the queue.
def Waiting (row : Row Uuid) (pool : Pool Uuid) : Prop :=
  ∃ now ∈ pool.table, row.Becomes false now

-- A worker is at the task of the row.
def Serves (registered : Str → Bool) (row : Row Uuid) : Phase Uuid → Prop
  | .polling => False
  | .taken task => task.From row
  | .running task => task.From row ∧ registered row.functionName = true
  | .finished task _ => task.From row ∧ registered row.functionName = true

-- The task of the row was run, or there was no handler for it.
def Ended (registered : Str → Bool) (row : Row Uuid) (pool : Pool Uuid) : Prop :=
  ∃ task outcome last, .ended task outcome last ∈ pool.log ∧ task.From row ∧
    (outcome = none ↔ registered row.functionName = false)

end Pool

variable [DecidableEq Uuid]

theorem update_becomes (id : Uuid) {change : Row Uuid → Row Uuid}
    (hchange : ∀ row : Row Uuid, row.Becomes row.locked (change row)) (row : Row Uuid) :
    row.Becomes row.locked (if row.id = id then change row else row) := by
  by_cases hid : row.id = id
  · rw [if_pos hid]
    exact hchange row
  · rw [if_neg hid]
    exact .refl row

theorem lock_becomes (id : Uuid) (row : Row Uuid) :
    row.Becomes (row.locked || decide (row.id = id))
      (if row.id = id then { row with locked := true } else row) := by
  by_cases hid : row.id = id
  · rw [if_pos hid, decide_eq_true hid, Bool.or_true]
    exact ⟨rfl, rfl, rfl, rfl, rfl, fun h => h⟩
  · rw [if_neg hid, decide_eq_false hid, Bool.or_false]
    exact .refl row

namespace Pool

variable {pool : Pool Uuid}

-- What a table has become after a statement that adds no row.
def TableBecomes (locks : Option Uuid) (before after : QueuedTasks Uuid) : Prop :=
  ∃ change : Row Uuid → Row Uuid, after = before.map change ∧
    ∀ row : Row Uuid, row.Becomes (row.locked || decide (locks = some row.id)) (change row)

theorem TableBecomes.refl (table : QueuedTasks Uuid) : TableBecomes none table table := by
  refine ⟨fun row => row, (List.map_id table).symm, ?_⟩
  intro row
  simpa using Row.Becomes.refl row

theorem TableBecomes.update (id : Uuid) {change : Row Uuid → Row Uuid}
    (hchange : ∀ row : Row Uuid, row.Becomes row.locked (change row)) (table : QueuedTasks Uuid) :
    TableBecomes none table (Table.update Row.id id change table) := by
  refine ⟨_, rfl, ?_⟩
  intro row
  simpa using update_becomes id hchange row

theorem mark_table (pool : Pool Uuid) (status : TaskStatus) (now : Int) (id : Uuid) :
    (pool.mark status now id).table = Table.update Row.id id
      (fun row => { row with status := status.toStr, timeFinished := some now }) pool.table := by
  unfold Pool.mark
  dsimp only
  split <;> rfl

theorem mark_becomes (pool : Pool Uuid) (status : TaskStatus) (now : Int) (id : Uuid) :
    TableBecomes none pool.table (pool.mark status now id).table := by
  rw [mark_table]
  refine TableBecomes.update id ?_ pool.table
  intro row
  exact ⟨rfl, rfl, rfl, rfl, rfl, fun _ => ⟨status, TaskStatus.tryFrom_toStr status⟩⟩

theorem claim_becomes (pool : Pool Uuid) (now : Int) (chosen : Option (Row Uuid)) :
    TableBecomes none pool.table (pool.claim now chosen).table := by
  have htable : (pool.claim now chosen).table = (claimTask now chosen pool.table).2 := by
    unfold Pool.claim
    dsimp only
    split <;> rfl
  rw [htable]
  cases chosen with
  | none => exact .refl pool.table
  | some row =>
      refine TableBecomes.update row.id ?_ pool.table
      intro row
      exact ⟨rfl, rfl, rfl, rfl, rfl, fun _ => ⟨.inProgress, TaskStatus.tryFrom_toStr .inProgress⟩⟩

theorem fetch_becomes (pool : Pool Uuid) (hids : (pool.table.map Row.id).Nodup)
    {chosen : Option (Row Uuid)} (hmem : ∀ row ∈ chosen, row ∈ pool.table) :
    TableBecomes (chosen.map Row.id) pool.table (pool.fetch chosen).table := by
  cases chosen with
  | none => exact .refl pool.table
  | some row =>
      rw [fetch_some pool hids (hmem row rfl)]
      refine ⟨_, rfl, ?_⟩
      intro other
      have hbecomes := lock_becomes row.id other
      simpa [eq_comm] using hbecomes

omit [DecidableEq Uuid] in
theorem selects_mem {keep : Row Uuid → Bool} {table : QueuedTasks Uuid}
    {chosen : Option (Row Uuid)} (hselects : Selects keep table chosen) :
    ∀ row ∈ chosen, row ∈ table := by
  intro row hrow
  cases hrow
  exact (mem_earliest.mp hselects).1

-- What any step can do to the table.
theorem step_table {registered : Str → Bool} {before after : Pool Uuid}
    {label : Int × Act Uuid} (good : before.Good) (step : Step registered before label after) :
    (∃ task new, label.2 = .insert task ∧ after.table = new :: before.table ∧ new.Readable ∧
      new.timePosted = task.timePosted) ∨
      TableBecomes label.2.locks before.table after.table := by
  cases step with
  | insert now task =>
      change _ ∨ TableBecomes none before.table (insertBackgroundTask task before.table).2
      unfold insertBackgroundTask
      split
      · exact .inr (.refl before.table)
      · split
        · exact .inr (.refl before.table)
        · next hlength hnew =>
          let row : Row Uuid := ⟨task.id, task.functionName, task.params, task.status.toStr,
            task.timePosted, task.timeStarted, task.timeFinished, task.locked⟩
          have hinserted : (before.insert task).table = row :: before.table := by
            simp only [Pool.insert, insertBackgroundTask, if_neg hlength, if_neg hnew, row]
          exact .inl ⟨task, row, rfl, hinserted, ⟨task.status, TaskStatus.tryFrom_toStr _⟩, rfl⟩
  | claim now functionName chosen hselects => exact .inr (claim_becomes before now chosen)
  | mark now status id hterminal => exact .inr (mark_becomes before status now id)
  | poll now worker chosen hworker hselects =>
      right
      rw [(poll_eq before worker chosen).2]
      exact fetch_becomes before good.ids (selects_mem hselects)
  | pollFails now worker ran hworker hselects =>
      right
      refine fetch_becomes before good.ids ?_
      intro row hrow
      exact (mem_earliest.mp (hselects row hrow)).1
  | lookUp now worker task hworker =>
      right
      have htable : (before.lookUp registered worker task).table = before.table := by
        unfold Pool.lookUp
        split <;> rfl
      rw [htable]
      exact .refl before.table
  | finish now worker task outcome hworker => exact .inr (.refl before.table)
  | record now worker task outcome hworker =>
      right
      unfold Pool.record
      cases outcome with
      | returned result => exact mark_becomes before .completed now task.id
      | panicked => exact mark_becomes before .exited now task.id
  | recordFails now worker task outcome hworker => exact .inr (.refl before.table)

theorem ahead_le {locks : Option Uuid} {before after : QueuedTasks Uuid}
    (h : TableBecomes locks before after) (time : Int) : ahead time after ≤ ahead time before := by
  obtain ⟨change, rfl, hchange⟩ := h
  unfold ahead
  rw [List.countP_map]
  refine List.countP_mono_left ?_
  intro row hrow hahead
  have hbecomes := hchange row
  simp only [Function.comp_apply, decide_eq_true_eq, hbecomes.locked, hbecomes.timePosted,
    Bool.or_eq_false_iff] at hahead ⊢
  exact ⟨hahead.1.1, hahead.2⟩

theorem ahead_lt {locks : Option Uuid} {before after : QueuedTasks Uuid}
    (h : TableBecomes locks before after) {time : Int} {row : Row Uuid} (hrow : row ∈ before)
    (hfree : row.locked = false) (htime : row.timePosted ≤ time) (hlocks : locks = some row.id) :
    ahead time after < ahead time before := by
  have hle := ahead_le h time
  obtain ⟨change, rfl, hchange⟩ := h
  unfold ahead at hle ⊢
  rw [List.countP_map] at hle ⊢
  refine Table.countP_lt ?_ hrow ?_ ?_
  · intro other hother hahead
    have hbecomes := hchange other
    simp only [Function.comp_apply, decide_eq_true_eq, hbecomes.locked, hbecomes.timePosted,
      Bool.or_eq_false_iff] at hahead ⊢
    exact ⟨hahead.1.1, hahead.2⟩
  · simp [hfree, htime]
  · have hbecomes := hchange row
    simp [hbecomes.locked, hlocks]

-- The queue as a step leaves it: who waits stays or is taken out.
theorem step_waiting {registered : Str → Bool} {before after : Pool Uuid}
    {label : Int × Act Uuid} (good : before.Good) (step : Step registered before label after)
    {row : Row Uuid} (h : before.Waiting row) (hkept : label.2.locks ≠ some row.id) :
    after.Waiting row := by
  obtain ⟨now, hnow, hbecomes⟩ := h
  rcases step_table good step with ⟨_, new, _, htable, _⟩ | ⟨change, htable, hchange⟩
  · exact ⟨now, by rw [htable]; exact List.mem_cons_of_mem _ hnow, hbecomes⟩
  · have hthen := hchange now
    rw [hbecomes.id, hbecomes.locked, decide_eq_false hkept, Bool.or_self] at hthen
    refine ⟨change now, ?_, hbecomes.trans hthen⟩
    rw [htable]
    exact List.mem_map_of_mem hnow

theorem step_readable {registered : Str → Bool} {before after : Pool Uuid}
    {label : Int × Act Uuid} (good : before.Good) (step : Step registered before label after)
    (h : ∀ row ∈ before.table, row.Readable) : ∀ row ∈ after.table, row.Readable := by
  intro row hrow
  rcases step_table good step with ⟨_, new, _, htable, hnew, _⟩ | ⟨change, htable, hchange⟩
  · rw [htable] at hrow
    rcases List.mem_cons.mp hrow with rfl | hold
    · exact hnew
    · exact h row hold
  · rw [htable] at hrow
    obtain ⟨old, hold, rfl⟩ := List.mem_map.mp hrow
    exact (hchange old).readable (h old hold)

-- Only its own steps move a worker.
theorem step_other {registered : Str → Bool} {before after : Pool Uuid}
    {label : Int × Act Uuid} (step : Step registered before label after) {worker : Nat}
    (h : label.2.advances ≠ some worker) : after.workers worker = before.workers worker := by
  have hfetch : ∀ chosen, (before.fetch chosen).workers = before.workers := by
    intro chosen
    unfold Pool.fetch
    split <;> rfl
  have hmark : ∀ status now id, (before.mark status now id).workers = before.workers := by
    intro status now id
    unfold Pool.mark
    dsimp only
    split <;> rfl
  have hne : ∀ other, label.2.advances = some other → worker ≠ other := by
    intro other hother hsame
    exact h (hsame ▸ hother)
  cases step with
  | insert now task => rfl
  | claim now functionName chosen hselects =>
      unfold Pool.claim
      dsimp only
      split <;> rfl
  | mark now status id hterminal => rw [hmark]
  | poll now other chosen hworker hselects =>
      unfold Pool.poll
      split
      · rw [enter_other _ (hne other rfl), hfetch]
      · rw [hfetch]
      · rw [hfetch]
  | pollFails now other ran hworker hselects => rw [hfetch]
  | lookUp now other task hworker =>
      unfold Pool.lookUp
      split
      · exact enter_other before (hne other rfl) _
      · exact enter_other before (hne other rfl) _
  | finish now other task outcome hworker => exact enter_other before (hne other rfl) _
  | record now other task outcome hworker =>
      have hconclude : ∀ (mid : Pool Uuid), mid.workers = before.workers →
          (mid.conclude other task (some outcome)).workers worker = before.workers worker := by
        intro mid hmid
        refine (enter_other mid (hne other rfl) _).trans ?_
        rw [hmid]
      unfold Pool.record
      cases outcome with
      | returned result => exact hconclude _ (hmark _ _ _)
      | panicked => exact hconclude _ (hmark _ _ _)
  | recordFails now other task outcome hworker => exact enter_other before (hne other rfl) _

theorem conclude_self (pool : Pool Uuid) (worker : Nat) (task : QueuedTask Uuid)
    (outcome : Option Outcome) : (pool.conclude worker task outcome).workers worker = .polling :=
  enter_self pool worker .polling

-- A step of its own is a poll, or it brings the worker nearer to the next one.
theorem step_advances {registered : Str → Bool} {before after : Pool Uuid}
    {label : Int × Act Uuid} (step : Step registered before label after) {worker : Nat}
    (h : label.2.advances = some worker) :
    (∃ chosen, label.2 = .poll worker chosen ∧ before.workers worker = .polling ∧
      Selects isUnlocked before.table chosen ∧ (after.workers worker).rank ≤ 3) ∨
      (after.workers worker).rank < (before.workers worker).rank := by
  cases step with
  | insert now task => cases h
  | claim now functionName chosen hselects => cases h
  | mark now status id hterminal => cases h
  | poll now other chosen hworker hselects =>
      obtain rfl := Option.some.inj h
      refine .inl ⟨chosen, rfl, hworker, hselects, ?_⟩
      have hrank : ∀ phase : Phase Uuid, phase.rank ≤ 3 := by
        intro phase
        cases phase <;> simp [Phase.rank]
      exact hrank _
  | pollFails now other ran hworker hselects => cases h
  | lookUp now other task hworker =>
      obtain rfl := Option.some.inj h
      right
      rw [hworker]
      unfold Pool.lookUp
      split
      · simp [Phase.rank]
      · rw [conclude_self]
        simp [Phase.rank]
  | finish now other task outcome hworker =>
      obtain rfl := Option.some.inj h
      right
      rw [hworker, enter_self]
      simp [Phase.rank]
  | record now other task outcome hworker =>
      obtain rfl := Option.some.inj h
      right
      rw [hworker]
      unfold Pool.record
      cases outcome <;> simp only [conclude_self] <;> simp [Phase.rank]
  | recordFails now other task outcome hworker =>
      obtain rfl := Option.some.inj h
      right
      rw [hworker, conclude_self]
      simp [Phase.rank]

-- What is before a row in the queue, and what a worker has to do till its next poll.
def queueRank (worker : Nat) (time : Int) (pool : Pool Uuid) : Nat :=
  4 * ahead time pool.table + (pool.workers worker).rank

theorem step_queue {registered : Str → Bool} {before after : Pool Uuid}
    {label : Int × Act Uuid} (good : before.Good) (step : Step registered before label after)
    {row : Row Uuid} (h : before.Waiting row)
    (hinsert : ∀ task, label.2 = .insert task → row.timePosted < task.timePosted) (worker : Nat) :
    (label.2.advances = some worker →
      queueRank worker row.timePosted after < queueRank worker row.timePosted before) ∧
      (label.2.advances ≠ some worker →
        queueRank worker row.timePosted after ≤ queueRank worker row.timePosted before) := by
  have hahead : ahead row.timePosted after.table ≤ ahead row.timePosted before.table := by
    rcases step_table good step with ⟨task, new, hlabel, htable, _, htime⟩ | hbecomes
    · have hlater := hinsert task hlabel
      rw [htable, ahead, List.countP_cons_of_neg]
      · exact Nat.le_refl _
      · simp only [decide_eq_true_eq, not_and]
        omega
    · exact ahead_le hbecomes row.timePosted
  unfold queueRank
  constructor
  · intro hadvances
    rcases step_advances step hadvances with ⟨chosen, hlabel, hpolling, hselects, hrank⟩ | hlower
    · obtain ⟨now, hnow, hbecomes⟩ := h
      have hfree : isUnlocked now = true := by simp [isUnlocked, hbecomes.locked]
      cases chosen with
      | none =>
          have hnone := earliest_nil hselects now hnow
          rw [hfree] at hnone
          cases hnone
      | some first =>
          obtain ⟨hfirst, hunlocked, hleast⟩ := mem_earliest.mp hselects
          have htime : first.timePosted ≤ row.timePosted := by
            rw [← hbecomes.timePosted]
            exact hleast now hnow hfree
          rcases step_table good step with ⟨task, _, hinserted, _⟩ | htable
          · rw [hlabel] at hinserted
            cases hinserted
          · have hlocks : label.2.locks = some first.id := by rw [hlabel]; rfl
            have hless := ahead_lt htable hfirst (by simpa [isUnlocked] using hunlocked) htime hlocks
            omega
    · omega
  · intro hother
    rw [step_other step hother]
    omega

-- The poll that takes a row out of the queue hands its task to the worker.
theorem poll_serves {registered : Str → Bool} {before : Pool Uuid} (good : before.Good)
    (hreads : ∀ row ∈ before.table, row.Readable) {worker : Nat} {chosen : Option (Row Uuid)}
    (hselects : Selects isUnlocked before.table chosen) {row : Row Uuid} (h : before.Waiting row)
    (hlocks : chosen.map Row.id = some row.id) :
    Serves registered row ((before.poll worker chosen).workers worker) := by
  cases chosen with
  | none => cases hlocks
  | some first =>
      obtain ⟨now, hnow, hbecomes⟩ := h
      have hfirst := (mem_earliest.mp hselects).1
      have hid : first.id = now.id := by
        rw [hbecomes.id]
        exact Option.some.inj hlocks
      obtain rfl := List.inj_on_of_nodup_map good.ids hfirst hnow hid
      obtain ⟨status, hstatus⟩ := hreads first hfirst
      have hanswer : (getNextBackgroundTask (some first) before.table).1 = .ok (some
          ⟨first.id, first.functionName, first.params, status, first.timePosted,
            first.timeStarted, first.timeFinished, true⟩) := by
        simp only [getNextBackgroundTask, getNextTask, updateChosen_some good.ids hfirst,
          QueuedTask.fromRow, hstatus]
        rfl
      simp only [Pool.poll, hanswer, enter_self]
      exact ⟨hbecomes.id, hbecomes.functionName, hbecomes.params⟩

-- A worker that is at a task stays with it to the end of the iteration.
theorem step_serves {registered : Str → Bool} {before after : Pool Uuid}
    {label : Int × Act Uuid} (step : Step registered before label after) {row : Row Uuid}
    {worker : Nat} (h : Serves registered row (before.workers worker)) :
    Ended registered row after ∨ Serves registered row (after.workers worker) := by
  by_cases hadvances : label.2.advances = some worker
  · cases step with
    | insert now task => cases hadvances
    | claim now functionName chosen hselects => cases hadvances
    | mark now status id hterminal => cases hadvances
    | poll now other chosen hworker hselects =>
        obtain rfl := Option.some.inj hadvances
        rw [hworker] at h
        cases h
    | pollFails now other ran hworker hselects => cases hadvances
    | lookUp now other task hworker =>
        obtain rfl := Option.some.inj hadvances
        rw [hworker] at h
        have hfrom : task.From row := h
        cases hregistered : registered task.functionName with
        | true =>
            right
            simp only [Pool.lookUp, hregistered, ite_true, enter_self]
            exact ⟨hfrom, hfrom.functionName ▸ hregistered⟩
        | false =>
            left
            simp only [Pool.lookUp, hregistered, Bool.false_eq_true, ite_false]
            refine ⟨task, none, _, List.mem_cons_self, hfrom, ?_⟩
            simp [← hfrom.functionName, hregistered]
    | finish now other task outcome hworker =>
        obtain rfl := Option.some.inj hadvances
        rw [hworker] at h
        right
        rw [enter_self]
        exact h
    | record now other task outcome hworker =>
        obtain rfl := Option.some.inj hadvances
        rw [hworker] at h
        obtain ⟨hfrom, hregistered⟩ := h
        left
        refine ⟨task, some outcome, Table.lookup Row.id task.id
          (before.record now other task outcome).table, ?_, hfrom, by simp [hregistered]⟩
        unfold Pool.record
        cases outcome with
        | returned result => exact List.mem_cons_self
        | panicked => exact List.mem_cons_self
    | recordFails now other task outcome hworker =>
        obtain rfl := Option.some.inj hadvances
        rw [hworker] at h
        obtain ⟨hfrom, hregistered⟩ := h
        exact .inl ⟨task, some outcome, _, List.mem_cons_self, hfrom, by simp [hregistered]⟩
  · rw [step_other step hadvances]
    exact .inr h

theorem step_serves_rank {registered : Str → Bool} {before after : Pool Uuid}
    {label : Int × Act Uuid} (step : Step registered before label after) {row : Row Uuid}
    {worker : Nat} (h : Serves registered row (before.workers worker)) :
    (label.2.advances = some worker →
      (after.workers worker).rank < (before.workers worker).rank) ∧
      (label.2.advances ≠ some worker →
        (after.workers worker).rank ≤ (before.workers worker).rank) := by
  constructor
  · intro hadvances
    rcases step_advances step hadvances with ⟨_, _, hpolling, _⟩ | hlower
    · rw [hpolling] at h
      cases h
    · exact hlower
  · intro hother
    rw [step_other step hother]

-- A row is taken out of the queue by a worker that goes on with it, or it is lost.
theorem locks_serves {registered : Str → Bool} {before after : Pool Uuid}
    {label : Int × Act Uuid} (good : before.Good) (hreads : ∀ row ∈ before.table, row.Readable)
    (step : Step registered before label after) {row : Row Uuid} (h : before.Waiting row)
    (hlocks : label.2.locks = some row.id) : label.2.loses row.id ∨
      ∃ worker, label.2.advances = some worker ∧ Serves registered row (after.workers worker) := by
  cases step with
  | insert now task => cases hlocks
  | claim now functionName chosen hselects => cases hlocks
  | mark now status id hterminal => cases hlocks
  | poll now worker chosen hworker hselects =>
      exact .inr ⟨worker, rfl, poll_serves good hreads hselects h hlocks⟩
  | pollFails now worker ran hworker hselects => exact .inl hlocks
  | lookUp now worker task hworker => cases hlocks
  | finish now worker task outcome hworker => cases hlocks
  | record now worker task outcome hworker => cases hlocks
  | recordFails now worker task outcome hworker => cases hlocks

end Pool

end Saps.Tasks
