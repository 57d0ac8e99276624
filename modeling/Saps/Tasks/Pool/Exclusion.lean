import Saps.Tasks.Pool.Theorems

-- `saps.claim_task` and `saps.get_next_task` on one queue.
namespace Saps.Tasks

open Transition

-- The later event, given the earlier one.
def Event.Compatible {Uuid : Type} : Event Uuid → Event Uuid → Prop
  | gotNext id, claimed earlier => id ≠ earlier
  | gotNext id, marked earlier => id ≠ earlier
  | claimed id, gotNext earlier => id ≠ earlier
  | claimed id, marked earlier => id ≠ earlier
  | _, _ => True

-- An event that is no answer of a procedure and no mark.
def Event.Silent {Uuid : Type} (event : Event Uuid) : Prop :=
  (∀ other, event.Compatible other) ∧ (∀ id, event ≠ .gotNext id) ∧ (∀ id, event ≠ .claimed id) ∧
    ∀ id, event ≠ .marked id

-- The row has left the status in which it was posted.
def Moved {Uuid : Type} (table : QueuedTasks Uuid) (id : Uuid) : Prop :=
  ∃ row ∈ table, row.id = id ∧ row.status ≠ TaskStatus.pending.toStr

variable {Uuid : Type}

theorem not_moved {table : QueuedTasks Uuid} (hids : (table.map Row.id).Nodup) {row : Row Uuid}
    (hrow : row ∈ table) (hpending : row.status = TaskStatus.pending.toStr) :
    ¬Moved table row.id := by
  rintro ⟨other, hother, hid, hmoved⟩
  obtain rfl := List.inj_on_of_nodup_map hids hother hrow hid
  exact hmoved hpending

theorem silent_nil : ∀ event ∈ ([] : List (Event Uuid)), event.Silent :=
  fun _ h => absurd h List.not_mem_nil

theorem silent_moved (id : Uuid) (before after : Str) : Event.Silent (.moved id before after) :=
  ⟨fun _ => trivial, nofun, nofun, nofun⟩

theorem silent_started (task : QueuedTask Uuid) (row : Option (Row Uuid)) :
    Event.Silent (.started task row) :=
  ⟨fun _ => trivial, nofun, nofun, nofun⟩

theorem silent_ended (task : QueuedTask Uuid) (outcome : Option Outcome)
    (row : Option (Row Uuid)) : Event.Silent (.ended task outcome row) :=
  ⟨fun _ => trivial, nofun, nofun, nofun⟩

-- What the columns say about the past.
structure Recorded (table : QueuedTasks Uuid) (log : List (Event Uuid)) : Prop where
  gotNext : ∀ id, .gotNext id ∈ log → Locked table id
  moved : ∀ id, .claimed id ∈ log ∨ .marked id ∈ log → Moved table id
  exclusive : log.Pairwise Event.Compatible

-- And the other way round, as long as every task is posted as a new one.
structure Explained (table : QueuedTasks Uuid) (log : List (Event Uuid)) : Prop where
  locked : ∀ row ∈ table, row.locked = true → .gotNext row.id ∈ log
  moved : ∀ row ∈ table, row.status ≠ TaskStatus.pending.toStr →
    .claimed row.id ∈ log ∨ .marked row.id ∈ log

variable {table left : QueuedTasks Uuid} {log events : List (Event Uuid)}

-- Silent events change nothing.
theorem Recorded.silent (recorded : Recorded table log)
    (hsilent : ∀ event ∈ events, event.Silent) : Recorded table (events ++ log) := by
  have hold : ∀ event ∈ events ++ log, ¬event.Silent → event ∈ log :=
    fun event hevent hloud => (List.mem_append.mp hevent).resolve_left fun h =>
      hloud (hsilent event h)
  refine ⟨?_, ?_, ?_⟩
  · exact fun id h => recorded.gotNext id (hold _ h fun hs => hs.2.1 id rfl)
  · rintro id (h | h)
    · exact recorded.moved id (.inl (hold _ h fun hs => hs.2.2.1 id rfl))
    · exact recorded.moved id (.inr (hold _ h fun hs => hs.2.2.2 id rfl))
  · refine List.pairwise_append.mpr ⟨?_, recorded.exclusive, ?_⟩
    · exact List.pairwise_of_forall_mem_list fun event hevent other _ => (hsilent event hevent).1 other
    · exact fun event hevent other _ => (hsilent event hevent).1 other

theorem Recorded.follow (recorded : Recorded table log)
    (hlocked : ∀ id, Locked table id → Locked left id)
    (hmoved : ∀ id, Moved table id → Moved left id) : Recorded left log :=
  ⟨fun id h => hlocked id (recorded.gotNext id h), fun id h => hmoved id (recorded.moved id h),
    recorded.exclusive⟩

theorem Recorded.gotNext_cons (recorded : Recorded table log) {id : Uuid} (hlocked : Locked table id)
    (hunmoved : ∀ earlier, .claimed earlier ∈ log ∨ .marked earlier ∈ log → id ≠ earlier) :
    Recorded table (.gotNext id :: log) := by
  refine ⟨?_, ?_, List.pairwise_cons.mpr ⟨?_, recorded.exclusive⟩⟩
  · intro other h
    rcases List.mem_cons.mp h with heq | hold
    · obtain rfl := Event.gotNext.inj heq
      exact hlocked
    · exact recorded.gotNext other hold
  · rintro other (h | h)
    · exact recorded.moved other (.inl ((List.mem_cons.mp h).resolve_left nofun))
    · exact recorded.moved other (.inr ((List.mem_cons.mp h).resolve_left nofun))
  · intro event hevent
    cases event with
    | claimed earlier => exact hunmoved earlier (.inl hevent)
    | marked earlier => exact hunmoved earlier (.inr hevent)
    | _ => exact trivial

theorem Recorded.claimed_cons (recorded : Recorded table log) {id : Uuid} (hmoved : Moved table id)
    (hunlocked : ∀ earlier, .gotNext earlier ∈ log → id ≠ earlier)
    (hunmarked : ∀ earlier, .marked earlier ∈ log → id ≠ earlier) :
    Recorded table (.claimed id :: log) := by
  refine ⟨?_, ?_, List.pairwise_cons.mpr ⟨?_, recorded.exclusive⟩⟩
  · exact fun other h => recorded.gotNext other ((List.mem_cons.mp h).resolve_left nofun)
  · rintro other (h | h)
    · rcases List.mem_cons.mp h with heq | hold
      · obtain rfl := Event.claimed.inj heq
        exact hmoved
      · exact recorded.moved other (.inl hold)
    · exact recorded.moved other (.inr ((List.mem_cons.mp h).resolve_left nofun))
  · intro event hevent
    cases event with
    | gotNext earlier => exact hunlocked earlier hevent
    | marked earlier => exact hunmarked earlier hevent
    | _ => exact trivial

theorem Recorded.marked_cons (recorded : Recorded table log) {id : Uuid} (hmoved : Moved table id) :
    Recorded table (.marked id :: log) := by
  refine ⟨?_, ?_, List.pairwise_cons.mpr ⟨fun _ _ => trivial, recorded.exclusive⟩⟩
  · exact fun other h => recorded.gotNext other ((List.mem_cons.mp h).resolve_left nofun)
  · rintro other (h | h)
    · exact recorded.moved other (.inl ((List.mem_cons.mp h).resolve_left nofun))
    · rcases List.mem_cons.mp h with heq | hold
      · obtain rfl := Event.marked.inj heq
        exact hmoved
      · exact recorded.moved other (.inr hold)

variable [DecidableEq Uuid]

theorem Moved.update {table : QueuedTasks Uuid} {id : Uuid} (h : Moved table id) (key : Uuid)
    {change : Row Uuid → Row Uuid} (hid : ∀ row, (change row).id = row.id)
    (hmoved : ∀ row, row.status ≠ TaskStatus.pending.toStr →
      (change row).status ≠ TaskStatus.pending.toStr) :
    Moved (Table.update Row.id key change table) id := by
  obtain ⟨row, hrow, rfl, hrowMoved⟩ := h
  by_cases hkey : row.id = key
  · exact ⟨change row, Table.mem_update.mpr (.inl ⟨row, hrow, hkey, rfl⟩), hid row,
      hmoved row hrowMoved⟩
  · exact ⟨row, Table.mem_update.mpr (.inr ⟨hrow, hkey⟩), rfl, hrowMoved⟩

namespace Pool

-- No row comes out of both procedures, and none after it was marked.
def Exclusive (pool : Pool Uuid) : Prop :=
  pool.log.Pairwise Event.Compatible

-- The procedure that is called also finds what the other one looks at as it
-- was when the row was posted.
def Apart : Act Uuid → Prop
  | .poll _ (some row) => row.status = TaskStatus.pending.toStr
  | .pollFails _ (some row) => row.status = TaskStatus.pending.toStr
  | .claim _ (some row) => row.locked = false
  | _ => True

def ApartStep (registered : Str → Bool) (before : Pool Uuid) (label : Int × Act Uuid)
    (after : Pool Uuid) : Prop :=
  Step registered before label after ∧ Apart label.2

-- Every task is posted the way `QueuedTask::new` makes it.
def Posts : Act Uuid → Prop
  | .insert task => task.status = .pending ∧ task.locked = false
  | _ => True

-- All that a step can do to the table and the log.
inductive Effect (table : QueuedTasks Uuid) :
    Act Uuid → QueuedTasks Uuid → List (Event Uuid) → Prop
  | quiet (act : Act Uuid) (events : List (Event Uuid)) (hapart : Apart act)
      (hsilent : ∀ event ∈ events, event.Silent) : Effect table act table events
  | posted (task : QueuedTask Uuid) (row : Row Uuid) (hstatus : row.status = task.status.toStr)
      (hlocked : row.locked = task.locked) : Effect table (.insert task) (row :: table) []
  | gotNext (act : Act Uuid) (row : Row Uuid)
      (hapart : Apart act ↔ row.status = TaskStatus.pending.toStr) (hrow : row ∈ table)
      (hfree : row.locked = false) : Effect table act
        (Table.update Row.id row.id (fun row => { row with locked := true }) table)
        [.gotNext row.id]
  | claimed (act : Act Uuid) (row : Row Uuid) (now : Int) (events : List (Event Uuid))
      (hapart : Apart act ↔ row.locked = false) (hrow : row ∈ table)
      (hpending : row.status = TaskStatus.pending.toStr) (hsilent : ∀ event ∈ events, event.Silent) :
      Effect table act (Table.update Row.id row.id (fun row =>
        { row with status := TaskStatus.inProgress.toStr, timeStarted := some now }) table)
        (events ++ [.claimed row.id])
  | marked (act : Act Uuid) (id : Uuid) (status : TaskStatus) (now : Int)
      (events : List (Event Uuid)) (hapart : Apart act) (hid : id ∈ table.map Row.id)
      (hterminal : status = .completed ∨ status = .exited) (hsilent : ∀ event ∈ events, event.Silent) :
      Effect table act (Table.update Row.id id (fun row =>
        { row with status := status.toStr, timeFinished := some now }) table)
        (events ++ [.marked id])

theorem silent_moves (before after : QueuedTasks Uuid) (id : Uuid) :
    ∀ event ∈ moves before after id, event.Silent := by
  intro event hevent
  unfold moves at hevent
  split at hevent
  · obtain rfl := List.mem_singleton.mp hevent
    exact silent_moved _ _ _
  · cases hevent

variable {registered : Str → Bool} {before after : Pool Uuid} {label : Int × Act Uuid}

theorem insert_effect (pool : Pool Uuid) (task : QueuedTask Uuid) :
    ∃ events, (pool.insert task).log = events ++ pool.log ∧
      Effect pool.table (.insert task) (pool.insert task).table events := by
  refine ⟨[], rfl, ?_⟩
  unfold Pool.insert insertBackgroundTask
  split
  · exact .quiet _ _ trivial silent_nil
  · split
    · exact .quiet _ _ trivial silent_nil
    · exact .posted task _ rfl rfl

theorem claim_effect (pool : Pool Uuid) (hids : (pool.table.map Row.id).Nodup) (now : Int)
    (functionName : Str) {chosen : Option (Row Uuid)}
    (hselects : Selects (isPending functionName) pool.table chosen) :
    ∃ events, (pool.claim now chosen).log = events ++ pool.log ∧
      Effect pool.table (.claim functionName chosen) (pool.claim now chosen).table events := by
  cases chosen with
  | none => exact ⟨[], rfl, .quiet _ _ trivial silent_nil⟩
  | some row =>
      obtain ⟨hrow, hpending, _⟩ := mem_earliest.mp hselects
      simp only [isPending, decide_eq_true_eq] at hpending
      simp only [Pool.claim, claimTask, updateChosen_some hids hrow]
      refine ⟨_ ++ [.claimed row.id], by rw [List.append_assoc]; rfl, ?_⟩
      exact .claimed _ row now _ Iff.rfl hrow hpending.2 (silent_moves _ _ _)

theorem mark_effect (pool : Pool Uuid) {status : TaskStatus}
    (hterminal : status = .completed ∨ status = .exited) (now : Int) (id : Uuid) {act : Act Uuid}
    (hapart : Apart act) {later : List (Event Uuid)} (hlater : ∀ event ∈ later, event.Silent) :
    ∃ events, later ++ (pool.mark status now id).log = events ++ pool.log ∧
      Effect pool.table act (pool.mark status now id).table events := by
  by_cases hid : id ∈ pool.table.map Row.id
  · rw [mark_some pool status now hid]
    have hsilent : ∀ event ∈ later ++ moves pool.table (markAs status now id pool.table).2 id,
        event.Silent := by
      intro event hevent
      rcases List.mem_append.mp hevent with h | h
      · exact hlater event h
      · exact silent_moves _ _ _ event h
    refine ⟨_ ++ [Event.marked id], ?_, .marked act id status now _ hapart hid hterminal hsilent⟩
    simp only [List.append_assoc, List.singleton_append]
  · rw [mark_none pool status now hid]
    exact ⟨later, rfl, .quiet act later hapart hlater⟩

theorem fetch_effect (pool : Pool Uuid) (hids : (pool.table.map Row.id).Nodup) {row : Row Uuid}
    (hrow : row ∈ earliest isUnlocked pool.table) {act : Act Uuid}
    (hapart : Apart act ↔ row.status = TaskStatus.pending.toStr) :
    ∃ events, (pool.fetch (some row)).log = events ++ pool.log ∧
      Effect pool.table act (pool.fetch (some row)).table events := by
  obtain ⟨hmem, hfree, _⟩ := mem_earliest.mp hrow
  rw [fetch_some pool hids hmem]
  exact ⟨[.gotNext row.id], rfl, .gotNext act row hapart hmem (by simpa [isUnlocked] using hfree)⟩

theorem step_effect (hids : (before.table.map Row.id).Nodup)
    (step : Step registered before label after) :
    ∃ events, after.log = events ++ before.log ∧ Effect before.table label.2 after.table events := by
  cases step with
  | insert now task => exact insert_effect before task
  | claim now functionName chosen hselects => exact claim_effect before hids now functionName hselects
  | mark now status id hterminal =>
      have hapart : Apart (.mark status id) := trivial
      exact mark_effect before hterminal now id hapart silent_nil
  | poll now worker chosen hworker hselects =>
      obtain ⟨hlog, htable⟩ := poll_eq before worker chosen
      rw [hlog, htable]
      cases chosen with
      | none => exact ⟨[], rfl, .quiet _ _ trivial silent_nil⟩
      | some row => exact fetch_effect before hids hselects Iff.rfl
  | pollFails now worker ran hworker hselects =>
      cases ran with
      | none => exact ⟨[], rfl, .quiet _ _ trivial silent_nil⟩
      | some row => exact fetch_effect before hids (hselects row rfl) Iff.rfl
  | lookUp now worker task hworker =>
      unfold Pool.lookUp
      split
      · refine ⟨[_], rfl, .quiet _ _ trivial ?_⟩
        exact List.forall_mem_singleton.mpr (silent_started _ _)
      · refine ⟨[_], rfl, .quiet _ _ trivial ?_⟩
        exact List.forall_mem_singleton.mpr (silent_ended _ _ _)
  | finish now worker task outcome hworker => exact ⟨[], rfl, .quiet _ _ trivial silent_nil⟩
  | record now worker task outcome hworker =>
      have hapart : Apart (.record worker : Act Uuid) := trivial
      unfold Pool.record
      cases outcome with
      | returned result =>
          exact mark_effect before (.inl rfl) now task.id hapart
            (List.forall_mem_singleton.mpr (silent_ended _ _ _))
      | panicked =>
          exact mark_effect before (.inr rfl) now task.id hapart
            (List.forall_mem_singleton.mpr (silent_ended _ _ _))
  | recordFails now worker task outcome hworker =>
      refine ⟨[_], rfl, .quiet _ _ trivial ?_⟩
      exact List.forall_mem_singleton.mpr (silent_ended _ _ _)

end Pool

open Pool

theorem inProgress_ne_pending : TaskStatus.inProgress.toStr ≠ TaskStatus.pending.toStr :=
  fun h => nomatch TaskStatus.toStr_injective h

theorem terminal_ne_pending {status : TaskStatus} (h : status = .completed ∨ status = .exited) :
    status.toStr ≠ TaskStatus.pending.toStr := by
  intro heq
  obtain rfl := TaskStatus.toStr_injective heq
  rcases h with h | h <;> cases h

variable {act : Act Uuid}

-- A call that looks at both columns meets no row of the other procedure.
theorem Recorded.step (recorded : Recorded table log) (hids : (table.map Row.id).Nodup)
    (effect : Effect table act left events) (hapart : Apart act) : Recorded left (events ++ log) := by
  cases effect with
  | quiet _ _ _ hsilent => exact recorded.silent hsilent
  | posted task row hstatus hlocked =>
      refine recorded.follow ?_ ?_
      · rintro id ⟨other, hother, h⟩
        exact ⟨other, List.mem_cons_of_mem _ hother, h⟩
      · rintro id ⟨other, hother, h⟩
        exact ⟨other, List.mem_cons_of_mem _ hother, h⟩
  | gotNext _ row hiff hrow hfree =>
      have hpending := hiff.mp hapart
      have hkept : Recorded (Table.update Row.id row.id (fun row => { row with locked := true })
          table) log :=
        recorded.follow (fun id h => h.update row.id (fun _ => rfl) fun _ _ => rfl)
          fun id h => h.update row.id (fun _ => rfl) fun _ hrow => hrow
      refine hkept.gotNext_cons ⟨{ row with locked := true },
        Table.mem_update.mpr (.inl ⟨row, hrow, rfl, rfl⟩), rfl, rfl⟩ ?_
      rintro earlier hlog rfl
      exact not_moved hids hrow hpending (recorded.moved row.id hlog)
  | claimed _ row now events hiff hrow hpending hsilent =>
      have hfree := hiff.mp hapart
      have hkept : Recorded (Table.update Row.id row.id (fun row => { row with
          status := TaskStatus.inProgress.toStr, timeStarted := some now }) table) log :=
        recorded.follow (fun id h => h.update row.id (fun _ => rfl) fun _ hrow => hrow)
          fun id h => h.update row.id (fun _ => rfl) fun _ _ => inProgress_ne_pending
      rw [List.append_assoc]
      refine (hkept.claimed_cons ⟨{ row with
          status := TaskStatus.inProgress.toStr, timeStarted := some now },
        Table.mem_update.mpr (.inl ⟨row, hrow, rfl, rfl⟩), rfl, inProgress_ne_pending⟩ ?_ ?_).silent
          hsilent
      · rintro earlier hlog rfl
        exact not_locked hids hrow hfree (recorded.gotNext row.id hlog)
      · rintro earlier hlog rfl
        exact not_moved hids hrow hpending (recorded.moved row.id (.inr hlog))
  | marked _ id status now events _ hid hterminal hsilent =>
      obtain ⟨row, hrow, rfl⟩ := List.mem_map.mp hid
      have hstatus := terminal_ne_pending hterminal
      have hkept : Recorded (Table.update Row.id row.id (fun row => { row with
          status := status.toStr, timeFinished := some now }) table) log :=
        recorded.follow (fun id h => h.update row.id (fun _ => rfl) fun _ hrow => hrow)
          fun id h => h.update row.id (fun _ => rfl) fun _ _ => hstatus
      rw [List.append_assoc]
      exact (hkept.marked_cons ⟨{ row with status := status.toStr, timeFinished := some now },
        Table.mem_update.mpr (.inl ⟨row, hrow, rfl, rfl⟩), rfl, hstatus⟩).silent hsilent

theorem Explained.step (explained : Explained table log) (effect : Effect table act left events)
    (hposts : Posts act) : Explained left (events ++ log) := by
  have hold : ∀ event ∈ log, event ∈ events ++ log :=
    fun event h => List.mem_append_right _ h
  have hkept : ∀ row ∈ table, row.status ≠ TaskStatus.pending.toStr →
      .claimed row.id ∈ events ++ log ∨ .marked row.id ∈ events ++ log :=
    fun row hrow hmoved => (explained.moved row hrow hmoved).imp (hold _) (hold _)
  have hlocked : ∀ row ∈ table, row.locked = true → .gotNext row.id ∈ events ++ log :=
    fun row hrow h => hold _ (explained.locked row hrow h)
  cases effect with
  | quiet => exact ⟨hlocked, hkept⟩
  | posted task row hstatus hfree =>
      obtain ⟨hpending, hunlocked⟩ := hposts
      refine ⟨?_, ?_⟩
      · intro other hother h
        rcases List.mem_cons.mp hother with rfl | hmem
        · rw [hfree, hunlocked] at h
          cases h
        · exact hlocked other hmem h
      · intro other hother h
        rcases List.mem_cons.mp hother with rfl | hmem
        · exact absurd (hstatus.trans (congrArg TaskStatus.toStr hpending)) h
        · exact hkept other hmem h
  | gotNext _ row =>
      refine ⟨?_, ?_⟩
      · intro other hother h
        rcases Table.mem_update.mp hother with ⟨_, _, hid, rfl⟩ | ⟨hmem, _⟩
        · exact List.mem_cons.mpr (.inl (congrArg Event.gotNext hid))
        · exact hlocked other hmem h
      · intro other hother h
        rcases Table.mem_update.mp hother with ⟨old, hmem, _, rfl⟩ | ⟨hmem, _⟩
        · exact hkept old hmem h
        · exact hkept other hmem h
  | claimed _ row now events =>
      refine ⟨?_, ?_⟩
      · intro other hother h
        rcases Table.mem_update.mp hother with ⟨old, hmem, _, rfl⟩ | ⟨hmem, _⟩
        · exact hlocked old hmem h
        · exact hlocked other hmem h
      · intro other hother h
        rcases Table.mem_update.mp hother with ⟨old, hmem, hid, rfl⟩ | ⟨hmem, _⟩
        · left
          change Event.claimed old.id ∈ _
          rw [hid]
          simp
        · exact hkept other hmem h
  | marked _ id status now events =>
      refine ⟨?_, ?_⟩
      · intro other hother h
        rcases Table.mem_update.mp hother with ⟨old, hmem, _, rfl⟩ | ⟨hmem, _⟩
        · exact hlocked old hmem h
        · exact hlocked other hmem h
      · intro other hother h
        rcases Table.mem_update.mp hother with ⟨old, hmem, hid, rfl⟩ | ⟨hmem, _⟩
        · right
          change Event.marked old.id ∈ _
          rw [hid]
          simp
        · exact hkept other hmem h

-- A call that meets a row of the other procedure returns it a second time.
theorem Explained.apart (explained : Explained table log) (effect : Effect table act left events)
    (hexclusive : (events ++ log).Pairwise Event.Compatible) : Apart act := by
  cases effect with
  | quiet _ _ hapart _ => exact hapart
  | posted => exact trivial
  | gotNext _ row hiff hrow hfree =>
      refine hiff.mpr ?_
      by_contra hmoved
      have hlater := (List.pairwise_cons.mp hexclusive).1
      rcases explained.moved row hrow hmoved with h | h
      · exact hlater _ h rfl
      · exact hlater _ h rfl
  | claimed _ row now events hiff hrow hpending hsilent =>
      refine hiff.mpr ?_
      by_contra hlocked
      rw [List.append_assoc] at hexclusive
      have hlater := (List.pairwise_cons.mp (List.pairwise_append.mp hexclusive).2.1).1
      exact hlater _ (explained.locked row hrow (by simpa using hlocked)) rfl
  | marked _ _ _ _ _ hapart => exact hapart

namespace Pool

-- The two procedures exclude each other as long as each of them is only
-- called when the row it is going to return passes the test of the other one
-- too. Where every task was posted as a new one that is when they do.
theorem procedures_exclusive (registered : Str → Bool) (start finish : Pool Uuid)
    (trace : List (Int × Act Uuid)) (hstart : start.Starts)
    (run : Run (ApartStep registered) start trace finish) :
    finish.Exclusive ∧
      ((∀ row ∈ start.table, row.status = TaskStatus.pending.toStr ∧ row.locked = false) →
        (∀ label ∈ trace, Posts label.2) →
        ∀ label after, Step registered finish label after →
          (after.Exclusive ↔ Apart label.2)) := by
  have hgood : finish.Good ∧ Recorded finish.table finish.log := by
    refine run.invariant (fun pool => pool.Good ∧ Recorded pool.table pool.log) ?_ ?_
    · refine ⟨starts_good hstart, ?_, ?_, ?_⟩ <;> simp [hstart.2.2]
    · rintro before label after ⟨good, recorded⟩ ⟨step, hapart⟩
      obtain ⟨events, hlog, effect⟩ := step_effect good.ids step
      exact ⟨step_good good step, hlog ▸ recorded.step good.ids effect hapart⟩
  refine ⟨hgood.2.exclusive, ?_⟩
  intro hnew hposts label after step
  have hexplained : finish.Good ∧ Explained finish.table finish.log := by
    refine (run.restrict hposts).invariant
      (fun pool => pool.Good ∧ Explained pool.table pool.log) ?_ ?_
    · refine ⟨starts_good hstart, ?_, ?_⟩
      · intro row hrow h
        rw [(hnew row hrow).2] at h
        cases h
      · exact fun row hrow h => absurd (hnew row hrow).1 h
    · rintro before label after ⟨good, explained⟩ ⟨⟨step, _⟩, hposts⟩
      obtain ⟨events, hlog, effect⟩ := step_effect good.ids step
      exact ⟨step_good good step, hlog ▸ explained.step effect hposts⟩
  obtain ⟨events, hlog, effect⟩ := step_effect hgood.1.ids step
  unfold Exclusive
  rw [hlog]
  exact ⟨hexplained.2.apart effect,
    fun hapart => (hgood.2.step hgood.1.ids effect hapart).exclusive⟩

-- One task, posted and returned by `get_next_task`.
theorem posted_polled (row : Row Nat) (hrow : row = ⟨1, "add".toList, .null,
      TaskStatus.pending.toStr, 0, none, none, false⟩) :
    ∃ (start polled : Pool Nat) (trace : List (Int × Act Nat)), start.Starts ∧ start.table = [] ∧
      Run (ApartStep fun _ => true) start trace polled ∧ (∀ label ∈ trace, Posts label.2) ∧
      polled.table = [{ row with locked := true }] ∧ polled.log = [.gotNext row.id] := by
  let task : QueuedTask Nat := .new 1 0 "add".toList .null
  let start : Pool Nat := ⟨[], fun _ => .polling, []⟩
  let posted := start.insert task
  have htable : posted.table = [row] := by
    rw [hrow]
    decide +kernel
  have hids : (posted.table.map Row.id).Nodup := by simp [htable]
  have hmem : row ∈ posted.table := by simp [htable]
  have hselects : Selects isUnlocked posted.table (some row) :=
    mem_earliest.mpr ⟨hmem, by rw [hrow]; rfl, by simp [htable]⟩
  have hstart : start.Starts := ⟨List.nodup_nil, fun _ => rfl, rfl⟩
  have hpending : row.status = TaskStatus.pending.toStr := by rw [hrow]
  have hrun : Run (ApartStep fun _ => true) start [(0, .insert task), (0, .poll 0 (some row))]
      (posted.poll 0 (some row)) :=
    .snoc (.snoc .nil ⟨.insert 0 task, trivial⟩) ⟨.poll 0 0 (some row) rfl hselects, hpending⟩
  obtain ⟨hlog, hpolled⟩ := poll_eq posted 0 (some row)
  have hfetch := fetch_some posted hids hmem
  refine ⟨start, _, _, hstart, rfl, hrun, ?_, ?_, ?_⟩
  · intro label hlabel
    rcases List.mem_cons.mp hlabel with rfl | hlabel
    · exact ⟨rfl, rfl⟩
    · obtain rfl := List.mem_singleton.mp hlabel
      exact trivial
  · rw [hpolled, hfetch, htable]
    simp [Table.update]
  · rw [hlog, hfetch]
    rfl

theorem procedures_exclusive_polled : ∃ finish : Pool Nat, finish.log = [.gotNext 1] ∧
    finish.Exclusive ∧ ∀ label after, Step (fun _ => true) finish label after →
      (after.Exclusive ↔ Apart label.2) := by
  obtain ⟨start, finish, trace, hstart, hempty, hrun, hposts, _, hlog⟩ := posted_polled _ rfl
  obtain ⟨hexclusive, hiff⟩ := procedures_exclusive _ start finish trace hstart hrun
  exact ⟨finish, hlog, hexclusive, hiff (by simp [hempty]) hposts⟩

-- The same task comes out of `claim_task` as well: it is still pending.
theorem procedures_exclusive_claimed : ∃ (start finish : Pool Nat) (trace : List (Int × Act Nat)),
    start.Starts ∧ Run (Step fun _ => true) start trace finish ∧
      .gotNext 1 ∈ finish.log ∧ .claimed 1 ∈ finish.log ∧ ¬finish.Exclusive := by
  let row : Row Nat := ⟨1, "add".toList, .null, TaskStatus.pending.toStr, 0, none, none, false⟩
  let locked : Row Nat := { row with locked := true }
  obtain ⟨start, polled, trace, hstart, _, hrun, _, htable, hlog⟩ := posted_polled row rfl
  have hids : (polled.table.map Row.id).Nodup := by simp [htable]
  have hmem : locked ∈ polled.table := by simp [htable, locked]
  have hselects : Selects (isPending "add".toList) polled.table (some locked) := by
    refine mem_earliest.mpr ⟨hmem, ?_, by simp [htable, locked]⟩
    exact decide_eq_true ⟨rfl, rfl⟩
  have hrun' : Run (Step fun _ => true) start trace polled := hrun.mono fun _ _ _ h => h.1
  have hclaimed : ∃ events, (polled.claim 0 (some locked)).log =
      events ++ [.claimed 1, .gotNext 1] := by
    simp only [Pool.claim, claimTask, updateChosen_some hids hmem, hlog]
    exact ⟨_, rfl⟩
  obtain ⟨events, hevents⟩ := hclaimed
  refine ⟨start, _, _, hstart, .snoc hrun' (.claim 0 "add".toList (some locked) hselects), ?_, ?_, ?_⟩
  · simp [hevents]
  · simp [hevents]
  · intro hexclusive
    unfold Exclusive at hexclusive
    rw [hevents] at hexclusive
    have hlater := (List.pairwise_append.mp hexclusive).2.1
    exact (List.pairwise_cons.mp hlater).1 _ (List.mem_singleton_self _) rfl

end Pool

end Saps.Tasks
