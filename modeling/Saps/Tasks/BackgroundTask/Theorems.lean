import Saps.Tasks.BackgroundTask
import Saps.Tasks.Pool.Theorems
import Mathlib.Data.List.Induction

namespace Saps.Tasks

open Auth (Jsonb)
open Transition

namespace FnArg

-- Packaging adds the fields of its inputs and touches no other.
theorem packageInputs_other (inputs : List FnArg) (args : Args inputs)
    (map fields : List (Str × Jsonb)) (h : packageInputs inputs args map = .ok fields) (name : Str)
    (hname : name ∉ names inputs) : fields.lookup name = map.lookup name := by
  induction inputs generalizing map with
  | nil => rw [← Except.ok.inj h]
  | cons input inputs ih =>
      cases input with
      | other Ty =>
          obtain ⟨arg, args⟩ := args
          exact ih args map h hname
      | ident name' Ty serde =>
          obtain ⟨arg, args⟩ := args
          rw [packageInputs] at h
          cases hvalue : serde.toValue arg with
          | error e =>
              rw [hvalue] at h
              cases h
          | ok value =>
              rw [hvalue] at h
              obtain ⟨hne, hrest⟩ := not_or.mp (mt List.mem_cons.mpr hname)
              rw [ih args _ h hrest, Jsonb.lookup_setField_ne hne]

-- What is extracted is what was packaged.
theorem extractInputs_packageInputs (inputs : List FnArg) (hdistinct : (names inputs).Nodup)
    (args : Args inputs) (map fields : List (Str × Jsonb))
    (h : packageInputs inputs args map = .ok fields) :
    extractInputs inputs (.object fields) = .ok (locals inputs args) := by
  induction inputs generalizing map with
  | nil => rfl
  | cons input inputs ih =>
      cases input with
      | other Ty =>
          obtain ⟨arg, args⟩ := args
          exact ih hdistinct args map h
      | ident name Ty serde =>
          obtain ⟨arg, args⟩ := args
          obtain ⟨hnew, hrest⟩ := List.nodup_cons.mp hdistinct
          rw [packageInputs] at h
          cases hvalue : serde.toValue arg with
          | error e =>
              rw [hvalue] at h
              cases h
          | ok value =>
              rw [hvalue] at h
              have hfield : (Jsonb.object fields).get name = some value := by
                rw [Jsonb.get, packageInputs_other inputs args _ fields h name hnew,
                  Jsonb.lookup_setField]
              simp only [extractInputs, hfield, serde.fromValue_toValue arg value hvalue,
                ih hrest args _ h]
              rfl

end FnArg

namespace Registry

theorem ofTasks_append (tasks : List BackgroundTask) (last : BackgroundTask) :
    ofTasks (tasks ++ [last]) = Function.update (ofTasks tasks) last.name (some last) := by
  rw [ofTasks, List.foldl_append]
  rfl

-- Where no two functions share a name, a name leads to its function.
theorem ofTasks_mem {tasks : List BackgroundTask}
    (hnames : (tasks.map BackgroundTask.name).Nodup) {task : BackgroundTask} (h : task ∈ tasks) :
    ofTasks tasks task.name = some task := by
  induction tasks using List.reverseRecOn with
  | nil => cases h
  | append_singleton tasks last ih =>
      rw [List.map_append, List.nodup_append] at hnames
      rw [ofTasks_append]
      rcases List.mem_append.mp h with hmem | hlast
      · have hne : task.name ≠ last.name :=
          hnames.2.2 _ (List.mem_map_of_mem hmem) _ (List.mem_singleton_self _)
        rw [Function.update_of_ne hne]
        exact ih hnames.1 hmem
      · rw [List.mem_singleton.mp hlast, Function.update_self]

end Registry

variable {Uuid : Type} [DecidableEq Uuid]

-- The columns of a job that nothing changes once it is in the queue.
def SameJob (row left : Row Uuid) : Prop :=
  left.id = row.id ∧ left.functionName = row.functionName ∧ left.params = row.params

namespace Pool

-- What a step that inserts nothing and looks nothing up leaves as it was.
structure Continues (before after : Pool Uuid) : Prop where
  rows : ∀ left ∈ after.table, ∃ row ∈ before.table, SameJob row left
  ids : after.table.map Row.id = before.table.map Row.id
  workers : ∀ worker task, (after.workers worker).task = some task →
    (before.workers worker).task = some task ∨ ∃ row ∈ before.table, task.id = row.id ∧
      task.functionName = row.functionName ∧ task.params = row.params
  started : after.startedIds = before.startedIds
  missed : ∀ task row, .ended task none row ∈ after.log → .ended task none row ∈ before.log

theorem update_rows (id : Uuid) {change : Row Uuid → Row Uuid}
    (hchange : ∀ row, SameJob row (change row)) (table : QueuedTasks Uuid) :
    (∀ left ∈ Table.update Row.id id change table, ∃ row ∈ table, SameJob row left) ∧
      (Table.update Row.id id change table).map Row.id = table.map Row.id := by
  refine ⟨?_, Table.update_keys id (fun row => (hchange row).1) table⟩
  intro left hleft
  rcases Table.mem_update.mp hleft with ⟨row, hrow, _, rfl⟩ | ⟨hmem, _⟩
  · exact ⟨row, hrow, hchange row⟩
  · exact ⟨left, hmem, rfl, rfl, rfl⟩

theorem updateChosen_rows (chosen : Option (Row Uuid)) {change : Row Uuid → Row Uuid}
    (hchange : ∀ row, SameJob row (change row)) (table : QueuedTasks Uuid) :
    (∀ left ∈ (updateChosen chosen change table).2, ∃ row ∈ table, SameJob row left) ∧
      (updateChosen chosen change table).2.map Row.id = table.map Row.id := by
  cases chosen with
  | none => exact ⟨fun row hrow => ⟨row, hrow, rfl, rfl, rfl⟩, rfl⟩
  | some row => exact update_rows row.id hchange table

-- An event that starts nothing and misses nothing.
def Quiet (event : Event Uuid) : Prop :=
  event.startedId = none ∧ ∀ task row, event ≠ .ended task none row

theorem moves_quiet (before after : QueuedTasks Uuid) (id : Uuid) :
    ∀ event ∈ moves before after id, Quiet event := by
  intro event hevent
  unfold moves at hevent
  split at hevent
  · rw [List.mem_singleton.mp hevent]
    exact ⟨rfl, fun _ _ h => by cases h⟩
  · cases hevent

variable {pool mid after : Pool Uuid}

omit [DecidableEq Uuid] in
theorem sameTable (table : QueuedTasks Uuid) : (∀ left ∈ table, ∃ row ∈ table, SameJob row left) ∧
    table.map Row.id = table.map Row.id :=
  ⟨fun row hrow => ⟨row, hrow, rfl, rfl, rfl⟩, rfl⟩

omit [DecidableEq Uuid] in
theorem Continues.refl (pool : Pool Uuid) : Continues pool pool :=
  ⟨(sameTable pool.table).1, rfl, fun _ _ h => .inl h, rfl, fun _ _ h => h⟩

omit [DecidableEq Uuid] in
theorem Continues.trans (first : Continues pool mid) (second : Continues mid after) :
    Continues pool after := by
  have hback : ∀ row ∈ mid.table, ∃ before ∈ pool.table, SameJob before row := first.rows
  refine ⟨?_, second.ids.trans first.ids, ?_, second.started.trans first.started,
    fun task row h => first.missed task row (second.missed task row h)⟩
  · intro left hleft
    obtain ⟨row, hrow, hid, hname, hparams⟩ := second.rows left hleft
    obtain ⟨before, hbefore, hid', hname', hparams'⟩ := hback row hrow
    exact ⟨before, hbefore, hid.trans hid', hname.trans hname', hparams.trans hparams'⟩
  · intro worker task h
    rcases second.workers worker task h with hheld | ⟨row, hrow, hid, hname, hparams⟩
    · exact first.workers worker task hheld
    · obtain ⟨before, hbefore, hid', hname', hparams'⟩ := hback row hrow
      exact .inr ⟨before, hbefore, hid.trans hid', hname.trans hname', hparams.trans hparams'⟩

omit [DecidableEq Uuid] in
-- A statement on the table.
theorem Continues.of_table {table : QueuedTasks Uuid}
    (htable : (∀ left ∈ table, ∃ row ∈ pool.table, SameJob row left) ∧
      table.map Row.id = pool.table.map Row.id) {events log : List (Event Uuid)}
    (hlog : log = events ++ pool.log) (hevents : ∀ event ∈ events, Quiet event) :
    Continues pool { pool with table := table, log := log } := by
  refine ⟨htable.1, htable.2, fun _ _ h => .inl h, ?_, ?_⟩
  · have hnone : events.filterMap Event.startedId = [] := by
      rw [List.filterMap_eq_nil_iff]
      exact fun event hevent => (hevents event hevent).1
    simp only [startedIds, hlog, List.filterMap_append, hnone, List.nil_append]
  · intro task row h
    rw [hlog] at h
    rcases List.mem_append.mp h with hnew | hold
    · exact absurd rfl ((hevents _ hnew).2 task row)
    · exact hold

omit [DecidableEq Uuid] in
-- A worker that goes on with its task, or lets go of it.
theorem Continues.enter {worker : Nat} {phase : Phase Uuid}
    (h : ∀ task, phase.task = some task → (pool.workers worker).task = some task ∨
      ∃ row ∈ pool.table, task.id = row.id ∧ task.functionName = row.functionName ∧
        task.params = row.params) : Continues pool (pool.enter worker phase) := by
  refine ⟨fun row hrow => ⟨row, hrow, rfl, rfl, rfl⟩, rfl, ?_, rfl, fun _ _ h => h⟩
  intro other task htask
  by_cases hother : other = worker
  · subst hother
    rw [enter_self] at htask
    exact h task htask
  · rw [enter_other pool hother] at htask
    exact .inl htask

theorem claim_continues (pool : Pool Uuid) (now : Int) (chosen : Option (Row Uuid)) :
    Continues pool (pool.claim now chosen) := by
  have htable := updateChosen_rows chosen
    (fun row => (⟨rfl, rfl, rfl⟩ : SameJob row { row with
      status := TaskStatus.inProgress.toStr, timeStarted := some now })) pool.table
  unfold Pool.claim
  dsimp only
  split
  · next row _ =>
      refine .of_table htable (List.append_cons _ _ _) ?_
      intro event hevent
      rcases List.mem_append.mp hevent with hmoved | hclaimed
      · exact moves_quiet _ _ _ event hmoved
      · rw [List.mem_singleton.mp hclaimed]
        exact ⟨rfl, fun _ _ h => by cases h⟩
  · exact .of_table htable (List.nil_append _).symm fun _ h => by cases h

theorem mark_continues (pool : Pool Uuid) (status : TaskStatus) (now : Int) (id : Uuid) :
    Continues pool (pool.mark status now id) := by
  have htable := update_rows id (fun row => (⟨rfl, rfl, rfl⟩ : SameJob row { row with
    status := status.toStr, timeFinished := some now })) pool.table
  by_cases hid : id ∈ pool.table.map Row.id
  · rw [mark_some pool status now hid]
    refine .of_table htable (List.append_cons _ _ _) ?_
    intro event hevent
    rcases List.mem_append.mp hevent with hmoved | hmarked
    · exact moves_quiet _ _ _ event hmoved
    · rw [List.mem_singleton.mp hmarked]
      exact ⟨rfl, fun _ _ h => by cases h⟩
  · rw [mark_none pool status now hid]
    exact .refl pool

theorem fetch_continues (pool : Pool Uuid) (chosen : Option (Row Uuid)) :
    Continues pool (pool.fetch chosen) := by
  have htable := updateChosen_rows chosen
    (fun row => (⟨rfl, rfl, rfl⟩ : SameJob row { row with locked := true })) pool.table
  unfold Pool.fetch
  split
  · next row table hnext =>
      have heq : table = (getNextTask chosen pool.table).2 := by rw [hnext]
      rw [heq]
      refine .of_table htable List.singleton_append.symm ?_
      intro event hevent
      rw [List.mem_singleton.mp hevent]
      exact ⟨rfl, fun _ _ h => by cases h⟩
  · next table hnext =>
      have heq : table = (getNextTask chosen pool.table).2 := by rw [hnext]
      rw [heq]
      exact .of_table htable (List.nil_append _).symm fun _ h => by cases h

theorem conclude_continues (pool : Pool Uuid) (worker : Nat) (task : QueuedTask Uuid)
    (outcome : Outcome) : Continues pool (pool.conclude worker task (some outcome)) := by
  have hentered : Continues pool (pool.enter worker .polling) := .enter fun _ h => by cases h
  have hended : Continues (pool.enter worker .polling) (pool.conclude worker task (some outcome)) := by
    refine Continues.of_table (sameTable (pool.enter worker .polling).table) List.singleton_append.symm ?_
    intro event hevent
    rw [List.mem_singleton.mp hevent]
    exact ⟨rfl, fun _ _ h => by cases h⟩
  exact hentered.trans hended

-- A poll takes one row of the table and gives it to its worker.
theorem poll_continues (good : pool.Good) (worker : Nat) {chosen : Option (Row Uuid)}
    (hselects : Selects isUnlocked pool.table chosen) : Continues pool (pool.poll worker chosen) := by
  have hfetched := fetch_continues pool chosen
  unfold Pool.poll
  split
  · next task hanswer =>
      obtain ⟨row, rfl, hrow, hparse⟩ := getNext_some good.ids hselects hanswer
      obtain ⟨_, _, rfl⟩ := fromRow_id hparse
      have hmem : row ∈ pool.table := (mem_earliest.mp hrow).1
      refine ⟨hfetched.rows, hfetched.ids, ?_, hfetched.started, hfetched.missed⟩
      intro other task' h
      by_cases hother : other = worker
      · subst hother
        rw [enter_self] at h
        obtain rfl := Option.some.inj h
        exact .inr ⟨row, hmem, rfl, rfl, rfl⟩
      · rw [enter_other _ hother] at h
        exact hfetched.workers other task' h
  · exact hfetched
  · exact hfetched

theorem step_continues (good : pool.Good) {registered : Str → Bool} {now : Int} {act : Act Uuid}
    (step : Step registered pool (now, act) after) (hother : Application.isOther act = true) :
    Continues pool after := by
  cases step with
  | insert => cases hother
  | lookUp => cases hother
  | claim now functionName chosen hselects => exact claim_continues pool now chosen
  | mark now status id hterminal => exact mark_continues pool status now id
  | poll now worker chosen hworker hselects => exact poll_continues good worker hselects
  | pollFails now worker ran hworker hselects => exact fetch_continues pool ran
  | finish now worker task outcome hworker =>
      refine .enter fun task' h => .inl ?_
      rw [hworker]
      exact h
  | record now worker task outcome hworker =>
      unfold Pool.record
      cases outcome with
      | returned result =>
          exact (mark_continues pool .completed now task.id).trans (conclude_continues _ worker task _)
      | panicked =>
          exact (mark_continues pool .exited now task.id).trans (conclude_continues _ worker task _)
  | recordFails now worker task outcome hworker => exact conclude_continues pool worker task outcome

end Pool

namespace Application

-- The job is a call, packaged.
def Sent (posted : List (Posted Uuid)) (id : Uuid) (functionName : Str) (params : Jsonb) : Prop :=
  ∃ sent ∈ posted, sent.id = id ∧ sent.task.name = functionName ∧
    ∃ map, FnArg.packageInputs sent.task.inputs sent.args [] = .ok map ∧ params = .object map

structure Delivers (tasks : List BackgroundTask) (app : Application Uuid) : Prop where
  good : app.pool.Good
  rows : ∀ row ∈ app.pool.table, Sent app.posted row.id row.functionName row.params
  held : ∀ worker task, (app.pool.workers worker).task = some task →
    Sent app.posted task.id task.functionName task.params
  known : ∀ sent ∈ app.posted, sent.task ∈ tasks ∧ sent.id ∈ app.pool.table.map Row.id
  once : (app.posted.map Posted.id).Nodup
  ran : ∀ ran ∈ app.ran, ∃ sent ∈ app.posted,
    ran = ⟨sent.id, sent.task, .ok (FnArg.locals sent.task.inputs sent.args)⟩
  ranIds : app.ran.map Ran.id = app.pool.startedIds
  found : ∀ task row, .ended task none row ∉ app.pool.log

variable {tasks : List BackgroundTask} {app : Application Uuid}

omit [DecidableEq Uuid] in
theorem Sent.mono {posted more : List (Posted Uuid)} (hmore : ∀ sent ∈ posted, sent ∈ more)
    {id : Uuid} {functionName : Str} {params : Jsonb} (h : Sent posted id functionName params) :
    Sent more id functionName params := by
  obtain ⟨sent, hsent, hjob⟩ := h
  exact ⟨sent, hmore sent hsent, hjob⟩

omit [DecidableEq Uuid] in
theorem Delivers.other (delivers : Delivers tasks app) {after : Pool Uuid} (good : after.Good)
    (continues : app.pool.Continues after) : Delivers tasks { app with pool := after } := by
  have hrow : ∀ row ∈ app.pool.table, ∀ left, SameJob row left →
      Sent app.posted left.id left.functionName left.params := by
    intro row hrow left ⟨hid, hname, hparams⟩
    rw [hid, hname, hparams]
    exact delivers.rows row hrow
  refine ⟨good, ?_, ?_, ?_, delivers.once, delivers.ran, ?_, ?_⟩
  · intro left hleft
    obtain ⟨row, hmem, hsame⟩ := continues.rows left hleft
    exact hrow row hmem left hsame
  · intro worker task h
    rcases continues.workers worker task h with hheld | ⟨row, hmem, hid, hname, hparams⟩
    · exact delivers.held worker task hheld
    · rw [hid, hname, hparams]
      exact delivers.rows row hmem
  · intro sent hsent
    rw [continues.ids]
    exact delivers.known sent hsent
  · rw [continues.started]
    exact delivers.ranIds
  · exact fun task row h => delivers.found task row (continues.missed task row h)

-- The row is there afterwards, or nothing is.
theorem insert_cases (task : QueuedTask Uuid) (table : QueuedTasks Uuid) :
    (∃ e, insertBackgroundTask task table = (.error e, table)) ∨
      ∃ row, insertBackgroundTask task table = (.ok true, row :: table) ∧ row.id = task.id ∧
        row.functionName = task.functionName ∧ row.params = task.params ∧
        task.id ∉ table.map Row.id := by
  unfold insertBackgroundTask
  by_cases hlong : 255 < task.functionName.length
  · exact .inl ⟨_, if_pos hlong⟩
  · by_cases hid : task.id ∈ table.map Row.id
    · exact .inl ⟨_, by rw [if_neg hlong, if_pos hid]⟩
    · exact .inr ⟨_, by rw [if_neg hlong, if_neg hid], rfl, rfl, rfl, hid⟩

theorem Delivers.call (delivers : Delivers tasks app) {task : BackgroundTask} (htask : task ∈ tasks)
    {args : FnArg.Args task.inputs} {fresh : Uuid} {now : Int} {row : QueuedTask Uuid}
    (hrow : task.queued fresh now args = .ok row) : Delivers tasks (app.call task args row) := by
  have hgood : (app.pool.insert row).Good := delivers.good.insert row
  rcases insert_cases row app.pool.table with ⟨e, hfail⟩ | ⟨posted, hinsert, hid, hname, hparams, hnew⟩
  · have hsame : app.pool.insert row = app.pool := by rw [Pool.insert, hfail]
    have hcall : app.call task args row = app := by simp only [Application.call, hfail, hsame]
    rw [hcall]
    exact delivers
  · have hpool : app.pool.insert row = { app.pool with table := posted :: app.pool.table } := by
      rw [Pool.insert, hinsert]
    have hcall : app.call task args row = { app with
        pool := { app.pool with table := posted :: app.pool.table }
        posted := ⟨row.id, task, args⟩ :: app.posted } := by
      simp only [Application.call, hinsert, hpool]
    rw [hpool] at hgood
    rw [hcall]
    have hmore : ∀ sent ∈ app.posted, sent ∈ (⟨row.id, task, args⟩ : Posted Uuid) :: app.posted :=
      fun _ h => List.mem_cons_of_mem _ h
    refine ⟨hgood, ?_, fun worker held h => (delivers.held worker held h).mono hmore, ?_, ?_, ?_,
      delivers.ranIds, delivers.found⟩
    · intro left hleft
      rcases List.mem_cons.mp hleft with rfl | hold
      · unfold BackgroundTask.queued at hrow
        cases hmap : FnArg.packageInputs task.inputs args [] with
        | error e =>
            rw [hmap] at hrow
            cases hrow
        | ok map =>
            rw [hmap] at hrow
            obtain rfl := Except.ok.inj hrow
            exact ⟨_, List.mem_cons_self, hid.symm, hname.symm, map, hmap, hparams⟩
      · exact (delivers.rows left hold).mono hmore
    · intro sent hsent
      rcases List.mem_cons.mp hsent with rfl | hold
      · exact ⟨htask, List.mem_map.mpr ⟨posted, List.mem_cons_self, hid⟩⟩
      · obtain ⟨hmem, hrowed⟩ := delivers.known sent hold
        exact ⟨hmem, List.mem_cons_of_mem _ hrowed⟩
    · refine List.nodup_cons.mpr ⟨?_, delivers.once⟩
      intro hmem
      obtain ⟨sent, hsent, hsame⟩ := List.mem_map.mp hmem
      have hid' : sent.id = row.id := hsame
      exact hnew (hid' ▸ (delivers.known sent hsent).2)
    · intro ran hran
      obtain ⟨sent, hsent, heq⟩ := delivers.ran ran hran
      exact ⟨sent, hmore sent hsent, heq⟩

theorem Delivers.lookUp (delivers : Delivers tasks app)
    (hnames : (tasks.map BackgroundTask.name).Nodup) {worker : Nat} {task : QueuedTask Uuid}
    (hworker : app.pool.workers worker = .taken task) : Delivers tasks { app with
      pool := app.pool.lookUp (fun name => (Registry.ofTasks tasks name).isSome) worker task
      ran := run (Registry.ofTasks tasks) task app } := by
  have hgood := delivers.good.lookUp (fun name => (Registry.ofTasks tasks name).isSome) hworker
  obtain ⟨sent, hsent, hid, hname, map, hmap, hparams⟩ :=
    delivers.held worker task (by rw [hworker]; rfl)
  have hhandler : Registry.ofTasks tasks task.functionName = some sent.task := by
    rw [← hname]
    exact Registry.ofTasks_mem hnames (delivers.known sent hsent).1
  have hcore : sent.task.core task.params =
      .ok (FnArg.locals sent.task.inputs sent.args) := by
    rw [BackgroundTask.core, hparams]
    exact FnArg.extractInputs_packageInputs _ sent.task.distinct sent.args [] map hmap
  simp only [Pool.lookUp, run, hhandler, Option.isSome_some, ite_true, hcore] at hgood ⊢
  have hentered : app.pool.Continues (app.pool.enter worker (.running task)) := by
    refine .enter fun task' h => .inl ?_
    rw [hworker]
    exact h
  refine ⟨hgood, delivers.rows, (delivers.other ?_ hentered).held, delivers.known, delivers.once,
    ?_, ?_, ?_⟩
  · exact delivers.good.enter (.inr (by rw [hworker]; rfl)) fun _ h => by cases h
  · intro ran hran
    rcases List.mem_cons.mp hran with rfl | hold
    · exact ⟨sent, hsent, by rw [hid]⟩
    · exact delivers.ran ran hold
  · exact congrArg (task.id :: ·) delivers.ranIds
  · intro task' row h
    rcases List.mem_cons.mp h with heq | hold
    · cases heq
    · exact delivers.found task' row hold

theorem step_delivers (hnames : (tasks.map BackgroundTask.name).Nodup)
    {before after : Application Uuid} {label : Int × Act Uuid} (delivers : Delivers tasks before)
    (step : Step tasks before label after) : Delivers tasks after := by
  cases step with
  | call now task args fresh row htask hrow => exact delivers.call htask hrow
  | lookUp now worker task hworker => exact delivers.lookUp hnames hworker
  | other now act after hother hstep =>
      exact delivers.other (Pool.step_good delivers.good hstep)
        (Pool.step_continues delivers.good hstep hother)

-- `add` with two numbers.
def readInt : Jsonb → Except Str Int
  | .number value =>
    if value.den = 1 then .ok value.num else .error "invalid type: floating point".toList
  | _ => .error "invalid type".toList

def intSerde : Serde Int :=
  ⟨fun arg => .ok (.number arg), readInt, fun arg value h => by
    rw [← Except.ok.inj h]
    rfl⟩

def addTask : BackgroundTask :=
  ⟨"add".toList, [.ident ['a'] Int intSerde, .ident ['b'] Int intSerde], by decide +kernel,
    by decide +kernel⟩

def addMap : List (Str × Jsonb) :=
  [(['a'], .number (2 : Int)), (['b'], .number (3 : Int))]

theorem queued_add : addTask.queued 1 0 ((2, 3, ()) : Int × Int × Unit) =
    .ok (QueuedTask.new 1 0 "add".toList (.object addMap)) := by
  have hfields : Jsonb.setField ['b'] (.number (3 : Int)) [(['a'], .number (2 : Int))] = addMap := by
    decide +kernel
  rw [← hfields]
  rfl

end Application

end Saps.Tasks
