import Saps.Scheduled.Scheduler

namespace Saps.Scheduled

open Transition

variable {Uuid : Type}

theorem isDue_iff {now : Int} {row : ScheduledTask Uuid} :
    isDue now row = true ↔ row.locked = false ∧ ∃ time, row.timeScheduled = some time ∧ time ≤ now := by
  simp [isDue, Option.any_eq_true]

theorem mem_insertScheduledTask (task : ScheduledTask Uuid) {schedules : Schedules Uuid}
    {row : ScheduledTask Uuid} (hrow : row ∈ schedules.rows) :
    row ∈ (insertScheduledTask task schedules).2.rows := by
  unfold insertScheduledTask
  split
  · exact hrow
  · split
    · exact hrow
    · dsimp only
      split
      · exact hrow
      · exact List.mem_cons_of_mem _ hrow

-- The occurrence that a post has put on the queue.
def Post.occurrence (post : Post Uuid) : Option (Int × Option Int) :=
  match post.result with
  | .ok _ => some (post.claimed.id, post.claimed.timeScheduled)
  | .error _ => none

-- What the cron of a task gives for a time at which it was due.
def Moves (cron : Cron) (task : ScheduledTask Uuid) (timeScheduled : Option Int) : Prop :=
  ∃ upcoming asked, cron task.cronString = .ok upcoming ∧
    (∀ time ∈ task.timeScheduled, time ≤ asked) ∧ timeScheduled = upcoming asked

-- What a post does to the two tables. The row moves on to what its cron gives.
def Post.Right (cron : Cron) (post : Post Uuid) : Prop :=
  match post.result with
  | .ok answer => answer = true ∧ post.claimed ∈ post.before.schedules.rows ∧
    ∃ queued left time, post.after.queue = queued :: post.before.queue ∧
      queued.functionName = post.claimed.functionName ∧ queued.params = post.claimed.params ∧
      left ∈ post.after.schedules.rows ∧ left.id = post.claimed.id ∧
      post.claimed.timeScheduled = some time ∧ Moves cron post.claimed left.timeScheduled ∧
      ∀ next ∈ left.timeScheduled, time < next
  | .error _ => post.after = post.before

-- The queue takes no row of such a name, and no second one of an id.
def Refused (queue : Tasks.QueuedTasks Uuid) (queuedId : Uuid) (task : ScheduledTask Uuid) : Prop :=
  255 < task.functionName.length ∨ queuedId ∈ queue.map Tasks.Row.id

-- The schedule has moved on since it was due at `time`.
def Passed (rows : List (ScheduledTask Uuid)) (id time : Int) : Prop :=
  ∃ row ∈ rows, row.id = id ∧ ∀ next ∈ row.timeScheduled, time < next

-- What an instance relies on while it has a row.
structure Claimed (rows : List (ScheduledTask Uuid)) (clock : Int) (task : ScheduledTask Uuid) :
    Prop where
  mem : task ∈ rows
  locked : task.locked = true
  due : ∃ time, task.timeScheduled = some time ∧ time ≤ clock

-- What is going to be written for a task.
structure Updated (cron : Cron) (task updated : ScheduledTask Uuid) : Prop where
  id : updated.id = task.id
  functionName : updated.functionName = task.functionName
  params : updated.params = task.params
  moves : Moves cron task updated.timeScheduled

def Phase.Ready (cron : Cron) : Phase Uuid → Prop
  | .computed _ task updated _ => Updated cron task updated
  | _ => True

theorem Moves.later {cron : Cron} (hcron : cron.Strict) {task : ScheduledTask Uuid}
    {timeScheduled : Option Int} (h : Moves cron task timeScheduled) {time : Int}
    (htime : task.timeScheduled = some time) : ∀ next ∈ timeScheduled, time < next := by
  obtain ⟨upcoming, asked, hparse, hasked, rfl⟩ := h
  intro next hnext
  exact (hasked time htime).trans_lt (hcron _ _ _ _ hparse hnext)

theorem Claimed.later {rows : List (ScheduledTask Uuid)} {clock later : Int}
    {task : ScheduledTask Uuid} (claimed : Claimed rows clock task) (h : clock ≤ later) :
    Claimed rows later task := by
  obtain ⟨time, htime, hle⟩ := claimed.due
  exact ⟨claimed.mem, claimed.locked, time, htime, hle.trans h⟩

namespace System

structure Good (cron : Cron) (system : System Uuid) : Prop where
  ids : (system.store.schedules.rows.map ScheduledTask.id).Nodup
  held : ∀ actor, ∀ task ∈ (system.instances actor).held,
    Claimed system.store.schedules.rows system.clock task
  apart : ∀ actor other, ∀ task ∈ (system.instances actor).held,
    ∀ task' ∈ (system.instances other).held, task.id = task'.id → actor = other
  distinct : ∀ actor, ((system.instances actor).held.map ScheduledTask.id).Nodup
  ready : ∀ actor, (system.instances actor).Ready cron
  passed : ∀ id time, (id, some time) ∈ system.log.filterMap Post.occurrence →
    Passed system.store.schedules.rows id time
  once : (system.log.filterMap Post.occurrence).Nodup
  right : ∀ post ∈ system.log, post.Right cron

variable {cron : Cron} {system : System Uuid}

-- A step that keeps every locked row as it is and every schedule on its time.
theorem Good.follow (good : system.Good cron) {store : Store Uuid} {clock : Int} {generation : Nat}
    (hids : (store.schedules.rows.map ScheduledTask.id).Nodup)
    (hlocked : ∀ row ∈ system.store.schedules.rows, row.locked = true → row ∈ store.schedules.rows)
    (htimes : ∀ row ∈ system.store.schedules.rows, ∃ left ∈ store.schedules.rows,
      left.id = row.id ∧ left.timeScheduled = row.timeScheduled)
    (hclock : system.clock ≤ clock) :
    Good cron { system with store := store, clock := clock, generation := generation } := by
  refine ⟨hids, ?_, good.apart, good.distinct, good.ready, ?_, good.once, good.right⟩
  · intro actor task htask
    have claimed := good.held actor task htask
    exact (Claimed.mk (hlocked task claimed.mem claimed.locked) claimed.locked claimed.due).later
      hclock
  · intro id time h
    obtain ⟨row, hrow, rfl, hnext⟩ := good.passed id time h
    obtain ⟨left, hleft, hid, htime⟩ := htimes row hrow
    exact ⟨left, hleft, hid, htime ▸ hnext⟩

@[simp] theorem enter_self (system : System Uuid) (actor : Nat) (phase : Phase Uuid) :
    (system.enter actor phase).instances actor = phase :=
  Function.update_self _ _ _

theorem enter_other (system : System Uuid) {actor other : Nat} (h : other ≠ actor)
    (phase : Phase Uuid) : (system.enter actor phase).instances other = system.instances other :=
  Function.update_of_ne h _ _

-- An instance that goes on with some of its rows.
theorem Good.enter (good : system.Good cron) {actor : Nat} {phase : Phase Uuid}
    (hheld : phase.held.Sublist (system.instances actor).held) (hready : phase.Ready cron) :
    (system.enter actor phase).Good cron := by
  have hkept : ∀ other, ((system.enter actor phase).instances other).held.Sublist
      (system.instances other).held := by
    intro other
    by_cases hother : other = actor
    · rw [hother, enter_self]
      exact hheld
    · rw [enter_other _ hother]
  refine ⟨good.ids, ?_, ?_, ?_, ?_, good.passed, good.once, good.right⟩
  · exact fun other task h => good.held other task ((hkept other).subset h)
  · intro other other' task h task' h' hid
    exact good.apart other other' task ((hkept other).subset h) task' ((hkept other').subset h') hid
  · exact fun other => ((hkept other).map _).nodup (good.distinct other)
  · intro other
    by_cases hother : other = actor
    · rw [hother, enter_self]
      exact hready
    · rw [enter_other _ hother]
      exact good.ready other

-- A row that is claimed has not been with anybody.
theorem mem_claimed {now : Int} {schedules : Schedules Uuid} {due : List (ScheduledTask Uuid)}
    (hdue : due.Perm (claimDueScheduledTasks now schedules).1) {task : ScheduledTask Uuid}
    (h : task ∈ due) : ∃ row ∈ schedules.rows, isDue now row = true ∧ task = lock row := by
  obtain ⟨row, hrow, rfl⟩ := List.mem_map.mp (hdue.mem_iff.mp h)
  obtain ⟨hmem, hisDue⟩ := List.mem_filter.mp hrow
  exact ⟨row, hmem, hisDue, rfl⟩

theorem Good.lockDue (good : system.Good cron) (now : Int) : (system.lockDue now).Good cron := by
  refine good.follow ?_ ?_ ?_ le_rfl
  · simp only [claimDueScheduledTasks, List.map_map]
    refine (List.map_congr_left ?_).symm ▸ good.ids
    · intro row _
      by_cases h : isDue now row = true
      · simp [h, lock]
      · simp [h]
  · intro row hrow hlocked
    refine List.mem_map.mpr ⟨row, hrow, if_neg ?_⟩
    intro hdue
    rw [(isDue_iff.mp hdue).1] at hlocked
    cases hlocked
  · intro row hrow
    refine ⟨_, List.mem_map_of_mem hrow, ?_⟩
    split <;> exact ⟨rfl, rfl⟩

theorem Good.claim (good : system.Good cron) {now : Int} (hnow : now ≤ system.clock) (actor : Nat)
    {due : List (ScheduledTask Uuid)}
    (hdue : due.Perm (claimDueScheduledTasks now system.store.schedules).1) :
    (system.claim now actor due).Good cron := by
  have hgood := good.lockDue now
  have hothers : ∀ {other}, other ≠ actor →
      (system.claim now actor due).instances other = system.instances other :=
    fun hother => enter_other _ hother _
  have hself : (system.claim now actor due).instances actor = .posting system.generation due :=
    enter_self _ _ _
  -- What the others have was locked before.
  have hfresh : ∀ other, ∀ task' ∈ (system.instances other).held, ∀ task ∈ due,
      task.id ≠ task'.id := by
    intro other task' htask' task htask hid
    obtain ⟨row, hrow, hisDue, rfl⟩ := mem_claimed hdue htask
    have claimed := good.held other task' htask'
    obtain rfl := List.inj_on_of_nodup_map good.ids hrow claimed.mem hid
    have hlocked := claimed.locked
    rw [(isDue_iff.mp hisDue).1] at hlocked
    cases hlocked
  refine ⟨hgood.ids, ?_, ?_, ?_, ?_, hgood.passed, hgood.once, hgood.right⟩
  · intro other task htask
    by_cases hother : other = actor
    · rw [hother, hself] at htask
      obtain ⟨row, hrow, hisDue, rfl⟩ := mem_claimed hdue htask
      obtain ⟨_, time, htime, hle⟩ := isDue_iff.mp hisDue
      exact ⟨List.mem_map.mpr ⟨row, hrow, if_pos hisDue⟩, rfl, time, htime, hle.trans hnow⟩
    · rw [hothers hother] at htask
      exact hgood.held other task htask
  · intro other other' task htask task' htask' hid
    by_cases hother : other = actor
    · by_cases hother' : other' = actor
      · exact hother.trans hother'.symm
      · rw [hother, hself] at htask
        rw [hothers hother'] at htask'
        exact absurd hid (hfresh other' task' htask' task htask)
    · rw [hothers hother] at htask
      by_cases hother' : other' = actor
      · rw [hother', hself] at htask'
        exact absurd hid.symm (hfresh other task htask task' htask')
      · rw [hothers hother'] at htask'
        exact good.apart other other' task htask task' htask' hid
  · intro other
    by_cases hother : other = actor
    · rw [hother, hself]
      refine ((hdue.map ScheduledTask.id).nodup_iff).mpr ?_
      simp only [claimDueScheduledTasks, List.map_map]
      exact (List.filter_sublist.map ScheduledTask.id).nodup good.ids
    · rw [hothers hother]
      exact good.distinct other
  · intro other
    by_cases hother : other = actor
    · rw [hother, hself]
      exact trivial
    · rw [hothers hother]
      exact good.ready other

theorem Good.insert (good : system.Good cron) (task : ScheduledTask Uuid) :
    (system.insert task).Good cron := by
  refine good.follow ?_ ?_ ?_ le_rfl
  · unfold insertScheduledTask
    split
    · exact good.ids
    · split
      · exact good.ids
      · dsimp only
        split
        · exact good.ids
        · next hnew => exact List.nodup_cons.mpr ⟨hnew, good.ids⟩
  · intro row hrow _
    exact mem_insertScheduledTask task hrow
  · intro row hrow
    exact ⟨row, mem_insertScheduledTask task hrow, rfl, rfl⟩

theorem Good.register (good : system.Good cron) (now : Int) (functionName : Str)
    (params : Auth.Jsonb) (cronString : Str) :
    (system.register cron now functionName params cronString).Good cron := by
  unfold System.register registerScheduledTask
  cases (ScheduledTask.new cron now functionName params cronString :
    Except SapsError (ScheduledTask Uuid)) with
  | error e => exact good
  | ok task => exact good.insert task

-- The next occurrence is asked for after the row was due.
theorem Good.compute (good : system.Good cron) (now : Int)
    {asked : Int} (hasked : system.clock ≤ asked) (fresh : Uuid) {actor generation : Nat}
    {task : ScheduledTask Uuid} {due : List (ScheduledTask Uuid)}
    (hactor : system.instances actor = .posting generation (task :: due)) :
    (system.compute cron now asked fresh actor generation task due).Good cron := by
  have hheld : (system.instances actor).held = task :: due := by rw [hactor]; rfl
  unfold System.compute
  cases hparse : cron task.cronString with
  | error e => exact good.enter (by rw [hheld]; exact List.sublist_cons_self _ _) trivial
  | ok upcoming =>
      refine good.enter (by rw [hheld]; exact List.Sublist.refl _) ?_
      refine ⟨rfl, rfl, rfl, upcoming, asked, hparse, ?_, rfl⟩
      intro time htime
      obtain ⟨due, hdue, hle⟩ := (good.held actor task (by rw [hheld]; exact List.mem_cons_self)).due
      obtain rfl := Option.some.inj (hdue.symm.trans htime)
      exact hle.trans hasked

theorem Good.failed (good : system.Good cron) {actor generation : Nat}
    {task updated : ScheduledTask Uuid} {due : List (ScheduledTask Uuid)}
    (hactor : system.instances actor = .computed generation task updated due) (e : SqlxError) :
    (system.posted actor generation task due (.error e) system.store).Good cron := by
  have hheld : (system.instances actor).held = task :: due := by rw [hactor]; rfl
  have hentered : (system.enter actor (.posting generation due)).Good cron :=
    good.enter (by rw [hheld]; exact List.sublist_cons_self _ _) trivial
  refine ⟨hentered.ids, hentered.held, hentered.apart, hentered.distinct, hentered.ready,
    hentered.passed, hentered.once, ?_⟩
  intro post hpost
  rcases List.mem_cons.mp hpost with rfl | hold
  · exact rfl
  · exact good.right post hold

theorem Good.succeeded (good : system.Good cron) (hcron : cron.Strict) {actor generation : Nat}
    {task updated : ScheduledTask Uuid} {due : List (ScheduledTask Uuid)}
    (hactor : system.instances actor = .computed generation task updated due)
    {queued : Tasks.Row Uuid} (hname : queued.functionName = updated.functionName)
    (hparams : queued.params = updated.params) (queuedId : Uuid) :
    (system.posted actor generation task due
      (.ok (updated.id ∈ system.store.schedules.rows.map ScheduledTask.id))
      ⟨queued :: system.store.queue, { system.store.schedules with
        rows := Table.update ScheduledTask.id updated.id (advance updated queuedId)
          system.store.schedules.rows }⟩).Good cron := by
  have hheld : (system.instances actor).held = task :: due := by rw [hactor]; rfl
  have claimed := good.held actor task (by rw [hheld]; exact List.mem_cons_self)
  have hready : Updated cron task updated := by simpa [hactor, Phase.Ready] using good.ready actor
  obtain ⟨time, htime, hle⟩ := claimed.due
  rw [hready.id]
  let rows := Table.update ScheduledTask.id task.id (advance updated queuedId)
    system.store.schedules.rows
  have hids : (rows.map ScheduledTask.id).Nodup := by
    rw [Table.update_keys]
    · exact good.ids
    · exact fun _ => rfl
  have hentered : (system.enter actor (.posting generation due)).Good cron :=
    good.enter (by rw [hheld]; exact List.sublist_cons_self _ _) trivial
  -- Nobody has the row any more.
  have hleft : ∀ other, ∀ task' ∈ ((system.enter actor (.posting generation due)).instances
      other).held, task'.id ≠ task.id := by
    intro other task' htask' hid
    by_cases hother : other = actor
    · rw [hother, enter_self] at htask'
      have hdistinct := good.distinct actor
      rw [hheld] at hdistinct
      exact (List.nodup_cons.mp hdistinct).1 (List.mem_map.mpr ⟨task', htask', hid⟩)
    · rw [enter_other _ hother] at htask'
      exact hother (good.apart other actor task' htask' task (by rw [hheld]; exact List.mem_cons_self)
        hid)
  have hadvanced : advance updated queuedId task ∈ rows :=
    Table.mem_update.mpr (.inl ⟨task, claimed.mem, rfl, rfl⟩)
  have hlater : ∀ next ∈ updated.timeScheduled, time < next := hready.moves.later hcron htime
  have hpassed : ∀ id before, Passed system.store.schedules.rows id before → Passed rows id before := by
    rintro id before ⟨row, hrow, rfl, hnext⟩
    by_cases hid : row.id = task.id
    · obtain rfl := List.inj_on_of_nodup_map good.ids hrow claimed.mem hid
      exact ⟨_, hadvanced, rfl, fun next h => (hnext time htime).trans (hlater next h)⟩
    · exact ⟨row, Table.mem_update.mpr (.inr ⟨hrow, hid⟩), rfl, hnext⟩
  refine ⟨hids, ?_, hentered.apart, hentered.distinct, hentered.ready, ?_, ?_, ?_⟩
  · intro other task' htask'
    have claimed' := hentered.held other task' htask'
    exact ⟨Table.mem_update.mpr (.inr ⟨claimed'.mem, hleft other task' htask'⟩), claimed'.locked,
      claimed'.due⟩
  · intro id before h
    rcases List.mem_cons.mp h with hnew | hold
    · obtain ⟨rfl, hbefore⟩ := Prod.mk.inj hnew
      obtain rfl := Option.some.inj (htime.symm.trans hbefore.symm)
      exact ⟨_, hadvanced, rfl, hlater⟩
    · exact hpassed id before (good.passed id before hold)
  · refine List.nodup_cons.mpr ⟨?_, good.once⟩
    intro hold
    rw [htime] at hold
    obtain ⟨row, hrow, hid, hnext⟩ := good.passed task.id time hold
    obtain rfl := List.inj_on_of_nodup_map good.ids hrow claimed.mem hid
    exact lt_irrefl _ (hnext time htime)
  · intro post hpost
    rcases List.mem_cons.mp hpost with rfl | hold
    · refine ⟨decide_eq_true (List.mem_map_of_mem claimed.mem), claimed.mem, queued, _, time, rfl,
        hname.trans hready.functionName, hparams.trans hready.params, hadvanced, rfl, htime, hready.moves,
        hlater⟩
    · exact good.right post hold

-- The table is never made again, and its rows are never deleted.
def Keeps : Act Uuid → Prop
  | .migrate => False
  | _ => True

theorem Good.tick (good : system.Good cron) {now : Int} (h : system.clock ≤ now) :
    Good cron { system with clock := now } :=
  good.follow good.ids (fun _ hrow _ => hrow) (fun row hrow => ⟨row, hrow, rfl, rfl⟩) h

theorem starts_good (h : system.Starts) : system.Good cron := by
  obtain ⟨hids, hactors, hlog⟩ := h
  have hheld : ∀ actor, (system.instances actor).held = [] := by
    intro actor
    rw [hactors]
    rfl
  have hnone : ∀ actor task, task ∉ (system.instances actor).held := by
    intro actor task h
    rw [hheld] at h
    cases h
  refine ⟨hids, fun actor task h => absurd h (hnone actor task),
    fun actor _ task h => absurd h (hnone actor task), ?_, ?_, ?_, ?_, ?_⟩
  · intro actor
    rw [hheld]
    exact List.nodup_nil
  · intro actor
    rw [hactors]
    exact trivial
  · simp [hlog]
  · simp [hlog]
  · simp [hlog]

variable [DecidableEq Uuid]

theorem post_refused {updated : ScheduledTask Uuid} {store : Store Uuid} {fresh : Uuid}
    (h : Refused store.queue (updated.taskId.getD fresh) updated) (now : Int) :
    ∃ e, postScheduledTask now fresh updated store = (.error e, store) := by
  obtain ⟨e, he⟩ : ∃ e, Tasks.insertBackgroundTask (.new (updated.taskId.getD fresh) now
      updated.functionName updated.params) store.queue = (.error e, store.queue) := by
    by_cases hname : 255 < updated.functionName.length
    · exact ⟨_, if_pos hname⟩
    · exact ⟨_, (if_neg hname).trans (if_pos (h.resolve_left hname))⟩
  exact ⟨e, by simp only [postScheduledTask, he]⟩

theorem post_accepted {updated : ScheduledTask Uuid} {store : Store Uuid} {fresh : Uuid}
    (h : ¬Refused store.queue (updated.taskId.getD fresh) updated) (now : Int) :
    ∃ queued : Tasks.Row Uuid, queued.functionName = updated.functionName ∧
      queued.params = updated.params ∧
      postScheduledTask now fresh updated store =
        (.ok (updated.id ∈ store.schedules.rows.map ScheduledTask.id),
          ⟨queued :: store.queue, { store.schedules with
            rows := Table.update ScheduledTask.id updated.id
              (advance updated (updated.taskId.getD fresh)) store.schedules.rows }⟩) := by
  obtain ⟨hname, hid⟩ := not_or.mp h
  obtain ⟨queued, hqueued, hparams, hinsert⟩ : ∃ queued : Tasks.Row Uuid,
      queued.functionName = updated.functionName ∧ queued.params = updated.params ∧
      Tasks.insertBackgroundTask (.new (updated.taskId.getD fresh) now updated.functionName
        updated.params) store.queue = (.ok true, queued :: store.queue) := by
    refine ⟨_, ?_, ?_, (if_neg hname).trans (if_neg hid)⟩ <;> rfl
  exact ⟨queued, hqueued, hparams, by simp only [postScheduledTask, hinsert]⟩

theorem Good.post (good : system.Good cron) (hcron : cron.Strict) (now : Int) (spare : Uuid)
    {actor generation : Nat}
    {task updated : ScheduledTask Uuid} {due : List (ScheduledTask Uuid)}
    (hactor : system.instances actor = .computed generation task updated due) :
    (system.post now spare actor generation task updated due).Good cron := by
  unfold System.post
  by_cases hrefused : Refused system.store.queue (updated.taskId.getD spare) updated
  · obtain ⟨e, h⟩ := post_refused hrefused now
    rw [h]
    exact good.failed hactor e
  · obtain ⟨queued, hname, hparams, h⟩ := post_accepted hrefused now
    rw [h]
    exact good.succeeded hcron hactor hname hparams _

theorem step_good (hcron : cron.Strict) {before after : System Uuid}
    {label : Int × Act Uuid} (good : before.Good cron) (hkeeps : Keeps label.2)
    (step : Step cron before label after) : after.Good cron := by
  obtain ⟨hclock, left, effect, rfl⟩ := step
  have hticked := good.tick hclock
  cases effect with
  | claim now actor due hactor hdue => exact hticked.claim le_rfl actor hdue
  | claimFails now actor ran hactor =>
      cases ran with
      | false => exact hticked
      | true => exact hticked.lockDue now
  | compute now asked fresh actor generation task due hactor hasked =>
      have hcomputed := good.compute now hasked.1 fresh hactor
      refine hcomputed.tick ?_
      unfold System.compute
      split <;> exact hclock
  | post now spare actor generation task updated due hactor => exact hticked.post hcron now spare hactor
  | postFails now e actor generation task updated due hactor => exact hticked.failed hactor e
  | sleep now actor generation hactor => exact hticked.enter (List.nil_sublist _) trivial
  | stop now actor => exact hticked.enter (List.nil_sublist _) trivial
  | register now functionName params cronString =>
      exact hticked.register now functionName params cronString
  | insert now task => exact hticked.insert task
  | others now queue =>
      exact hticked.follow good.ids (fun _ hrow _ => hrow) (fun row hrow => ⟨row, hrow, rfl, rfl⟩)
        le_rfl
  | migrate now => exact absurd hkeeps id

def everyMinute : Cron :=
  fun _ => .ok fun asked => some (asked + 60000000)

theorem everyMinute_strict : everyMinute.Strict := by
  intro expression upcoming asked next hparse hnext
  obtain rfl := Except.ok.inj hparse
  obtain rfl := Option.some.inj hnext
  omega

-- One schedule, claimed by the first instance, which is about to post it.
theorem claimed_computed {row : ScheduledTask Nat} (hdue : isDue 0 row = true) :
    ∃ (start system : System Nat) (trace : List (Int × Act Nat)) (updated : ScheduledTask Nat),
      updated.id = row.id ∧ updated.functionName = row.functionName ∧ updated.taskId = some 7 ∧
      start.Starts ∧
      (∀ label ∈ trace, label.2 ≠ .migrate ∧ ∀ actor spare, label.2 ≠ .post actor spare) ∧
      Run (Step everyMinute) start trace system ∧
      system.instances 0 = .computed 0 (lock row) updated [] ∧
      system.clock = 0 ∧ system.store = ⟨[], ⟨[lock row], 2⟩⟩ ∧ system.generation = 0 ∧
      system.log = [] := by
  let start : System Nat := ⟨0, ⟨[], ⟨[row], 2⟩⟩, 0, fun _ => .sleeping, []⟩
  have hstart : start.Starts := ⟨List.nodup_singleton _, fun _ => rfl, rfl⟩
  have hlocked : claimDueScheduledTasks 0 start.store.schedules = ([lock row], ⟨[lock row], 2⟩) := by
    simp [claimDueScheduledTasks, start, hdue]
  let claimed := start.claim 0 0 [lock row]
  have hclaimed : claimed.instances 0 = .posting 0 [lock row] := enter_self _ _ _
  have hrun : Run (Step everyMinute) start [(0, .claim 0 [lock row]), (0, .compute 0 0 7)]
      (claimed.compute everyMinute 0 0 7 0 0 (lock row) []) :=
    .snoc (.snoc .nil ⟨le_rfl, _, .claim 0 0 [lock row] rfl (by rw [hlocked]), rfl⟩)
      ⟨le_rfl, _, .compute 0 0 7 0 0 (lock row) [] hclaimed ⟨le_rfl, le_rfl⟩, rfl⟩
  let updated : ScheduledTask Nat :=
    { lock row with taskId := some 7, timeScheduled := some 60000000, timeCompleted := some 0 }
  refine ⟨start, _, _, updated, rfl, rfl, rfl, hstart, by simp, hrun, enter_self _ _ _, rfl, ?_, rfl,
    rfl⟩
  change (⟨[], (claimDueScheduledTasks 0 start.store.schedules).2⟩ : Store Nat) = _
  rw [hlocked]

end System

end Saps.Scheduled
