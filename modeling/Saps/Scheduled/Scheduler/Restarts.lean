import Saps.Scheduled.Scheduler.Theorems

-- One instance starts up, and makes the table anew, while another one runs.
namespace Saps.Scheduled

open Transition

variable {Uuid : Type}

-- The post changes no row but the one it claimed. Ids are unique in a table
-- and its rows stay, so a generation and an id tell a row from all others.
def Post.Isolated (post : Post Uuid) : Prop :=
  ∀ row ∈ post.before.schedules.rows, row ∉ post.after.schedules.rows →
    post.generation = post.current ∧ row.id = post.claimed.id

def Phase.Prepared : Phase Uuid → Prop
  | .computed _ task updated _ => updated.id = task.id
  | _ => True

namespace System

def Isolated (system : System Uuid) : Prop :=
  ∀ post ∈ system.log, post.Isolated

-- A post meets the table that it claimed from, or one without a row of that
-- id, or the queue does not take its task.
def Kept (before : System Uuid) : Act Uuid → Prop
  | .post actor spare => ∀ generation task updated due,
    before.instances actor = .computed generation task updated due →
      generation = before.generation ∨
      task.id ∉ before.store.schedules.rows.map ScheduledTask.id ∨
      Refused before.store.queue (updated.taskId.getD spare) updated
  | _ => True

-- The new id of the task is in no row yet.
def Unused (before : System Uuid) : Act Uuid → Prop
  | .post actor spare => ∀ generation task updated due,
    before.instances actor = .computed generation task updated due →
      ∀ row ∈ before.store.schedules.rows, row.taskId ≠ some (updated.taskId.getD spare)
  | _ => True

variable {system : System Uuid}

theorem enter_prepared (h : ∀ other, (system.instances other).Prepared) (actor : Nat)
    {phase : Phase Uuid} (hphase : phase.Prepared) (other : Nat) :
    ((system.enter actor phase).instances other).Prepared := by
  by_cases hother : other = actor
  · rw [hother, enter_self]
    exact hphase
  · rw [enter_other _ hother]
    exact h other

theorem unchanged_isolated {post : Post Uuid} (h : post.after = post.before) : post.Isolated := by
  intro row hrow hgone
  rw [h] at hgone
  exact absurd hrow hgone

theorem posted_isolated (hlog : system.Isolated) (actor generation : Nat)
    (task : ScheduledTask Uuid) (due : List (ScheduledTask Uuid))
    (result : Except SqlxError Bool) (store : Store Uuid) :
    (system.posted actor generation task due result store).Isolated ↔
      Post.Isolated ⟨task, generation, system.generation, result, system.store, store⟩ := by
  unfold Isolated posted
  rw [List.forall_mem_cons]
  exact and_iff_left hlog

variable [DecidableEq Uuid]

def KeptStep (cron : Cron) (before : System Uuid) (label : Int × Act Uuid)
    (after : System Uuid) : Prop :=
  Step cron before label after ∧ Kept before label.2

theorem step_prepared {cron : Cron} {before after : System Uuid} {label : Int × Act Uuid}
    (h : ∀ actor, (before.instances actor).Prepared) (step : Step cron before label after) :
    ∀ actor, (after.instances actor).Prepared := by
  obtain ⟨hclock, left, effect, rfl⟩ := step
  cases effect with
  | claim now actor due hactor hdue => exact enter_prepared h actor trivial
  | claimFails now actor ran hactor => cases ran <;> exact h
  | compute now asked fresh actor generation task due hactor hasked =>
      unfold System.compute
      split
      · exact enter_prepared h actor trivial
      · exact enter_prepared h actor rfl
  | post now spare actor generation task updated due hactor => exact enter_prepared h actor trivial
  | postFails now e actor generation task updated due hactor =>
      exact enter_prepared h actor trivial
  | sleep now actor generation hactor => exact enter_prepared h actor trivial
  | stop now actor => exact enter_prepared h actor trivial
  | register now functionName params cronString => exact h
  | insert now task => exact h
  | others now queue => exact h
  | migrate now => exact h

theorem post_isolated {now : Int} {spare : Uuid} {generation : Nat}
    {task updated : ScheduledTask Uuid} (hid : updated.id = task.id)
    (hkept : generation = system.generation ∨
      task.id ∉ system.store.schedules.rows.map ScheduledTask.id ∨
      Refused system.store.queue (updated.taskId.getD spare) updated) :
    Post.Isolated ⟨task, generation, system.generation,
      (postScheduledTask now spare updated system.store).1, system.store,
      (postScheduledTask now spare updated system.store).2⟩ := by
  by_cases hrefused : Refused system.store.queue (updated.taskId.getD spare) updated
  · obtain ⟨e, h⟩ := post_refused hrefused now
    rw [h]
    exact unchanged_isolated rfl
  · obtain ⟨queued, -, -, h⟩ := post_accepted hrefused now
    rw [h, hid]
    intro row hrow hgone
    have hrowId : row.id = task.id := by
      by_contra hne
      exact hgone (Table.mem_update.mpr (.inr ⟨hrow, hne⟩))
    rcases hkept with hsame | hmissing | hno
    · exact ⟨hsame, hrowId⟩
    · exact absurd (hrowId ▸ List.mem_map_of_mem hrow) hmissing
    · exact absurd hno hrefused

-- Otherwise the row of the id changes, since it has not had the new task's id.
theorem post_kept {now : Int} {spare : Uuid} {generation : Nat}
    {task updated : ScheduledTask Uuid} (hid : updated.id = task.id)
    (hunused : ∀ row ∈ system.store.schedules.rows, row.taskId ≠ some (updated.taskId.getD spare))
    (hisolated : Post.Isolated ⟨task, generation, system.generation,
      (postScheduledTask now spare updated system.store).1, system.store,
      (postScheduledTask now spare updated system.store).2⟩) :
    generation = system.generation ∨
      task.id ∉ system.store.schedules.rows.map ScheduledTask.id ∨
      Refused system.store.queue (updated.taskId.getD spare) updated := by
  by_contra hforeign
  simp only [not_or, not_not] at hforeign
  obtain ⟨hother, hthere, haccepted⟩ := hforeign
  obtain ⟨queued, -, -, h⟩ := post_accepted haccepted now
  rw [h, hid] at hisolated
  obtain ⟨row, hrow, hrowId⟩ := List.mem_map.mp hthere
  refine hother (hisolated row hrow ?_).1
  intro hkept
  rcases Table.mem_update.mp hkept with ⟨old, -, -, heq⟩ | ⟨-, hne⟩
  · exact hunused row hrow (congrArg ScheduledTask.taskId heq)
  · exact hne hrowId

-- Only a post that gets to the database can change anything.
theorem step_isolated {cron : Cron} {before after : System Uuid} {label : Int × Act Uuid}
    (hlog : before.Isolated) (step : Step cron before label after) :
    (after.Isolated ∧ ∀ actor spare, label.2 ≠ .post actor spare) ∨
      ∃ actor spare generation task updated due, label.2 = .post actor spare ∧
      before.instances actor = .computed generation task updated due ∧
      (after.Isolated ↔ Post.Isolated ⟨task, generation, before.generation,
        (postScheduledTask label.1 spare updated before.store).1, before.store,
        (postScheduledTask label.1 spare updated before.store).2⟩) := by
  obtain ⟨hclock, left, effect, rfl⟩ := step
  cases effect with
  | claim now actor due hactor hdue => exact .inl ⟨hlog, nofun⟩
  | claimFails now actor ran hactor => cases ran <;> exact .inl ⟨hlog, nofun⟩
  | compute now asked fresh actor generation task due hactor hasked =>
      unfold System.compute
      split <;> exact .inl ⟨hlog, nofun⟩
  | post now spare actor generation task updated due hactor =>
      exact .inr ⟨actor, spare, generation, task, updated, due, rfl, hactor,
        posted_isolated hlog actor generation task due _ _⟩
  | postFails now e actor generation task updated due hactor =>
      have hunchanged := (posted_isolated hlog actor generation task due (.error e) before.store).mpr
        (unchanged_isolated rfl)
      exact .inl ⟨hunchanged, nofun⟩
  | sleep now actor generation hactor => exact .inl ⟨hlog, nofun⟩
  | stop now actor => exact .inl ⟨hlog, nofun⟩
  | register now functionName params cronString => exact .inl ⟨hlog, nofun⟩
  | insert now task => exact .inl ⟨hlog, nofun⟩
  | others now queue => exact .inl ⟨hlog, nofun⟩
  | migrate now => exact .inl ⟨hlog, nofun⟩

theorem kept_isolated {cron : Cron} {before after : System Uuid} {label : Int × Act Uuid}
    (hprepared : ∀ actor, (before.instances actor).Prepared) (hlog : before.Isolated)
    (step : Step cron before label after) (hkept : Kept before label.2) : after.Isolated := by
  rcases step_isolated hlog step with ⟨h, -⟩ | ⟨actor, spare, generation, task, updated, due,
    hlabel, hactor, hiff⟩
  · exact h
  · rw [hlabel] at hkept
    have hid : updated.id = task.id := by simpa [hactor, Phase.Prepared] using hprepared actor
    exact hiff.mpr (post_isolated hid (hkept generation task updated due hactor))

theorem isolated_kept {cron : Cron} {before after : System Uuid} {label : Int × Act Uuid}
    (hprepared : ∀ actor, (before.instances actor).Prepared) (hunused : Unused before label.2)
    (hlog : before.Isolated) (step : Step cron before label after) (hafter : after.Isolated) :
    Kept before label.2 := by
  rcases step_isolated hlog step with ⟨-, hother⟩ | ⟨actor, spare, generation, task, updated, due,
    hlabel, hactor, hiff⟩
  · unfold Kept
    split
    · next actor spare heq => exact absurd heq (hother actor spare)
    · exact trivial
  · rw [hlabel] at hunused ⊢
    intro generation' task' updated' due' hactor'
    obtain ⟨rfl, rfl, rfl, rfl⟩ := Phase.computed.inj (hactor.symm.trans hactor')
    have hid : updated.id = task.id := by simpa [hactor, Phase.Prepared] using hprepared actor
    exact post_kept hid (hunused generation task updated due hactor) (hiff.mp hafter)

-- A post changes no row but the one it claimed as long as the table has not
-- been made anew since, or has no row of that id; and it does change another
-- one where that fails.
theorem posts_isolated (cron : Cron) (start finish : System Uuid) (trace : List (Int × Act Uuid))
    (hstart : start.Starts) (run : Run (KeptStep cron) start trace finish) :
    finish.Isolated ∧ ∀ label after, Step cron finish label after → Unused finish label.2 →
      (after.Isolated ↔ Kept finish label.2) := by
  obtain ⟨hprepared, hisolated⟩ :
      (∀ actor, (finish.instances actor).Prepared) ∧ finish.Isolated := by
    refine run.invariant
      (fun system => (∀ actor, (system.instances actor).Prepared) ∧ system.Isolated) ?_ ?_
    · refine ⟨?_, ?_⟩
      · intro actor
        rw [hstart.2.1]
        exact trivial
      · unfold Isolated
        rw [hstart.2.2]
        exact fun post h => absurd h List.not_mem_nil
    · rintro before label after ⟨hprepared, hlog⟩ ⟨step, hkept⟩
      exact ⟨step_prepared hprepared step, kept_isolated hprepared hlog step hkept⟩
  refine ⟨hisolated, fun label after step hunused => ⟨?_, ?_⟩⟩
  · exact isolated_kept hprepared hunused hisolated step
  · exact kept_isolated hprepared hisolated step

-- The table is made anew before the post, and is still empty.
theorem posts_isolated_migrated : ∃ finish : System Nat, finish.log.length = 1 ∧ finish.Isolated ∧
    ∀ label after, Step everyMinute finish label after → Unused finish label.2 →
      (after.Isolated ↔ Kept finish label.2) := by
  have hdue : isDue 0 (⟨1, "add".toList, .null, none, some 0, none, "0 * * * * *".toList, false⟩ :
      ScheduledTask Nat) = true := by decide
  obtain ⟨start, system, trace, updated, -, -, -, hstart, hlabels, hrun, hcomputed, hclock, -, -,
    hlog⟩ := claimed_computed hdue
  have hkept : Run (KeptStep everyMinute) start trace system := by
    refine (hrun.restrict hlabels).mono ?_
    rintro before label after ⟨step, -, hother⟩
    refine ⟨step, ?_⟩
    unfold Kept
    split
    · next actor spare heq => exact absurd heq (hother actor spare)
    · exact trivial
  have hmigrate : KeptStep everyMinute system (0, .migrate) system.migrate :=
    ⟨⟨hclock.le, system.migrate, .migrate 0, by rw [← hclock]; rfl⟩, trivial⟩
  have hpost : Step everyMinute system.migrate (0, .post 0 8) _ :=
    ⟨hclock.le, _, .post 0 8 0 0 _ updated [] hcomputed, rfl⟩
  have hempty : Kept system.migrate (.post 0 8) :=
    fun _ _ _ _ _ => .inr (.inl List.not_mem_nil)
  refine ⟨_, ?_, posts_isolated everyMinute start _ _ hstart
    (.snoc (.snoc hkept hmigrate) ⟨hpost, hempty⟩)⟩
  exact congrArg (fun log => List.length log + 1) hlog

-- The table is made anew before the post, and a schedule has got the same id.
theorem posts_isolated_registered : ∃ (start finish : System Nat) (trace : List (Int × Act Nat)),
    start.Starts ∧ Run (Step everyMinute) start trace finish ∧ ¬finish.Isolated := by
  let row : ScheduledTask Nat :=
    ⟨1, "add".toList, .null, none, some 0, none, "0 * * * * *".toList, false⟩
  have hdue : isDue 0 row = true := by decide
  obtain ⟨start, system, trace, updated, hid, hname, htask, hstart, -, hrun, hcomputed, hclock,
    hstore, hgeneration, hlog⟩ := claimed_computed hdue
  let fresh : ScheduledTask Nat :=
    ⟨1, "clean".toList, .null, none, some 60000000, none, "0 * * * * *".toList, false⟩
  let registered := system.migrate.register everyMinute 0 "clean".toList .null "0 * * * * *".toList
  have hrows : registered.store.schedules = ⟨[fresh], 2⟩ := by
    change (registerScheduledTask everyMinute 0 "clean".toList .null "0 * * * * *".toList
      (Schedules.migrated : Schedules Nat)).2 = ⟨[fresh], 2⟩
    decide +kernel
  have hrun' : Run (Step everyMinute) start _ registered :=
    .snoc (.snoc hrun ⟨hclock.le, system.migrate, .migrate 0, by rw [← hclock]; rfl⟩)
      ⟨hclock.le, registered, .register 0 "clean".toList .null "0 * * * * *".toList,
        by rw [← hclock]; rfl⟩
  have hpost : Step everyMinute registered (0, .post 0 8) _ :=
    ⟨hclock.le, _, .post 0 8 0 0 (lock row) updated [] hcomputed, rfl⟩
  refine ⟨start, _, _, hstart, .snoc hrun' hpost, ?_⟩
  intro hafter
  have hprepared : ∀ actor, (registered.instances actor).Prepared := by
    refine hrun'.invariant (fun system => ∀ actor, (system.instances actor).Prepared) ?_
      fun _ _ _ => step_prepared
    intro actor
    rw [hstart.2.1]
    exact trivial
  have hunused : Unused registered (.post 0 8) := by
    intro generation task updated due _ other hother
    rw [hrows] at hother
    obtain rfl := List.mem_singleton.mp hother
    simp [fresh]
  have hbefore : registered.Isolated := by
    unfold Isolated
    rw [show registered.log = [] from hlog]
    exact fun post h => absurd h List.not_mem_nil
  have hkept := isolated_kept hprepared hunused hbefore hpost hafter 0 (lock row) updated [] hcomputed
  rcases hkept with hsame | hmissing | hrefused
  · rw [show registered.generation = system.generation + 1 from rfl, hgeneration] at hsame
    cases hsame
  · rw [hrows] at hmissing
    exact hmissing (List.mem_singleton_self _)
  · rw [show registered.store.queue = system.store.queue from rfl, hstore] at hrefused
    simp [Refused, hname, row] at hrefused

end System

end Saps.Scheduled
