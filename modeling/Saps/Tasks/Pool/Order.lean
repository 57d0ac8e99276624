import Saps.Tasks.Pool.Liveness.Theorems

-- First in, first out.
namespace Saps.Tasks

open Transition

variable {Uuid : Type}

def Event.gotId : Event Uuid → Option Uuid
  | gotNext id => some id
  | _ => none

namespace Pool

-- The rows that came out of the queue, the latest first.
def gotIds (pool : Pool Uuid) : List Uuid :=
  pool.log.filterMap Event.gotId

-- The worker that makes a call of its cycle, whether it is answered or not.
def Act.worker : Act Uuid → Option Nat
  | .pollFails worker _ => some worker
  | act => act.advances

-- The row of the earlier id was posted no later.
def Before (table : QueuedTasks Uuid) (later earlier : Uuid) : Prop :=
  ∃ row ∈ table, ∃ row' ∈ table, row.id = later ∧ row'.id = earlier ∧
    row'.timePosted ≤ row.timePosted

-- Who posts has the time of the post, and the clocks of those who post agree.
def Timely (before : Pool Uuid) : Act Uuid → Prop
  | .insert task => ∀ row ∈ before.table, row.timePosted ≤ task.timePosted
  | _ => True

structure InOrder (pool : Pool Uuid) : Prop where
  order : pool.gotIds.Pairwise (Before pool.table)
  ahead : ∀ id ∈ pool.gotIds, ∃ row ∈ pool.table, row.id = id ∧
    ∀ other ∈ pool.table, other.locked = false → row.timePosted ≤ other.timePosted

-- One worker starts what it took last, and nothing else.
structure Trails (pool : Pool Uuid) : Prop where
  idle : ∀ worker, worker ≠ 0 → pool.workers worker = .polling
  taken : ∀ task, pool.workers 0 = .taken task →
    ∃ rest, pool.gotIds = task.id :: rest ∧ pool.startedIds.Sublist rest
  free : (∀ task, pool.workers 0 ≠ .taken task) → pool.startedIds.Sublist pool.gotIds

variable [DecidableEq Uuid] {pool : Pool Uuid}

theorem moves_gotId (before after : QueuedTasks Uuid) (id : Uuid) :
    (moves before after id).filterMap Event.gotId = [] := by
  unfold moves
  split <;> rfl

theorem mark_gotIds (pool : Pool Uuid) (status : TaskStatus) (now : Int) (id : Uuid) :
    (pool.mark status now id).gotIds = pool.gotIds := by
  unfold Pool.mark gotIds
  dsimp only
  split
  · rw [List.filterMap_append, moves_gotId]
    rfl
  · rfl

theorem claim_gotIds (pool : Pool Uuid) (now : Int) (chosen : Option (Row Uuid)) :
    (pool.claim now chosen).gotIds = pool.gotIds := by
  unfold Pool.claim gotIds
  dsimp only
  split
  · rw [List.filterMap_append, moves_gotId]
    rfl
  · rfl

theorem fetch_gotIds (pool : Pool Uuid) (hids : (pool.table.map Row.id).Nodup)
    {chosen : Option (Row Uuid)} (hmem : ∀ row ∈ chosen, row ∈ pool.table) :
    (pool.fetch chosen).gotIds = (chosen.map Row.id).toList ++ pool.gotIds := by
  cases chosen with
  | none => rfl
  | some row =>
      rw [fetch_some pool hids (hmem row rfl)]
      rfl

-- What a step takes out of the queue is all that it adds to the list.
theorem step_gotIds {registered : Str → Bool} {before after : Pool Uuid}
    {label : Int × Act Uuid} (good : before.Good) (step : Step registered before label after) :
    after.gotIds = label.2.locks.toList ++ before.gotIds := by
  cases step with
  | insert now task => rfl
  | claim now functionName chosen hselects => exact claim_gotIds before now chosen
  | mark now status id hterminal => exact mark_gotIds before status now id
  | poll now worker chosen hworker hselects =>
      refine Eq.trans ?_ (fetch_gotIds before good.ids (selects_mem hselects))
      exact congrArg (List.filterMap Event.gotId) (poll_eq before worker chosen).1
  | pollFails now worker ran hworker hselects =>
      refine fetch_gotIds before good.ids ?_
      intro row hrow
      exact (mem_earliest.mp (hselects row hrow)).1
  | lookUp now worker task hworker =>
      unfold Pool.lookUp
      split <;> rfl
  | finish now worker task outcome hworker => rfl
  | record now worker task outcome hworker =>
      unfold Pool.record
      cases outcome with
      | returned result => exact mark_gotIds before .completed now task.id
      | panicked => exact mark_gotIds before .exited now task.id
  | recordFails now worker task outcome hworker => rfl

-- A row that comes out is one of the oldest.
theorem step_earliest {registered : Str → Bool} {before after : Pool Uuid}
    {label : Int × Act Uuid} (step : Step registered before label after) {id : Uuid}
    (hlocks : label.2.locks = some id) : ∃ row ∈ earliest isUnlocked before.table, row.id = id := by
  have hchosen : ∀ {chosen : Option (Row Uuid)}, chosen.map Row.id = some id →
      (∀ row ∈ chosen, row ∈ earliest isUnlocked before.table) →
        ∃ row ∈ earliest isUnlocked before.table, row.id = id := by
    intro chosen hid hmem
    obtain ⟨row, rfl, rfl⟩ := Option.map_eq_some_iff.mp hid
    exact ⟨row, hmem row rfl, rfl⟩
  cases step with
  | poll now worker chosen hworker hselects =>
      refine hchosen hlocks ?_
      intro row hrow
      cases hrow
      exact hselects
  | pollFails now worker ran hworker hselects => exact hchosen hlocks hselects
  | insert | claim | mark | lookUp | finish | record | recordFails => cases hlocks

theorem TableBecomes.before {locks : Option Uuid} {before after : QueuedTasks Uuid}
    (h : TableBecomes locks before after) {later earlier : Uuid} (hbefore : Before before later earlier) :
    Before after later earlier := by
  obtain ⟨change, rfl, hchange⟩ := h
  obtain ⟨row, hrow, row', hrow', rfl, rfl, hle⟩ := hbefore
  refine ⟨change row, List.mem_map_of_mem hrow, change row', List.mem_map_of_mem hrow',
    (hchange row).id, (hchange row').id, ?_⟩
  rw [(hchange row).timePosted, (hchange row').timePosted]
  exact hle

-- A row stays no later than all that are in the queue.
theorem TableBecomes.ahead {locks : Option Uuid} {before after : QueuedTasks Uuid}
    (h : TableBecomes locks before after) {row : Row Uuid} (hrow : row ∈ before)
    (hleast : ∀ other ∈ before, other.locked = false → row.timePosted ≤ other.timePosted) :
    ∃ left ∈ after, left.id = row.id ∧
      ∀ other ∈ after, other.locked = false → left.timePosted ≤ other.timePosted := by
  obtain ⟨change, rfl, hchange⟩ := h
  refine ⟨change row, List.mem_map_of_mem hrow, (hchange row).id, ?_⟩
  intro other hother hfree
  obtain ⟨old, hold, rfl⟩ := List.mem_map.mp hother
  rw [(hchange old).locked, Bool.or_eq_false_iff] at hfree
  rw [(hchange row).timePosted, (hchange old).timePosted]
  exact hleast old hold hfree.1

theorem step_inOrder {registered : Str → Bool} {before after : Pool Uuid}
    {label : Int × Act Uuid} (good : before.Good) (step : Step registered before label after)
    (htimely : before.Timely label.2) (inOrder : before.InOrder) : after.InOrder := by
  have hgot := step_gotIds good step
  rcases step_table good step with ⟨task, new, hlabel, htable, _, htime⟩ | hbecomes
  · have hlater : ∀ row ∈ before.table, row.timePosted ≤ new.timePosted := by
      rw [hlabel] at htimely
      rw [htime]
      exact htimely
    rw [hlabel] at hgot
    refine ⟨?_, ?_⟩
    · rw [hgot, htable]
      refine inOrder.order.imp ?_
      rintro later earlier ⟨row, hrow, row', hrow', hid, hid', hle⟩
      exact ⟨row, List.mem_cons_of_mem _ hrow, row', List.mem_cons_of_mem _ hrow', hid, hid', hle⟩
    · intro id hid
      rw [hgot] at hid
      obtain ⟨row, hrow, hrowId, hleast⟩ := inOrder.ahead id hid
      rw [htable]
      refine ⟨row, List.mem_cons_of_mem _ hrow, hrowId, ?_⟩
      intro other hother hfree
      rcases List.mem_cons.mp hother with rfl | hold
      · exact hlater row hrow
      · exact hleast other hold hfree
  · have hahead : ∀ id ∈ before.gotIds, ∃ row ∈ after.table, row.id = id ∧
        ∀ other ∈ after.table, other.locked = false → row.timePosted ≤ other.timePosted := by
      intro id hid
      obtain ⟨row, hrow, rfl, hleast⟩ := inOrder.ahead id hid
      exact hbecomes.ahead hrow hleast
    have horder : before.gotIds.Pairwise (Before after.table) :=
      inOrder.order.imp fun hbefore => hbecomes.before hbefore
    cases hlocks : label.2.locks with
    | none =>
        rw [hlocks] at hgot
        exact ⟨hgot ▸ horder, hgot ▸ hahead⟩
    | some id =>
        rw [hlocks] at hgot
        obtain ⟨row, hrow, rfl⟩ := step_earliest step hlocks
        obtain ⟨hmem, hfree, hleast⟩ := mem_earliest.mp hrow
        have hfree' : row.locked = false := by simpa [isUnlocked] using hfree
        have hleast' : ∀ other ∈ before.table, other.locked = false →
            row.timePosted ≤ other.timePosted := by
          intro other hother hunlocked
          exact hleast other hother (by simpa [isUnlocked] using hunlocked)
        refine ⟨?_, ?_⟩
        · rw [hgot]
          refine List.pairwise_cons.mpr ⟨?_, horder⟩
          intro earlier hearlier
          obtain ⟨row', hrow', hid', hleast''⟩ := inOrder.ahead earlier hearlier
          exact hbecomes.before ⟨row, hmem, row', hrow', rfl, hid', hleast'' row hmem hfree'⟩
        · intro id hid
          rw [hgot] at hid
          rcases List.mem_cons.mp hid with rfl | hold
          · exact hbecomes.ahead hmem hleast'
          · exact hahead id hold

theorem mark_startedIds (pool : Pool Uuid) (status : TaskStatus) (now : Int) (id : Uuid) :
    (pool.mark status now id).startedIds = pool.startedIds := by
  unfold Pool.mark startedIds
  dsimp only
  split
  · rw [List.filterMap_append, moves_startedId]
    rfl
  · rfl

theorem claim_startedIds (pool : Pool Uuid) (now : Int) (chosen : Option (Row Uuid)) :
    (pool.claim now chosen).startedIds = pool.startedIds := by
  unfold Pool.claim startedIds
  dsimp only
  split
  · rw [List.filterMap_append, moves_startedId]
    rfl
  · rfl

theorem fetch_startedIds (pool : Pool Uuid) (chosen : Option (Row Uuid)) :
    (pool.fetch chosen).startedIds = pool.startedIds := by
  unfold Pool.fetch startedIds
  split <;> rfl

-- The poll gives the worker the row that it took out, or it gives it nothing.
theorem poll_takes (good : pool.Good) {chosen : Option (Row Uuid)} {worker : Nat}
    (hworker : pool.workers worker = .polling)
    (hselects : Selects isUnlocked pool.table chosen) {task : QueuedTask Uuid}
    (h : (pool.poll worker chosen).workers worker = .taken task) :
    chosen.map Row.id = some task.id := by
  have hfetch : (pool.fetch chosen).workers = pool.workers := by
    unfold Pool.fetch
    split <;> rfl
  unfold Pool.poll at h
  split at h
  · next found hanswer =>
    rw [enter_self] at h
    obtain rfl := Phase.taken.inj h
    obtain ⟨row, rfl, _, hparse⟩ := getNext_some good.ids hselects hanswer
    obtain ⟨_, _, rfl⟩ := fromRow_id hparse
    rfl
  · rw [hfetch, hworker] at h
    cases h
  · rw [hfetch, hworker] at h
    cases h

variable {before after : Pool Uuid}

omit [DecidableEq Uuid] in
-- A step that starts no handler, where the worker has taken none before or after.
theorem Trails.free_step (trails : before.Trails) {locks : List Uuid}
    (hidle : ∀ worker, worker ≠ 0 → after.workers worker = .polling)
    (hbefore : ∀ task, before.workers 0 ≠ .taken task)
    (hafter : ∀ task, after.workers 0 ≠ .taken task)
    (hgot : after.gotIds = locks ++ before.gotIds)
    (hstarted : after.startedIds = before.startedIds) : after.Trails := by
  refine ⟨hidle, fun task htask => absurd htask (hafter task), fun _ => ?_⟩
  rw [hgot, hstarted]
  exact (trails.free hbefore).trans (List.sublist_append_right _ _)

omit [DecidableEq Uuid] in
theorem Trails.same (trails : before.Trails) (hworkers : after.workers = before.workers)
    (hgot : after.gotIds = before.gotIds) (hstarted : after.startedIds = before.startedIds) :
    after.Trails := by
  refine ⟨?_, ?_, ?_⟩
  · rw [hworkers]
    exact trails.idle
  · rw [hworkers, hgot, hstarted]
    exact trails.taken
  · rw [hworkers, hgot, hstarted]
    exact trails.free

theorem Trails.poll (trails : before.Trails) (good : before.Good) {chosen : Option (Row Uuid)}
    (hpolling : before.workers 0 = .polling) (hselects : Selects isUnlocked before.table chosen)
    (hidle : ∀ worker, worker ≠ 0 → (before.poll 0 chosen).workers worker = .polling)
    (hgot : (before.poll 0 chosen).gotIds = (chosen.map Row.id).toList ++ before.gotIds) :
    (before.poll 0 chosen).Trails := by
  have hsub : before.startedIds.Sublist before.gotIds :=
    trails.free fun task htask => by rw [hpolling] at htask; cases htask
  have hstarted : (before.poll 0 chosen).startedIds = before.startedIds :=
    (congrArg (List.filterMap Event.startedId) (poll_eq before 0 chosen).1).trans
      (fetch_startedIds before chosen)
  refine ⟨hidle, ?_, fun _ => ?_⟩
  · intro task htask
    rw [poll_takes good hpolling hselects htask] at hgot
    exact ⟨before.gotIds, hgot, hstarted ▸ hsub⟩
  · rw [hgot, hstarted]
    exact hsub.trans (List.sublist_append_right _ _)

theorem Trails.lookUp (trails : before.Trails) {registered : Str → Bool} {task : QueuedTask Uuid}
    (htaken : before.workers 0 = .taken task)
    (hidle : ∀ worker, worker ≠ 0 →
      (before.lookUp registered 0 task).workers worker = .polling)
    (hgot : (before.lookUp registered 0 task).gotIds = before.gotIds) :
    (before.lookUp registered 0 task).Trails := by
  obtain ⟨rest, hrest, hsub⟩ := trails.taken task htaken
  unfold Pool.lookUp at hidle hgot ⊢
  split at hidle
  · next hregistered =>
    rw [if_pos hregistered] at hgot ⊢
    refine ⟨hidle, ?_, fun _ => ?_⟩
    · intro other hother
      rw [enter_self] at hother
      cases hother
    · rw [hgot, hrest]
      exact hsub.cons_cons task.id
  · next hregistered =>
    rw [if_neg hregistered] at hgot ⊢
    refine ⟨hidle, ?_, fun _ => ?_⟩
    · intro other hother
      rw [conclude_self] at hother
      cases hother
    · rw [hgot, hrest]
      exact hsub.cons task.id

theorem step_trails {registered : Str → Bool} {label : Int × Act Uuid} (good : before.Good)
    (step : Step registered before label after)
    (halone : ∀ worker, label.2.worker = some worker → worker = 0) (trails : before.Trails) :
    after.Trails := by
  have hgot := step_gotIds good step
  have hworker : ∀ worker, label.2.advances = some worker → worker = 0 := by
    intro worker hadvances
    refine halone worker ?_
    unfold Act.worker
    split
    · next heq =>
      rw [heq] at hadvances
      cases hadvances
    · exact hadvances
  have hidle : ∀ worker, worker ≠ 0 → after.workers worker = .polling := by
    intro worker hne
    rw [step_other step fun hadvances => hne (hworker worker hadvances)]
    exact trails.idle worker hne
  have hfree : ∀ {pool : Pool Uuid} {phase : Phase Uuid}, pool.workers 0 = phase →
      (∀ task, phase ≠ .taken task) → ∀ task, pool.workers 0 ≠ .taken task := by
    intro pool phase hphase hne task htask
    exact hne task (hphase.symm.trans htask)
  have hmark : ∀ status now id, (before.mark status now id).workers = before.workers := by
    intro status now id
    unfold Pool.mark
    dsimp only
    split <;> rfl
  have hfetch : ∀ chosen, (before.fetch chosen).workers = before.workers := by
    intro chosen
    unfold Pool.fetch
    split <;> rfl
  cases step with
  | insert now task => exact trails.same rfl rfl rfl
  | claim now functionName chosen hselects =>
      refine trails.same ?_ hgot (claim_startedIds before now chosen)
      unfold Pool.claim
      dsimp only
      split <;> rfl
  | mark now status id hterminal =>
      exact trails.same (hmark status now id) hgot (mark_startedIds before status now id)
  | poll now worker chosen hpolling hselects =>
      obtain rfl := halone worker rfl
      exact trails.poll good hpolling hselects hidle hgot
  | pollFails now worker ran hpolling hselects =>
      obtain rfl := halone worker rfl
      have hafter : (before.fetch ran).workers 0 = .polling := by rw [hfetch, hpolling]
      exact trails.free_step hidle (hfree hpolling fun _ h => by cases h)
        (hfree hafter fun _ h => by cases h) hgot (fetch_startedIds before ran)
  | lookUp now worker task htaken =>
      obtain rfl := halone worker rfl
      exact trails.lookUp htaken hidle hgot
  | finish now worker task outcome hrunning =>
      obtain rfl := halone worker rfl
      exact trails.free_step hidle (hfree hrunning fun _ h => by cases h)
        (hfree (enter_self before 0 _) fun _ h => by cases h) hgot rfl
  | record now worker task outcome hfinished =>
      obtain rfl := halone worker rfl
      have hafter : (before.record now 0 task outcome).workers 0 = .polling := by
        unfold Pool.record
        cases outcome <;> exact conclude_self _ 0 task _
      have hstarted : (before.record now 0 task outcome).startedIds = before.startedIds := by
        unfold Pool.record
        cases outcome with
        | returned result => exact mark_startedIds before .completed now task.id
        | panicked => exact mark_startedIds before .exited now task.id
      exact trails.free_step hidle (hfree hfinished fun _ h => by cases h)
        (hfree hafter fun _ h => by cases h) hgot hstarted
  | recordFails now worker task outcome hfinished =>
      obtain rfl := halone worker rfl
      exact trails.free_step hidle (hfree hfinished fun _ h => by cases h)
        (hfree (conclude_self before 0 task _) fun _ h => by cases h) hgot rfl

-- Two tasks and one worker.
def laterRow : Row Nat :=
  ⟨2, "add".toList, .null, TaskStatus.pending.toStr, 1, none, none, false⟩

def laterTask : QueuedTask Nat :=
  ⟨2, "add".toList, .null, .pending, 1, none, none, true⟩

def both : Pool Nat :=
  ⟨[laterRow, addRow], fun _ => .polling, []⟩

def firstDone : Pool Nat :=
  (((both.poll 0 (some addRow)).lookUp (fun _ => true) 0 addTask).enter 0
    (.finished addTask .panicked)).conclude 0 addTask (some .panicked)

def secondStarted : Pool Nat :=
  (firstDone.poll 0 (some laterRow)).lookUp (fun _ => true) 0 laterTask

theorem poll_taken {pool : Pool Nat} (hids : (pool.table.map Row.id).Nodup) {row : Row Nat}
    (hrow : row ∈ pool.table) {task : QueuedTask Nat}
    (hparse : QueuedTask.fromRow { row with locked := true } = .ok task) :
    pool.poll 0 (some row) = (pool.fetch (some row)).enter 0 (.taken task) := by
  have hanswer : (getNextBackgroundTask (some row) pool.table).1 = .ok (some task) := by
    simp only [getNextBackgroundTask, getNextTask, updateChosen_some hids hrow, hparse]
    rfl
  simp only [Pool.poll, hanswer]

theorem laterRow_read : QueuedTask.fromRow { laterRow with locked := true } = .ok laterTask := by
  simp only [QueuedTask.fromRow, laterRow, TaskStatus.tryFrom_toStr]
  rfl

theorem both_polled : both.poll 0 (some addRow) = ⟨[laterRow, { addRow with locked := true }],
    Function.update (fun _ => .polling) 0 (.taken addTask), [.gotNext 1]⟩ := by
  rw [poll_taken (by decide) (by simp [both]) addRow_read]
  rfl

theorem firstDone_polled : (firstDone.poll 0 (some laterRow)).workers 0 = .taken laterTask := by
  have htable : firstDone.table = [laterRow, { addRow with locked := true }] :=
    congrArg Pool.table both_polled
  rw [poll_taken (by rw [htable]; decide) (by rw [htable]; simp) laterRow_read]
  exact enter_self _ _ _

def bothTrace : List (Int × Act Nat) :=
  [(0, .poll 0 (some addRow)), (0, .lookUp 0), (0, .finish 0 .panicked), (0, .recordFails 0),
    (0, .poll 0 (some laterRow)), (0, .lookUp 0)]

theorem both_run : Run (fun before label after => Step (fun _ => true) before label after ∧
    before.Timely label.2) both bothTrace secondStarted := by
  have hfirst : (both.poll 0 (some addRow)).workers 0 = .taken addTask := by
    rw [both_polled]
    rfl
  have hselects : Selects isUnlocked both.table (some addRow) :=
    mem_earliest.mpr ⟨by simp [both], rfl, by simp [both, addRow, laterRow]⟩
  have hselects' : Selects isUnlocked firstDone.table (some laterRow) := by
    have htable : firstDone.table = [laterRow, { addRow with locked := true }] :=
      congrArg Pool.table both_polled
    rw [htable]
    exact mem_earliest.mpr ⟨by simp, rfl, by simp [isUnlocked, addRow]⟩
  exact .snoc (.snoc (.snoc (.snoc (.snoc (.snoc .nil
    ⟨.poll 0 0 (some addRow) rfl hselects, trivial⟩)
    ⟨.lookUp 0 0 addTask hfirst, trivial⟩)
    ⟨.finish 0 0 addTask .panicked rfl, trivial⟩)
    ⟨.recordFails 0 0 addTask .panicked rfl, trivial⟩)
    ⟨.poll 0 0 (some laterRow) rfl hselects', trivial⟩)
    ⟨.lookUp 0 0 laterTask firstDone_polled, trivial⟩

end Pool

end Saps.Tasks
