import Saps.Files.BrowserState.Invariant

namespace Saps.Files.BrowserState

variable {Doc : Type} [Yrs Doc]

namespace Ledger

-- What is answered says nothing about which calls were made.
theorem inserted_asked (ledger : Ledger Doc) (path : Str) (seed : Except FileError (MemFile Doc))
    (result : Result) : (ledger.inserted path seed result).calls = ledger.calls ∧
      (ledger.inserted path seed result).begun = ledger.begun := by
  cases result with
  | error _ => exact ⟨rfl, rfl⟩
  | ok _ =>
      cases seed with
      | error _ => exact ⟨rfl, rfl⟩
      | ok _ => exact ⟨rfl, rfl⟩

theorem completed_asked (ledger : Ledger Doc) (call : Call Doc) (result : Result) :
    (ledger.completed call result).calls = ledger.calls ∧
      (ledger.completed call result).begun = ledger.begun := by
  cases call with
  | insertFileFromState path state => exact inserted_asked ..
  | insertFileFromString path contents => exact inserted_asked ..
  | writeTransactionToFile path transaction => exact ⟨rfl, rfl⟩
  | applyUpdateToFile path update => exact ⟨rfl, rfl⟩
  | flushAll => exact ⟨rfl, rfl⟩

theorem did_history_ne (ledger : Ledger Doc) (done : Done Doc) {path other : Str}
    (h : other ≠ path) : (ledger.did path done).history other = ledger.history other :=
  Function.update_of_ne h _ _

theorem did_history (ledger : Ledger Doc) (done : Done Doc) {path : Str} {entry : Entry Doc}
    (h : ledger.history path = some entry) :
    (ledger.did path done).history path =
      some { entry with dones := entry.dones ++ [done] } := by
  simp [did, h]

-- Nothing is known of what is done to a file that is not inserted.
theorem did_absent {ledger : Ledger Doc} {path : Str} (h : ledger.history path = none)
    (done : Done Doc) : ledger.did path done = ledger := by
  have hsame : Function.update ledger.history path none = ledger.history := by
    rw [← h]
    exact Function.update_eq_self path ledger.history
  simp only [did, h, Option.map_none, hsame]

theorem completed_inserts {call : Call Doc} {path : Str} {file : MemFile Doc}
    (h : call.Inserts path file) (ledger : Ledger Doc) :
    ledger.completed call (.ok ()) = ledger.change path (some ⟨file.doc, []⟩) ∧
      ∀ error, ledger.completed call (.error error) = ledger := by
  cases h with
  | state state hseed =>
      simp only [completed, hseed]
      exact ⟨rfl, fun _ => rfl⟩
  | string contents hfile =>
      simp only [completed, hfile]
      exact ⟨rfl, fun _ => rfl⟩

end Ledger

-- A call has come to its next await or to its end.
def Observed.progressed (before : Observed Doc) (id : Nat)
    (progress : Progress Doc × FileState Doc) : Observed Doc where
  state := before.state.progressed id progress
  ledger := (before.ledger.answered id progress.1.result).tick

section

variable {before : Observed Doc} {id : Nat} {call : Call Doc} {files : FileState Doc}

theorem held_progressed_ne {progress : Progress Doc × FileState Doc} {other : Nat}
    (hne : other ≠ id) (path : Str) :
    (before.progressed id progress).state.Held other path ↔ before.state.Held other path := by
  simp only [State.Held, Observed.progressed, State.progressed, Function.update_of_ne hne]

theorem held_awaits (suspended : Suspended Doc) (path : Str) :
    (before.progressed id (.awaits suspended, files)).state.Held id path ↔
      suspended.Holds path := by
  simp [State.Held, Observed.progressed, State.progressed, Progress.suspended]

theorem not_held_returns (result : Result) (path : Str) :
    ¬ (before.progressed id (.returns result, files)).state.Held id path := by
  simp [State.Held, Observed.progressed, State.progressed, Progress.suspended]

theorem ledger_awaits (suspended : Suspended Doc) :
    (before.progressed id (.awaits suspended, files)).ledger = before.ledger.tick := by
  cases before.ledger.calls id <;> rfl

theorem ledger_returns (hcall : before.ledger.calls id = some call) (result : Result) :
    (before.progressed id (.returns result, files)).ledger =
      (before.ledger.completed call result).tick := by
  simp [Observed.progressed, Ledger.answered, Progress.result, hcall]

theorem calls_awaits (suspended : Suspended Doc) :
    (before.progressed id (.awaits suspended, files)).state.calls id = some suspended := by
  simp [Observed.progressed, State.progressed, Progress.suspended]

theorem calls_returns (result : Result) :
    (before.progressed id (.returns result, files)).state.calls id = none := by
  simp [Observed.progressed, State.progressed, Progress.suspended]

-- No other call has the buffers that are handed out or put back, so each is in one
-- place afterwards.
theorem placed_awaits {path : Str} (hfree : before.state.Free id path)
    {suspended : Suspended Doc} (hholds : suspended.Holds path)
    (hfile : files.lookup path = none) :
    Placed (before.progressed id (.awaits suspended, files)) path := by
  refine .held id hfile ((held_awaits suspended path).mpr hholds) fun other hheld => ?_
  by_contra hne
  exact hfree other hne ((held_progressed_ne hne path).mp hheld)

theorem placed_returns {path : Str} (hfree : before.state.Free id path) {result : Result}
    {file : MemFile Doc} (hfile : files.lookup path = some file)
    (hadmitted : Admitted (before.progressed id (.returns result, files)).ledger.history
      path file.doc) :
    Placed (before.progressed id (.returns result, files)) path := by
  refine .opened file hfile hadmitted fun other hheld => ?_
  by_cases hne : other = id
  · subst hne
    exact not_held_returns result path hheld
  · exact hfree other hne ((held_progressed_ne hne path).mp hheld)

end

namespace Inv

variable {before : Observed Doc} {id : Nat} {call : Call Doc} {files : FileState Doc}

-- A call goes on to an await, with the buffers that it holds from then on.
theorem awaits (hinv : Inv before) (hcall : before.ledger.calls id = some call)
    {suspended : Suspended Doc}
    (hfiles : ∀ path, ¬ suspended.Holds path →
      files.lookup path = before.state.files.lookup path)
    (hgone : ∀ path, suspended.Holds path → files.lookup path = none)
    (hbefore : ∀ path, before.state.Held id path → suspended.Holds path)
    (hfree : ∀ path, suspended.Holds path → before.state.Free id path)
    (hserves : Serves before.ledger.history call suspended)
    (hstamps : ∀ path, suspended.Holds path →
      before.ledger.changed path ≤ before.ledger.begun id) :
    Inv (before.progressed id (.awaits suspended, files)) := by
  have hledger : (before.progressed id (.awaits suspended, files)).ledger =
      before.ledger.tick := ledger_awaits suspended
  have hgoes : GoesOn before id (fun path => suspended.Holds path)
      (before.progressed id (.awaits suspended, files)) := by
    refine ⟨fun other hne => Function.update_of_ne hne _ _, ?_, ?_, hfiles, ?_,
      fun path htouched => ⟨fun hheld => htouched (hbefore path hheld), fun hheld => ?_⟩, hfree⟩
    · exact fun _ _ => by rw [hledger]; rfl
    · exact fun _ _ => by rw [hledger]; rfl
    · exact fun _ _ => by rw [hledger]; rfl
    · exact htouched ((held_awaits suspended path).mp hheld)
  refine hgoes.inv hinv (fun path htouched => ?_) (fun other hother => ?_) ?_
    (fun path hheld => ?_) fun path => ?_
  · exact placed_awaits (hfree path htouched) htouched (hgone path htouched)
  · rw [calls_awaits] at hother
    cases hother
    rw [hledger]
    exact ⟨call, hcall, hserves⟩
  · rw [hledger]
    intro _ _ _ _
    rfl
  · rw [hledger]
    exact hstamps path ((held_awaits suspended path).mp hheld)
  · rw [hledger]
    exact Nat.le_succ_of_le (hinv.clock path)

-- A call answers, and puts buffers at the touched paths.
theorem returns (hinv : Inv before) (hcall : before.ledger.calls id = some call)
    {result : Result} {ledger : Ledger Doc}
    (hledger : before.ledger.completed call result = ledger) {touched : Str → Prop}
    (hfiles : ∀ path, ¬ touched path → files.lookup path = before.state.files.lookup path)
    (hhistory : ∀ path, ¬ touched path → ledger.history path = before.ledger.history path)
    (hbefore : ∀ path, before.state.Held id path → touched path)
    (hfree : ∀ path, touched path → before.state.Free id path)
    (hput : ∀ path, touched path →
      ∃ file, files.lookup path = some file ∧ Admitted ledger.history path file.doc)
    (hchanged : ∀ other path, other ≠ id → before.state.Held other path →
      ledger.changed path = before.ledger.changed path)
    (hclock : ∀ path, ledger.changed path ≤ ledger.clock) :
    Inv (before.progressed id (.returns result, files)) := by
  have hafter : (before.progressed id (.returns result, files)).ledger = ledger.tick := by
    rw [ledger_returns hcall, hledger]
  obtain ⟨hcalls, hbegun⟩ := before.ledger.completed_asked call result
  rw [hledger] at hcalls hbegun
  have hgoes : GoesOn before id touched (before.progressed id (.returns result, files)) := by
    refine ⟨fun other hne => Function.update_of_ne hne _ _, ?_, ?_, hfiles, ?_,
      fun path htouched => ⟨fun hheld => htouched (hbefore path hheld), ?_⟩, hfree⟩
    · exact fun other _ => by rw [hafter]; exact congrFun hcalls other
    · exact fun other _ => by rw [hafter]; exact congrFun hbegun other
    · exact fun path htouched => by rw [hafter]; exact hhistory path htouched
    · exact not_held_returns result path
  refine hgoes.inv hinv (fun path htouched => ?_) (fun other hother => ?_) ?_
    (fun path hheld => ?_) fun path => ?_
  · obtain ⟨file, hfile, hadmitted⟩ := hput path htouched
    refine placed_returns (hfree path htouched) hfile ?_
    rw [hafter]
    exact hadmitted
  · rw [calls_returns] at hother
    cases hother
  · rw [hafter]
    exact hchanged
  · exact absurd hheld (not_held_returns result path)
  · rw [hafter]
    exact Nat.le_succ_of_le (hclock path)

end Inv

-- The call with this number works at one path, where it may put and take the buffer.
structure Serving (before : Observed Doc) (id : Nat) (call : Call Doc) (path : Str) : Prop where
  inv : Inv before
  asked : before.ledger.calls id = some call
  free : before.state.Free id path
  apart : ∀ other, before.state.Held id other → other = path
  stamp : before.ledger.changed path ≤ before.ledger.begun id

namespace Serving

variable {before : Observed Doc} {id : Nat} {call : Call Doc} {path : Str}
  {files : FileState Doc}

-- The buffer goes to the call.
theorem takes (h : Serving before id call path) {suspended : Suspended Doc}
    (hholds : ∀ other, suspended.Holds other ↔ other = path)
    (hfiles : ∀ other, files.lookup other =
      if other = path then none else before.state.files.lookup other)
    (hserves : Serves before.ledger.history call suspended) :
    Inv (before.progressed id (.awaits suspended, files)) := by
  refine h.inv.awaits h.asked (fun other hother => ?_) (fun other hother => ?_)
    (fun other hheld => (hholds other).mpr (h.apart other hheld)) (fun other hother => ?_)
    hserves fun other hother => ?_
  · rw [hfiles, if_neg fun heq => hother ((hholds other).mpr heq)]
  · rw [hfiles, if_pos ((hholds other).mp hother)]
  · rw [(hholds other).mp hother]
    exact h.free
  · rw [(hholds other).mp hother]
    exact h.stamp

-- The buffer goes back to the map, and what was done to it is noted.
theorem settles (h : Serving before id call path) {result : Result} {done : Done Doc}
    (hdone : before.ledger.completed call result = before.ledger.did path done)
    {file : MemFile Doc}
    (hfiles : ∀ other, files.lookup other =
      if other = path then some file else before.state.files.lookup other)
    (hadmitted : Admitted (before.ledger.did path done).history path file.doc) :
    Inv (before.progressed id (.returns result, files)) := by
  refine h.inv.returns h.asked hdone (fun other hne => ?_) (fun other hne => ?_) h.apart ?_ ?_
    (fun _ _ _ _ => rfl) h.inv.clock
  · rw [hfiles, if_neg hne]
  · exact Ledger.did_history_ne _ _ hne
  · rintro other rfl
    exact h.free
  · rintro other rfl
    exact ⟨file, by rw [hfiles, if_pos rfl], hadmitted⟩

end Serving

end Saps.Files.BrowserState
