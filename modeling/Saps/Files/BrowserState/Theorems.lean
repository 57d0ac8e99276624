import Saps.Files.BrowserState.Steps
import Saps.Files.OpLog

namespace Saps.Files.BrowserState

open Transition

section

variable {Doc : Type} [Yrs Doc]

omit [Yrs Doc] in
theorem lookup_writeOn {path other : Str} (hne : other ≠ path) (files : FileState Doc)
    (written : MemFile Doc × Option (List Edit)) :
    (writeOn path files written).2.lookup other = files.lookup other := by
  obtain ⟨file, _ | edits⟩ := written
  · exact (HashMap.lookup_insert ..).trans (if_neg hne)
  · rfl

omit [Yrs Doc] in
theorem lookup_flushOn {path : Str} {taken : FileState Doc} (h : taken.lookup path = none)
    (keys : List Str) (result : Result) (files : FileState Doc) :
    (flushOn taken keys result files).2.lookup path = files.lookup path := by
  cases keys with
  | nil => exact (HashMap.lookup_extend ..).trans (by rw [h]; rfl)
  | cons key keys => rfl

-- A call that goes on leaves every path alone that it has no buffer for.
theorem lookup_resume {path : Str} {suspended : Suspended Doc} (answer : Result)
    (files : FileState Doc) (hholds : ¬ suspended.Holds path)
    (hinserting : ∀ file, suspended = .inserting path file → answer ≠ .ok ()) :
    (resume answer files suspended).2.lookup path = files.lookup path := by
  cases suspended with
  | inserting own file =>
      cases answer with
      | error error => rfl
      | ok =>
          refine (HashMap.lookup_insert ..).trans (if_neg ?_)
          rintro rfl
          exact hinserting file rfl rfl
  | writing own file edits =>
      cases answer with
      | error error => exact (HashMap.lookup_insert ..).trans (if_neg hholds)
      | ok => exact lookup_writeOn hholds files _
  | merging own file => exact (HashMap.lookup_insert ..).trans (if_neg hholds)
  | flushing taken keys result =>
      have hnone : taken.lookup path = none := by
        simpa [Suspended.Holds] using hholds
      cases keys with
      | nil => exact lookup_flushOn hnone [] result files
      | cons key keys =>
          cases answer with
          | error error => exact lookup_flushOn hnone ..
          | ok =>
              cases hfile : taken.lookup key with
              | none =>
                  simp only [resume, hfile]
                  exact lookup_flushOn hnone ..
              | some file =>
                  simp only [resume, hfile]
                  refine lookup_flushOn ?_ ..
                  rw [HashMap.lookup_insert, hnone]
                  refine if_neg ?_
                  rintro rfl
                  simp [hnone] at hfile

theorem Moves.sound {before after : Observed Doc} {label : Label Doc}
    (h : Moves before label after) (hinv : Inv before) (hundisturbed : Undisturbed before label) :
    Sound before label after := by
  obtain ⟨hstep, hledger⟩ := h
  obtain ⟨state, ledger⟩ := after
  cases hstep with
  | start id call hfree =>
      cases call with
      | insertFileFromState path state => exact trivial
      | insertFileFromString path contents => exact trivial
      | writeTransactionToFile path transaction =>
          intro hresult
          cases hfile : before.state.files.lookup path with
          | none => exact (hinv.placed path).history_of_closed hfile hundisturbed
          | some file =>
              simp only [start, hfile] at hresult
              rcases hrun : AsyncMemFile.applyUpToSave file transaction.edits with ⟨after, _ | left⟩
              · simp [hrun, writeOn, Progress.result] at hresult
              · simp [hrun, writeOn, Progress.result] at hresult
      | applyUpdateToFile path update =>
          intro hresult
          cases hfile : before.state.files.lookup path with
          | none => exact .inl ((hinv.placed path).history_of_closed hfile hundisturbed)
          | some file =>
              refine .inr ⟨file, rfl, ?_⟩
              simp only [start, hfile] at hresult
              cases hupdate : AsyncMemFile.applyUpdate file update with
              | ok after => simp [hupdate, Progress.result] at hresult
              | error error => simpa [hupdate, Progress.result] using hresult
      | flushAll => exact trivial
  | resume id suspended hsuspended answer =>
      intro path hchanged
      refine lookup_resume answer _ (fun hholds => ?_) fun file heq hanswer => ?_
      · have hstamp := hinv.stamps id path ⟨suspended, hsuspended, hholds⟩
        omega
      · subst heq hanswer
        have hstamp := (hundisturbed path file hsuspended).2
        omega
  | removeFile path => exact trivial
  | wipeState => exact trivial
  | readFile path =>
      intro hnone
      have hfile : before.state.files.lookup path = none := by
        simpa [readFile] using hnone
      exact (hinv.placed path).history_of_closed hfile hundisturbed

-- While a call has its buffer, an inserted file is reported as not open.
theorem Inv.closed_while_held {observed : Observed Doc} (hinv : Inv observed) {id : Nat}
    {path : Str} (hheld : observed.state.Held id path) :
    observed.ledger.history path ≠ none ∧ readFile path observed.state.files = none := by
  obtain ⟨suspended, hsuspended, hholds⟩ := hheld
  have hgone := (hinv.placed path).lookup_of_held ⟨suspended, hsuspended, hholds⟩
  refine ⟨?_, by rw [readFile, hgone]; rfl⟩
  obtain ⟨call, _, hserves⟩ := hinv.serves id suspended hsuspended
  have hadmitted : ∃ doc, Admitted observed.ledger.history path doc := by
    cases suspended with
    | inserting own file => exact hholds.elim
    | writing own file edits =>
        obtain ⟨_, _, doc, _, _, hadmitted, _⟩ := hserves
        obtain rfl : path = own := hholds
        exact ⟨doc, hadmitted⟩
    | merging own file =>
        obtain ⟨_, doc, _, hadmitted, _⟩ := hserves
        obtain rfl : path = own := hholds
        exact ⟨doc, hadmitted⟩
    | flushing taken keys result =>
        obtain ⟨file, hfile⟩ := Option.isSome_iff_exists.mp hholds
        exact ⟨file.doc, hserves.2 path file hfile⟩
  obtain ⟨doc, entry, hentry, _⟩ := hadmitted
  rw [hentry]
  exact Option.some_ne_none entry

theorem Inv.kept {observed : Observed Doc} (hinv : Inv observed) : Kept observed := by
  refine ⟨fun path file hfile => (hinv.placed path).admitted_of_open hfile, fun path hne => ?_⟩
  cases hinv.placed path with
  | absent hhistory _ _ => exact absurd hhistory hne
  | opened file hfiles _ _ => exact .inl ⟨file, hfiles⟩
  | held id _ hself _ => exact .inr ⟨id, hself⟩

theorem session_sound (configured : Bool) {trace : List (Label Doc)} {finish : Observed Doc}
    (run : Run (fun before label after => Moves before label after ∧ Undisturbed before label)
      (Observed.new configured) trace finish) :
    Kept finish ∧
      Run (fun before label after => Moves before label after ∧ Sound before label after)
        (Observed.new configured) trace finish := by
  have hboth : Inv finish ∧
      Run (fun before label after => Moves before label after ∧ Sound before label after)
        (Observed.new configured) trace finish := by
    induction run with
    | nil => exact ⟨inv_new configured, .nil⟩
    | snoc _ last ih =>
        obtain ⟨hinv, hrun⟩ := ih
        obtain ⟨hmoves, hundisturbed⟩ := last
        exact ⟨hmoves.inv hinv hundisturbed,
          .snoc hrun ⟨hmoves, hmoves.sound hinv hundisturbed⟩⟩
  exact ⟨hboth.1.kept, hboth.2⟩

end

namespace Observed

def started (before : Observed OpLog) (id : Nat) (call : Call OpLog) : Observed OpLog :=
  (before.begun id call).progressed id (start before.state.configured before.state.files call)

def resumed (before : Observed OpLog) (id : Nat) (answer : Result) : Observed OpLog :=
  match before.state.calls id with
  | some suspended => before.progressed id (resume answer before.state.files suspended)
  | none => before

def removed (before : Observed OpLog) (path : Str) : Observed OpLog :=
  ⟨{ before.state with files := removeFile path before.state.files },
    (before.ledger.change path none).tick⟩

end Observed

namespace Moves

variable {before : Observed OpLog} {id : Nat} {call : Call OpLog} {result : Option Result}

theorem started (hfree : before.state.calls id = none)
    (hresult : (start before.state.configured before.state.files call).1.result = result) :
    Moves before (.start id call result) (before.started id call) := by
  subst hresult
  exact ⟨.start id call hfree, rfl⟩

theorem resumed {suspended : Suspended OpLog} {answer : Result}
    (hcall : before.state.calls id = some suspended)
    (hresult : (resume answer before.state.files suspended).1.result = result) :
    Moves before (.resume id answer result) (before.resumed id answer) := by
  subst hresult
  simp only [Observed.resumed, hcall]
  exact ⟨.resume id suspended hcall answer, rfl⟩

end Moves

def insertA : Call OpLog := .insertFileFromString ['a'] ['x']

def writeA : Call OpLog := .writeTransactionToFile ['a'] ⟨[.insert ⟨0, 0⟩ ['h', 'i']]⟩

-- The file is open, and an edit to it awaits its save.
def writing : Observed OpLog :=
  (((Observed.new true).started 0 insertA).resumed 0 (.ok ())).started 1 writeA

theorem run_writing : Run (fun before label after => Moves before label after ∧
      Undisturbed before label) (Observed.new true)
    [.start 0 insertA none, .resume 0 (.ok ()) (some (.ok ())), .start 1 writeA none]
    writing := by
  have hinsert : Undisturbed ((Observed.new true).started 0 insertA)
      (.resume 0 (.ok ()) (some (.ok ()))) := by
    refine fun path file _ => ⟨?_, Nat.zero_le _⟩
    rintro (_ | id) ⟨suspended, hsuspended, hholds⟩
    · cases hsuspended
      exact hholds
    · cases hsuspended
  have hwrite : Undisturbed (((Observed.new true).started 0 insertA).resumed 0 (.ok ()))
      (.start 1 writeA none) := by
    rintro (_ | id) ⟨suspended, hsuspended, _⟩
    · cases hsuspended
    · cases hsuspended
  exact .snoc (.snoc (.snoc .nil ⟨.started rfl rfl, trivial⟩) ⟨.resumed rfl rfl, hinsert⟩)
    ⟨.started rfl rfl, hwrite⟩

def insertB : Call OpLog := .insertFileFromString ['b'] ['y']

-- Another file is opened while the edit awaits its save.
theorem session_sound_written :
    let finish := ((writing.started 2 insertB).resumed 2 (.ok ())).resumed 1 (.ok ())
    Kept finish ∧ Run
      (fun before label after => Moves before label after ∧ Sound before label after)
      (Observed.new true) [.start 0 insertA none, .resume 0 (.ok ()) (some (.ok ())),
        .start 1 writeA none, .start 2 insertB none, .resume 2 (.ok ()) (some (.ok ())),
        .resume 1 (.ok ()) (some (.ok ()))] finish := by
  have hinsert : Undisturbed (writing.started 2 insertB) (.resume 2 (.ok ()) (some (.ok ()))) := by
    intro path file hcall
    cases hcall
    refine ⟨?_, by decide⟩
    rintro (_ | _ | _ | id) ⟨suspended, hsuspended, hholds⟩
    · cases hsuspended
    · cases hsuspended
      cases hholds
    · cases hsuspended
      exact hholds
    · cases hsuspended
  have hwrite : Undisturbed ((writing.started 2 insertB).resumed 2 (.ok ()))
      (.resume 1 (.ok ()) (some (.ok ()))) := by
    intro path file hcall
    cases hcall
  have hfirst : Moves writing (.start 2 insertB none) (writing.started 2 insertB) :=
    .started rfl rfl
  have hsecond : Moves (writing.started 2 insertB) (.resume 2 (.ok ()) (some (.ok ())))
      ((writing.started 2 insertB).resumed 2 (.ok ())) := .resumed rfl rfl
  have hthird : Moves ((writing.started 2 insertB).resumed 2 (.ok ()))
      (.resume 1 (.ok ()) (some (.ok ())))
      (((writing.started 2 insertB).resumed 2 (.ok ())).resumed 1 (.ok ())) := .resumed rfl rfl
  exact session_sound true (.snoc (.snoc (.snoc run_writing ⟨hfirst, trivial⟩) ⟨hsecond, hinsert⟩)
    ⟨hthird, hwrite⟩)

-- A file that is closed during the save comes back with it.
theorem removed_comes_back :
    ¬ ∀ trace (finish : Observed OpLog), Run Moves (Observed.new true) trace finish →
      Kept finish ∧
        Run (fun before label after => Moves before label after ∧ Sound before label after)
          (Observed.new true) trace finish := by
  intro h
  have hrun : Run Moves (Observed.new true)
      [.start 0 insertA none, .resume 0 (.ok ()) (some (.ok ())), .start 1 writeA none,
        .removeFile ['a'], .resume 1 (.ok ()) (some (.ok ()))]
      ((writing.removed ['a']).resumed 1 (.ok ())) :=
    .snoc (.snoc (run_writing.mono fun _ _ _ hboth => hboth.1) ⟨.removeFile ['a'], rfl⟩)
      (.resumed rfl rfl)
  have hfile : ∃ file, ((writing.removed ['a']).resumed 1 (.ok ())).state.files.lookup ['a'] =
      some file := ⟨_, rfl⟩
  obtain ⟨file, hfile⟩ := hfile
  obtain ⟨entry, hentry, _⟩ := (h _ _ hrun).1.admitted ['a'] file hfile
  have hnone : ((writing.removed ['a']).resumed 1 (.ok ())).ledger.history ['a'] = none := rfl
  rw [hnone] at hentry
  cases hentry

end Saps.Files.BrowserState
