import Saps.Files.BrowserState.Ledger

namespace Saps.Files.BrowserState

variable {Doc : Type} [Yrs Doc]

-- The call builds the buffer for the path.
inductive Call.Inserts (path : Str) (file : MemFile Doc) : Call Doc → Prop
  | state (state : Yrs.Update Doc)
      (hseed : AsyncMemFile.fromState (Path.new path) state = .ok file) :
      Inserts path file (.insertFileFromState path state)
  | string (contents : Str) (hfile : MemFile.fromString (Path.new path) contents = file) :
      Inserts path file (.insertFileFromString path contents)

-- A call that awaits a save still serves what it was called for.
def Serves (history : Str → Option (Entry Doc)) (call : Call Doc) : Suspended Doc → Prop
  | .inserting path file => call.Inserts path file
  | .writing path file rest =>
    ∃ transaction made doc, call = .writeTransactionToFile path transaction ∧
      transaction.edits = made ++ rest ∧ Admitted history path doc ∧
      file.doc = Edit.applyAll doc made
  | .merging path file =>
    ∃ update doc, call = .applyUpdateToFile path update ∧ Admitted history path doc ∧
      Yrs.applyUpdate doc update = .ok file.doc
  | .flushing taken _ _ =>
    call = .flushAll ∧
      ∀ path file, taken.lookup path = some file → Admitted history path file.doc

-- Every buffer is in one place: in the map, with one call, or nowhere.
inductive Placed (observed : Observed Doc) (path : Str) : Prop
  | absent (hhistory : observed.ledger.history path = none)
      (hfiles : observed.state.files.lookup path = none)
      (hcalls : ∀ id, ¬ observed.state.Held id path)
  | opened (file : MemFile Doc) (hfiles : observed.state.files.lookup path = some file)
      (hadmitted : Admitted observed.ledger.history path file.doc)
      (hcalls : ∀ id, ¬ observed.state.Held id path)
  | held (id : Nat) (hfiles : observed.state.files.lookup path = none)
      (hself : observed.state.Held id path)
      (hcalls : ∀ other, observed.state.Held other path → other = id)

structure Inv (observed : Observed Doc) : Prop where
  placed : ∀ path, Placed observed path
  serves : ∀ id suspended, observed.state.calls id = some suspended →
    ∃ call, observed.ledger.calls id = some call ∧
      Serves observed.ledger.history call suspended
  stamps : ∀ id path, observed.state.Held id path →
    observed.ledger.changed path ≤ observed.ledger.begun id
  clock : ∀ path, observed.ledger.changed path ≤ observed.ledger.clock

-- No other call has the buffer of the path.
def State.Free (state : State Doc) (id : Nat) (path : Str) : Prop :=
  ∀ other, other ≠ id → ¬ state.Held other path

theorem Admitted.congr {history history' : Str → Option (Entry Doc)} {path : Str} {doc : Doc}
    (h : history' path = history path) (hadmitted : Admitted history path doc) :
    Admitted history' path doc := by
  obtain ⟨entry, hentry, hadmits⟩ := hadmitted
  exact ⟨entry, h.trans hentry, hadmits⟩

-- Only the history of what a call has matters to it.
theorem Serves.congr {history history' : Str → Option (Entry Doc)} {call : Call Doc}
    {suspended : Suspended Doc}
    (h : ∀ path, suspended.Holds path → history' path = history path)
    (hserves : Serves history call suspended) : Serves history' call suspended := by
  cases suspended with
  | inserting path file => exact hserves
  | writing path file rest =>
      obtain ⟨transaction, made, doc, hcall, hedits, hadmitted, hdoc⟩ := hserves
      exact ⟨transaction, made, doc, hcall, hedits, hadmitted.congr (h path rfl), hdoc⟩
  | merging path file =>
      obtain ⟨update, doc, hcall, hadmitted, hafter⟩ := hserves
      exact ⟨update, doc, hcall, hadmitted.congr (h path rfl), hafter⟩
  | flushing taken keys result =>
      obtain ⟨hcall, hall⟩ := hserves
      refine ⟨hcall, fun path file hfile => (hall path file hfile).congr (h path ?_)⟩
      show (taken.lookup path).isSome
      rw [hfile]
      rfl

namespace Placed

variable {before after : Observed Doc} {path : Str} {id : Nat}

theorem frame (h : Placed before path)
    (hhistory : after.ledger.history path = before.ledger.history path)
    (hfiles : after.state.files.lookup path = before.state.files.lookup path)
    (hheld : ∀ id, after.state.Held id path ↔ before.state.Held id path) :
    Placed after path := by
  cases h with
  | absent hnone hlookup hcalls =>
      exact .absent (hhistory.trans hnone) (hfiles.trans hlookup) fun id h =>
        hcalls id ((hheld id).mp h)
  | opened file hlookup hadmitted hcalls =>
      exact .opened file (hfiles.trans hlookup) (hadmitted.congr hhistory) fun id h =>
        hcalls id ((hheld id).mp h)
  | held id hlookup hself hcalls =>
      exact .held id (hfiles.trans hlookup) ((hheld id).mpr hself) fun other h =>
        hcalls other ((hheld other).mp h)

theorem free_of_open (h : Placed before path) {file : MemFile Doc}
    (hfile : before.state.files.lookup path = some file) : before.state.Free id path := by
  cases h with
  | absent _ hlookup _ => simp [hfile] at hlookup
  | opened _ _ _ hcalls => exact fun other _ => hcalls other
  | held _ hlookup _ _ => simp [hfile] at hlookup

theorem admitted_of_open (h : Placed before path) {file : MemFile Doc}
    (hfile : before.state.files.lookup path = some file) :
    Admitted before.ledger.history path file.doc := by
  cases h with
  | absent _ hlookup _ => simp [hfile] at hlookup
  | opened _ hlookup hadmitted _ =>
      cases hfile.symm.trans hlookup
      exact hadmitted
  | held _ hlookup _ _ => simp [hfile] at hlookup

theorem free_of_held (h : Placed before path) (hheld : before.state.Held id path) :
    before.state.Free id path := by
  intro other hne hother
  cases h with
  | absent _ _ hcalls => exact hcalls id hheld
  | opened _ _ _ hcalls => exact hcalls id hheld
  | held _ _ _ hcalls => exact hne ((hcalls other hother).trans (hcalls id hheld).symm)

theorem lookup_of_held (h : Placed before path) (hheld : before.state.Held id path) :
    before.state.files.lookup path = none := by
  cases h with
  | absent _ hlookup _ => exact hlookup
  | opened _ _ _ hcalls => exact absurd hheld (hcalls id)
  | held _ hlookup _ _ => exact hlookup

-- Where no call has the buffer, what is not in the map is not inserted.
theorem history_of_closed (h : Placed before path)
    (hfile : before.state.files.lookup path = none)
    (hcalls : ∀ id, ¬ before.state.Held id path) : before.ledger.history path = none := by
  cases h with
  | absent hhistory _ _ => exact hhistory
  | opened _ hlookup _ _ => simp [hfile] at hlookup
  | held id _ hself _ => exact absurd hself (hcalls id)

end Placed

-- One call has gone on, and only at the touched paths.
structure GoesOn (before : Observed Doc) (id : Nat) (touched : Str → Prop)
    (after : Observed Doc) : Prop where
  calls : ∀ other, other ≠ id → after.state.calls other = before.state.calls other
  asked : ∀ other, other ≠ id → after.ledger.calls other = before.ledger.calls other
  begun : ∀ other, other ≠ id → after.ledger.begun other = before.ledger.begun other
  files : ∀ path, ¬ touched path →
    after.state.files.lookup path = before.state.files.lookup path
  history : ∀ path, ¬ touched path → after.ledger.history path = before.ledger.history path
  apart : ∀ path, ¬ touched path → ¬ before.state.Held id path ∧ ¬ after.state.Held id path
  free : ∀ path, touched path → before.state.Free id path

namespace GoesOn

variable {before after : Observed Doc} {id : Nat} {touched : Str → Prop}

theorem held_iff (h : GoesOn before id touched after) {other : Nat} (hne : other ≠ id)
    (path : Str) : after.state.Held other path ↔ before.state.Held other path := by
  unfold State.Held
  rw [h.calls other hne]

-- What is left to show is about the call itself and the paths it touched.
theorem inv (h : GoesOn before id touched after) (hinv : Inv before)
    (hplaced : ∀ path, touched path → Placed after path)
    (hserves : ∀ suspended, after.state.calls id = some suspended →
      ∃ call, after.ledger.calls id = some call ∧ Serves after.ledger.history call suspended)
    (hchanged : ∀ other path, other ≠ id → before.state.Held other path →
      after.ledger.changed path = before.ledger.changed path)
    (hstamps : ∀ path, after.state.Held id path →
      after.ledger.changed path ≤ after.ledger.begun id)
    (hclock : ∀ path, after.ledger.changed path ≤ after.ledger.clock) : Inv after := by
  refine ⟨fun path => ?_, fun other suspended hsuspended => ?_, fun other path hheld => ?_,
    hclock⟩
  · by_cases htouched : touched path
    · exact hplaced path htouched
    · refine (hinv.placed path).frame (h.history path htouched) (h.files path htouched) ?_
      intro other
      by_cases hne : other = id
      · subst hne
        obtain ⟨hbefore, hafter⟩ := h.apart path htouched
        exact ⟨fun hheld => absurd hheld hafter, fun hheld => absurd hheld hbefore⟩
      · exact h.held_iff hne path
  · by_cases hne : other = id
    · subst hne
      exact hserves suspended hsuspended
    · rw [h.calls other hne] at hsuspended
      obtain ⟨call, hcall, hserved⟩ := hinv.serves other suspended hsuspended
      refine ⟨call, (h.asked other hne).trans hcall, hserved.congr fun path hholds => ?_⟩
      refine h.history path fun htouched => ?_
      exact h.free path htouched other hne ⟨suspended, hsuspended, hholds⟩
  · by_cases hne : other = id
    · subst hne
      exact hstamps path hheld
    · rw [h.held_iff hne path] at hheld
      rw [hchanged other path hne hheld, h.begun other hne]
      exact hinv.stamps other path hheld

end GoesOn

end Saps.Files.BrowserState
