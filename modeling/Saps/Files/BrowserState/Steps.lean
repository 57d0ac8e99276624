import Saps.Files.BrowserState.Calls

namespace Saps.Files.BrowserState

variable {Doc : Type} [Yrs Doc]

def Observed.begun (before : Observed Doc) (id : Nat) (call : Call Doc) : Observed Doc :=
  ⟨before.state, before.ledger.begin id call⟩

theorem asked_begun (before : Observed Doc) (id : Nat) (call : Call Doc) :
    (before.begun id call).ledger.calls id = some call :=
  Function.update_self ..

omit [Yrs Doc] in
theorem State.not_held_free {state : State Doc} {id : Nat} (hfree : state.calls id = none)
    (path : Str) : ¬ state.Held id path := by
  rintro ⟨suspended, hsuspended, _⟩
  rw [hfree] at hsuspended
  cases hsuspended

namespace Inv

variable {before : Observed Doc} {id : Nat}

-- What a number that holds nothing may do with an open buffer.
theorem serving_open (hinv : Inv before) (hfree : before.state.calls id = none) (call : Call Doc)
    {path : Str} {file : MemFile Doc} (hfile : before.state.files.lookup path = some file) :
    Serving (before.begun id call) id call path where
  inv := hinv.begin hfree call
  asked := asked_begun before id call
  free := (hinv.placed path).free_of_open hfile
  apart other hheld := absurd hheld (State.not_held_free hfree other)
  stamp := by
    show before.ledger.changed path ≤ Function.update before.ledger.begun id _ id
    rw [Function.update_self]
    exact hinv.clock path

theorem starts_insert (hinv : Inv before) (hfree : before.state.calls id = none)
    {call : Call Doc} {path : Str} {seed : Except FileError (MemFile Doc)}
    (hinserts : ∀ file, seed = .ok file → call.Inserts path file)
    (hfailed : ∀ error (ledger : Ledger Doc), ledger.completed call (.error error) = ledger) :
    Inv ((before.begun id call).progressed id
      (insertSeed before.state.configured path seed, before.state.files)) := by
  have hbegun := hinv.begin hfree call
  have hcall := asked_begun before id call
  have hheld := State.not_held_free hfree
  unfold insertSeed
  split
  · cases seed with
    | ok file => exact hbegun.inserting hcall hheld (hinserts file rfl)
    | error error => exact hbegun.idles hcall hheld (hfailed error _) fun _ => rfl
  · exact hbegun.idles hcall hheld (hfailed _ _) fun _ => rfl

-- A file that no call has is edited, or it is not inserted.
theorem starts_write (hinv : Inv before) (hfree : before.state.calls id = none) {path : Str}
    (hclosed : ∀ id, ¬ before.state.Held id path) (transaction : Transaction) :
    Inv ((before.begun id (.writeTransactionToFile path transaction)).progressed id
      (start before.state.configured before.state.files
        (.writeTransactionToFile path transaction))) := by
  have hbegun := hinv.begin hfree (.writeTransactionToFile path transaction)
  cases hfile : before.state.files.lookup path with
  | none =>
      have habsent := (hbegun.placed path).history_of_closed hfile hclosed
      simp only [start, hfile]
      exact hbegun.idles (asked_begun ..) (State.not_held_free hfree)
        (Ledger.did_absent habsent _) fun _ => rfl
  | some file =>
      have hserving := hinv.serving_open hfree (.writeTransactionToFile path transaction) hfile
      have hadmitted := (hinv.placed path).admitted_of_open hfile
      simp only [start, hfile]
      exact hserving.writes (List.nil_append _).symm hadmitted rfl
        fun other => HashMap.lookup_erase ..

theorem starts_update (hinv : Inv before) (hfree : before.state.calls id = none) {path : Str}
    (hclosed : ∀ id, ¬ before.state.Held id path) (update : Yrs.Update Doc) :
    Inv ((before.begun id (.applyUpdateToFile path update)).progressed id
      (start before.state.configured before.state.files (.applyUpdateToFile path update))) := by
  have hbegun := hinv.begin hfree (.applyUpdateToFile path update)
  cases hfile : before.state.files.lookup path with
  | none =>
      have habsent := (hbegun.placed path).history_of_closed hfile hclosed
      simp only [start, hfile]
      exact hbegun.idles (asked_begun ..) (State.not_held_free hfree)
        (Ledger.did_absent habsent _) fun _ => rfl
  | some file =>
      have hserving := hinv.serving_open hfree (.applyUpdateToFile path update) hfile
      have hadmitted := (hinv.placed path).admitted_of_open hfile
      simp only [start, hfile, AsyncMemFile.applyUpdate]
      cases hupdate : Yrs.applyUpdate file.doc update with
      | ok doc =>
          refine hserving.takes (fun _ => Iff.rfl) (fun other => HashMap.lookup_erase ..) ?_
          exact ⟨update, file.doc, rfl, hadmitted, hupdate⟩
      | error message =>
          have hdid := hadmitted.did fun entry hadmits =>
            Admits.refused hadmits update (.memFile file.path.fullPath.text message)
          refine hserving.settles rfl (fun other => ?_) hdid
          rw [HashMap.lookup_insert, HashMap.lookup_erase]
          split <;> rfl

-- Every buffer that is in the map goes to the flush.
theorem starts_flush (hinv : Inv before) (hfree : before.state.calls id = none) :
    Inv ((before.begun id .flushAll).progressed id
      (start before.state.configured before.state.files .flushAll)) := by
  refine (hinv.begin hfree .flushAll).flushes (asked_begun ..) (fun path file hfile => ?_)
    (fun path h => absurd h (State.not_held_free hfree path)) (fun path => ?_) _ _
  · have hserving := hinv.serving_open hfree .flushAll hfile
    exact ⟨(hinv.placed path).admitted_of_open hfile, hserving.free, hserving.stamp⟩
  · show (HashMap.new : FileState Doc).lookup path =
      if (before.state.files.lookup path).isSome then none else before.state.files.lookup path
    rw [HashMap.lookup_new]
    cases before.state.files.lookup path <;> rfl

-- A call up to its first await.
theorem starts (hinv : Inv before) (hfree : before.state.calls id = none) (call : Call Doc)
    {result : Option Result} (hundisturbed : Undisturbed before (.start id call result)) :
    Inv ((before.begun id call).progressed id
      (start before.state.configured before.state.files call)) := by
  cases call with
  | insertFileFromState path state =>
      exact hinv.starts_insert hfree (fun file hseed => .state state hseed) fun _ _ => rfl
  | insertFileFromString path contents =>
      refine hinv.starts_insert hfree (fun file hseed => .string contents ?_) fun _ _ => rfl
      exact Except.ok.inj hseed
  | writeTransactionToFile path transaction =>
      exact hinv.starts_write hfree hundisturbed transaction
  | applyUpdateToFile path update => exact hinv.starts_update hfree hundisturbed update
  | flushAll => exact hinv.starts_flush hfree

-- What a call may do with the buffer that it holds.
theorem serving_held (hinv : Inv before) {call : Call Doc} {suspended : Suspended Doc}
    (hcall : before.ledger.calls id = some call)
    (hsuspended : before.state.calls id = some suspended) {path : Str}
    (hholds : ∀ other, suspended.Holds other ↔ other = path) :
    Serving before id call path ∧ before.state.files.lookup path = none := by
  have hheld : before.state.Held id path := ⟨suspended, hsuspended, (hholds path).mpr rfl⟩
  refine ⟨⟨hinv, hcall, (hinv.placed path).free_of_held hheld, ?_, hinv.stamps id path hheld⟩,
    (hinv.placed path).lookup_of_held hheld⟩
  rintro other ⟨another, hanother, hother⟩
  cases hsuspended.symm.trans hanother
  exact (hholds other).mp hother

-- A flush goes on with buffers whose documents are the ones it has taken.
theorem flushes_on (hinv : Inv before) {taken saved : FileState Doc} {left : List Str}
    {sofar : Result} (hsuspended : before.state.calls id = some (.flushing taken left sofar))
    (hsaved : ∀ path, (saved.lookup path).map MemFile.doc = (taken.lookup path).map MemFile.doc)
    (keys : List Str) (result : Result) :
    Inv (before.progressed id (flushOn saved keys result before.state.files)) := by
  obtain ⟨_, hcall, rfl, hall⟩ := hinv.serves id _ hsuspended
  have hheld (path : Str) : before.state.Held id path ↔ (saved.lookup path).isSome := by
    have hsame : (saved.lookup path).isSome = (taken.lookup path).isSome := by
      simpa using congrArg Option.isSome (hsaved path)
    rw [hsame]
    simp [State.Held, hsuspended, Suspended.Holds]
  refine hinv.flushes hcall (fun path file hfile => ?_) (fun path => (hheld path).mp)
    (fun path => ?_) keys result
  · have hself : before.state.Held id path := (hheld path).mpr (by rw [hfile]; rfl)
    refine ⟨?_, (hinv.placed path).free_of_held hself, hinv.stamps id path hself⟩
    have hdoc := hsaved path
    rw [hfile, Option.map_some, eq_comm, Option.map_eq_some_iff] at hdoc
    obtain ⟨buffer, hbuffer, hsame⟩ := hdoc
    rw [← hsame]
    exact hall path buffer hbuffer
  · split
    · next h => exact (hinv.placed path).lookup_of_held ((hheld path).mpr h)
    · rfl

theorem resumes_inserting (hinv : Inv before) {path : Str} {file : MemFile Doc}
    (hsuspended : before.state.calls id = some (.inserting path file)) (answer : Result)
    (hundisturbed : answer = .ok () → ∀ other, ¬ before.state.Held other path) :
    Inv (before.progressed id (resume answer before.state.files (.inserting path file))) := by
  obtain ⟨call, hcall, hserves⟩ := hinv.serves id _ hsuspended
  have hheld : ∀ path, ¬ before.state.Held id path := by
    rintro other ⟨another, hanother, hother⟩
    cases hsuspended.symm.trans hanother
    exact hother
  cases answer with
  | ok =>
      exact hinv.inserted hcall hheld hserves (AsyncMemFile.afterSave_doc ..) (hundisturbed rfl)
        fun other => HashMap.lookup_insert ..
  | error error =>
      exact hinv.idles hcall hheld ((Ledger.completed_inserts hserves _).2 error) fun _ => rfl

-- A save that fails ends the write with the edits that were made.
theorem resumes_writing (hinv : Inv before) {path : Str} {file : MemFile Doc} {rest : List Edit}
    (hsuspended : before.state.calls id = some (.writing path file rest)) (answer : Result) :
    Inv (before.progressed id (resume answer before.state.files (.writing path file rest))) := by
  obtain ⟨call, hcall, hserves⟩ := hinv.serves id _ hsuspended
  obtain ⟨hserving, hgone⟩ := hinv.serving_held hcall hsuspended fun _ => Iff.rfl
  obtain ⟨transaction, made, doc, rfl, hedits, hadmitted, hdoc⟩ := hserves
  cases answer with
  | ok =>
      refine hserving.writes hedits hadmitted hdoc fun other => ?_
      split
      · next heq => rw [heq, hgone]
      · rfl
  | error error =>
      have hmade : made <+: transaction.edits := by
        rw [hedits]
        exact List.prefix_append _ _
      refine hserving.settles rfl (fun other => HashMap.lookup_insert ..) <|
        hadmitted.did fun entry hadmits => ?_
      rw [hdoc]
      exact .wrote hadmits hmade fun h => by cases h

theorem resumes_merging (hinv : Inv before) {path : Str} {file : MemFile Doc}
    (hsuspended : before.state.calls id = some (.merging path file)) (answer : Result) :
    Inv (before.progressed id (resume answer before.state.files (.merging path file))) := by
  obtain ⟨call, hcall, hserves⟩ := hinv.serves id _ hsuspended
  obtain ⟨hserving, _⟩ := hinv.serving_held hcall hsuspended fun _ => Iff.rfl
  obtain ⟨update, doc, rfl, hadmitted, hafter⟩ := hserves
  refine hserving.settles rfl (fun other => HashMap.lookup_insert ..) <|
    hadmitted.did fun entry hadmits => ?_
  rw [AsyncMemFile.afterSave_doc]
  exact .merged hadmits hafter answer

theorem resumes_flushing (hinv : Inv before) {taken : FileState Doc} {keys : List Str}
    {result : Result} (hsuspended : before.state.calls id = some (.flushing taken keys result))
    (answer : Result) :
    Inv (before.progressed id
      (resume answer before.state.files (.flushing taken keys result))) := by
  cases keys with
  | nil => exact hinv.flushes_on hsuspended (fun _ => rfl) [] result
  | cons key keys =>
      cases answer with
      | error error => exact hinv.flushes_on hsuspended (fun _ => rfl) keys (.error error)
      | ok =>
          cases hfile : taken.lookup key with
          | none =>
              simp only [resume, hfile]
              exact hinv.flushes_on hsuspended (fun _ => rfl) keys result
          | some file =>
              simp only [resume, hfile]
              refine hinv.flushes_on hsuspended (fun path => ?_) keys result
              rw [HashMap.lookup_insert]
              split
              · next heq =>
                rw [heq, hfile]
                exact congrArg some (AsyncMemFile.afterSave_doc ..)
              · rfl

-- A call from the answer to its save to its next await.
theorem resumes (hinv : Inv before) {suspended : Suspended Doc}
    (hsuspended : before.state.calls id = some suspended) (answer : Result)
    {result : Option Result} (hundisturbed : Undisturbed before (.resume id answer result)) :
    Inv (before.progressed id (resume answer before.state.files suspended)) := by
  cases suspended with
  | inserting path file =>
      refine hinv.resumes_inserting hsuspended answer fun hanswer => ?_
      subst hanswer
      exact (hundisturbed path file hsuspended).1
  | writing path file rest => exact hinv.resumes_writing hsuspended answer
  | merging path file => exact hinv.resumes_merging hsuspended answer
  | flushing taken keys result => exact hinv.resumes_flushing hsuspended answer

end Inv

theorem inv_new (configured : Bool) : Inv (Observed.new configured : Observed Doc) := by
  have hheld : ∀ id path, ¬ (Observed.new configured : Observed Doc).state.Held id path := by
    rintro id path ⟨suspended, hsuspended, _⟩
    cases hsuspended
  refine ⟨fun path => .absent rfl (HashMap.lookup_new path) fun id => hheld id path, ?_,
    fun id path h => absurd h (hheld id path), fun _ => Nat.le_refl _⟩
  intro id suspended hsuspended
  cases hsuspended

theorem Moves.inv {before after : Observed Doc} {label : Label Doc} (h : Moves before label after)
    (hinv : Inv before) (hundisturbed : Undisturbed before label) : Inv after := by
  obtain ⟨hstep, hledger⟩ := h
  obtain ⟨state, ledger⟩ := after
  subst hledger
  cases hstep with
  | start id call hfree => exact hinv.starts hfree call hundisturbed
  | resume id suspended hsuspended answer =>
      exact hinv.resumes hsuspended answer hundisturbed
  | removeFile path =>
      refine hinv.clears rfl rfl rfl (fun other => ?_) fun other => ?_
      · by_cases hother : other = path
        · subst hother
          refine .inr ⟨hundisturbed, ?_, Function.update_self ..⟩
          simp [removeFile]
        · refine .inl ⟨?_, Function.update_of_ne hother _ _, Function.update_of_ne hother _ _⟩
          simp [removeFile, hother]
      · show Function.update before.ledger.changed path before.ledger.clock other ≤ _
        by_cases hother : other = path
        · rw [hother, Function.update_self]
          exact Nat.le_succ _
        · rw [Function.update_of_ne hother]
          exact Nat.le_succ_of_le (hinv.clock other)
  | wipeState =>
      refine hinv.clears rfl rfl rfl (fun path => .inr ?_) fun _ => Nat.le_succ _
      exact ⟨fun id => hundisturbed id path, HashMap.lookup_new path, rfl⟩
  | readFile path =>
      exact hinv.clears rfl rfl rfl (fun _ => .inl ⟨rfl, rfl, rfl⟩)
        fun other => Nat.le_succ_of_le (hinv.clock other)

end Saps.Files.BrowserState
