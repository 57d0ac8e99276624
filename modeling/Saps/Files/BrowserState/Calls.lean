import Saps.Files.BrowserState.Progress

namespace Saps.Files.BrowserState

variable {Doc : Type} [Yrs Doc]

theorem Admitted.did {ledger : Ledger Doc} {path : Str} {done : Done Doc} {doc after : Doc}
    (h : Admitted ledger.history path doc)
    (hdone : ∀ entry : Entry Doc, Admits entry.seed entry.dones doc →
      Admits entry.seed (entry.dones ++ [done]) after) :
    Admitted (ledger.did path done).history path after := by
  obtain ⟨entry, hentry, hadmits⟩ := h
  exact ⟨_, ledger.did_history done hentry, hdone entry hadmits⟩

-- A number that is given to a call holds nothing yet.
theorem Inv.begin {before : Observed Doc} (hinv : Inv before) {id : Nat}
    (hfree : before.state.calls id = none) (call : Call Doc) :
    Inv ⟨before.state, before.ledger.begin id call⟩ := by
  refine ⟨fun path => (hinv.placed path).frame rfl rfl fun _ => Iff.rfl,
    fun other suspended hother => ?_, fun other path hheld => ?_, hinv.clock⟩
  · have hne : other ≠ id := by
      rintro rfl
      simp [hfree] at hother
    obtain ⟨asked, hasked, hserves⟩ := hinv.serves other suspended hother
    exact ⟨asked, (Function.update_of_ne hne _ _).trans hasked, hserves⟩
  · have hne : other ≠ id := by
      rintro rfl
      obtain ⟨suspended, hsuspended, _⟩ := hheld
      simp [hfree] at hsuspended
    show before.ledger.changed path ≤ Function.update before.ledger.begun id _ other
    rw [Function.update_of_ne hne]
    exact hinv.stamps other path hheld

namespace Inv

variable {before : Observed Doc} {id : Nat} {call : Call Doc} {files : FileState Doc}

-- A call that has no buffer ends and nothing is different.
theorem idles (hinv : Inv before) (hcall : before.ledger.calls id = some call)
    (hheld : ∀ path, ¬ before.state.Held id path) {result : Result}
    (hsame : before.ledger.completed call result = before.ledger)
    (hfiles : ∀ path, files.lookup path = before.state.files.lookup path) :
    Inv (before.progressed id (.returns result, files)) :=
  hinv.returns hcall hsame (fun path _ => hfiles path) (fun _ _ => rfl) hheld
    (fun _ htouched => htouched.elim) (fun _ htouched => htouched.elim) (fun _ _ _ _ => rfl)
    hinv.clock

-- An insert awaits the save of the buffer it has built.
theorem inserting (hinv : Inv before) (hcall : before.ledger.calls id = some call)
    (hheld : ∀ path, ¬ before.state.Held id path) {path : Str} {file : MemFile Doc}
    (hinserts : call.Inserts path file) :
    Inv (before.progressed id (.awaits (.inserting path file), before.state.files)) :=
  hinv.awaits hcall (fun _ _ => rfl) (fun _ hholds => hholds.elim) hheld
    (fun _ hholds => hholds.elim) hinserts fun _ hholds => hholds.elim

-- The buffer of an insert comes to the map while no call has one for the path.
theorem inserted (hinv : Inv before) (hcall : before.ledger.calls id = some call)
    (hheld : ∀ path, ¬ before.state.Held id path) {path : Str} {file saved : MemFile Doc}
    (hinserts : call.Inserts path file) (hsaved : saved.doc = file.doc)
    (hothers : ∀ other, ¬ before.state.Held other path)
    (hfiles : ∀ other, files.lookup other =
      if other = path then some saved else before.state.files.lookup other) :
    Inv (before.progressed id (.returns (.ok ()), files)) := by
  have hledger := (Ledger.completed_inserts hinserts before.ledger).1
  refine hinv.returns hcall hledger (fun other hne => ?_)
    (fun other hne => Function.update_of_ne hne _ _)
    (fun other hother => absurd hother (hheld other)) ?_ ?_
    (fun other changed _ hother => Function.update_of_ne ?_ _ _) fun other => ?_
  · rw [hfiles, if_neg hne]
  · rintro other rfl another _
    exact hothers another
  · rintro other rfl
    refine ⟨saved, by rw [hfiles, if_pos rfl], _, Function.update_self .., ?_⟩
    rw [hsaved]
    exact .seed
  · rintro rfl
    exact hothers other hother
  · show Function.update before.ledger.changed path before.ledger.clock other ≤ _
    by_cases hother : other = path
    · rw [hother, Function.update_self]
      exact Nat.le_refl _
    · rw [Function.update_of_ne hother]
      exact hinv.clock other

-- Wherever something is removed no call has a buffer.
theorem clears (hinv : Inv before) {after : Observed Doc}
    (hcalls : after.state.calls = before.state.calls)
    (hasked : after.ledger.calls = before.ledger.calls)
    (hbegun : after.ledger.begun = before.ledger.begun)
    (hpath : ∀ path,
      (after.state.files.lookup path = before.state.files.lookup path ∧
        after.ledger.history path = before.ledger.history path ∧
        after.ledger.changed path = before.ledger.changed path) ∨
      (∀ id, ¬ before.state.Held id path) ∧ after.state.files.lookup path = none ∧
        after.ledger.history path = none)
    (hclock : ∀ path, after.ledger.changed path ≤ after.ledger.clock) : Inv after := by
  have hheld (id : Nat) (path : Str) : after.state.Held id path ↔ before.state.Held id path := by
    unfold State.Held
    rw [hcalls]
  refine ⟨fun path => ?_, fun id suspended hsuspended => ?_, fun id path hid => ?_, hclock⟩
  · rcases hpath path with ⟨hfiles, hhistory, _⟩ | ⟨hnone, hfiles, hhistory⟩
    · exact (hinv.placed path).frame hhistory hfiles fun id => hheld id path
    · exact .absent hhistory hfiles fun id h => hnone id ((hheld id path).mp h)
  · rw [hcalls] at hsuspended
    obtain ⟨call, hcall, hserves⟩ := hinv.serves id suspended hsuspended
    refine ⟨call, by rw [hasked]; exact hcall, hserves.congr fun path hholds => ?_⟩
    rcases hpath path with ⟨_, hhistory, _⟩ | ⟨hnone, _⟩
    · exact hhistory
    · exact absurd ⟨suspended, hsuspended, hholds⟩ (hnone id)
  · rw [hheld] at hid
    rcases hpath path with ⟨_, _, hchanged⟩ | ⟨hnone, _⟩
    · rw [hchanged, hbegun]
      exact hinv.stamps id path hid
    · exact absurd hid (hnone id)

-- The buffers that are flushed stay with the call, or all come back.
theorem flushes (hinv : Inv before) (hcall : before.ledger.calls id = some .flushAll)
    {taken : FileState Doc}
    (htaken : ∀ path file, taken.lookup path = some file →
      Admitted before.ledger.history path file.doc ∧ before.state.Free id path ∧
        before.ledger.changed path ≤ before.ledger.begun id)
    (hheld : ∀ path, before.state.Held id path → (taken.lookup path).isSome)
    (hfiles : ∀ path, files.lookup path =
      if (taken.lookup path).isSome then none else before.state.files.lookup path)
    (keys : List Str) (result : Result) :
    Inv (before.progressed id (flushOn taken keys result files)) := by
  have htouched (path : Str) (h : (taken.lookup path).isSome) :
      before.state.Free id path ∧ before.ledger.changed path ≤ before.ledger.begun id := by
    obtain ⟨file, hfile⟩ := Option.isSome_iff_exists.mp h
    exact (htaken path file hfile).2
  cases keys with
  | nil =>
      refine hinv.returns hcall rfl (fun path hpath => ?_) (fun _ _ => rfl) hheld
        (fun path hpath => (htouched path hpath).1) (fun path hpath => ?_) (fun _ _ _ _ => rfl)
        hinv.clock
      · rw [Bool.not_eq_true, Option.isSome_eq_false_iff, Option.isNone_iff_eq_none] at hpath
        rw [HashMap.lookup_extend, hfiles, hpath]
        rfl
      · obtain ⟨file, hfile⟩ := Option.isSome_iff_exists.mp hpath
        exact ⟨file, by rw [HashMap.lookup_extend, hfile]; rfl, (htaken path file hfile).1⟩
  | cons key keys =>
      refine hinv.awaits hcall (fun path hpath => ?_) (fun path hpath => ?_) hheld
        (fun path hpath => (htouched path hpath).1)
        ⟨rfl, fun path file hfile => (htaken path file hfile).1⟩
        fun path hpath => (htouched path hpath).2
      · exact (hfiles path).trans (if_neg hpath)
      · exact (hfiles path).trans (if_pos hpath)

end Inv

namespace Serving

variable {before : Observed Doc} {id : Nat} {path : Str} {files : FileState Doc}

-- `made` are the edits that are in the buffer already.
theorem writes {transaction : Transaction}
    (h : Serving before id (.writeTransactionToFile path transaction) path)
    {made rest : List Edit} (hedits : transaction.edits = made ++ rest) {doc : Doc}
    (hadmitted : Admitted before.ledger.history path doc) {file : MemFile Doc}
    (hdoc : file.doc = Edit.applyAll doc made)
    (hfiles : ∀ other, files.lookup other =
      if other = path then none else before.state.files.lookup other) :
    Inv (before.progressed id (writeOn path files (AsyncMemFile.applyUpToSave file rest))) := by
  obtain ⟨more, hmore, hafter⟩ := AsyncMemFile.applyUpToSave_doc file rest
  have hall : (AsyncMemFile.applyUpToSave file rest).1.doc = Edit.applyAll doc (made ++ more) := by
    rw [hafter, hdoc]
    exact (List.foldl_append ..).symm
  rcases hrun : AsyncMemFile.applyUpToSave file rest with ⟨after, _ | left⟩
  · rw [hrun] at hmore hall
    have hdone : transaction.edits = made ++ more := by simpa [hedits] using hmore
    have hdid : Admitted (before.ledger.did path (.wrote transaction.edits (.ok ()))).history
        path after.doc := by
      refine hadmitted.did fun entry hadmits => ?_
      rw [hall, ← hdone]
      exact .wrote hadmits (List.prefix_refl _) fun _ => rfl
    refine h.settles rfl (fun other => ?_) hdid
    rw [HashMap.lookup_insert, hfiles]
    split <;> rfl
  · rw [hrun] at hmore hall
    refine h.takes (fun _ => Iff.rfl) hfiles ?_
    refine ⟨transaction, made ++ more, doc, rfl, ?_, hadmitted, hall⟩
    rw [hedits, hmore, List.append_assoc]
    rfl

end Serving

end Saps.Files.BrowserState
