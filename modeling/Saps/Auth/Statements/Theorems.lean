import Saps.Auth.Statements.Invariant
import Saps.Auth.Sessions.Row

namespace Saps.Auth.Statements

open Ping Transition

variable {n : Nat} {Uuid : Type} {calls : Fin n → Call Uuid} {row : Row Uuid}
  {rows : Nat → Option (Row Uuid)} {home : Nat} {db : Db n Uuid}

theorem good_initial {table : AuthSessions Uuid} (hhome : Home (table[·]?) home row) :
    Good calls row (table[·]?) home (initial table : Db n Uuid) :=
  ⟨fun _ _ => ⟨rfl, rfl⟩, fun _ => trivial, fun _ _ h => (Option.some_ne_none _ h.symm).elim,
    .inr ⟨row, hhome.here, rfl, rfl, .inl rfl⟩⟩

theorem rank_initial (table : AuthSessions Uuid) : (initial table : Db n Uuid).rank = n * 7 := by
  simp [Db.rank, initial, Pc.rank]

theorem setPc_setPc (db : Db n Uuid) (i : Fin n) (first second : Pc Uuid) :
    (db.setPc i first).setPc i second = db.setPc i second := by
  simp [Db.setPc]

theorem setPc_self (db : Db n Uuid) (i : Fin n) (pc : Pc Uuid) : (db.setPc i pc).pc i = pc :=
  Function.update_self _ _ _

-- In the table of a reachable state a row has a place to itself.
theorem exists_home {world : World Uuid} (valid : world.Valid) (hrow : row ∈ world.table) :
    ∃ home, Home (world.table[·]?) home row := by
  obtain ⟨front, back, hsplit⟩ := List.append_of_mem hrow
  refine ⟨front.length, ?_, ?_⟩
  · simp [hsplit]
  · intro place hplace other hother hmatches
    have hmem : other ∈ front ++ back := by
      rw [hsplit] at hother
      rcases Nat.lt_or_gt_of_ne hplace with hlt | hgt
      · rw [List.getElem?_append_left hlt] at hother
        exact List.mem_append_left _ (List.mem_of_getElem? hother)
      · obtain ⟨offset, rfl⟩ : ∃ offset, place = front.length + (offset + 1) :=
          ⟨place - front.length - 1, by omega⟩
        rw [List.getElem?_append_right (by omega), Nat.add_sub_cancel_left,
          List.getElem?_cons_succ] at hother
        exact List.mem_append_right _ (List.mem_of_getElem? hother)
    obtain ⟨hother, hne⟩ := valid.others hsplit other hmem
    exact hne (valid.matches_origin hother hmatches)

variable [DecidableEq Uuid]

-- Nobody waits for ever: whoever holds the row can go on.
theorem Good.progress (good : Good calls row rows home db) (hhome : Home rows home row)
    (hactive : ∀ i, ¬TimedOut (calls i).now (calls i).pMinutes row) (hapart : Apart calls row)
    {i : Fin n} (hi : ∀ answer, db.pc i ≠ .done answer) :
    ∃ j after, Step row.id calls db j after := by
  obtain ⟨version, hversion, live⟩ := good.version hi
  have hpcs := good.pcs i
  cases hpc : db.pc i with
  | write write =>
      cases write with
      | delete =>
          exact ⟨i, _, .start i .delete [] hpc (.nil (good.not_gone hhome hactive hapart hpc))⟩
      | update id change =>
          rw [hpc] at hpcs
          obtain ⟨rfl, _⟩ := hpcs
          exact ⟨i, _, .start i _ [home] hpc (.singleton hversion live.id
            fun place hplace other hother hid => good.not_matches hhome hplace hother (.inl hid))⟩
  | writing write targets written =>
      rw [hpc] at hpcs
      cases write with
      | delete =>
          obtain ⟨rfl, rfl⟩ := hpcs
          exact ⟨i, _, .finish i _ _ hpc⟩
      | update id change =>
          obtain ⟨rfl, _, ⟨rfl, rfl⟩ | ⟨_, rfl, _⟩⟩ := hpcs
          · cases hlock : db.locks home with
            | none => exact ⟨i, _, .hit i _ home [] [] version hpc hlock hversion live.id⟩
            | some lock =>
                obtain ⟨j, changed⟩ := lock
                rcases good.holder j changed hlock with ⟨id, change', written, hj⟩ | ⟨answer, hj⟩
                · exact ⟨j, _, .finish j _ _ hj⟩
                · exact ⟨j, _, .commit j _ hj⟩
          · exact ⟨i, _, .finish i _ _ hpc⟩
  | select => exact ⟨i, _, .select i home version hpc hversion (.inl live.id)⟩
  | returning answer => exact ⟨i, _, .commit i _ hpc⟩
  | done answer => exact absurd hpc (hi answer)

theorem Good.served (good : Good calls row rows home db) (hhome : Home rows home row)
    (hactive : ∀ i, ¬TimedOut (calls i).now (calls i).pMinutes row) (hapart : Apart calls row)
    (hfresh : ∀ i, (calls i).fresh ≠ row.id) {trace : List (Fin n)}
    (hbound : trace.length ≤ n * 7) : Served calls row trace db := by
  refine ⟨?_, ?_, hbound, ?_⟩
  · intro i answer hdone
    have h := good.pcs i
    rw [hdone] at h
    obtain ⟨session, rfl, hresult⟩ := h
    exact ⟨session, rfl, hresult.imp (·.1) (·.2)⟩
  · intro i j left right hleft _ hid _
    have h := good.pcs i
    rw [hleft] at h
    obtain ⟨session, hsession, hresult⟩ := h
    obtain rfl := Option.some.inj hsession
    rcases hresult with ⟨hsame, _⟩ | ⟨hone, _⟩
    · exact absurd (hid.symm.trans hsame) (hfresh i)
    · exact Fin.ext (by omega)
  · intro hstuck i
    by_contra hi
    obtain ⟨j, after, hstep⟩ :=
      good.progress hhome hactive hapart
        (fun answer h => hi ⟨answer, h⟩ : ∀ answer, db.pc i ≠ .done answer)
    exact hstuck j after hstep

-- A call that gets as far as its `UPDATE` and rests there.
theorem run_to_update (calls : Fin n → Call Uuid) {version : Row Uuid}
    (hhome : Home db.rows home version) {i : Fin n} (hpc : db.pc i = .write .delete)
    (hactive : ¬TimedOut (calls i).now (calls i).pMinutes version) :
    ∃ trace, Run (Step version.id calls) db trace
      (db.setPc i (.write (.update version.id (kind (calls i) version)))) := by
  have hnone := not_where_delete hhome.here hhome.others hactive
  have hstart : Step version.id calls db i (db.setPc i (.writing .delete [] [])) :=
    .start i .delete [] hpc (.nil hnone)
  have hfinish : Step version.id calls (db.setPc i (.writing .delete [] [])) i
      ((db.setPc i (.writing .delete [] [])).setPc i .select) :=
    .finish i .delete [] (setPc_self db i _)
  have hselect : Step version.id calls (db.setPc i .select) i
      ((db.setPc i .select).setPc i (afterSelect version.id (calls i) version)) :=
    .select i home version (setPc_self db i _) hhome.here (.inl rfl)
  rw [setPc_setPc] at hfinish hselect
  rw [afterSelect_current rfl] at hselect
  exact ⟨_, .snoc (.snoc (.snoc .nil hstart) hfinish) hselect⟩

-- A writing statement that finds one row, which nobody holds.
theorem run_write (sessionId : Uuid) (calls : Fin n → Call Uuid) {version : Row Uuid} {i : Fin n}
    {write : Write Uuid} (hpc : db.pc i = .write write) (hhere : db.rows home = some version)
    (hfree : db.locks home = none) (hwhere : write.Where sessionId (calls i) version)
    (hothers : ∀ place ≠ home, ∀ other, db.rows place = some other →
      ¬write.Where sessionId (calls i) other) :
    ∃ trace, Run (Step sessionId calls) db trace
      ⟨db.rows, Function.update db.locks home (some (i, write.version (calls i) version)),
        Function.update db.pc i (write.after [write.version (calls i) version])⟩ := by
  let session := write.version (calls i) version
  let held : Db n Uuid := { db.setPc i (.writing write [] [session]) with
    locks := Function.update db.locks home (some (i, session)) }
  have hstart : Step sessionId calls db i (db.setPc i (.writing write [home] [])) :=
    .start i write [home] hpc (.singleton hhere hwhere hothers)
  have hhit : Step sessionId calls (db.setPc i (.writing write [home] [])) i
      { (db.setPc i (.writing write [home] [])).setPc i (.writing write [] [session]) with
        locks := Function.update db.locks home (some (i, session)) } :=
    .hit i write home [] [] version (setPc_self db i _) hfree hhere hwhere
  rw [setPc_setPc] at hhit
  have hfinish : Step sessionId calls held i (held.setPc i (write.after [session])) :=
    .finish i write [session] (setPc_self db i _)
  have hend : held.setPc i (write.after [session]) =
      ⟨db.rows, Function.update db.locks home (some (i, session)),
        Function.update db.pc i (write.after [session])⟩ := by
    simp [held, Db.setPc]
  rw [hend] at hfinish
  exact ⟨_, .snoc (.snoc (.snoc .nil hstart) hhit) hfinish⟩

-- The `UPDATE` of a call that nobody stands in the way of, and its commit.
theorem run_update (sessionId : Uuid) (calls : Fin n → Call Uuid) {version : Row Uuid}
    (hhome : Home db.rows home version) (hfree : ∀ place, db.locks place = none) {i : Fin n}
    {change : Change} (hpc : db.pc i = .write (.update version.id change)) :
    ∃ trace after, Run (Step sessionId calls) db trace after ∧
      after.rows = Function.update db.rows home (some (change.apply (calls i) version)) ∧
      (∀ place, after.locks place = none) ∧
      after.pc = Function.update db.pc i (.done (some (change.apply (calls i) version))) := by
  obtain ⟨trace, hrun⟩ := run_write sessionId calls hpc hhome.here (hfree home) rfl
    fun place hplace other hother hid => hhome.others place hplace other hother (.inl hid)
  refine ⟨_, _, hrun.snoc (.commit i _ (Function.update_self _ _ _)), ?_, ?_, ?_⟩
  · funext place
    by_cases hplace : place = home
    · subst hplace
      simp [Db.commit, Write.version]
    · simp [Db.commit, Function.update_of_ne hplace, hfree]
  · intro place
    by_cases hplace : place = home
    · subst hplace
      simp [Db.commit]
    · simp [Db.commit, Function.update_of_ne hplace, hfree]
  · simp [Db.commit, Write.version]

-- The `UPDATE` of a call whose id is no longer in the table.
theorem run_update_miss (sessionId : Uuid) (calls : Fin n → Call Uuid) {i : Fin n} {id : Uuid}
    {change : Change} (hpc : db.pc i = .write (.update id change))
    (hnone : ∀ place other, db.rows place = some other → other.id ≠ id) :
    ∃ trace after, Run (Step sessionId calls) db trace after ∧ after.pc i = .done none := by
  let write : Write Uuid := .update id change
  have hstart : Step sessionId calls db i (db.setPc i (.writing write [] [])) :=
    .start i write [] hpc (.nil hnone)
  have hfinish : Step sessionId calls (db.setPc i (.writing write [] [])) i
      ((db.setPc i (.writing write [] [])).setPc i (.returning none)) :=
    .finish i write [] (setPc_self db i _)
  exact ⟨_, _, .snoc (.snoc (.snoc .nil hstart) hfinish) (.commit i none (setPc_self _ i _)),
    Function.update_self _ _ _⟩

-- The `DELETE` of a call that began too long after the session was last used.
theorem run_delete (calls : Fin n → Call Uuid) {version : Row Uuid}
    (hhome : Home db.rows home version) (hfree : ∀ place, db.locks place = none) {i : Fin n}
    (hpc : db.pc i = .write .delete)
    (htimed : TimedOut (calls i).now (calls i).pMinutes version) :
    ∃ trace after, Run (Step version.id calls) db trace after ∧ after.pc i = .done none := by
  have hgone : Write.Where version.id (calls i) .delete version := by
    simp [Write.Where, gone, Matches, htimed]
  obtain ⟨trace, hrun⟩ := run_write version.id calls hpc hhome.here (hfree home) hgone
    fun place hplace other hother hwhere => hhome.others place hplace other hother <| by
      have hboth : Matches version.id other ∧
          TimedOut (calls i).now (calls i).pMinutes other := by
        simpa [Write.Where, gone] using hwhere
      exact hboth.1
  exact ⟨_, _, hrun.snoc (.commit i none (Function.update_self _ _ _)), Function.update_self _ _ _⟩

-- A second call is answered NULL when another rotates before its `UPDATE`.
theorem run_overtaken {calls : Fin n → Call Uuid} {table : AuthSessions Uuid}
    (hhome : Home (table[·]?) home row)
    (hactive : ∀ i, ¬TimedOut (calls i).now (calls i).pMinutes row)
    (hfresh : ∀ i, (calls i).fresh ≠ row.id) {i j : Fin n} (hne : i ≠ j)
    (hdue : Due (calls j).now row) :
    ∃ trace after, Run (Step row.id calls) (initial table) trace after ∧
      after.pc i = .done none := by
  let waiting := (initial table : Db n Uuid).setPc i (.write (.update row.id (kind (calls i) row)))
  let both := waiting.setPc j (.write (.update row.id (kind (calls j) row)))
  obtain ⟨first, hfirst⟩ : ∃ trace, Run (Step row.id calls) (initial table) trace waiting :=
    run_to_update calls hhome rfl (hactive i)
  obtain ⟨second, hsecond⟩ : ∃ trace, Run (Step row.id calls) waiting trace both :=
    run_to_update calls hhome (Function.update_of_ne hne.symm _ _) (hactive j)
  have hboth : both.pc j = .write (.update row.id .rotate) := by
    have hkind : kind (calls j) row = .rotate := if_pos hdue
    rw [← hkind]
    exact setPc_self waiting j _
  obtain ⟨third, rotated, hthird, hrows, _, hpcs⟩ :=
    run_update row.id calls (hhome : Home both.rows home row) (fun _ => rfl) hboth
  have hwaiting : rotated.pc i = .write (.update row.id (kind (calls i) row)) := by
    rw [hpcs, Function.update_of_ne hne]
    exact (Function.update_of_ne hne _ _).trans (Function.update_self _ _ _)
  have hgone : ∀ place other, rotated.rows place = some other → other.id ≠ row.id := by
    intro place other hother
    rw [hrows] at hother
    by_cases hplace : place = home
    · rw [hplace, Function.update_self] at hother
      exact Option.some.inj hother ▸ hfresh j
    · rw [Function.update_of_ne hplace] at hother
      exact fun hid => hhome.others place hplace other hother (.inl hid)
  obtain ⟨fourth, after, hfourth, hanswer⟩ := run_update_miss row.id calls hwaiting hgone
  exact ⟨_, after, ((hfirst.trans hsecond).trans hthird).trans hfourth, hanswer⟩

-- So is a call that began longer after another than its time-out, when the
-- other is through first and has set `last_interacted` back.
theorem run_outdated {calls : Fin n → Call Uuid} {table : AuthSessions Uuid}
    (hhome : Home (table[·]?) home row)
    (hactive : ∀ i, ¬TimedOut (calls i).now (calls i).pMinutes row)
    {i j : Fin n} (hne : i ≠ j) (hdue : ¬Due (calls j).now row)
    (hlate : (calls j).now < (calls i).now - minutes (calls i).pMinutes) :
    ∃ trace after, Run (Step row.id calls) (initial table) trace after ∧
      after.pc i = .done none := by
  let waiting := (initial table : Db n Uuid).setPc j (.write (.update row.id (kind (calls j) row)))
  obtain ⟨first, hfirst⟩ : ∃ trace, Run (Step row.id calls) (initial table) trace waiting :=
    run_to_update calls hhome rfl (hactive j)
  have hwaiting : waiting.pc j = .write (.update row.id .renew) := by
    have hkind : kind (calls j) row = .renew := if_neg hdue
    rw [← hkind]
    exact setPc_self (initial table) j _
  obtain ⟨second, renewed, hsecond, hrows, hfree, hpcs⟩ :=
    run_update row.id calls (hhome : Home waiting.rows home row) (fun _ => rfl) hwaiting
  have hhome' : Home renewed.rows home (renew (calls j).now row) := by
    rw [hrows]
    refine ⟨Function.update_self _ _ _, fun place hplace other hother => ?_⟩
    rw [Function.update_of_ne hplace] at hother
    exact hhome.others place hplace other hother
  have hpc : renewed.pc i = .write .delete := by
    rw [hpcs, Function.update_of_ne hne]
    exact Function.update_of_ne hne _ _
  obtain ⟨third, after, hthird, hanswer⟩ := run_delete calls hhome' hfree hpc hlate
  exact ⟨_, after, (hfirst.trans hsecond).trans hthird, hanswer⟩

-- A session created at 0.
def created : World Nat :=
  (World.empty 0).next 0 (.create 1 ['a'] 0 0 none)

def createdRow : Row Nat :=
  ⟨1, 1, ['a'], 0, 0, 0, none⟩

-- Two calls of one moment.
def pair (now : Int) : Fin 2 → Call Nat :=
  fun i => ⟨now, 2 + i, 10⟩

theorem run_created : Run World.Step (World.empty 0) [(0, .create 1 ['a'] 0 0 none)] created :=
  .snoc .nil ⟨by decide, by simp [World.Fresh, World.empty], rfl⟩

end Saps.Auth.Statements
