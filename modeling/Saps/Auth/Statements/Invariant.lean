import Saps.Auth.Statements
import Mathlib.Algebra.Order.BigOperators.Group.Finset

namespace Saps.Auth.Statements

open Ping Transition

variable {n : Nat} {Uuid : Type}

-- The places of the rows that meet a condition, when one place alone can.
theorem Targets.eq_nil {rows : Nat → Option (Row Uuid)} {find : Row Uuid → Prop}
    {targets : List Nat} (h : Targets rows find targets)
    (hnone : ∀ place row, rows place = some row → ¬find row) : targets = [] := by
  refine List.eq_nil_iff_forall_not_mem.mpr fun place hplace => ?_
  obtain ⟨row, hrow, hfind⟩ := (h.mem_iff place).mp hplace
  exact hnone place row hrow hfind

theorem Targets.nil {rows : Nat → Option (Row Uuid)} {find : Row Uuid → Prop}
    (hnone : ∀ place row, rows place = some row → ¬find row) : Targets rows find [] := by
  refine ⟨List.nodup_nil, fun place => ⟨fun h => absurd h List.not_mem_nil, ?_⟩⟩
  rintro ⟨row, hrow, hfind⟩
  exact absurd hfind (hnone place row hrow)

theorem Targets.singleton {rows : Nat → Option (Row Uuid)} {find : Row Uuid → Prop} {home : Nat}
    {row : Row Uuid} (hrow : rows home = some row) (hfind : find row)
    (hother : ∀ place ≠ home, ∀ other, rows place = some other → ¬find other) :
    Targets rows find [home] := by
  refine ⟨List.nodup_singleton home, fun place => ?_⟩
  rw [List.mem_singleton]
  constructor
  · rintro rfl
    exact ⟨row, hrow, hfind⟩
  · rintro ⟨other, hplace, hfound⟩
    by_contra hne
    exact hother place hne other hplace hfound

theorem Targets.eq_singleton {rows : Nat → Option (Row Uuid)} {find : Row Uuid → Prop}
    {home : Nat} {targets : List Nat} (h : Targets rows find targets) {row : Row Uuid}
    (hrow : rows home = some row) (hfind : find row)
    (hother : ∀ place ≠ home, ∀ other, rows place = some other → ¬find other) :
    targets = [home] := by
  have hone := Targets.singleton hrow hfind hother
  refine List.perm_singleton.mp ((List.perm_ext_iff_of_nodup h.nodup hone.nodup).mpr ?_)
  exact fun place => (h.mem_iff place).trans (hone.mem_iff place).symm

-- How many steps a call has left when the `DELETE` finds nothing.
def Pc.rank : Pc Uuid → Nat
  | .write .delete => 7
  | .writing .delete targets _ => 6 + targets.length
  | .select => 5
  | .write (.update _ _) => 4
  | .writing (.update _ _) targets _ => 2 + targets.length
  | .returning _ => 1
  | .done _ => 0

def Db.rank (db : Db n Uuid) : Nat :=
  ∑ i, (db.pc i).rank

theorem Db.rank_lt {before after : Db n Uuid} {i : Fin n} {pc : Pc Uuid}
    (hpc : after.pc = Function.update before.pc i pc) (h : pc.rank < (before.pc i).rank) :
    after.rank < before.rank := by
  refine Finset.sum_lt_sum (fun j _ => ?_) ⟨i, Finset.mem_univ i, ?_⟩
  · rw [hpc]
    by_cases hj : j = i
    · subst hj
      rw [Function.update_self]
      exact h.le
    · rw [Function.update_of_ne hj]
  · rw [hpc, Function.update_self]
    exact h

-- The one place of the session among rows of other sessions.
structure Home (rows : Nat → Option (Row Uuid)) (home : Nat) (row : Row Uuid) : Prop where
  here : rows home = some row
  others : ∀ place ≠ home, ∀ other, rows place = some other → ¬Matches row.id other

-- The change a call is going to make to the row it found.
def kind (call : Call Uuid) (row : Row Uuid) : Change :=
  if Due call.now row then .rotate else .renew

theorem kind_congr (call : Call Uuid) {session row : Row Uuid}
    (h : session.dateCreated = row.dateCreated) : kind call session = kind call row := by
  have hdue : Due call.now session ↔ Due call.now row := by
    unfold Due
    rw [h]
  exact if_congr hdue rfl rfl

-- The calls do not get in each other's way: there is one at most, or no call
-- rotates and none began later than another's time-out after it.
def Apart (calls : Fin n → Call Uuid) (row : Row Uuid) : Prop :=
  n ≤ 1 ∨ (∀ i, ¬Due (calls i).now row) ∧
    ∀ i j, i ≠ j → (calls i).now - minutes (calls i).pMinutes ≤ (calls j).now

section

variable (calls : Fin n → Call Uuid) (row : Row Uuid)

-- The row after call `i`.
def Result (i : Fin n) (session : Row Uuid) : Prop :=
  (session.id = row.id ∧ session.dateCreated = row.dateCreated ∧
    session.lastInteracted = (calls i).now) ∨
  (n ≤ 1 ∧ session.id = (calls i).fresh)

-- Where a call can stand, with the lock it then has on the row.
def PcGood (home : Nat) (i : Fin n) (lock : Option (Fin n × Option (Row Uuid))) :
    Pc Uuid → Prop
  | .write .delete => True
  | .writing .delete targets written => targets = [] ∧ written = []
  | .select => True
  | .write (.update id change) => id = row.id ∧ change = kind (calls i) row
  | .writing (.update id change) targets written =>
    id = row.id ∧ change = kind (calls i) row ∧
      ((targets = [home] ∧ written = []) ∨
        ∃ session, targets = [] ∧ written = [some session] ∧ lock = some (i, some session) ∧
          Result calls row i session)
  | .returning answer => ∃ session, answer = some session ∧ lock = some (i, some session) ∧
      Result calls row i session
  | .done answer => ∃ session, answer = some session ∧ Result calls row i session

-- The call has changed the row and not committed.
def Holds (pc : Pc Uuid) : Prop :=
  (∃ id change written, pc = .writing (.update id change) [] written) ∨
    ∃ answer, pc = .returning answer

-- The committed row still goes by the id that the calls present.
structure Live (db : Db n Uuid) (version : Row Uuid) : Prop where
  id : version.id = row.id
  dateCreated : version.dateCreated = row.dateCreated
  touched : version.lastInteracted = row.lastInteracted ∨
    ∃ i answer, db.pc i = .done answer ∧ version.lastInteracted = (calls i).now

structure Good (rows : Nat → Option (Row Uuid)) (home : Nat) (db : Db n Uuid) : Prop where
  others : ∀ place ≠ home, db.rows place = rows place ∧ db.locks place = none
  pcs : ∀ i, PcGood calls row home i (db.locks home) (db.pc i)
  holder : ∀ i version, db.locks home = some (i, version) → Holds (db.pc i)
  live : (∀ i, ∃ answer, db.pc i = .done answer) ∨
    ∃ version, db.rows home = some version ∧ Live calls row db version

end

variable {calls : Fin n → Call Uuid} {row : Row Uuid} {rows : Nat → Option (Row Uuid)}
  {home : Nat} {db : Db n Uuid}

theorem Live.update {version : Row Uuid} (live : Live calls row db version) {after : Db n Uuid}
    {i : Fin n} {pc : Pc Uuid} (hi : ∀ answer, db.pc i ≠ .done answer)
    (hpc : after.pc = Function.update db.pc i pc) : Live calls row after version := by
  refine ⟨live.id, live.dateCreated, live.touched.imp_right ?_⟩
  rintro ⟨j, answer, hj, htouched⟩
  have hne : j ≠ i := by
    rintro rfl
    exact hi answer hj
  exact ⟨j, answer, by rw [hpc, Function.update_of_ne hne, hj], htouched⟩

theorem Good.version (good : Good calls row rows home db) {i : Fin n}
    (hi : ∀ answer, db.pc i ≠ .done answer) :
    ∃ version, db.rows home = some version ∧ Live calls row db version := by
  refine good.live.resolve_left fun hall => ?_
  obtain ⟨answer, hdone⟩ := hall i
  exact hi answer hdone

theorem Good.not_matches (good : Good calls row rows home db) (hhome : Home rows home row)
    {place : Nat} (hplace : place ≠ home) {other : Row Uuid} (hother : db.rows place = some other) :
    ¬Matches row.id other :=
  hhome.others place hplace other ((good.others place hplace).1 ▸ hother)

-- A call that does not hold the row does not mind who does.
theorem pcGood_other {j : Fin n} {lock : Option (Fin n × Option (Row Uuid))} {pc : Pc Uuid}
    (h : PcGood calls row home j lock pc) (hfree : ∀ version, lock ≠ some (j, version))
    (lock' : Option (Fin n × Option (Row Uuid))) : PcGood calls row home j lock' pc := by
  cases pc with
  | write write => cases write <;> exact h
  | writing write targets written =>
      cases write with
      | delete => exact h
      | update id change =>
          obtain ⟨hid, hchange, hstart | ⟨session, _, _, hlock, _⟩⟩ := h
          · exact ⟨hid, hchange, .inl hstart⟩
          · exact absurd hlock (hfree _)
  | select => trivial
  | returning answer =>
      obtain ⟨session, _, hlock, _⟩ := h
      exact absurd hlock (hfree _)
  | done answer => exact h

-- A step that writes nothing.
theorem Good.setPc (good : Good calls row rows home db) {i : Fin n} {pc : Pc Uuid}
    (hi : ∀ answer, db.pc i ≠ .done answer)
    (hpc : PcGood calls row home i (db.locks home) pc) (hholds : Holds (db.pc i) → Holds pc) :
    Good calls row rows home (db.setPc i pc) := by
  refine ⟨good.others, ?_, ?_, ?_⟩
  · intro j
    by_cases hj : j = i
    · subst hj
      simpa [Db.setPc] using hpc
    · simpa [Db.setPc, Function.update_of_ne hj] using good.pcs j
  · intro j version hlock
    by_cases hj : j = i
    · subst hj
      simpa [Db.setPc] using hholds (good.holder j version hlock)
    · simpa [Db.setPc, Function.update_of_ne hj] using good.holder j version hlock
  · obtain ⟨version, hversion, live⟩ := good.version hi
    exact .inr ⟨version, hversion, live.update hi rfl⟩

theorem result_apply (hapart : Apart calls row) {version : Row Uuid}
    (live : Live calls row db version) (i : Fin n) :
    Result calls row i ((kind (calls i) row).apply (calls i) version) := by
  unfold kind
  by_cases hdue : Due (calls i).now row
  · rw [if_pos hdue]
    exact .inr ⟨hapart.resolve_right fun h => h.1 i hdue, rfl⟩
  · rw [if_neg hdue]
    exact .inl ⟨live.id, live.dateCreated, rfl⟩

-- The `UPDATE` of the row of the session, once nobody else holds it.
theorem Good.hit (good : Good calls row rows home db) {i : Fin n} {write : Write Uuid}
    (hlock : db.locks home = none) {session : Row Uuid}
    (hpc : PcGood calls row home i (some (i, some session)) (.writing write [] [some session]))
    (hi : ∀ answer, db.pc i ≠ .done answer)
    (hholds : Holds (.writing write [] [some session])) :
    Good calls row rows home { db.setPc i (.writing write [] [some session]) with
      locks := Function.update db.locks home (some (i, some session)) } := by
  refine ⟨?_, ?_, ?_, ?_⟩
  · intro place hplace
    exact ⟨(good.others place hplace).1,
      (Function.update_of_ne hplace _ _).trans (good.others place hplace).2⟩
  · intro j
    by_cases hj : j = i
    · subst hj
      simpa [Db.setPc] using hpc
    · simp only [Db.setPc, Function.update_of_ne hj, Function.update_self]
      exact pcGood_other (good.pcs j) (by simp [hlock]) _
  · intro j version hj
    obtain ⟨rfl, _⟩ : i = j ∧ some session = version := by
      simpa [Function.update_self] using hj
    simpa [Db.setPc] using hholds
  · obtain ⟨version, hversion, live⟩ := good.version hi
    exact .inr ⟨version, hversion, live.update hi rfl⟩

-- The change becomes the committed row and the lock is gone.
theorem Good.commit (good : Good calls row rows home db) {i : Fin n} {session : Row Uuid}
    (hi : ∀ answer, db.pc i ≠ .done answer) (hlock : db.locks home = some (i, some session))
    (hresult : Result calls row i session) :
    Good calls row rows home (db.commit i (some session)) := by
  have hothers : ∀ j ≠ i, (db.commit i (some session)).pc j = db.pc j :=
    fun j hj => Function.update_of_ne hj _ _
  have hself : (db.commit i (some session)).pc i = .done (some session) := Function.update_self _ _ _
  have hrow : (db.commit i (some session)).rows home = some session := by simp [Db.commit, hlock]
  have hfree : (db.commit i (some session)).locks home = none := by simp [Db.commit, hlock]
  refine ⟨?_, ?_, ?_, ?_⟩
  · intro place hplace
    obtain ⟨hkept, hunlocked⟩ := good.others place hplace
    simp [Db.commit, hunlocked, hkept]
  · intro j
    by_cases hj : j = i
    · subst hj
      rw [hself]
      exact ⟨session, rfl, hresult⟩
    · rw [hothers j hj, hfree]
      exact pcGood_other (good.pcs j) (by simp [hlock, Ne.symm hj]) _
  · intro j version hj
    rw [hfree] at hj
    cases hj
  · rcases hresult with ⟨hid, hcreated, htouched⟩ | ⟨hone, _⟩
    · exact .inr ⟨session, hrow, hid, hcreated, .inr ⟨i, _, hself, htouched⟩⟩
    · refine .inl fun j => ⟨some session, ?_⟩
      obtain rfl : j = i := Fin.ext (by omega)
      exact hself

variable [DecidableEq Uuid]

-- The `DELETE` of a call that did not time out finds no row.
theorem not_where_delete {rows : Nat → Option (Row Uuid)} {home : Nat} {version : Row Uuid}
    {sessionId : Uuid} {call : Call Uuid} (hhere : rows home = some version)
    (hothers : ∀ place ≠ home, ∀ other, rows place = some other → ¬Matches sessionId other)
    (hactive : ¬TimedOut call.now call.pMinutes version) :
    ∀ place other, rows place = some other →
      ¬Write.Where sessionId call (.delete : Write Uuid) other := by
  intro place other hother hgone
  have hboth : Matches sessionId other ∧ TimedOut call.now call.pMinutes other := by
    simpa [Write.Where, gone] using hgone
  by_cases hplace : place = home
  · rw [hplace, hhere] at hother
    exact hactive (Option.some.inj hother ▸ hboth.2)
  · exact hothers place hplace other hother hboth.1

theorem Good.not_gone (good : Good calls row rows home db) (hhome : Home rows home row)
    (hactive : ∀ i, ¬TimedOut (calls i).now (calls i).pMinutes row) (hapart : Apart calls row)
    {i : Fin n} (hpc : db.pc i = .write .delete) :
    ∀ place other, db.rows place = some other →
      ¬Write.Where row.id (calls i) (.delete : Write Uuid) other := by
  have hi : ∀ answer, db.pc i ≠ .done answer := by simp [hpc]
  obtain ⟨version, hversion, live⟩ := good.version hi
  refine not_where_delete hversion
    (fun place hplace other hother => good.not_matches hhome hplace hother) fun htimed => ?_
  unfold TimedOut at htimed
  rcases live.touched with hkept | ⟨j, answer, hdone, hkept⟩
  · rw [hkept] at htimed
    exact hactive i htimed
  · have hne : i ≠ j := by
      rintro rfl
      exact hi answer hdone
    rcases hapart with hone | ⟨_, hspan⟩
    · exact hne (Fin.ext (by omega))
    · have h := hspan i j hne
      omega

-- An id that is current takes the call to one of the last two `UPDATE`s.
theorem afterSelect_current {session : Row Uuid} {sessionId : Uuid} (hid : session.id = sessionId)
    (call : Call Uuid) :
    afterSelect sessionId call session = .write (.update sessionId (kind call session)) := by
  have hgrace : ¬IsGrace sessionId session := fun h => h.1 hid
  unfold afterSelect kind
  rw [if_neg hgrace]
  by_cases hdue : Due call.now session
  · rw [if_pos hdue, if_pos hdue]
  · rw [if_neg hdue, if_neg hdue]

theorem step_good (hhome : Home rows home row)
    (hactive : ∀ i, ¬TimedOut (calls i).now (calls i).pMinutes row) (hapart : Apart calls row)
    (good : Good calls row rows home db) {i : Fin n} {after : Db n Uuid}
    (step : Step row.id calls db i after) :
    Good calls row rows home after ∧ after.rank < db.rank := by
  have hpcs := good.pcs i
  cases step with
  | start write targets hpc htargets =>
      have hi : ∀ answer, db.pc i ≠ .done answer := by simp [hpc]
      have hfree : Holds (db.pc i) → Holds (.writing write targets []) := by simp [hpc, Holds]
      cases write with
      | delete =>
          obtain rfl := htargets.eq_nil (good.not_gone hhome hactive hapart hpc)
          refine ⟨good.setPc hi ⟨rfl, rfl⟩ hfree, Db.rank_lt rfl ?_⟩
          simp [hpc, Pc.rank]
      | update id change =>
          rw [hpc] at hpcs
          obtain ⟨rfl, hchange⟩ := hpcs
          obtain ⟨version, hversion, live⟩ := good.version hi
          obtain rfl := htargets.eq_singleton hversion live.id
            fun place hplace other hother hid => good.not_matches hhome hplace hother (.inl hid)
          refine ⟨good.setPc hi ⟨rfl, hchange, .inl ⟨rfl, rfl⟩⟩ hfree, Db.rank_lt rfl ?_⟩
          simp [hpc, Pc.rank]
  | hit write place targets written found hpc hlock hrow hwhere =>
      have hi : ∀ answer, db.pc i ≠ .done answer := by simp [hpc]
      rw [hpc] at hpcs
      cases write with
      | delete => cases hpcs.1
      | update id change =>
          obtain ⟨rfl, rfl, ⟨htargets, rfl⟩ | ⟨_, htargets, _⟩⟩ := hpcs
          · obtain ⟨rfl, rfl⟩ := List.cons.inj htargets
            obtain ⟨version, hversion, live⟩ := good.version hi
            obtain rfl := Option.some.inj (hversion.symm.trans hrow)
            refine ⟨good.hit hlock ?_ hi (.inl ⟨_, _, _, rfl⟩), Db.rank_lt rfl ?_⟩
            · exact ⟨rfl, rfl, .inr ⟨_, rfl, rfl, rfl, result_apply hapart live i⟩⟩
            · simp [hpc, Pc.rank]
          · cases htargets
  | skip write place targets written hpc hlock hskip =>
      have hi : ∀ answer, db.pc i ≠ .done answer := by simp [hpc]
      rw [hpc] at hpcs
      cases write with
      | delete => cases hpcs.1
      | update id change =>
          obtain ⟨rfl, _, ⟨htargets, _⟩ | ⟨_, htargets, _⟩⟩ := hpcs
          · obtain ⟨rfl, _⟩ := List.cons.inj htargets
            obtain ⟨version, hversion, live⟩ := good.version hi
            exact absurd live.id (hskip version hversion)
          · cases htargets
  | finish write written hpc =>
      have hi : ∀ answer, db.pc i ≠ .done answer := by simp [hpc]
      rw [hpc] at hpcs
      cases write with
      | delete =>
          obtain ⟨_, rfl⟩ := hpcs
          refine ⟨good.setPc hi trivial ?_, Db.rank_lt rfl ?_⟩
          · simp [hpc, Holds]
          · simp [hpc, Pc.rank, Write.after]
      | update id change =>
          obtain ⟨_, _, ⟨htargets, _⟩ | ⟨session, _, rfl, hlock, hresult⟩⟩ := hpcs
          · cases htargets
          · refine ⟨good.setPc hi ⟨session, rfl, hlock, hresult⟩ fun _ => .inr ⟨_, rfl⟩,
              Db.rank_lt rfl ?_⟩
            simp [hpc, Pc.rank, Write.after]
  | select place session hpc hrow hmatches =>
      have hi : ∀ answer, db.pc i ≠ .done answer := by simp [hpc]
      have hplace : place = home := by
        by_contra hne
        exact good.not_matches hhome hne hrow hmatches
      subst hplace
      obtain ⟨version, hversion, live⟩ := good.version hi
      obtain rfl := Option.some.inj (hversion.symm.trans hrow)
      rw [afterSelect_current live.id, kind_congr (calls i) live.dateCreated]
      refine ⟨good.setPc hi ⟨rfl, rfl⟩ ?_, Db.rank_lt rfl ?_⟩
      · simp [hpc, Holds]
      · simp [hpc, Pc.rank]
  | selectNone hpc hnone =>
      have hi : ∀ answer, db.pc i ≠ .done answer := by simp [hpc]
      obtain ⟨version, hversion, live⟩ := good.version hi
      exact absurd (.inl live.id) (hnone home version hversion)
  | commit answer hpc =>
      have hi : ∀ other, db.pc i ≠ .done other := by simp [hpc]
      rw [hpc] at hpcs
      obtain ⟨session, rfl, hlock, hresult⟩ := hpcs
      refine ⟨good.commit hi hlock hresult, Db.rank_lt rfl ?_⟩
      simp [hpc, Pc.rank]

end Saps.Auth.Statements
