import Saps.Auth.Model

-- What a ping does, once the presented id names one row at most.
namespace Saps.Auth.Ping

variable {Uuid : Type} [DecidableEq Uuid]

-- The answer for the one row that matches, and what is left of the row.
def onRow (now : Int) (fresh : Uuid) (pMinutes : Int) (sessionId : Uuid) (row : Row Uuid) :
    Option (Row Uuid) × Option (Row Uuid) :=
  if TimedOut now pMinutes row then (none, none)
  else if IsGrace sessionId row then
    if Lapsed now row then (none, some row) else (some (renew now row), some (renew now row))
  else if Due now row then (some (rotate now fresh row), some (rotate now fresh row))
  else (some (renew now row), some (renew now row))

theorem gone_of_not_matches {sessionId : Uuid} {row : Row Uuid} (h : ¬Matches sessionId row)
    (now : Int) (pMinutes : Int) : gone now pMinutes sessionId row = false := by
  simp [gone, h]

theorem deleteTimedOut_miss (now : Int) (pMinutes : Int) (sessionId : Uuid)
    (table : AuthSessions Uuid) (h : ∀ row ∈ table, ¬Matches sessionId row) :
    deleteTimedOut now pMinutes sessionId table = (0, table) := by
  unfold deleteTimedOut
  rw [List.countP_eq_zero.mpr fun row hrow => by simp [gone_of_not_matches (h row hrow)],
    List.filter_eq_self.mpr fun row hrow => by simp [gone_of_not_matches (h row hrow)]]

theorem deleteTimedOut_hit (now : Int) (pMinutes : Int) (sessionId : Uuid)
    (front back : List (Row Uuid)) (row : Row Uuid) (hrow : Matches sessionId row)
    (hother : ∀ other ∈ front ++ back, ¬Matches sessionId other) :
    deleteTimedOut now pMinutes sessionId (front ++ row :: back) =
      if TimedOut now pMinutes row then (1, front ++ back) else (0, front ++ row :: back) := by
  have hfront := deleteTimedOut_miss now pMinutes sessionId front
    fun other h => hother other (List.mem_append_left _ h)
  have hback := deleteTimedOut_miss now pMinutes sessionId back
    fun other h => hother other (List.mem_append_right _ h)
  simp only [deleteTimedOut, Prod.mk.injEq] at hfront hback ⊢
  rw [List.countP_append, List.filter_append, List.countP_cons, List.filter_cons, hfront.1,
    hfront.2, hback.1, hback.2]
  by_cases htime : TimedOut now pMinutes row
  · simp [gone, hrow, htime]
  · simp [gone, htime]

theorem select_miss (sessionId : Uuid) (table : AuthSessions Uuid)
    (h : ∀ row ∈ table, ¬Matches sessionId row) : select sessionId table = none := by
  simpa [select] using h

theorem select_hit (sessionId : Uuid) (front back : List (Row Uuid)) (row : Row Uuid)
    (hrow : Matches sessionId row) (hother : ∀ other ∈ front ++ back, ¬Matches sessionId other) :
    select sessionId (front ++ row :: back) = some row := by
  have hfront := select_miss sessionId front fun other h => hother other (List.mem_append_left _ h)
  unfold select at hfront ⊢
  rw [List.find?_append, hfront, List.find?_cons]
  simp [hrow]

theorem updateById_miss (sessionId : Uuid) (change : Row Uuid → Row Uuid)
    (table : AuthSessions Uuid) (h : ∀ row ∈ table, row.id ≠ sessionId) :
    updateById sessionId change table = (none, table) := by
  have hmap : table.map (fun row => if row.id = sessionId then change row else row) =
      table.map id := List.map_congr_left fun row hrow => if_neg (h row hrow)
  have hfind : table.find? (·.id = sessionId) = none := by simpa using h
  unfold updateById
  rw [hmap, List.map_id, hfind]
  rfl

theorem updateById_hit (front back : List (Row Uuid)) (row : Row Uuid) (sessionId : Uuid)
    (change : Row Uuid → Row Uuid) (hid : row.id = sessionId)
    (hother : ∀ other ∈ front ++ back, other.id ≠ sessionId) :
    updateById sessionId change (front ++ row :: back) =
      (some (change row), front ++ change row :: back) := by
  have hfront := updateById_miss sessionId change front
    fun other h => hother other (List.mem_append_left _ h)
  have hback := updateById_miss sessionId change back
    fun other h => hother other (List.mem_append_right _ h)
  simp only [updateById, Prod.mk.injEq, Option.map_eq_none_iff] at hfront hback ⊢
  rw [List.find?_append, hfront.1, List.find?_cons, List.map_append, hfront.2, List.map_cons,
    hback.2]
  simp [hid]

-- No row matches: the ping answers NULL and touches nothing.
theorem ping_miss (now : Int) (fresh : Uuid) (pMinutes : Int) (sessionId : Uuid)
    (table : AuthSessions Uuid) (h : ∀ row ∈ table, ¬Matches sessionId row) :
    ping now fresh pMinutes sessionId table = (none, table) := by
  simp [ping, deleteTimedOut_miss now pMinutes sessionId table h, select_miss sessionId table h]

-- One row matches: nothing else is touched.
theorem ping_hit (now : Int) (fresh : Uuid) (pMinutes : Int) (sessionId : Uuid)
    (front back : List (Row Uuid)) (row : Row Uuid) (hrow : Matches sessionId row)
    (hother : ∀ other ∈ front ++ back, ¬Matches sessionId other)
    (hid : ∀ other ∈ front ++ back, other.id ≠ row.id) :
    ping now fresh pMinutes sessionId (front ++ row :: back) =
      ((onRow now fresh pMinutes sessionId row).1,
        front ++ (onRow now fresh pMinutes sessionId row).2.toList ++ back) := by
  unfold ping onRow
  rw [deleteTimedOut_hit now pMinutes sessionId front back row hrow hother]
  by_cases htime : TimedOut now pMinutes row
  · simp [htime]
  · simp only [htime, ite_false, Nat.lt_irrefl, select_hit sessionId front back row hrow hother]
    by_cases hgrace : IsGrace sessionId row
    · by_cases hlapsed : Lapsed now row
      · simp [hgrace, hlapsed]
      · simp [hgrace, hlapsed, updateById_hit front back row row.id _ rfl hid]
    · -- A match that is no grace id is the current id.
      have hcurrent : row.id = sessionId := by
        by_contra hne
        exact hgrace ⟨hne, hrow.resolve_left hne⟩
      have hupdate := fun change =>
        updateById_hit front back row sessionId change hcurrent (hcurrent ▸ hid)
      by_cases hdue : Due now row
      · simp [hgrace, hdue, hupdate]
      · simp [hgrace, hdue, hupdate]

end Saps.Auth.Ping
