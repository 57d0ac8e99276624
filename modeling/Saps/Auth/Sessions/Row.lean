import Saps.Auth.Sessions.Theorems

-- One session, followed through the steps of the table.
namespace Saps.Auth

open Ping

variable {Uuid : Type}

namespace World

-- The command leaves the row of the session alone.
def Spares (world : World Uuid) (session : Uuid) : Command Uuid → Prop
  | .create _ _ _ _ _ => True
  | .ping _ _ sessionId => world.origin sessionId ≠ session
  | .delete gone => ∀ row ∈ world.table, world.origin row.id = session → gone row = false
  | .updateMeta _ => True

-- The command is no ping of the session.
def Unpinged (world : World Uuid) (session : Uuid) : Command Uuid → Prop
  | .ping _ _ sessionId => world.origin sessionId ≠ session
  | _ => True

-- All columns but `meta` agree.
def SameSession (row other : Row Uuid) : Prop :=
  SameIdentity row other ∧ other.role = row.role ∧ other.lastInteracted = row.lastInteracted

theorem sameSession_refl (row : Row Uuid) : SameSession row row :=
  ⟨⟨rfl, rfl, rfl, rfl⟩, rfl, rfl⟩

variable [DecidableEq Uuid]

theorem record_table (world : World Uuid) (now : Int) (fresh sessionId : Uuid)
    (session : Option (Row Uuid)) :
    (world.record now fresh sessionId session).table = world.table := by
  unfold record
  split <;> rfl

theorem record_clock (world : World Uuid) (now : Int) (fresh sessionId : Uuid)
    (session : Option (Row Uuid)) :
    (world.record now fresh sessionId session).clock = world.clock := by
  unfold record
  split <;> rfl

theorem record_origin (world : World Uuid) (now : Int) {fresh id : Uuid} (sessionId : Uuid)
    (session : Option (Row Uuid)) (h : id ≠ fresh) :
    (world.record now fresh sessionId session).origin id = world.origin id := by
  unfold record
  split
  · exact Function.update_of_ne h _ _
  · rfl

@[simp] theorem next_clock (world : World Uuid) (now : Int) (command : Command Uuid) :
    (world.next now command).clock = now := by
  cases command with
  | create => rfl
  | ping fresh pMinutes sessionId => rw [next_ping, record_clock]
  | delete => rfl
  | updateMeta => rfl

theorem next_ping_table (world : World Uuid) (now : Int) (fresh : Uuid) (pMinutes : Int)
    (id : Uuid) : (world.next now (.ping fresh pMinutes id)).table =
      (Auth.ping now fresh pMinutes id world.table).2 := by
  rw [next_ping, record_table]

-- No command takes an id from the session it belongs to.
theorem Valid.next_origin {world : World Uuid} {now : Int} {command : Command Uuid}
    (hfresh : world.Fresh command) {id : Uuid} (hid : id ∈ world.issued) :
    (world.next now command).origin id = world.origin id := by
  cases command with
  | create new _ _ _ _ =>
      exact Function.update_of_ne (fun h => hfresh (by rwa [← h])) _ _
  | ping fresh pMinutes sessionId =>
      rw [next_ping]
      exact record_origin _ now sessionId _ fun h => hfresh (by rwa [← h])
  | delete => rfl
  | updateMeta => rfl

theorem next_issued {world : World Uuid} {now : Int} {command : Command Uuid} {id : Uuid}
    (hid : id ∈ world.issued) : id ∈ (world.next now command).issued := by
  cases command with
  | create => exact List.mem_cons_of_mem _ hid
  | ping fresh pMinutes sessionId =>
      rw [next_ping]
      unfold record
      split
      · exact List.mem_cons_of_mem _ hid
      · exact hid
  | delete => exact hid
  | updateMeta => exact hid

-- The ping of an id that matches `row` sees `row` and nothing else.
theorem Valid.ping_row {world : World Uuid} (valid : world.Valid) {row : Row Uuid}
    (hrow : row ∈ world.table) {sessionId : Uuid} (hmatches : Matches sessionId row) (now : Int)
    (fresh : Uuid) (pMinutes : Int) :
    ∃ front back, world.table = front ++ row :: back ∧
      Auth.ping now fresh pMinutes sessionId world.table =
        ((onRow now fresh pMinutes sessionId row).1,
          front ++ (onRow now fresh pMinutes sessionId row).2.toList ++ back) := by
  rcases valid.split sessionId with hmiss | ⟨front, hit, back, hsplit, hhit, hother, hid⟩
  · exact absurd hmatches (hmiss row hrow)
  · have hmem : hit ∈ world.table := by simp [hsplit]
    obtain rfl : hit = row := valid.row_unique hmem hrow
      ((valid.matches_origin hmem hhit).trans (valid.matches_origin hrow hmatches).symm)
    refine ⟨front, back, hsplit, ?_⟩
    rw [hsplit]
    exact ping_hit now fresh pMinutes sessionId front back hit hhit hother hid

-- The ping of an id of another session leaves the row where it is.
theorem Valid.ping_other {world : World Uuid} (valid : world.Valid) {row : Row Uuid}
    (hrow : row ∈ world.table) {sessionId : Uuid}
    (hother : world.origin sessionId ≠ world.origin row.id) (now : Int) (fresh : Uuid)
    (pMinutes : Int) : row ∈ (Auth.ping now fresh pMinutes sessionId world.table).2 := by
  rcases valid.split sessionId with hmiss | ⟨front, hit, back, hsplit, hhit, hothers, hid⟩
  · rw [ping_miss now fresh pMinutes sessionId world.table hmiss]
    exact hrow
  · rw [hsplit, ping_hit now fresh pMinutes sessionId front back hit hhit hothers hid]
    rw [hsplit] at hrow
    rcases List.mem_append.mp hrow with h | h
    · simp [h]
    · rcases List.mem_cons.mp h with rfl | h
      · exact absurd (valid.matches_origin (by simp [hsplit]) hhit).symm hother
      · simp [h]

theorem Valid.next_spares {world : World Uuid} (valid : world.Valid) {row : Row Uuid}
    (hrow : row ∈ world.table) (now : Int) {command : Command Uuid}
    (hspares : world.Spares (world.origin row.id) command) :
    ∃ other ∈ (world.next now command).table, SameSession row other := by
  cases command with
  | create => exact ⟨row, List.mem_cons_of_mem _ hrow, sameSession_refl row⟩
  | ping fresh pMinutes sessionId =>
      refine ⟨row, ?_, sameSession_refl row⟩
      rw [next_ping, record_table]
      exact valid.ping_other hrow hspares now fresh pMinutes
  | delete gone =>
      refine ⟨row, List.mem_filter.mpr ⟨hrow, ?_⟩, sameSession_refl row⟩
      simp [hspares row hrow rfl]
  | updateMeta metadata =>
      exact ⟨_, List.mem_map_of_mem hrow, ⟨rfl, rfl, rfl, rfl⟩, rfl, rfl⟩

-- An accepted ping of the session: its row is renewed or rotated in place.
theorem Valid.ping_accepts {world : World Uuid} (valid : world.Valid) {row : Row Uuid}
    (hrow : row ∈ world.table) {sessionId : Uuid} (hmatches : Matches sessionId row) {now : Int}
    {pMinutes : Int} (hactive : ¬TimedOut now pMinutes row)
    (hgrace : IsGrace sessionId row → ¬Lapsed now row) (fresh : Uuid) :
    ∃ session, Accepts now fresh sessionId row session ∧
      (Auth.ping now fresh pMinutes sessionId world.table).1 = some session ∧
      session ∈ (Auth.ping now fresh pMinutes sessionId world.table).2 := by
  obtain ⟨front, back, _, hping⟩ := valid.ping_row hrow hmatches now fresh pMinutes
  rw [hping]
  unfold onRow
  by_cases hold : IsGrace sessionId row
  · refine ⟨Ping.renew now row, .grace hold (hgrace hold), ?_⟩
    simp [hactive, hold, hgrace hold]
  · have hid : row.id = sessionId := by
      by_contra hne
      exact hold ⟨hne, hmatches.resolve_left hne⟩
    by_cases hdue : Due now row
    · exact ⟨Ping.rotate now fresh row, .rotated hid hdue, by simp [hactive, hold, hdue]⟩
    · exact ⟨Ping.renew now row, .current hid, by simp [hactive, hold, hdue]⟩

-- All that a ping can do: it renews one row or none, or it rotates one. It may
-- lose rows, and it changes no other.
theorem Valid.ping_cases {world : World Uuid} (valid : world.Valid) (now : Int) {fresh : Uuid}
    (hfresh : fresh ∉ world.issued) (pMinutes : Int) (sessionId : Uuid) :
    let after := world.next now (.ping fresh pMinutes sessionId)
    (after.rotations = world.rotations ∧
      ∀ left ∈ after.table, ∃ row ∈ world.table, left = row ∨ left = Ping.renew now row) ∨
    ∃ row ∈ world.table, row.id = sessionId ∧ Due now row ∧
      after.origin fresh = world.origin row.id ∧
      after.rotations = ⟨world.origin row.id, now, row.id, fresh⟩ :: world.rotations ∧
      ∀ left ∈ after.table, left = Ping.rotate now fresh row ∨
        (left ∈ world.table ∧ world.origin left.id ≠ world.origin row.id) := by
  intro after
  rcases valid.split sessionId with hmiss | ⟨front, row, back, hsplit, hrow, hother, hid⟩
  · have hafter : after = { world with clock := now } := by
      rw [show after = _ from next_ping .., ping_miss now fresh pMinutes sessionId _ hmiss,
        record_none]
    rw [hafter]
    exact .inl ⟨rfl, fun left hleft => ⟨left, hleft, .inl rfl⟩⟩
  · have hmem : row ∈ world.table := by simp [hsplit]
    have hsides : ∀ left ∈ front ++ back, left ∈ world.table ∧
        world.origin left.id ≠ world.origin row.id := valid.others hsplit
    have hping := ping_hit now fresh pMinutes sessionId front back row hrow hother hid
    rw [← hsplit] at hping
    have hkept : (Ping.renew now row).id ≠ fresh :=
      fun h => hfresh (h ▸ valid.idIssued row hmem)
    rcases onRow_cases now fresh pMinutes sessionId row hrow with ⟨session, heq, _, haccepts⟩ | heq
    · have hafter : after = record { world with clock := now, table := front ++ session :: back }
          now fresh sessionId (some session) := by
        rw [show after = _ from next_ping .., hping, heq]
        simp
      have hleft : ∀ left ∈ after.table, left = session ∨ left ∈ front ++ back := by
        rw [hafter, record_table]
        simp only [List.mem_append, List.mem_cons]
        tauto
      have hrenewed : session = Ping.renew now row → after.rotations = world.rotations ∧
          ∀ left ∈ after.table, ∃ row ∈ world.table, left = row ∨ left = Ping.renew now row := by
        rintro rfl
        refine ⟨by rw [hafter, record_kept _ _ _ _ hkept], fun left hmemLeft => ?_⟩
        rcases hleft left hmemLeft with rfl | hside
        · exact ⟨row, hmem, .inr rfl⟩
        · exact ⟨left, (hsides left hside).1, .inl rfl⟩
      cases haccepts with
      | current _ => exact .inl (hrenewed rfl)
      | grace _ _ => exact .inl (hrenewed rfl)
      | rotated hcurrent hdue =>
          refine .inr ⟨row, hmem, hcurrent, hdue, ?_, ?_, fun left hmemLeft => ?_⟩
          · simp [hafter, record, Ping.rotate, hcurrent]
          · simp [hafter, record, Ping.rotate, hcurrent]
          · exact (hleft left hmemLeft).imp_right (hsides left)
    · refine .inl ?_
      have hafter : after = { world with
          clock := now, table := (Auth.ping now fresh pMinutes sessionId world.table).2 } := by
        rw [show after = _ from next_ping .., hping, heq, record_none]
      rw [hafter, hping, heq]
      refine ⟨rfl, fun left hmemLeft => ⟨left, ?_, .inl rfl⟩⟩
      rw [hsplit]
      by_cases htime : TimedOut now pMinutes row
      · simp only [htime, ite_true, Option.toList_none, List.append_nil] at hmemLeft
        simp only [List.mem_append, List.mem_cons] at hmemLeft ⊢
        tauto
      · simpa [htime] using hmemLeft

-- A row of a session is there already, under the id it has, unless a rotation
-- of the session has just given it another.
theorem Valid.next_back {world : World Uuid} (valid : world.Valid) (now : Int)
    {command : Command Uuid} (hfresh : world.Fresh command) {session : Uuid}
    (hsession : session ∈ world.issued) {left : Row Uuid}
    (hleft : left ∈ (world.next now command).table)
    (horigin : (world.next now command).origin left.id = session) :
    ∃ row ∈ world.table, world.origin row.id = session ∧ left.role = row.role ∧
      (left.id = row.id ∨ ∃ time, (world.next now command).rotations =
        ⟨session, time, row.id, left.id⟩ :: world.rotations) := by
  have hold : ∀ row ∈ world.table, (world.next now command).origin row.id = world.origin row.id :=
    fun row hrow => Valid.next_origin hfresh (valid.idIssued row hrow)
  cases command with
  | create id role dateCreated lastInteracted metadata =>
      rcases List.mem_cons.mp hleft with rfl | hrow
      · have hself : (Function.update world.origin id id) id = id := Function.update_self _ _ _
        exact absurd (hself.symm.trans horigin ▸ hsession) hfresh
      · exact ⟨left, hrow, hold left hrow ▸ horigin, rfl, .inl rfl⟩
  | ping fresh pMinutes sessionId =>
      rcases valid.ping_cases now hfresh pMinutes sessionId with
        ⟨_, hrows⟩ | ⟨row, hrow, _, _, hfreshOrigin, hrotations, hrows⟩
      · obtain ⟨row, hrow, rfl | rfl⟩ := hrows left hleft
        · exact ⟨left, hrow, hold left hrow ▸ horigin, rfl, .inl rfl⟩
        · exact ⟨row, hrow, hold row hrow ▸ horigin, rfl, .inl rfl⟩
      · rcases hrows left hleft with rfl | ⟨hmem, _⟩
        · have hsame : world.origin row.id = session := hfreshOrigin.symm.trans horigin
          exact ⟨row, hrow, hsame, rfl, .inr ⟨now, hsame ▸ hrotations⟩⟩
        · exact ⟨left, hmem, hold left hmem ▸ horigin, rfl, .inl rfl⟩
  | delete gone =>
      have hrow := List.mem_of_mem_filter hleft
      exact ⟨left, hrow, hold left hrow ▸ horigin, rfl, .inl rfl⟩
  | updateMeta metadata =>
      obtain ⟨row, hrow, rfl⟩ := List.mem_map.mp hleft
      exact ⟨row, hrow, hold row hrow ▸ horigin, rfl, .inl rfl⟩

-- Only a ping of the session gives its row another id.
theorem Valid.next_unpinged {world : World Uuid} (valid : world.Valid) (now : Int)
    {command : Command Uuid} (hfresh : world.Fresh command) {session : Uuid}
    (hsession : session ∈ world.issued) (hunpinged : world.Unpinged session command)
    {left : Row Uuid} (hleft : left ∈ (world.next now command).table)
    (horigin : (world.next now command).origin left.id = session) :
    ∃ row ∈ world.table, world.origin row.id = session ∧ left.role = row.role ∧
      left.id = row.id := by
  obtain ⟨row, hrow, hsame, hrole, hid | ⟨time, hrotated⟩⟩ :=
    valid.next_back now hfresh hsession hleft horigin
  · exact ⟨row, hrow, hsame, hrole, hid⟩
  · exfalso
    cases command with
    | create => simp [next] at hrotated
    | ping fresh pMinutes sessionId =>
        rcases valid.ping_cases now hfresh pMinutes sessionId with
          ⟨hkept, _⟩ | ⟨other, _, hother, _, _, hnew, _⟩
        · simp [hkept] at hrotated
        · rw [hnew] at hrotated
          have hpinged := congrArg Rotation.session (List.cons.inj hrotated).1
          exact hunpinged (hother ▸ hpinged)
    | delete => simp [next] at hrotated
    | updateMeta => simp [next] at hrotated

-- After the ping of its current id a session is gone, or its row is the answer.
theorem Valid.ping_current {world : World Uuid} (valid : world.Valid) {row : Row Uuid}
    (hrow : row ∈ world.table) (now : Int) {fresh : Uuid} (hfresh : fresh ∉ world.issued)
    (pMinutes : Int) {left : Row Uuid}
    (hleft : left ∈ (world.next now (.ping fresh pMinutes row.id)).table)
    (horigin : (world.next now (.ping fresh pMinutes row.id)).origin left.id =
      world.origin row.id) :
    (Auth.ping now fresh pMinutes row.id world.table).1 = some left ∧ left.role = row.role ∧
      (left.id = row.id ∨ Due now row) := by
  obtain ⟨front, back, hsplit, hping⟩ := valid.ping_row hrow (.inl rfl) now fresh pMinutes
  have hgrace : ¬IsGrace row.id row := fun h => h.1 rfl
  have hnotSide : left ∉ front ++ back := by
    intro hside
    obtain ⟨hmem, hother⟩ := valid.others hsplit left hside
    have hcommand : world.Fresh (.ping fresh pMinutes row.id) := hfresh
    have hkept : (world.next now (.ping fresh pMinutes row.id)).origin left.id =
        world.origin left.id := Valid.next_origin hcommand (valid.idIssued left hmem)
    exact hother (hkept.symm.trans horigin)
  have hhit : left ∈ (onRow now fresh pMinutes row.id row).2 := by
    rw [next_ping_table, hping] at hleft
    simp only [List.mem_append, Option.mem_toList] at hleft hnotSide
    tauto
  rw [hping]
  unfold onRow at hhit ⊢
  by_cases htime : TimedOut now pMinutes row
  · simp [htime] at hhit
  · by_cases hdue : Due now row
    · simp only [htime, hgrace, hdue, ite_true, ite_false, Option.mem_def,
        Option.some.injEq] at hhit ⊢
      subst hhit
      exact ⟨rfl, rfl, .inr trivial⟩
    · simp only [htime, hgrace, hdue, ite_false, Option.mem_def, Option.some.injEq] at hhit ⊢
      subst hhit
      exact ⟨rfl, rfl, .inl rfl⟩

-- A step adds one rotation at most, of a row that was there.
theorem Valid.next_rotations {world : World Uuid} (valid : world.Valid) (now : Int)
    {command : Command Uuid} (hfresh : world.Fresh command) :
    (world.next now command).rotations = world.rotations ∨
    ∃ row ∈ world.table, ∃ new, (world.next now command).rotations =
      ⟨world.origin row.id, now, row.id, new⟩ :: world.rotations := by
  cases command with
  | create => exact .inl rfl
  | ping fresh pMinutes sessionId =>
      rcases valid.ping_cases now hfresh pMinutes sessionId with
        ⟨h, _⟩ | ⟨row, hrow, _, _, _, h, _⟩
      · exact .inl h
      · exact .inr ⟨row, hrow, fresh, h⟩
  | delete => exact .inl rfl
  | updateMeta => exact .inl rfl

end World

end Saps.Auth
