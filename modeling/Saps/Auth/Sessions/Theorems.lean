import Saps.Auth.Sessions.Invariant

namespace Saps.Auth

open Ping Transition

variable {Uuid : Type}

namespace World

-- A grace id was replaced by the latest rotation of its session.
theorem Valid.grace_rotation {world : World Uuid} (valid : world.Valid) {row : Row Uuid}
    (hrow : row ∈ world.table) {sessionId : Uuid} (hgrace : IsGrace sessionId row) :
    ∃ rotation ∈ world.rotations, rotation.new = row.id ∧ rotation.old = sessionId ∧
      rotation.time = row.timeMinted ∧
      ∀ other ∈ world.rotations, other.session = rotation.session →
        other.time ≤ rotation.time := by
  obtain ⟨hid, hold⟩ := hgrace
  have hminted := valid.minted row hrow fun heq => hid (heq ▸ hold)
  refine ⟨_, hminted, rfl, hold, rfl, ?_⟩
  intro other hother hsession
  exact (valid.recent other hother row hrow hsession.symm).2

-- An id matches the row of its own session only.
theorem Valid.row_unique {world : World Uuid} (valid : world.Valid) {row other : Row Uuid}
    (hrow : row ∈ world.table) (hother : other ∈ world.table)
    (h : world.origin row.id = world.origin other.id) : row = other :=
  List.inj_on_of_nodup_map valid.separated hrow hother h

-- The two ways to be accepted: by the current id, which may rotate it, and by
-- the id the latest rotation replaced, which renews `last_interacted` alone.
inductive Accepts (now : Int) (fresh : Uuid) (sessionId : Uuid) (row : Row Uuid) :
    Row Uuid → Prop
  | current (hid : row.id = sessionId) : Accepts now fresh sessionId row (renew now row)
  | rotated (hid : row.id = sessionId) (hdue : Due now row) :
      Accepts now fresh sessionId row (rotate now fresh row)
  | grace (hid : IsGrace sessionId row) (hopen : ¬Lapsed now row) :
      Accepts now fresh sessionId row (renew now row)

theorem Valid.accepted_id {world : World Uuid} (valid : world.Valid) {row session : Row Uuid}
    (hrow : row ∈ world.table) {now : Int} {fresh sessionId : Uuid}
    (h : Accepts now fresh sessionId row session) :
    row.id = sessionId ∨
      ∃ rotation ∈ world.rotations, rotation.new = row.id ∧ rotation.old = sessionId ∧
        now ≤ rotation.time + seconds 10 ∧
        ∀ other ∈ world.rotations, other.session = rotation.session →
          other.time ≤ rotation.time := by
  cases h with
  | current hid => exact .inl hid
  | rotated hid _ => exact .inl hid
  | grace hgrace hopen =>
      obtain ⟨rotation, hmem, hnew, hold, htime, hlatest⟩ := valid.grace_rotation hrow hgrace
      refine .inr ⟨rotation, hmem, hnew, hold, ?_, hlatest⟩
      unfold Lapsed at hopen
      omega

variable [DecidableEq Uuid]

-- A ping that may come next.
def MayPing (world : World Uuid) (now : Int) (fresh : Uuid) : Prop :=
  world.clock ≤ now ∧ fresh ∉ world.issued

theorem onRow_cases (now : Int) (fresh : Uuid) (pMinutes : Int) (sessionId : Uuid)
    (row : Row Uuid) (hrow : Matches sessionId row) :
    (∃ session, onRow now fresh pMinutes sessionId row = (some session, some session) ∧
      ¬TimedOut now pMinutes row ∧ Accepts now fresh sessionId row session) ∨
    onRow now fresh pMinutes sessionId row =
      (none, if TimedOut now pMinutes row then none else some row) := by
  unfold onRow
  by_cases htime : TimedOut now pMinutes row
  · simp [htime]
  · by_cases hgrace : IsGrace sessionId row
    · by_cases hlapsed : Lapsed now row
      · simp [htime, hgrace, hlapsed]
      · left
        exact ⟨renew now row, by simp [htime, hgrace, hlapsed], htime, .grace hgrace hlapsed⟩
    · have hid : row.id = sessionId := by
        by_contra hne
        exact hgrace ⟨hne, hrow.resolve_left hne⟩
      left
      by_cases hdue : Due now row
      · exact ⟨rotate now fresh row, by simp [htime, hgrace, hdue], htime, .rotated hid hdue⟩
      · exact ⟨renew now row, by simp [htime, hgrace, hdue], htime, .current hid⟩

-- What an accepted ping tells, and all that it changes.
theorem Valid.accepted {world : World Uuid} (valid : world.Valid) {now : Int} {fresh : Uuid}
    {pMinutes : Int} {sessionId : Uuid} {session : Row Uuid}
    (h : (Auth.ping now fresh pMinutes sessionId world.table).1 = some session) :
    ∃ front row back, world.table = front ++ row :: back ∧ Matches sessionId row ∧
      ¬TimedOut now pMinutes row ∧ Accepts now fresh sessionId row session ∧
      (Auth.ping now fresh pMinutes sessionId world.table).2 = front ++ session :: back := by
  rcases valid.split sessionId with hmiss | ⟨front, row, back, hsplit, hrow, hother, hid⟩
  · rw [ping_miss now fresh pMinutes sessionId world.table hmiss] at h
    simp at h
  · rw [hsplit, ping_hit now fresh pMinutes sessionId front back row hrow hother hid] at h
    refine ⟨front, row, back, hsplit, hrow, ?_⟩
    rw [hsplit, ping_hit now fresh pMinutes sessionId front back row hrow hother hid]
    rcases onRow_cases now fresh pMinutes sessionId row hrow with ⟨left, heq, htime, hleft⟩ | heq
    · rw [heq] at h ⊢
      obtain rfl : left = session := Option.some.inj h
      exact ⟨htime, hleft, by simp⟩
    · rw [heq] at h
      simp at h

-- A rejected ping is its `DELETE` alone.
theorem Valid.rejected {world : World Uuid} (valid : world.Valid) {now : Int} {fresh : Uuid}
    {pMinutes : Int} {sessionId : Uuid}
    (h : (Auth.ping now fresh pMinutes sessionId world.table).1 = none) :
    (Auth.ping now fresh pMinutes sessionId world.table).2 =
      world.table.filter (! gone now pMinutes sessionId ·) := by
  rcases valid.split sessionId with hmiss | ⟨front, row, back, hsplit, hrow, hother, hid⟩
  · have hdelete := deleteTimedOut_miss now pMinutes sessionId world.table hmiss
    rw [ping_miss now fresh pMinutes sessionId world.table hmiss]
    exact (congrArg Prod.snd hdelete).symm
  · have hdelete := deleteTimedOut_hit now pMinutes sessionId front back row hrow hother
    rw [hsplit, ping_hit now fresh pMinutes sessionId front back row hrow hother hid] at h ⊢
    rcases onRow_cases now fresh pMinutes sessionId row hrow with ⟨left, heq, _⟩ | heq
    · rw [heq] at h
      simp at h
    · refine Eq.trans ?_ (congrArg Prod.snd hdelete).symm
      rw [heq]
      by_cases htime : TimedOut now pMinutes row <;> simp [htime]

-- The guarantees of `saps.ping` about whatever ping comes next.
structure PingSafe (world : World Uuid) : Prop where
  -- An accepted id is the current id of a row, or the id its latest rotation
  -- replaced at most ten seconds ago.
  accepted : ∀ now fresh pMinutes sessionId session, world.MayPing now fresh →
    (Auth.ping now fresh pMinutes sessionId world.table).1 = some session →
    ∃ row ∈ world.table, row.id = sessionId ∨
      ∃ rotation ∈ world.rotations, rotation.new = row.id ∧ rotation.old = sessionId ∧
        now ≤ rotation.time + seconds 10 ∧
        ∀ other ∈ world.rotations, other.session = rotation.session →
          other.time ≤ rotation.time
  twoIds : ∀ row ∈ world.table, ∃ first second, ∀ now fresh pMinutes sessionId session,
    world.MayPing now fresh →
    (Auth.ping now fresh pMinutes sessionId world.table).1 = some session →
    (world.next now (.ping fresh pMinutes sessionId)).origin session.id = world.origin row.id →
    sessionId = first ∨ sessionId = second
  superseded : ∀ rotation ∈ world.rotations, ∀ now fresh pMinutes, world.MayPing now fresh →
    rotation.time + seconds 10 < now →
    (Auth.ping now fresh pMinutes rotation.old world.table).1 = none
  idle : ∀ row ∈ world.table, ∀ now fresh pMinutes, world.MayPing now fresh →
    row.lastInteracted < now - minutes pMinutes →
    (∀ sessionId, world.origin sessionId = world.origin row.id →
      (Auth.ping now fresh pMinutes sessionId world.table).1 = none) ∧
    ∀ sessionId, sessionId = row.id ∨ sessionId = row.oldId →
      ∀ left ∈ (Auth.ping now fresh pMinutes sessionId world.table).2,
        world.origin left.id ≠ world.origin row.id
  spaced : world.rotations.Pairwise fun later earlier =>
    later.session = earlier.session → earlier.time + minutes 5 < later.time
  grace : ∀ now fresh pMinutes sessionId session, world.MayPing now fresh →
    (Auth.ping now fresh pMinutes sessionId world.table).1 = some session →
    (∀ row ∈ world.table, row.id ≠ sessionId) →
    ∃ row ∈ world.table, row.oldId = sessionId ∧ session = { row with lastInteracted := now }
  kept : ∀ now fresh pMinutes sessionId session, world.MayPing now fresh →
    (Auth.ping now fresh pMinutes sessionId world.table).1 = some session →
    ∃ front row back, world.table = front ++ row :: back ∧ Matches sessionId row ∧
      (Auth.ping now fresh pMinutes sessionId world.table).2 = front ++ session :: back ∧
      session.role = row.role ∧ session.metadata = row.metadata
  rejected : ∀ now fresh pMinutes sessionId, world.MayPing now fresh →
    (Auth.ping now fresh pMinutes sessionId world.table).1 = none →
    (Auth.ping now fresh pMinutes sessionId world.table).2 =
      world.table.filter fun row => ¬(Matches sessionId row ∧ TimedOut now pMinutes row)

theorem Valid.superseded {world : World Uuid} (valid : world.Valid) {rotation : Rotation Uuid}
    (hrotation : rotation ∈ world.rotations) {now : Int}
    (hlate : rotation.time + seconds 10 < now) (fresh : Uuid) (pMinutes : Int) :
    (Auth.ping now fresh pMinutes rotation.old world.table).1 = none := by
  cases hping : (Auth.ping now fresh pMinutes rotation.old world.table).1 with
  | none => rfl
  | some session =>
      obtain ⟨front, row, back, hsplit, _, _, haccepts, _⟩ := valid.accepted hping
      obtain ⟨hcurrent, hold⟩ := valid.retired rotation hrotation row (by simp [hsplit])
      cases haccepts with
      | current hid => exact absurd hid hcurrent
      | rotated hid _ => exact absurd hid hcurrent
      | grace hgrace hopen =>
          have htime := hold hgrace.2
          unfold Lapsed at hopen
          omega

theorem Valid.idle {world : World Uuid} (valid : world.Valid) {row : Row Uuid}
    (hrow : row ∈ world.table) {now : Int} {pMinutes : Int} (hidle : TimedOut now pMinutes row)
    (fresh : Uuid) :
    (∀ sessionId, world.origin sessionId = world.origin row.id →
      (Auth.ping now fresh pMinutes sessionId world.table).1 = none) ∧
    ∀ sessionId, sessionId = row.id ∨ sessionId = row.oldId →
      ∀ left ∈ (Auth.ping now fresh pMinutes sessionId world.table).2,
        world.origin left.id ≠ world.origin row.id := by
  have hnull : ∀ sessionId, world.origin sessionId = world.origin row.id →
      (Auth.ping now fresh pMinutes sessionId world.table).1 = none := by
    intro sessionId hsession
    cases hping : (Auth.ping now fresh pMinutes sessionId world.table).1 with
    | none => rfl
    | some session =>
        obtain ⟨front, hit, back, hsplit, hmatches, hactive, _⟩ := valid.accepted hping
        have hhit : hit ∈ world.table := by simp [hsplit]
        have hsame := valid.row_unique hhit hrow
          ((valid.matches_origin hhit hmatches).trans hsession)
        exact absurd (hsame ▸ hidle) hactive
  refine ⟨hnull, ?_⟩
  intro sessionId hid left hleft hsession
  have hmatches : Matches sessionId row := hid.imp Eq.symm Eq.symm
  have hrejected := hnull sessionId (valid.matches_origin hrow hmatches).symm
  rw [valid.rejected hrejected] at hleft
  obtain ⟨hmem, hkept⟩ := List.mem_filter.mp hleft
  have hsame := valid.row_unique hmem hrow hsession
  simp [hsame, gone, hmatches, hidle] at hkept

-- The session answered is the session of the row, also right after a rotation.
theorem Valid.accepted_origin {world : World Uuid} (valid : world.Valid) {row session : Row Uuid}
    (hrow : row ∈ world.table) {now : Int} {fresh : Uuid} (hfresh : fresh ∉ world.issued)
    {sessionId : Uuid} (h : Accepts now fresh sessionId row session)
    (table : AuthSessions Uuid) :
    (record { world with clock := now, table := table } now fresh sessionId
      (some session)).origin session.id = world.origin row.id := by
  have hne : (Ping.renew now row).id ≠ fresh := fun heq => hfresh (heq ▸ valid.idIssued row hrow)
  cases h with
  | current _ => rw [record_kept _ _ _ _ hne]; rfl
  | rotated hid _ => simp [record, Ping.rotate, hid]
  | grace _ _ => rw [record_kept _ _ _ _ hne]; rfl

theorem Valid.pingSafe {world : World Uuid} (valid : world.Valid) : world.PingSafe := by
  refine ⟨?_, ?_, ?_, ?_, valid.spaced, ?_, ?_, ?_⟩
  · intro now fresh pMinutes sessionId session _ h
    obtain ⟨front, row, back, hsplit, _, _, haccepts, _⟩ := valid.accepted h
    have hrow : row ∈ world.table := by simp [hsplit]
    exact ⟨row, hrow, valid.accepted_id hrow haccepts⟩
  · intro row hrow
    refine ⟨row.id, row.oldId, ?_⟩
    intro now fresh pMinutes sessionId session hmay h hsession
    obtain ⟨front, hit, back, hsplit, hmatches, _, haccepts, _⟩ := valid.accepted h
    have hhit : hit ∈ world.table := by simp [hsplit]
    have hsame : hit = row := by
      refine valid.row_unique hhit hrow ?_
      rw [← hsession, next_ping, h]
      exact (valid.accepted_origin hhit hmay.2 haccepts _).symm
    subst hsame
    exact hmatches.imp Eq.symm Eq.symm
  · intro rotation hrotation now fresh pMinutes _ hlate
    exact valid.superseded hrotation hlate fresh pMinutes
  · intro row hrow now fresh pMinutes _ hidle
    exact valid.idle hrow hidle fresh
  · intro now fresh pMinutes sessionId session _ h hno
    obtain ⟨front, row, back, hsplit, _, _, haccepts, _⟩ := valid.accepted h
    have hrow : row ∈ world.table := by simp [hsplit]
    cases haccepts with
    | current hid => exact absurd hid (hno row hrow)
    | rotated hid _ => exact absurd hid (hno row hrow)
    | grace hgrace _ => exact ⟨row, hrow, hgrace.2, rfl⟩
  · intro now fresh pMinutes sessionId session _ h
    obtain ⟨front, row, back, hsplit, hmatches, _, haccepts, htable⟩ := valid.accepted h
    refine ⟨front, row, back, hsplit, hmatches, htable, ?_⟩
    cases haccepts <;> exact ⟨rfl, rfl⟩
  · intro now fresh pMinutes sessionId _ h
    rw [valid.rejected h]
    congr 1
    funext row
    simp [gone]

-- Whatever sessions are created, pinged, deleted and given new meta, in any
-- order and with any ids presented, the guarantees hold in every state.
theorem ping_safe (clock : Int) (trace : List (Int × Command Uuid)) (finish : World Uuid)
    (run : Run Step (empty clock) trace finish) : finish.PingSafe :=
  (run_valid run (valid_empty clock)).pingSafe

-- A session is created at time 0 and rotated by a ping six minutes later.
theorem ping_safe_rotated :
    let created := (empty 0 : World Nat).next 0 (.create 1 ['a'] 0 0 none)
    (created.next (minutes 6) (.ping 2 10 1)).PingSafe :=
  ping_safe 0 [(0, .create 1 ['a'] 0 0 none), (minutes 6, .ping 2 10 1)] _
    (.snoc (.snoc .nil ⟨by decide, by simp [Fresh, empty], rfl⟩)
      ⟨by decide, by simp [Fresh, next, empty], rfl⟩)

end World

end Saps.Auth
