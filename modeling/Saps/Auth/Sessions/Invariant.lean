import Saps.Auth.Sessions
import Saps.Auth.Sessions.Ping
import Mathlib.Data.List.Nodup

namespace Saps.Auth

open Ping

variable {Uuid : Type}

-- What the table and its history keep at all times.
structure World.Valid (world : World Uuid) : Prop where
  separated : (world.table.map fun row => world.origin row.id).Nodup
  sameOrigin : ∀ row ∈ world.table, world.origin row.oldId = world.origin row.id
  idIssued : ∀ row ∈ world.table, row.id ∈ world.issued
  originIssued : ∀ id ∈ world.issued, world.origin id ∈ world.issued
  minted : ∀ row ∈ world.table, row.oldId ≠ row.id →
    ⟨world.origin row.id, row.timeMinted, row.oldId, row.id⟩ ∈ world.rotations
  retired : ∀ rotation ∈ world.rotations, ∀ row ∈ world.table, row.id ≠ rotation.old ∧
    (row.oldId = rotation.old → row.timeMinted = rotation.time)
  known : ∀ rotation ∈ world.rotations, rotation.old ∈ world.issued ∧
    world.origin rotation.old = rotation.session
  recent : ∀ rotation ∈ world.rotations, ∀ row ∈ world.table,
    world.origin row.id = rotation.session → rotation.time ≤ row.dateCreated ∧
      rotation.time ≤ row.timeMinted
  spaced : world.rotations.Pairwise fun later earlier =>
    later.session = earlier.session → earlier.time + minutes 5 < later.time

namespace World

-- The columns a rotation changes and nothing else does.
def SameIdentity (row other : Row Uuid) : Prop :=
  other.id = row.id ∧ other.oldId = row.oldId ∧ other.dateCreated = row.dateCreated ∧
    other.timeMinted = row.timeMinted

theorem sameIdentity_renew (now : Int) (row : Row Uuid) :
    SameIdentity row (renew now row) :=
  ⟨rfl, rfl, rfl, rfl⟩

theorem valid_empty (clock : Int) : (empty clock : World Uuid).Valid := by
  constructor <;> simp [empty]

-- Every row is one of before, as far as the ids and the times of minting go.
theorem Valid.of_rows {world : World Uuid} (valid : world.Valid) (clock : Int)
    (table : AuthSessions Uuid)
    (hseparated : (table.map fun row => world.origin row.id).Nodup)
    (hrows : ∀ row ∈ table, ∃ before ∈ world.table, SameIdentity before row) :
    ({ world with clock := clock, table := table } : World Uuid).Valid := by
  refine ⟨hseparated, ?_, ?_, valid.originIssued, ?_, ?_, valid.known, ?_, valid.spaced⟩
  · intro row hrow
    obtain ⟨before, hbefore, hid, hold, _, _⟩ := hrows row hrow
    rw [hid, hold]
    exact valid.sameOrigin before hbefore
  · intro row hrow
    obtain ⟨before, hbefore, hid, _⟩ := hrows row hrow
    rw [hid]
    exact valid.idIssued before hbefore
  · intro row hrow
    obtain ⟨before, hbefore, hid, hold, _, hminted⟩ := hrows row hrow
    rw [hid, hold, hminted]
    exact valid.minted before hbefore
  · intro rotation hrotation row hrow
    obtain ⟨before, hbefore, hid, hold, _, hminted⟩ := hrows row hrow
    rw [hid, hold, hminted]
    exact valid.retired rotation hrotation before hbefore
  · intro rotation hrotation row hrow
    obtain ⟨before, hbefore, hid, _, hcreated, hminted⟩ := hrows row hrow
    rw [hid, hcreated, hminted]
    exact valid.recent rotation hrotation before hbefore

theorem Valid.sublist {world : World Uuid} (valid : world.Valid) (clock : Int)
    (table : AuthSessions Uuid) (h : table.Sublist world.table) :
    ({ world with clock := clock, table := table } : World Uuid).Valid := by
  refine valid.of_rows clock table (valid.separated.sublist (h.map _)) ?_
  intro row hrow
  exact ⟨row, h.subset hrow, rfl, rfl, rfl, rfl⟩

theorem Valid.map {world : World Uuid} (valid : world.Valid) (clock : Int)
    (change : Row Uuid → Row Uuid) (h : ∀ row, SameIdentity row (change row)) :
    ({ world with clock := clock, table := world.table.map change } : World Uuid).Valid := by
  refine valid.of_rows clock _ ?_ ?_
  · have hids : (fun row => world.origin row.id) ∘ change = fun row => world.origin row.id :=
      funext fun row => congrArg world.origin (h row).1
    rw [List.map_map, hids]
    exact valid.separated
  · intro row hrow
    obtain ⟨before, hbefore, rfl⟩ := List.mem_map.mp hrow
    exact ⟨before, hbefore, h before⟩

-- Of one session there is one row, so an id matches one row at most.
theorem Valid.matches_origin {world : World Uuid} (valid : world.Valid) {row : Row Uuid}
    (hrow : row ∈ world.table) {sessionId : Uuid} (h : Matches sessionId row) :
    world.origin row.id = world.origin sessionId := by
  rcases h with rfl | rfl
  · rfl
  · exact (valid.sameOrigin row hrow).symm

theorem Valid.others {world : World Uuid} (valid : world.Valid) {front back : List (Row Uuid)}
    {row : Row Uuid} (hsplit : world.table = front ++ row :: back) :
    ∀ other ∈ front ++ back, other ∈ world.table ∧ world.origin other.id ≠ world.origin row.id := by
  have hnodup := valid.separated
  rw [hsplit, List.map_append, List.map_cons] at hnodup
  have hmid := List.nodup_middle.mp hnodup
  rw [← List.map_append, List.nodup_cons] at hmid
  intro other hother
  refine ⟨?_, fun heq => hmid.1 (List.mem_map.mpr ⟨other, hother, heq⟩)⟩
  rw [hsplit]
  rcases List.mem_append.mp hother with h | h
  · exact List.mem_append_left _ h
  · exact List.mem_append_right _ (List.mem_cons_of_mem _ h)

theorem Valid.oldIssued {world : World Uuid} (valid : world.Valid) {row : Row Uuid}
    (hrow : row ∈ world.table) : row.oldId ∈ world.issued := by
  by_cases hold : row.oldId = row.id
  · exact hold ▸ valid.idIssued row hrow
  · exact (valid.known _ (valid.minted row hrow hold)).1

theorem Valid.split {world : World Uuid} (valid : world.Valid) (sessionId : Uuid) :
    (∀ row ∈ world.table, ¬Matches sessionId row) ∨
    ∃ front row back, world.table = front ++ row :: back ∧ Matches sessionId row ∧
      (∀ other ∈ front ++ back, ¬Matches sessionId other) ∧
      ∀ other ∈ front ++ back, other.id ≠ row.id := by
  by_cases hmatch : ∃ row ∈ world.table, Matches sessionId row
  · obtain ⟨row, hrow, hmatches⟩ := hmatch
    obtain ⟨front, back, hsplit⟩ := List.append_of_mem hrow
    have hothers := valid.others hsplit
    refine .inr ⟨front, row, back, hsplit, hmatches, ?_, ?_⟩
    · intro other hother hagain
      obtain ⟨hmem, hne⟩ := hothers other hother
      apply hne
      rw [valid.matches_origin hmem hagain, valid.matches_origin hrow hmatches]
    · intro other hother heq
      exact (hothers other hother).2 (by rw [heq])
  · exact .inl fun row hrow h => hmatch ⟨row, hrow, h⟩

-- The only step that changes ids: the session of `row` takes a new one.
theorem Valid.rotate {world : World Uuid} (valid : world.Valid) {front back : List (Row Uuid)}
    {row : Row Uuid} (hsplit : world.table = front ++ row :: back) (now : Int)
    (hdue : Due now row) (fresh : Uuid) (hfresh : fresh ∉ world.issued) (origin : Uuid → Uuid)
    (hold : ∀ id ∈ world.issued, origin id = world.origin id)
    (hnew : origin fresh = world.origin row.id) :
    Valid ⟨now, front ++ Ping.rotate now fresh row :: back, fresh :: world.issued, origin,
      ⟨world.origin row.id, now, row.id, fresh⟩ :: world.rotations⟩ := by
  have hrow : row ∈ world.table := by simp [hsplit]
  have hissued := valid.idIssued row hrow
  have hne : ∀ id ∈ world.issued, id ≠ fresh := fun id hid heq => hfresh (heq ▸ hid)
  -- A row of the new table is the rotated one or another session's.
  have hcases : ∀ other ∈ front ++ Ping.rotate now fresh row :: back,
      other = Ping.rotate now fresh row ∨
        (other ∈ world.table ∧ world.origin other.id ≠ world.origin row.id) := by
    intro other hother
    rcases List.mem_append.mp hother with h | h
    · exact .inr (valid.others hsplit other (List.mem_append_left _ h))
    · rcases List.mem_cons.mp h with rfl | h
      · exact .inl rfl
      · exact .inr (valid.others hsplit other (List.mem_append_right _ h))
  have hearlier : ∀ rotation ∈ world.rotations, world.origin row.id = rotation.session →
      rotation.time + minutes 5 < now := by
    intro rotation hrotation hsession
    have h := (valid.recent rotation hrotation row hrow hsession).1
    unfold Due at hdue
    omega
  have hspan : 0 ≤ minutes 5 := by decide
  refine ⟨?_, ?_, ?_, ?_, ?_, ?_, ?_, ?_, ?_⟩
  all_goals dsimp only
  · have hsame : (front ++ Ping.rotate now fresh row :: back).map (origin ·.id) =
        world.table.map (world.origin ·.id) := by
      have hside : ∀ rows : List (Row Uuid), (∀ other ∈ rows, other ∈ world.table) →
          rows.map (origin ·.id) = rows.map (world.origin ·.id) :=
        fun rows h => List.map_congr_left fun other hother =>
          hold _ (valid.idIssued other (h other hother))
      rw [hsplit, List.map_append, List.map_append, List.map_cons, List.map_cons,
        hside front fun other h => by simp [hsplit, h],
        hside back fun other h => by simp [hsplit, h]]
      exact congrArg (_ ++ · :: _) hnew
    exact hsame ▸ valid.separated
  · intro other hother
    rcases hcases other hother with rfl | ⟨hmem, _⟩
    · exact (hold _ hissued).trans hnew.symm
    · rw [hold _ (valid.oldIssued hmem), hold _ (valid.idIssued other hmem)]
      exact valid.sameOrigin other hmem
  · intro other hother
    rcases hcases other hother with rfl | ⟨hmem, _⟩
    · exact List.mem_cons_self
    · exact List.mem_cons_of_mem _ (valid.idIssued other hmem)
  · intro id hid
    rcases List.mem_cons.mp hid with rfl | hid
    · rw [hnew]
      exact List.mem_cons_of_mem _ (valid.originIssued _ hissued)
    · rw [hold id hid]
      exact List.mem_cons_of_mem _ (valid.originIssued id hid)
  · intro other hother hids
    rcases hcases other hother with rfl | ⟨hmem, _⟩
    · have hsession : origin (Ping.rotate now fresh row).id = world.origin row.id := hnew
      rw [hsession]
      exact List.mem_cons_self
    · rw [hold _ (valid.idIssued other hmem)]
      exact List.mem_cons_of_mem _ (valid.minted other hmem hids)
  · intro rotation hrotation other hother
    rcases List.mem_cons.mp hrotation with rfl | hrotation
    · rcases hcases other hother with rfl | ⟨hmem, hsession⟩
      · exact ⟨fun h => hne row.id hissued h.symm, fun _ => rfl⟩
      · refine ⟨fun h => hsession (congrArg world.origin h), fun h => ?_⟩
        exact absurd (by rw [← valid.sameOrigin other hmem, h]) hsession
    · rcases hcases other hother with rfl | ⟨hmem, _⟩
      · refine ⟨fun h => hne _ (valid.known rotation hrotation).1 h.symm, fun h => ?_⟩
        exact absurd h (valid.retired rotation hrotation row hrow).1
      · exact valid.retired rotation hrotation other hmem
  · intro rotation hrotation
    rcases List.mem_cons.mp hrotation with rfl | hrotation
    · exact ⟨List.mem_cons_of_mem _ hissued, hold _ hissued⟩
    · obtain ⟨hid, hsession⟩ := valid.known rotation hrotation
      exact ⟨List.mem_cons_of_mem _ hid, (hold _ hid).trans hsession⟩
  · intro rotation hrotation other hother hsession
    rcases List.mem_cons.mp hrotation with rfl | hrotation
    · rcases hcases other hother with rfl | ⟨hmem, hdistinct⟩
      · exact ⟨Int.le_refl _, Int.le_refl _⟩
      · exact absurd ((hold _ (valid.idIssued other hmem)).symm.trans hsession) hdistinct
    · rcases hcases other hother with rfl | ⟨hmem, _⟩
      · have h := hearlier rotation hrotation (hnew.symm.trans hsession)
        constructor <;> change rotation.time ≤ now <;> omega
      · exact valid.recent rotation hrotation other hmem
          ((hold _ (valid.idIssued other hmem)).symm.trans hsession)
  · exact List.pairwise_cons.mpr ⟨hearlier, valid.spaced⟩

theorem Valid.renew {world : World Uuid} (valid : world.Valid) {front back : List (Row Uuid)}
    {row : Row Uuid} (hsplit : world.table = front ++ row :: back) (clock now : Int) :
    ({ world with clock := clock, table := front ++ Ping.renew now row :: back } :
      World Uuid).Valid := by
  refine valid.of_rows clock _ ?_ ?_
  · have h := valid.separated
    rw [hsplit, List.map_append, List.map_cons] at h
    rwa [List.map_append, List.map_cons]
  · intro other hother
    rcases List.mem_append.mp hother with h | h
    · exact ⟨other, by simp [hsplit, h], rfl, rfl, rfl, rfl⟩
    · rcases List.mem_cons.mp h with rfl | h
      · exact ⟨row, by simp [hsplit], sameIdentity_renew now row⟩
      · exact ⟨other, by simp [hsplit, h], rfl, rfl, rfl, rfl⟩

variable [DecidableEq Uuid]

-- A new session brings an id of its own.
theorem Valid.create {world : World Uuid} (valid : world.Valid) (clock : Int) (session : Row Uuid)
    (hold : session.oldId = session.id) (hid : session.id ∉ world.issued) :
    Valid { world with
      clock := clock
      table := session :: world.table
      issued := session.id :: world.issued
      origin := Function.update world.origin session.id session.id } := by
  have hne : ∀ id ∈ world.issued, id ≠ session.id := fun id hmem heq => hid (heq ▸ hmem)
  have hkept : ∀ id ∈ world.issued,
      Function.update world.origin session.id session.id id = world.origin id :=
    fun id hmem => Function.update_of_ne (hne id hmem) _ _
  have hself : Function.update world.origin session.id session.id session.id = session.id :=
    Function.update_self _ _ _
  have horigin : ∀ row ∈ world.table, world.origin row.id ≠ session.id :=
    fun row hrow => hne _ (valid.originIssued _ (valid.idIssued row hrow))
  refine ⟨?_, ?_, ?_, ?_, ?_, ?_, ?_, ?_, valid.spaced⟩
  all_goals dsimp only
  · have hrows : world.table.map (fun row =>
        Function.update world.origin session.id session.id row.id) =
        world.table.map (world.origin ·.id) :=
      List.map_congr_left fun row hrow => hkept _ (valid.idIssued row hrow)
    rw [List.map_cons, hrows, hself, List.nodup_cons]
    refine ⟨fun hmem => ?_, valid.separated⟩
    obtain ⟨row, hrow, heq⟩ := List.mem_map.mp hmem
    exact horigin row hrow heq
  · intro row hrow
    rcases List.mem_cons.mp hrow with rfl | hrow
    · rw [hold]
    · rw [hkept _ (valid.oldIssued hrow), hkept _ (valid.idIssued row hrow)]
      exact valid.sameOrigin row hrow
  · intro row hrow
    rcases List.mem_cons.mp hrow with rfl | hrow
    · exact List.mem_cons_self
    · exact List.mem_cons_of_mem _ (valid.idIssued row hrow)
  · intro id hmem
    rcases List.mem_cons.mp hmem with rfl | hmem
    · rw [hself]
      exact List.mem_cons_self
    · rw [hkept id hmem]
      exact List.mem_cons_of_mem _ (valid.originIssued id hmem)
  · intro row hrow hids
    rcases List.mem_cons.mp hrow with rfl | hrow
    · exact absurd hold hids
    · rw [hkept _ (valid.idIssued row hrow)]
      exact valid.minted row hrow hids
  · intro rotation hrotation row hrow
    rcases List.mem_cons.mp hrow with rfl | hrow
    · have hdistinct := (hne _ (valid.known rotation hrotation).1).symm
      exact ⟨hdistinct, fun h => absurd (hold.symm.trans h) hdistinct⟩
    · exact valid.retired rotation hrotation row hrow
  · intro rotation hrotation
    obtain ⟨hmem, hsession⟩ := valid.known rotation hrotation
    exact ⟨List.mem_cons_of_mem _ hmem, (hkept _ hmem).trans hsession⟩
  · intro rotation hrotation row hrow hsession
    rcases List.mem_cons.mp hrow with rfl | hrow
    · obtain ⟨hmem, horiginal⟩ := valid.known rotation hrotation
      refine absurd (hself.symm.trans hsession) ?_
      rw [← horiginal]
      exact (hne _ (valid.originIssued _ hmem)).symm
    · exact valid.recent rotation hrotation row hrow
        ((hkept _ (valid.idIssued row hrow)).symm.trans hsession)

theorem record_none (world : World Uuid) (now : Int) (fresh sessionId : Uuid) :
    world.record now fresh sessionId none = world :=
  if_neg (by simp)

theorem record_kept (world : World Uuid) (now : Int) (fresh sessionId : Uuid)
    {session : Row Uuid} (h : session.id ≠ fresh) :
    world.record now fresh sessionId (some session) = world :=
  if_neg fun heq => h (Option.some.inj heq)

theorem next_ping (world : World Uuid) (now : Int) (fresh : Uuid) (pMinutes : Int)
    (sessionId : Uuid) :
    world.next now (.ping fresh pMinutes sessionId) =
      record { world with
        clock := now, table := (Auth.ping now fresh pMinutes sessionId world.table).2 }
        now fresh sessionId (Auth.ping now fresh pMinutes sessionId world.table).1 := rfl

theorem ping_valid {world : World Uuid} (valid : world.Valid) (now : Int) (fresh : Uuid)
    (hfresh : fresh ∉ world.issued) (pMinutes : Int) (sessionId : Uuid) :
    (world.next now (.ping fresh pMinutes sessionId)).Valid := by
  rw [next_ping]
  rcases valid.split sessionId with hmiss | ⟨front, row, back, hsplit, hrow, hother, hid⟩
  · rw [ping_miss now fresh pMinutes sessionId world.table hmiss]
    exact valid.sublist now _ (.refl _)
  · have hne : ∀ id ∈ world.issued, id ≠ fresh := fun id hid heq => hfresh (heq ▸ hid)
    have hkept : (Ping.renew now row).id ≠ fresh := hne _ (valid.idIssued row (by simp [hsplit]))
    rw [hsplit, ping_hit now fresh pMinutes sessionId front back row hrow hother hid]
    unfold onRow
    split
    · refine valid.sublist now _ ?_
      rw [hsplit]
      simp
    · split
      · split
        · rw [record_none]
          simpa [hsplit] using valid.sublist now _ (.refl _)
        · simpa [record_kept _ _ _ _ hkept] using valid.renew hsplit now now
      · split
        · next hgrace hdue =>
          have hcurrent : row.id = sessionId := by
            by_contra hne
            exact hgrace ⟨hne, hrow.resolve_left hne⟩
          subst hcurrent
          have hrotate := valid.rotate hsplit now hdue fresh hfresh
            (Function.update world.origin fresh (world.origin row.id))
            (fun id hid => Function.update_of_ne (hne id hid) _ _)
            (Function.update_self _ _ _)
          simpa [record, Ping.rotate] using hrotate
        · simpa [record_kept _ _ _ _ hkept] using valid.renew hsplit now now

theorem next_valid {world : World Uuid} (valid : world.Valid) (now : Int)
    (command : Command Uuid) (hfresh : world.Fresh command) :
    (world.next now command).Valid := by
  cases command with
  | create id role dateCreated lastInteracted metadata =>
      exact valid.create now ⟨id, id, role, dateCreated, lastInteracted, dateCreated, metadata⟩
        rfl hfresh
  | ping fresh pMinutes sessionId => exact ping_valid valid now fresh hfresh pMinutes sessionId
  | delete gone => exact valid.sublist now _ List.filter_sublist
  | updateMeta metadata =>
      exact valid.map now (fun row => { row with metadata := metadata row })
        fun _ => ⟨rfl, rfl, rfl, rfl⟩

theorem run_valid {start finish : World Uuid} {trace : List (Int × Command Uuid)}
    (run : Transition.Run Step start trace finish) (hstart : start.Valid) : finish.Valid := by
  refine run.invariant Valid hstart ?_
  rintro before ⟨now, command⟩ after hbefore ⟨_, hfresh, rfl⟩
  exact next_valid hbefore now command hfresh

end World

end Saps.Auth
