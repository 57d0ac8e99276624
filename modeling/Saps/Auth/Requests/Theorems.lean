import Saps.Auth.Requests.Operations
import Saps.Auth.Token.Unary

namespace Saps.Auth

open Ping Transition

section

variable {Role Uuid : Type}

variable [DecidableEq Uuid]

-- The id that a request was told, against its session now.
structure Tracks (Role : Type) [UserRole Role] (world : World Uuid) (session : Uuid) (since : Nat)
    (id : Uuid) : Prop where
  issued : session ∈ world.issued
  later : since ≤ world.rotationsOf session
  current : world.rotationsOf session = since → ∀ row ∈ world.table,
    world.origin row.id = session → row.id = id
  retired : since < world.rotationsOf session → ∀ row ∈ world.table,
    world.origin row.id = session → ∃ rotation ∈ world.rotations, rotation.old = id
  role : ∀ row ∈ world.table, world.origin row.id = session →
    ∃ role : Role, UserRole.tryFrom row.role = Except.ok role

namespace Tracks

variable [UserRole Role] {world : World Uuid} {session : Uuid} {since : Nat} {id : Uuid}

theorem next (tracks : Tracks Role world session since id) (valid : world.Valid) (now : Int)
    {command : Command Uuid} (hfresh : world.Fresh command) :
    Tracks Role (world.next now command) session since id := by
  have hback : ∀ left ∈ (world.next now command).table,
      (world.next now command).origin left.id = session → ∃ row ∈ world.table,
        world.origin row.id = session ∧ left.role = row.role ∧
          (left.id = row.id ∨ ∃ time, (world.next now command).rotations =
            ⟨session, time, row.id, left.id⟩ :: world.rotations) :=
    fun left hleft horigin => valid.next_back now hfresh tracks.issued hleft horigin
  have hrole : ∀ left ∈ (world.next now command).table,
      (world.next now command).origin left.id = session →
        ∃ role : Role, UserRole.tryFrom left.role = Except.ok role := by
    intro left hleft horigin
    obtain ⟨row, hrow, hsession, hkept, _⟩ := hback left hleft horigin
    rw [hkept]
    exact tracks.role row hrow hsession
  have hlater := tracks.later
  have hissued : session ∈ (world.next now command).issued := World.next_issued tracks.issued
  rcases valid.next_rotations now hfresh with hsame | ⟨rotated, hmem, new, hnew⟩
  · have hcount : (world.next now command).rotationsOf session = world.rotationsOf session := by
      rw [World.rotationsOf, hsame]
      rfl
    refine ⟨hissued, hcount ▸ hlater, ?_, ?_, hrole⟩
    · intro heq left hleft horigin
      obtain ⟨row, hrow, hsession, _, hkept | ⟨time, hcons⟩⟩ := hback left hleft horigin
      · rw [hkept]
        exact tracks.current (by omega) row hrow hsession
      · simp [hsame] at hcons
    · intro hlt left hleft horigin
      obtain ⟨row, hrow, hsession, _⟩ := hback left hleft horigin
      rw [hsame]
      exact tracks.retired (by omega) row hrow hsession
  · by_cases hown : world.origin rotated.id = session
    · have hcount : (world.next now command).rotationsOf session =
          world.rotationsOf session + 1 := by
        simp [World.rotationsOf, hnew, hown]
      refine ⟨hissued, by omega, fun heq => absurd heq (by omega), ?_, hrole⟩
      intro _ _ _ _
      rw [hnew]
      rcases hlater.eq_or_lt with heq | hlt
      · exact ⟨_, List.mem_cons_self, tracks.current heq.symm rotated hmem hown⟩
      · obtain ⟨rotation, hrotation, hold⟩ := tracks.retired hlt rotated hmem hown
        exact ⟨rotation, List.mem_cons_of_mem _ hrotation, hold⟩
    · have hcount : (world.next now command).rotationsOf session = world.rotationsOf session := by
        simp [World.rotationsOf, hnew, hown]
      refine ⟨hissued, hcount ▸ hlater, ?_, ?_, hrole⟩
      · intro heq left hleft horigin
        obtain ⟨row, hrow, hsession, _, hkept | ⟨time, hcons⟩⟩ := hback left hleft horigin
        · rw [hkept]
          exact tracks.current (by omega) row hrow hsession
        · rw [hnew] at hcons
          exact absurd (congrArg Rotation.session (List.cons.inj hcons).1) hown
      · intro hlt left hleft horigin
        obtain ⟨row, hrow, hsession, _⟩ := hback left hleft horigin
        obtain ⟨rotation, hrotation, hold⟩ := tracks.retired (by omega) row hrow hsession
        rw [hnew]
        exact ⟨rotation, List.mem_cons_of_mem _ hrotation, hold⟩

end Tracks

namespace Server

variable [UserRole Role] [UuidText Uuid]

structure Good (server : Server Role Uuid) : Prop where
  valid : server.world.Valid
  tracks : ∀ held ∈ server.held, ∃ id, held.token.uniqueId = UuidText.toStr id ∧
    Tracks Role server.world held.session held.since id

theorem good_empty (clock : Int) : (empty clock : Server Role Uuid).Good :=
  ⟨World.valid_empty clock, fun _ h => absurd h List.not_mem_nil⟩

-- For the table an operation is one command.
theorem operated_world (server : Server Role Uuid) (now : Int) (held : Held Role Uuid)
    (operation : Operation) : ∃ command, server.world.Fresh command ∧
      (server.operated now held operation).world = server.world.next now command := by
  rcases run_table held.token server.world.table operation with ⟨gone, h⟩ | ⟨metadata, h⟩
  · exact ⟨.delete gone, trivial, by simp only [operated, h]; rfl⟩
  · exact ⟨.updateMeta metadata, trivial, by simp only [operated, h]; rfl⟩

variable [Jsonwebtoken] {config : Config} {checkUserRole : Role → Except SapsError Unit}

-- A request that is let in tracks the row its ping found.
theorem admitted_tracks {world : World Uuid} (valid : world.Valid) {now : Int} {fresh : Uuid}
    (hfresh : fresh ∉ world.issued) {rawToken : Str} {token : HeaderToken Role Uuid}
    (h : HeaderToken.fromRequestParts checkUserRole
      (runAuthExtraction config .auto now fresh rawToken world.table).answer = .ok token)
    {held : Held Role Uuid} :
    let after := world.served config now fresh rawToken (runAuthExtraction config .auto now fresh
      rawToken world.table : Extraction Role Uuid).table
    held ∈ accept after token → ∃ id, held.token.uniqueId = UuidText.toStr id ∧
      Tracks Role after held.session held.since id := by
  intro after hheld
  obtain ⟨raw, hanswer, hunique, hsession⟩ := fromRequestParts_ok h
  obtain ⟨id, row, ⟨claims, hdecode, hparse⟩, hping, hid, hrawId, hrole⟩ := runAuthExtraction_ok hanswer
  have hafter : after = world.next now (.ping fresh 10 id) :=
    World.served_ping Role hdecode hparse world now fresh
  have hvalid : after.Valid := hafter ▸ World.next_valid valid now (.ping fresh 10 id) hfresh
  have hrow : row ∈ after.table := by
    obtain ⟨front, before, back, _, _, _, _, htable⟩ := valid.accepted hping
    rw [hafter, World.next_ping_table, htable]
    simp
  rw [accept, hsession] at hheld
  simp only [hid] at hheld
  obtain rfl := List.mem_singleton.mp hheld
  refine ⟨row.id, hunique.trans hrawId, hvalid.originIssued _ (hvalid.idIssued row hrow),
    Nat.le_refl _, ?_, fun hlt => absurd hlt (Nat.lt_irrefl _), ?_⟩
  · intro _ other hother horigin
    rw [hvalid.row_unique hother hrow horigin]
  · intro other hother horigin
    rw [hvalid.row_unique hother hrow horigin]
    exact hrole

theorem step_good {server after : Server Role Uuid} {label : Int × Act Role Uuid}
    (good : server.Good) (step : Step config checkUserRole server label after) : after.Good := by
  have hkept : ∀ now command, server.world.Fresh command → ∀ held ∈ server.held, ∃ id,
      held.token.uniqueId = UuidText.toStr id ∧
        Tracks Role (server.world.next now command) held.session held.since id := by
    intro now command hfresh held hheld
    obtain ⟨id, hid, tracks⟩ := good.tracks held hheld
    exact ⟨id, hid, tracks.next good.valid now hfresh⟩
  cases step with
  | authenticate now rawToken fresh htime hfresh =>
      obtain ⟨command, hcommand, hworld⟩ :=
        World.served_next Role config server.world now hfresh rawToken
      have hvalid := World.next_valid good.valid now command hcommand
      rw [authenticated]
      cases htoken : HeaderToken.fromRequestParts checkUserRole
          (runAuthExtraction config .auto now fresh rawToken server.world.table).answer with
      | error e =>
          simp only [hworld]
          exact ⟨hvalid, hkept now command hcommand⟩
      | ok token =>
          refine ⟨?_, fun held hheld => ?_⟩
          · simpa only [hworld] using hvalid
          · rcases List.mem_append.mp hheld with h | h
            · simpa only [hworld] using hkept now command hcommand held h
            · exact admitted_tracks good.valid hfresh htoken h
  | operate now held operation htime hheld =>
      obtain ⟨command, hcommand, hworld⟩ := operated_world server now held operation
      refine ⟨hworld ▸ World.next_valid good.valid now command hcommand, fun other hother => ?_⟩
      rw [hworld]
      rcases List.mem_cons.mp hother with rfl | h
      · obtain ⟨id, hid, tracks⟩ := hkept now command hcommand held hheld
        exact ⟨id, (run_uniqueId held.token server.world.table operation).trans hid, tracks⟩
      · exact hkept now command hcommand other h
  | other now command htime hfresh =>
      exact ⟨World.next_valid good.valid now command hfresh, hkept now command hfresh⟩

theorem run_good {clock : Int} {trace : List (Int × Act Role Uuid)} {finish : Server Role Uuid}
    (run : Run (Step config checkUserRole) (empty clock) trace finish) : finish.Good :=
  run.invariant Good (good_empty clock) fun _ _ _ good step => step_good good step

variable [LawfulUuidText Uuid]

-- Once the session was rotated after the ping of a request, no operation of
-- the request reaches a row any more, and none of them says so.
theorem operations_missed {clock : Int} {trace : List (Int × Act Role Uuid)}
    {finish : Server Role Uuid}
    (run : Run (Step config checkUserRole) (empty clock) trace finish) {held : Held Role Uuid}
    (hheld : held ∈ finish.held) {row : Row Uuid} (hrow : row ∈ finish.world.table)
    (hsession : finish.world.origin row.id = held.session)
    (hrotated : held.since < finish.world.rotationsOf held.session) (operation : Operation) :
    (operation.run held.token finish.world.table).table = finish.world.table ∧
      ∃ answer, (operation.run held.token finish.world.table).answer = .ok answer ∧
        (operation = .delete → answer = false) := by
  have good := run_good run
  obtain ⟨id, hid, tracks⟩ := good.tracks held hheld
  obtain ⟨rotation, hrotation, hold⟩ := tracks.retired hrotated row hrow hsession
  refine run_missed hid (fun other hother => ?_) operation
  rw [← hold]
  exact (good.valid.retired rotation hrotation other hother).1

-- In every run, as long as the session of a request is neither deleted nor
-- rotated after its ping, every operation of the request does its work.
theorem operations_reach (config : Config)
    (checkUserRole : Role → Except SapsError Unit) (clock : Int)
    (trace : List (Int × Act Role Uuid)) (finish : Server Role Uuid)
    (run : Run (Step config checkUserRole) (empty clock) trace finish) (held : Held Role Uuid)
    (hheld : held ∈ finish.held) (row : Row Uuid) (hrow : row ∈ finish.world.table)
    (hsession : finish.world.origin row.id = held.session)
    (hsame : finish.world.rotationsOf held.session = held.since) (operation : Operation) :
    Acts row finish.world.table (operation.run held.token finish.world.table).table operation
      (operation.run held.token finish.world.table).answer := by
  have good := run_good run
  obtain ⟨id, hid, tracks⟩ := good.tracks held hheld
  have hcurrent := tracks.current hsame row hrow hsession
  obtain ⟨role, hrole⟩ := tracks.role row hrow hsession
  obtain ⟨front, back, hsplit⟩ := List.append_of_mem hrow
  have hlocated : Located finish.world.table front row back := by
    refine ⟨hsplit, fun other hother heq => ?_⟩
    exact (good.valid.others hsplit other hother).2 (by rw [heq])
  exact acts_located hlocated (hid.trans (by rw [hcurrent])) hrole operation

-- A request that is let in, by what its ping answered.
theorem step_accepted [LawfulJsonwebtoken] {now : Int} (readable : config.Readable now)
    (server : Server Role Uuid) {fresh id : Uuid} {rawToken : Str}
    (hnames : Names config rawToken id) (htime : server.world.clock ≤ now)
    (hfresh : fresh ∉ server.world.issued) {row : Row Uuid}
    (hping : (ping now fresh 10 id server.world.table).1 = some row) {role : Role}
    (hrole : UserRole.tryFrom row.role = Except.ok role) :
    ∃ token : HeaderToken Role Uuid,
      let after := server.world.next now (.ping fresh 10 id)
      Step config (fun _ => .ok ()) server (now, .authenticate rawToken fresh) ⟨after, server.held ++
        [⟨token, after.origin row.id, after.rotationsOf (after.origin row.id)⟩]⟩ := by
  obtain ⟨raw, slot, hextraction, hsession, _, _⟩ :=
    runAuthExtraction_accepted readable hnames hping hrole
  obtain ⟨claims, hdecode, hid⟩ := hnames
  have hparse : UuidText.parse claims.uniqueId = Except.ok id := by
    rw [hid, LawfulUuidText.parse_toStr]
  have hserved := World.served_ping Role hdecode hparse server.world now fresh
  have hstep : Step config (fun _ => .ok ()) server (now, .authenticate rawToken fresh) _ :=
    .authenticate now rawToken fresh htime hfresh
  rw [authenticated, hserved, hextraction] at hstep
  simp only [HeaderToken.fromRequestParts, bind, Except.bind, pure, Except.pure, accept, hsession]
    at hstep
  exact ⟨_, hstep⟩

end Server

end

namespace Server

-- The server right after an administrator logged in at 0.
def adminServer : Server DefaultRole Nat :=
  ⟨(World.empty 0).next 0 (.create 1 (UserRole.toStr DefaultRole.admin) 0 0 none), []⟩

def adminRow (id oldId : Nat) (since now : Int) : Row Nat :=
  ⟨id, oldId, UserRole.toStr DefaultRole.admin, since, now, since, none⟩

theorem adminRow_role (id oldId : Nat) (since now : Int) :
    UserRole.tryFrom (adminRow id oldId since now).role = Except.ok DefaultRole.admin :=
  DefaultRole.tryFrom_toStr .admin

theorem run_adminServer : Run (Step Unary.config fun _ => .ok ()) (empty 0)
    [(0, .other (.create 1 (UserRole.toStr DefaultRole.admin) 0 0 none))] adminServer :=
  .snoc .nil (.other 0 _ (Int.le_refl _) List.not_mem_nil)

-- Four minutes later a request of the administrator is let in.
def waitingWorld : World Nat :=
  adminServer.world.next (minutes 4) (.ping 7 10 1)

theorem step_waiting {rawToken : Str} (hnames : Names Unary.config rawToken 1) :
    ∃ token : HeaderToken DefaultRole Nat, Step Unary.config (fun _ => .ok ()) adminServer
      (minutes 4, .authenticate rawToken 7) ⟨waitingWorld, [⟨token, 1, 0⟩]⟩ := by
  have hping : (ping (minutes 4) 7 10 1 adminServer.world.table).1 =
      some (adminRow 1 1 0 (minutes 4)) := rfl
  have htime : adminServer.world.clock ≤ minutes 4 := by decide
  have hfresh : 7 ∉ adminServer.world.issued := by decide
  obtain ⟨token, hstep⟩ :=
    step_accepted (Unary.readable (by decide)) adminServer hnames htime hfresh hping (adminRow_role _ _ _ _)
  exact ⟨token, hstep⟩

theorem operations_reach_admin : ∃ held : Held DefaultRole Nat,
    ∀ operation : Operation, Acts (adminRow 1 1 0 (minutes 4)) waitingWorld.table
      (operation.run held.token waitingWorld.table).table operation
      (operation.run held.token waitingWorld.table).answer := by
  obtain ⟨rawToken, hnames⟩ := Unary.names 1
  obtain ⟨token, hstep⟩ := step_waiting hnames
  exact ⟨⟨token, 1, 0⟩, operations_reach Unary.config _ 0 _ ⟨waitingWorld, [⟨token, 1, 0⟩]⟩
    (run_adminServer.snoc hstep) ⟨token, 1, 0⟩ (List.mem_singleton_self _) _
    (List.mem_singleton_self _) rfl rfl⟩

-- Two minutes after that another request rotates the session. When the first
-- one then logs out, it is told that there was no session, and the row stays.
theorem operations_reach_overtaken : ∃ (trace : List (Int × Act DefaultRole Nat))
    (finish : Server DefaultRole Nat) (held : Held DefaultRole Nat) (row : Row Nat),
    Run (Step Unary.config fun _ => .ok ()) (empty 0) trace finish ∧ held ∈ finish.held ∧
      row ∈ finish.world.table ∧ finish.world.origin row.id = held.session ∧
      (Operation.delete.run held.token finish.world.table).table = finish.world.table ∧
      ¬Acts row finish.world.table (Operation.delete.run held.token finish.world.table).table .delete
        (Operation.delete.run held.token finish.world.table).answer := by
  obtain ⟨rawToken, hnames⟩ := Unary.names 1
  obtain ⟨token, hstep⟩ := step_waiting hnames
  let waiting : Server DefaultRole Nat := ⟨waitingWorld, [⟨token, 1, 0⟩]⟩
  let rotated : World Nat := waitingWorld.next (minutes 6) (.ping 2 10 1)
  have hping : (ping (minutes 6) 2 10 1 waitingWorld.table).1 =
      some (adminRow 2 1 (minutes 6) (minutes 6)) := rfl
  have htime : waitingWorld.clock ≤ minutes 6 := by decide
  have hfresh : 2 ∉ waitingWorld.issued := by decide
  obtain ⟨other, hstep'⟩ :=
    step_accepted (Unary.readable (by decide)) waiting hnames htime hfresh hping (adminRow_role _ _ _ _)
  have hrun := (run_adminServer.snoc hstep).snoc hstep'
  have hheld : (⟨token, 1, 0⟩ : Held DefaultRole Nat) ∈ waiting.held ++
      [⟨other, rotated.origin 2, rotated.rotationsOf (rotated.origin 2)⟩] := List.mem_cons_self
  have hrow : adminRow 2 1 (minutes 6) (minutes 6) ∈ rotated.table := List.mem_singleton_self _
  have hcount : 0 < rotated.rotationsOf 1 := by decide
  obtain ⟨htable, answer, hanswer, hfalse⟩ :=
    operations_missed hrun hheld hrow rfl hcount .delete
  refine ⟨_, _, _, _, hrun, hheld, hrow, rfl, htable, fun hacts => ?_⟩
  rw [hanswer, hfalse rfl] at hacts
  cases hacts

end Server

end Saps.Auth
