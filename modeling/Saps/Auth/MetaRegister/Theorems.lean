import Saps.Auth.MetaRegister.Values

-- The runs in which a key of the metadata is a register.
namespace Saps.Auth

open Register Transition

variable {Role Uuid : Type} [DecidableEq Uuid]

namespace MetaRegister

theorem changed_run (before after : Option Jsonb) : Run Step before (changed before after) after := by
  unfold changed
  split
  · next hsame =>
    rw [hsame]
    exact .nil
  · exact .snoc .nil (.wrote before after)

-- All that can be told.
theorem told_cases (key : Str) (before after : Option Jsonb) (operation : Operation)
    (answer : Except SapsError Bool) :
    (told key before after operation answer = [] ∧
      (touches key operation = false ∨ answer ≠ .ok true)) ∨
      told key before after operation answer = changed before after ∨
      ∃ expected newValue, operation = .compareAndSwap key expected newValue ∧
        answer = .ok true ∧ told key before after operation answer = [.swapped expected newValue] := by
  cases operation with
  | delete => exact .inr (.inl rfl)
  | updateMeta => exact .inr (.inl rfl)
  | upsertMetaKey other _ =>
      by_cases hkey : other = key
      · exact .inr (.inl (if_pos (decide_eq_true hkey)))
      · exact .inl ⟨if_neg (by simpa [touches] using hkey), .inl (decide_eq_false hkey)⟩
  | deleteMetaKey other =>
      by_cases hkey : other = key
      · exact .inr (.inl (if_pos (decide_eq_true hkey)))
      · exact .inl ⟨if_neg (by simpa [touches] using hkey), .inl (decide_eq_false hkey)⟩
  | compareAndSwap other expected newValue =>
      by_cases hkey : other = key
      · by_cases hanswer : answer = .ok true
        · exact .inr (.inr ⟨expected, newValue, by rw [hkey], hanswer, if_pos ⟨hkey, hanswer⟩⟩)
        · exact .inl ⟨if_neg fun h => hanswer h.2, .inr hanswer⟩
      · exact .inl ⟨if_neg fun h => hkey h.1, .inl (decide_eq_false hkey)⟩

-- Without an answer to a swap nothing is told of a value that stays.
theorem told_same {key : Str} {value : Option Jsonb} {operation : Operation}
    {answer : Except SapsError Bool} (hanswer : ∀ other expected newValue,
      operation = .compareAndSwap other expected newValue → answer ≠ .ok true) :
    Run Step value (told key value value operation answer) value := by
  rcases told_cases key value value operation answer with
    ⟨h, _⟩ | h | ⟨expected, newValue, rfl, rfl, _⟩
  · rw [h]
    exact .nil
  · rw [h]
    exact changed_run value value
  · exact absurd rfl (hanswer key expected newValue rfl)

-- The operation of a request that is bound to the session of `row`.
theorem acts_own {server : Server Role Uuid} (valid : server.world.Valid) {row : Row Uuid}
    (hrow : row ∈ server.world.table) {session : Uuid} (hown : server.world.origin row.id = session)
    (key : Str) (now : Int) {table : AuthSessions Uuid} {operation : Operation}
    {answer : Except SapsError Bool}
    (acts : Acts row server.world.table table operation answer) :
    let after : World Uuid := { server.world with clock := now, table := table }
    Run Step (server.world.metaValue session key)
      (told key (server.world.metaValue session key) (after.metaValue session key) operation answer)
      (after.metaValue session key) := by
  intro after
  cases acts with
  | deleted => exact changed_run _ _
  | stored _ metadata front back hwrites hexpected hnew hbefore hafter =>
      subst hafter
      have hvalue : after.metaValue session key = metadata.bind (·.get key) :=
        valid.metaValue_own hbefore hown key now metadata
      rw [valid.metaValue_row hrow hown key, hvalue]
      rcases told_cases key (row.metadata.bind (·.get key)) (metadata.bind (·.get key)) operation
        (.ok true) with ⟨h, hapart⟩ | h | ⟨expected, newValue, rfl, _, h⟩
      · have hsame := newMeta_apart (hapart.resolve_right fun hno => hno rfl) hnew
        rw [h, hsame]
        exact .nil
      · rw [h]
        exact changed_run _ _
      · have hexpect := hexpected key expected newValue rfl
        rw [h, hexpect]
        rcases mapM_some hnew with ⟨hnone, _⟩ | ⟨target, changed, hsome, hset, rfl⟩
        · rw [hnone] at hexpect
          cases hexpect
        · rw [hsome, Option.bind_some] at hexpect
          rw [Option.bind_some, Jsonb.get_set hexpect hset]
          exact .snoc .nil (.swapped expected newValue)
  | differs _ _ _ _ hafter =>
      subst hafter
      exact told_same fun _ _ _ _ h => by cases h
  | refused _ _ _ _ hafter =>
      subst hafter
      exact told_same fun _ _ _ _ h => by cases h

-- And of one that is bound to another.
theorem acts_other {server : Server Role Uuid} {row : Row Uuid} {session : Uuid}
    (hother : server.world.origin row.id ≠ session) (key : Str) (now : Int)
    {table : AuthSessions Uuid} {operation : Operation} {answer : Except SapsError Bool}
    (acts : Acts row server.world.table table operation answer) :
    ({ server.world with clock := now, table := table } : World Uuid).metaValue session key =
      server.world.metaValue session key := by
  cases acts with
  | deleted front back hbefore hafter =>
      have h := World.metaValue_apart hbefore hother key now [] (by simp)
      rw [List.append_nil, ← hafter] at h
      exact h
  | stored _ metadata front back hwrites hexpected hnew hbefore hafter =>
      have h := World.metaValue_apart hbefore hother key now [{ row with metadata := metadata }]
        (by simp)
      rw [List.append_assoc, List.singleton_append, ← hafter] at h
      exact h
  | differs _ _ _ _ hafter =>
      subst hafter
      rfl
  | refused _ _ _ _ hafter =>
      subst hafter
      rfl

-- A request is bound to the session that its id was given to.
structure Addressed [UuidText Uuid] (server : Server Role Uuid) (held : Held Role Uuid)
    (id : Uuid) : Prop where
  named : held.token.uniqueId = UuidText.toStr id
  issued : id ∈ server.world.issued
  bound : server.world.origin id = held.session

theorem Addressed.next [UuidText Uuid] {server after : Server Role Uuid}
    {held other : Held Role Uuid} {id : Uuid} (h : Addressed server held id) (now : Int)
    {command : Command Uuid}
    (hfresh : server.world.Fresh command) (hworld : after.world = server.world.next now command)
    (htoken : other.token.uniqueId = held.token.uniqueId) (hsession : other.session = held.session) :
    Addressed after other id := by
  refine ⟨htoken.trans h.named, ?_, ?_⟩
  · rw [hworld]
    exact World.next_issued h.issued
  · rw [hworld, World.Valid.next_origin hfresh h.issued, h.bound, hsession]

section

variable [UserRole Role] [UuidText Uuid]

structure Good (server : Server Role Uuid) : Prop where
  good : server.Good
  addressed : ∀ held ∈ server.held, ∃ id, Addressed server held id

theorem good_empty (clock : Int) : Good (Server.empty clock : Server Role Uuid) :=
  ⟨Server.good_empty clock, fun _ h => absurd h List.not_mem_nil⟩

-- A swap that finds no row says so.
theorem swap_missed [LawfulUuidText Uuid] {token : HeaderToken Role Uuid}
    {table : AuthSessions Uuid} {id : Uuid} (hid : token.uniqueId = UuidText.toStr id)
    (hmiss : ∀ row ∈ table, row.id ≠ id) (key : Str) (expected newValue : Jsonb) :
    ((Operation.compareAndSwap key expected newValue).run token table).answer = .ok false := by
  simp only [Operation.run, HeaderToken.compareAndSwapAuthSessionMeta,
    Dal.compareAndSwapAuthSessionMeta, updateMeta_missed hid hmiss]
  rfl

variable [Jsonwebtoken] {config : Config} {checkUserRole : Role → Except SapsError Unit}

theorem authenticated_world (server : Server Role Uuid) (now : Int) (rawToken : Str)
    (fresh : Uuid) :
    (server.authenticated config checkUserRole now rawToken fresh).world =
      server.world.served config now fresh rawToken (runAuthExtraction config .auto now fresh
        rawToken server.world.table : Extraction Role Uuid).table := by
  rw [Server.authenticated]
  split <;> rfl

-- A request that is let in carries the id of its row.
theorem admitted_addressed {server : Server Role Uuid} (good : server.Good) {now : Int}
    {fresh : Uuid} (hfresh : fresh ∉ server.world.issued) {rawToken : Str}
    {token : HeaderToken Role Uuid}
    (h : HeaderToken.fromRequestParts checkUserRole
      (runAuthExtraction config .auto now fresh rawToken server.world.table).answer = .ok token)
    {after : Server Role Uuid}
    (hafter : after.world = server.world.served config now fresh rawToken (runAuthExtraction config
      .auto now fresh rawToken server.world.table : Extraction Role Uuid).table)
    {held : Held Role Uuid} (hheld : held ∈ Server.accept after.world token) :
    ∃ id, Addressed after held id := by
  obtain ⟨raw, hanswer, hunique, hsession⟩ := fromRequestParts_ok h
  obtain ⟨id, row, ⟨claims, hdecode, hparse⟩, hping, hid, hrawId, _⟩ := runAuthExtraction_ok hanswer
  have hnext : after.world = server.world.next now (.ping fresh 10 id) :=
    hafter.trans (World.served_ping Role hdecode hparse server.world now fresh)
  have hvalid : after.world.Valid :=
    hnext ▸ World.next_valid good.valid now (.ping fresh 10 id) hfresh
  have hrow : row ∈ after.world.table := by
    obtain ⟨front, before, back, _, _, _, _, htable⟩ := good.valid.accepted hping
    rw [hnext, World.next_ping_table, htable]
    simp
  rw [Server.accept, hsession] at hheld
  simp only [hid] at hheld
  obtain rfl := List.mem_singleton.mp hheld
  exact ⟨row.id, hunique.trans hrawId, hvalid.idIssued row hrow, rfl⟩

theorem step_good {server after : Server Role Uuid} {label : Int × Server.Act Role Uuid}
    (good : Good server) (step : Server.Step config checkUserRole server label after) :
    Good after := by
  refine ⟨Server.step_good good.good step, fun held hheld => ?_⟩
  cases step with
  | authenticate now rawToken fresh htime hfresh =>
      have hworld : (server.authenticated config checkUserRole now rawToken fresh).world = _ :=
        authenticated_world server now rawToken fresh
      obtain ⟨command, hcommand, hserved⟩ :=
        World.served_next Role config server.world now hfresh rawToken
      have hkept : ∀ old ∈ server.held,
          ∃ id, Addressed (server.authenticated config checkUserRole now rawToken fresh) old id := by
        intro old hold
        obtain ⟨id, haddressed⟩ := good.addressed old hold
        exact ⟨id, haddressed.next now hcommand (hworld.trans hserved) rfl rfl⟩
      cases htoken : HeaderToken.fromRequestParts checkUserRole
          (runAuthExtraction config .auto now fresh rawToken server.world.table).answer with
      | error e =>
          have hsame : (server.authenticated config checkUserRole now rawToken fresh).held =
              server.held := by simp only [Server.authenticated, htoken]
          rw [hsame] at hheld
          exact hkept held hheld
      | ok token =>
          have hmore : (server.authenticated config checkUserRole now rawToken fresh).held =
              server.held ++ Server.accept
                (server.authenticated config checkUserRole now rawToken fresh).world token := by
            simp only [Server.authenticated, htoken]
          rw [hmore] at hheld
          rcases List.mem_append.mp hheld with hold | hnew
          · exact hkept held hold
          · exact admitted_addressed good.good hfresh htoken hworld hnew
  | operate now caller operation htime hcaller =>
      obtain ⟨command, hcommand, hworld⟩ :=
        Server.operated_world server now caller operation
      rcases List.mem_cons.mp hheld with rfl | hold
      · obtain ⟨id, haddressed⟩ := good.addressed caller hcaller
        exact ⟨id, haddressed.next now hcommand hworld (run_uniqueId _ _ _) rfl⟩
      · obtain ⟨id, haddressed⟩ := good.addressed held hold
        exact ⟨id, haddressed.next now hcommand hworld rfl rfl⟩
  | other now command htime hfresh =>
      obtain ⟨id, haddressed⟩ := good.addressed held hheld
      exact ⟨id, haddressed.next now hfresh rfl rfl rfl⟩

variable [LawfulUuidText Uuid]

-- What one step tells is what happens to the register.
theorem observed_run {server after : Server Role Uuid} {label : Int × Server.Act Role Uuid}
    (good : Good server) (step : Server.Step config checkUserRole server label after)
    (session : Uuid) (key : Str) :
    Run Step (server.world.metaValue session key) (observed session key server after label.2)
      (after.world.metaValue session key) := by
  cases step with
  | authenticate now rawToken fresh htime hfresh =>
      have hworld : (server.authenticated config checkUserRole now rawToken fresh).world = _ :=
        authenticated_world server now rawToken fresh
      simp only [observed]
      cases hrow : (server.authenticated config checkUserRole now rawToken fresh).world.rowOf
          session with
      | none =>
          have hnone : (server.authenticated config checkUserRole now rawToken fresh).world.metaValue
              session key = none := by rw [World.metaValue, hrow, Option.bind_none]
          rw [hnone]
          exact changed_run _ none
      | some left =>
          have hsame : (server.authenticated config checkUserRole now rawToken fresh).world.metaValue
              session key = server.world.metaValue session key := by
            rw [hworld] at hrow ⊢
            cases hpresented : (presentedId config rawToken : Option Uuid) with
            | none =>
                obtain ⟨e, hfail⟩ := runAuthExtraction_unpresented Role now fresh server.world.table
                  hpresented
                rw [World.served, hpresented, hfail]
                rfl
            | some id =>
                obtain ⟨claims, hdecode, hparse⟩ := presentedId_some hpresented
                rw [World.served_ping Role hdecode hparse server.world now fresh] at hrow ⊢
                exact good.good.valid.ping_metaValue now hfresh 10 id session key hrow
          rw [hsame]
          exact .nil
  | operate now held operation htime hheld =>
      obtain ⟨id, haddressed⟩ := good.addressed held hheld
      simp only [observed]
      by_cases hmiss : ∀ row ∈ server.world.table, row.id ≠ id
      · have htable := (run_missed haddressed.named hmiss operation).1
        have hsame : (server.operated now held operation).world.metaValue session key =
            server.world.metaValue session key := by
          rw [Server.operated, htable]
          rfl
        rw [hsame]
        split
        · refine told_same fun other expected newValue heq => ?_
          rw [heq, swap_missed haddressed.named hmiss]
          simp
        · exact .nil
      · push Not at hmiss
        obtain ⟨row, hrow, rfl⟩ := hmiss
        obtain ⟨_, _, tracks⟩ := good.good.tracks held hheld
        obtain ⟨role, hrole⟩ := tracks.role row hrow haddressed.bound
        obtain ⟨front, back, hsplit⟩ := List.append_of_mem hrow
        have hlocated : Located server.world.table front row back := by
          refine ⟨hsplit, fun other hother heq => ?_⟩
          exact (good.good.valid.others hsplit other hother).2 (by rw [heq])
        have hacts := acts_located hlocated haddressed.named hrole operation
        split
        · next hsession =>
          exact acts_own good.good.valid hrow (haddressed.bound.trans hsession) key now hacts
        · next hsession =>
          have hother : server.world.origin row.id ≠ session := by
            rw [haddressed.bound]
            exact hsession
          rw [Server.operated, acts_other hother key now hacts]
          exact .nil
  | other now command htime hfresh => exact changed_run _ _

-- The log of every run is a run of the register.
theorem watched_run {clock : Int} {session : Uuid} {key : Str}
    {trace : List (Int × Server.Act Role Uuid)} {finish : Watched Role Uuid}
    (run : Run (Watch config checkUserRole session key) ⟨Server.empty clock, []⟩ trace finish) :
    Good finish.server ∧
      Run Step none finish.log (finish.server.world.metaValue session key) := by
  induction run with
  | nil => exact ⟨good_empty clock, .nil⟩
  | snoc _ last ih =>
      obtain ⟨good, hlog⟩ := ih
      cases last with
      | step after hstep =>
          exact ⟨step_good good hstep, hlog.trans (observed_run good hstep session key)⟩

-- Of the swaps that take one value away, whoever makes them and whatever ids the session
-- goes through, the second succeeds only after the value was put back.
theorem swaps_exclude (config : Config) (checkUserRole : Role → Except SapsError Unit)
    (clock : Int) (session : Uuid) (key : Str) (trace : List (Int × Server.Act Role Uuid))
    (finish : Watched Role Uuid)
    (run : Run (Watch config checkUserRole session key) ⟨Server.empty clock, []⟩ trace finish)
    (front between back : List (Access Jsonb)) (expected first second : Jsonb)
    (hlog : finish.log = front ++ .swapped expected first ::
      (between ++ .swapped expected second :: back)) (hne : first ≠ expected) :
    ∃ access ∈ between, access.left = some expected := by
  have hrun := (watched_run run).2
  rw [hlog] at hrun
  exact swaps_apart hrun hne

-- Of the swaps that count up none is lost, as long as nothing else writes the key.
theorem swaps_counted (config : Config) (checkUserRole : Role → Except SapsError Unit)
    (clock : Int) (session : Uuid) (key : Str) (trace : List (Int × Server.Act Role Uuid))
    (finish : Watched Role Uuid)
    (run : Run (Watch config checkUserRole session key) ⟨Server.empty clock, []⟩ trace finish)
    (rank : Jsonb → Nat) (front back : List (Access Jsonb)) (start next : Jsonb)
    (hlog : finish.log = front ++ .swapped start next :: back)
    (hcounts : ∀ access ∈ Access.swapped start next :: back, Counts rank access) :
    ∃ value, finish.server.world.metaValue session key = some value ∧
      rank value = rank start + (back.length + 1) := by
  have hrun := (watched_run run).2
  rw [hlog] at hrun
  obtain ⟨mid, _, hrest⟩ := hrun.split
  have hstart : mid = some start := by
    obtain ⟨_, hfirst, _⟩ := hrest.cons_inv
    cases hfirst
    rfl
  rw [hstart] at hrest
  exact run_counts hrest hcounts

end

-- A session of an administrator with a flag under `k`.
def flagMeta (flag : Bool) : Option Jsonb :=
  some (.object [(['k'], .bool flag)])

def flagRow (flag : Bool) (now : Int) : Row Nat :=
  { Server.adminRow 1 1 0 now with metadata := flagMeta flag }

def flagWorld (flag : Bool) (created now : Int) : World Nat :=
  { (World.empty 0).next 0 (.create 1 (UserRole.toStr DefaultRole.admin) 0 0 none) with
    clock := now, table := [flagRow flag created] }

def raise : Operation :=
  .compareAndSwap ['k'] (.bool false) (.bool true)

abbrev WatchFlag : Watched DefaultRole Nat → Int × Server.Act DefaultRole Nat →
    Watched DefaultRole Nat → Prop :=
  Watch Unary.config (fun _ => .ok ()) 1 ['k']

-- A request is let in and finds the flag down.
theorem run_flag : ∃ trace, ∃ held : Held DefaultRole Nat,
    Run WatchFlag ⟨Server.empty 0, []⟩ trace
      ⟨⟨flagWorld false (minutes 4) (minutes 4), [held]⟩, [.wrote (some (.bool false))]⟩ ∧
    held.session = 1 ∧ held.token.uniqueId = UuidText.toStr 1 := by
  obtain ⟨rawToken, hnames⟩ := Unary.names 1
  let created : Server DefaultRole Nat := ⟨(World.empty 0).next 0
    (.create 1 (UserRole.toStr DefaultRole.admin) 0 0 (flagMeta false)), []⟩
  have hcreate : WatchFlag ⟨Server.empty 0, []⟩ (0, .other (.create 1
      (UserRole.toStr DefaultRole.admin) 0 0 (flagMeta false)))
      ⟨created, [.wrote (some (.bool false))]⟩ :=
    .step _ created (.other 0 _ (Int.le_refl _) List.not_mem_nil)
  have hping : (ping (minutes 4) 7 10 1 created.world.table).1 = some (flagRow false (minutes 4)) :=
    rfl
  obtain ⟨token, hstep⟩ := Server.step_accepted (Unary.readable (by decide)) created hnames (by decide)
    (by decide) hping (Server.adminRow_role 1 1 0 (minutes 4))
  have hrun := (Run.snoc .nil hcreate).snoc (Watch.step _ _ hstep)
  refine ⟨_, _, hrun, rfl, ?_⟩
  -- its id is the one of the only row
  obtain ⟨id, hnamed, tracks⟩ := (watched_run hrun).1.good.tracks _ (List.mem_singleton_self _)
  have hid : 1 = id := tracks.current rfl (flagRow false (minutes 4)) (List.mem_singleton_self _) rfl
  rw [hid]
  exact hnamed

theorem raise_flag {held : Held DefaultRole Nat}
    (hnamed : held.token.uniqueId = UuidText.toStr 1) (created clock : Int) :
    (raise.run held.token (flagWorld false created clock).table).table = [flagRow true created] ∧
      (raise.run held.token (flagWorld false created clock).table).answer = .ok true := by
  have hlocated : Located (flagWorld false created clock).table [] (flagRow false created) [] :=
    ⟨rfl, fun _ h => absurd h List.not_mem_nil⟩
  have hflag : ((flagRow false created).metadata.bind (·.get ['k']) = some (.bool false)) := rfl
  have hnew : (flagRow false created).metadata.mapM (·.set ['k'] (.bool true)) =
      .ok (flagMeta true) := rfl
  have hrole : UserRole.tryFrom (flagRow false created).role = Except.ok DefaultRole.admin :=
    Server.adminRow_role 1 1 0 created
  simp only [raise, Operation.run, HeaderToken.compareAndSwapAuthSessionMeta,
    Dal.compareAndSwapAuthSessionMeta, updateMeta_located hlocated hnamed, hflag, decide_true,
    ite_true, hnew, Except.bind, sessionOf_ok hrole]
  exact ⟨rfl, rfl⟩

theorem watch_raise {held : Held DefaultRole Nat} {others : List (Held DefaultRole Nat)}
    {log : List (Access Jsonb)} (hnamed : held.token.uniqueId = UuidText.toStr 1)
    (hsession : held.session = 1) (hheld : held ∈ others) (created clock : Int) :
    ∃ left, held ∈ left ∧ WatchFlag ⟨⟨flagWorld false created clock, others⟩, log⟩
      (clock, .operate held raise)
      ⟨⟨flagWorld true created clock, left⟩, log ++ [.swapped (.bool false) (.bool true)]⟩ := by
  obtain ⟨htable, hanswer⟩ := raise_flag hnamed created clock
  let before : Server DefaultRole Nat := ⟨flagWorld false created clock, others⟩
  let after : Server DefaultRole Nat := ⟨flagWorld true created clock,
    { held with token := (raise.run held.token before.world.table).token } :: others⟩
  have hafter : before.operated clock held raise = after := by
    simp only [Server.operated, before, htable]
    rfl
  have hstep : Server.Step Unary.config (fun _ => .ok ()) before (clock, .operate held raise) after :=
    hafter ▸ .operate clock held raise (Int.le_refl _) hheld
  have hobserved : observed 1 ['k'] before after (.operate held raise) =
      [.swapped (.bool false) (.bool true)] := by
    rw [observed, if_pos hsession, hanswer]
    rfl
  refine ⟨after.held, List.mem_cons_of_mem _ hheld, ?_⟩
  rw [← hobserved]
  exact .step _ after hstep

-- The flag is put down again.
theorem watch_lower (created clock : Int) (others : List (Held DefaultRole Nat))
    (log : List (Access Jsonb)) :
    WatchFlag ⟨⟨flagWorld true created clock, others⟩, log⟩
      (clock, .other (.updateMeta fun _ => flagMeta false))
      ⟨⟨flagWorld false created clock, others⟩, log ++ [.wrote (some (.bool false))]⟩ :=
  .step _ _ (.other clock _ (Int.le_refl _) trivial)

theorem swaps_exclude_flag : ∃ access ∈ [Access.wrote (some (Jsonb.bool false))],
    access.left = some (.bool false) := by
  obtain ⟨trace, held, hrun, hsession, hnamed⟩ := run_flag
  obtain ⟨left, hheld, hfirst⟩ :=
    watch_raise hnamed hsession (List.mem_singleton_self held) (minutes 4) (minutes 4)
  obtain ⟨left', _, hsecond⟩ := watch_raise hnamed hsession hheld (minutes 4) (minutes 4)
  exact swaps_exclude Unary.config _ 0 1 ['k'] _ _
    (((hrun.snoc hfirst).snoc (watch_lower _ _ _ _)).snoc hsecond) [.wrote (some (.bool false))]
    [.wrote (some (.bool false))] [] (.bool false) (.bool true) (.bool true) rfl (by decide)

-- The login of somebody else does not write the flag.
theorem watch_login (others : List (Held DefaultRole Nat)) (log : List (Access Jsonb)) :
    WatchFlag ⟨⟨flagWorld true (minutes 4) (minutes 4), others⟩, log⟩
      (minutes 4, .other (.create 2 (UserRole.toStr DefaultRole.admin) 0 0 none))
      ⟨⟨(flagWorld true (minutes 4) (minutes 4)).next (minutes 4)
        (.create 2 (UserRole.toStr DefaultRole.admin) 0 0 none), others⟩, log⟩ := by
  have hquiet : changed ((flagWorld true (minutes 4) (minutes 4)).metaValue 1 ['k'])
      (((flagWorld true (minutes 4) (minutes 4)).next (minutes 4)
        (.create 2 (UserRole.toStr DefaultRole.admin) 0 0 none)).metaValue 1 ['k']) = [] := by
    decide +kernel
  have hfresh : 2 ∉ (flagWorld true (minutes 4) (minutes 4)).issued := by decide
  have hstep : WatchFlag ⟨⟨flagWorld true (minutes 4) (minutes 4), others⟩, log⟩
      (minutes 4, .other (.create 2 (UserRole.toStr DefaultRole.admin) 0 0 none)) _ :=
    .step _ _ (.other (minutes 4) _ (Int.le_refl _) hfresh)
  simp only [observed, hquiet, List.append_nil] at hstep
  exact hstep

theorem swaps_counted_flag : ∃ finish : Server DefaultRole Nat, ∃ value,
    finish.world.table.length = 2 ∧ finish.world.metaValue 1 ['k'] = some value ∧
      (if value = .bool true then 1 else 0) = 0 + 1 := by
  obtain ⟨trace, held, hrun, hsession, hnamed⟩ := run_flag
  obtain ⟨left, _, hfirst⟩ :=
    watch_raise hnamed hsession (List.mem_singleton_self held) (minutes 4) (minutes 4)
  have hcounts : ∀ access ∈ [Access.swapped (Jsonb.bool false) (Jsonb.bool true)],
      Counts (fun value => if value = .bool true then 1 else 0) access := by
    intro access haccess
    exact ⟨_, _, List.mem_singleton.mp haccess, by decide⟩
  obtain ⟨value, hvalue, hrank⟩ := swaps_counted Unary.config _ 0 1 ['k'] _ _
    ((hrun.snoc hfirst).snoc (watch_login _ _)) (fun value => if value = .bool true then 1 else 0)
    [.wrote (some (.bool false))] [] (.bool false) (.bool true) rfl hcounts
  exact ⟨_, value, rfl, hvalue, hrank⟩

end MetaRegister

end Saps.Auth
