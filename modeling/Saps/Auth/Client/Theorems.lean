import Saps.Auth.Client
import Saps.Auth.Token.Unary

namespace Saps.Auth

open Ping Transition

section

variable {Uuid : Type} [UuidText Uuid] [Jsonwebtoken]

-- The response hands out a token of the id.
def Response.Carries (config : Config) (response : Response) (id : Uuid) : Prop :=
  ∃ token, response.setCookies = [AuthTokenCookie.yieldCookieString token] ∧
    Names config token id

theorem adopt_carries {config : Config} {response : Response} {id : Uuid}
    (h : response.Carries config id) (cookie : Option Str) :
    ∃ token, adopt cookie response.setCookies = some token ∧ Names config token id := by
  obtain ⟨token, hcookies, hnames⟩ := h
  exact ⟨token, by simp [hcookies, adopt, AuthTokenCookie.yieldCookieString], hnames⟩

theorem not_carries_empty {config : Config} {response : Response} {id : Uuid}
    (h : response.setCookies = []) : ¬response.Carries config id := by
  rintro ⟨token, hcookies, _⟩
  simp [h] at hcookies

namespace Client

variable (Role : Type) [UserRole Role] (config : Config) (session : Uuid)

-- What holds while the session lives in `row`. The id before the latest
-- rotation is only around for as long as the grace period can tell.
structure Good (state : Client Uuid) (row : Row Uuid) : Prop where
  valid : state.world.Valid
  live : row ∈ state.world.table
  origin : state.world.origin row.id = session
  dates : row.dateCreated = row.timeMinted
  minted : row.timeMinted ≤ state.world.clock
  pinged : row.lastInteracted = state.lastPing
  role : ∃ role : Role, UserRole.tryFrom row.role = Except.ok role
  held : ∀ token ∈ state.cookie, Names config token row.id ∨ Names config token row.oldId
  behind : (∃ token, state.cookie = some token ∧ Names config token row.id) ∨
    ∃ response ∈ state.responses, response.pingedAt = row.timeMinted ∧
      response.Carries config row.id
  requests : ∀ request ∈ state.requests, request.sentAt ≤ state.world.clock ∧
    (Names config request.token row.id ∨
      (Names config request.token row.oldId ∧ request.sentAt ≤ row.timeMinted + seconds 5))
  responses : ∀ response ∈ state.responses, response.setCookies = [] ∨
    (response.Carries config row.id ∧ response.pingedAt ≤ row.timeMinted + seconds 10)

variable {Role config session} {state : Client Uuid} {row : Row Uuid}

-- While the client holds the id before the latest rotation, the response with
-- the new one is on its way, so the rotation was just now.
theorem Good.cookie_current (good : state.Good Role config session row) {now : Int}
    (htime : state.InTime now) {token : Str} (htoken : state.cookie = some token) :
    Names config token row.id ∨
      (Names config token row.oldId ∧ now ≤ row.timeMinted + seconds 5) := by
  rcases good.behind with ⟨token', htoken', hnames⟩ | ⟨response, hmem, hat, _⟩
  · rw [htoken] at htoken'
    exact .inl (Option.some.inj htoken' ▸ hnames)
  · have hdeadline := htime.responses response hmem
    exact (good.held token htoken).imp_right fun hold => ⟨hold, by rw [← hat]; exact hdeadline⟩

theorem Good.send (good : state.Good Role config session row) {now : Int}
    (htime : state.InTime now) {token : Str} (htoken : state.cookie = some token) :
    Good Role config session { state with
      world := { state.world with clock := now }
      requests := state.requests ++ [⟨token, now⟩] } row := by
  have hclock := htime.clock
  refine ⟨good.valid.sublist now _ (.refl _), good.live, good.origin, good.dates,
    good.minted.trans hclock, good.pinged, good.role, good.held, good.behind, ?_, good.responses⟩
  intro request hrequest
  rcases List.mem_append.mp hrequest with h | h
  · obtain ⟨hsent, hnames⟩ := good.requests request h
    exact ⟨hsent.trans hclock, hnames⟩
  · obtain rfl := List.mem_singleton.mp h
    exact ⟨Int.le_refl _, good.cookie_current htime htoken⟩

-- Only the current id is ever handed out, so a late response does no harm.
theorem Good.receive (good : state.Good Role config session row) {now : Int}
    (htime : state.InTime now) {response : Response} (hresponse : response ∈ state.responses) :
    Good Role config session { state with
      world := { state.world with clock := now }
      cookie := adopt state.cookie response.setCookies
      responses := state.responses.erase response } row := by
  have hclock := htime.clock
  have hrequests : ∀ request ∈ state.requests, request.sentAt ≤ now ∧
      (Names config request.token row.id ∨
        (Names config request.token row.oldId ∧ request.sentAt ≤ row.timeMinted + seconds 5)) :=
    fun request hrequest => (good.requests request hrequest).imp_left fun h => h.trans hclock
  have hresponses : ∀ other ∈ state.responses.erase response, other.setCookies = [] ∨
      (other.Carries config row.id ∧ other.pingedAt ≤ row.timeMinted + seconds 10) :=
    fun other hother => good.responses other (List.mem_of_mem_erase hother)
  rcases good.responses response hresponse with hempty | ⟨hcarries, _⟩
  · have hcookie : adopt state.cookie response.setCookies = state.cookie := by
      rw [hempty]
      rfl
    rw [hcookie]
    refine ⟨good.valid.sublist now _ (.refl _), good.live, good.origin, good.dates,
      good.minted.trans hclock, good.pinged, good.role, good.held, ?_, hrequests, hresponses⟩
    refine good.behind.imp_right ?_
    rintro ⟨other, hother, hat, hcarries⟩
    have hne : other ≠ response := fun h => not_carries_empty hempty (h ▸ hcarries)
    exact ⟨other, (List.mem_erase_of_ne hne).mpr hother, hat, hcarries⟩
  · obtain ⟨token, hcookie, hnames⟩ := adopt_carries hcarries state.cookie
    rw [hcookie]
    refine ⟨good.valid.sublist now _ (.refl _), good.live, good.origin, good.dates,
      good.minted.trans hclock, good.pinged, good.role, ?_, .inl ⟨token, rfl, hnames⟩, hrequests,
      hresponses⟩
    intro token' htoken'
    exact .inl (Option.some.inj htoken' ▸ hnames)

-- A request in flight presents the current id, or the one before it in time.
theorem Good.presents (good : state.Good Role config session row) {now : Int}
    (htime : state.InTime now) (hping : now ≤ state.lastPing + minutes 10) {request : Request}
    (hrequest : request ∈ state.requests) :
    ∃ id, Names config request.token id ∧ Matches id row ∧ ¬TimedOut now 10 row ∧
      (IsGrace id row → ¬Lapsed now row) := by
  have hactive : ¬TimedOut now 10 row := by
    unfold TimedOut
    rw [good.pinged]
    omega
  rcases (good.requests request hrequest).2 with hnames | ⟨hnames, hsent⟩
  · exact ⟨row.id, hnames, .inl rfl, hactive, fun hgrace => absurd rfl hgrace.1⟩
  · refine ⟨row.oldId, hnames, .inr rfl, hactive, fun _ => ?_⟩
    have hdeadline := htime.requests request hrequest
    unfold Lapsed seconds at *
    omega

-- A ping that only renews: the response repeats the current id, if anything.
theorem Good.renewed (good : state.Good Role config session row) {now : Int}
    (htime : state.InTime now) {world : World Uuid} (hvalid : world.Valid)
    (hlive : Ping.renew now row ∈ world.table) (horigin : world.origin row.id = session)
    (hclock : world.clock = now) (request : Request) {response : Response}
    (hresponse : response.setCookies = [] ∨
      (response.Carries config row.id ∧ response.pingedAt ≤ row.timeMinted + seconds 10)) :
    Good Role config session { state with
      world := world
      requests := state.requests.erase request
      responses := state.responses ++ [response]
      lastPing := now } (Ping.renew now row) := by
  have hlater := htime.clock
  refine ⟨hvalid, hlive, horigin, good.dates, ?_, rfl, good.role, good.held, ?_, ?_, ?_⟩
  · rw [hclock]
    exact good.minted.trans hlater
  · refine good.behind.imp_right ?_
    rintro ⟨other, hother, hrest⟩
    exact ⟨other, List.mem_append_left _ hother, hrest⟩
  · intro other hother
    rw [hclock]
    exact (good.requests other (List.mem_of_mem_erase hother)).imp_left fun h => h.trans hlater
  · intro other hother
    rcases List.mem_append.mp hother with h | h
    · exact good.responses other h
    · exact List.mem_singleton.mp h ▸ hresponse

-- At a rotation all that is older than the previous grace period is gone.
theorem Good.rotated (good : state.Good Role config session row) {now : Int}
    (htime : state.InTime now) (hdue : Due now row) {world : World Uuid} (hvalid : world.Valid)
    {fresh : Uuid} (hlive : Ping.rotate now fresh row ∈ world.table)
    (horigin : world.origin fresh = session) (hclock : world.clock = now) (request : Request)
    {response : Response} (hcarries : response.Carries config fresh)
    (hat : response.pingedAt = now) :
    Good Role config session { state with
      world := world
      requests := state.requests.erase request
      responses := state.responses ++ [response]
      lastPing := now } (Ping.rotate now fresh row) := by
  have hlater := htime.clock
  have hage : row.timeMinted + minutes 5 < now := by
    unfold Due at hdue
    rw [good.dates] at hdue
    omega
  unfold minutes seconds at hage
  have hempty : ∀ other ∈ state.responses, other.setCookies = [] := by
    intro other hother
    refine (good.responses other hother).resolve_right ?_
    rintro ⟨_, hpinged⟩
    have hdeadline := htime.responses other hother
    unfold seconds at hdeadline hpinged
    omega
  have hcurrent : ∀ other ∈ state.requests, Names config other.token row.id := by
    intro other hother
    refine (good.requests other hother).2.resolve_right ?_
    rintro ⟨_, hsent⟩
    have hdeadline := htime.requests other hother
    unfold seconds at hdeadline hsent
    omega
  have hheld : ∀ token ∈ state.cookie, Names config token row.id := by
    intro token htoken
    refine (good.cookie_current htime htoken).resolve_right ?_
    rintro ⟨_, hrecent⟩
    unfold seconds at hrecent
    omega
  refine ⟨hvalid, hlive, horigin, rfl, ?_, rfl, good.role, ?_, ?_, ?_, ?_⟩
  · exact hclock.ge
  · exact fun token htoken => .inr (hheld token htoken)
  · exact .inr ⟨response, by simp, hat, hcarries⟩
  · intro other hother
    have hmem := List.mem_of_mem_erase hother
    have hsent := (good.requests other hmem).1.trans hlater
    refine ⟨hclock ▸ hsent, .inr ⟨hcurrent other hmem, ?_⟩⟩
    change other.sentAt ≤ now + seconds 5
    unfold seconds
    omega
  · intro other hother
    rcases List.mem_append.mp hother with h | h
    · exact .inl (hempty other h)
    · obtain rfl := List.mem_singleton.mp h
      refine .inr ⟨hcarries, ?_⟩
      change other.pingedAt ≤ now + seconds 10
      unfold seconds
      omega

variable [DecidableEq Uuid]

theorem Good.other (good : state.Good Role config session row) {now : Int}
    (htime : state.InTime now) {command : Command Uuid} (hfresh : state.world.Fresh command)
    (hspares : state.world.Spares session command) :
    ∃ after, Good Role config session
      { state with world := state.world.next now command } after := by
  rw [← good.origin] at hspares
  obtain ⟨after, hlive, ⟨hid, hold, hcreated, hminted⟩, hrole, hlast⟩ :=
    good.valid.next_spares good.live now hspares
  have hissued := good.valid.idIssued row good.live
  have hclock := htime.clock
  refine ⟨after, World.next_valid good.valid now command hfresh, hlive, ?_, ?_, ?_, ?_, ?_, ?_, ?_,
    ?_, ?_⟩
  · rw [hid, World.Valid.next_origin hfresh hissued]
    exact good.origin
  · rw [hcreated, hminted]
    exact good.dates
  · rw [World.next_clock, hminted]
    exact good.minted.trans hclock
  · rw [hlast]
    exact good.pinged
  · rw [hrole]
    exact good.role
  · rw [hid, hold]
    exact good.held
  · rw [hid, hminted]
    exact good.behind
  · rw [hid, hold, hminted, World.next_clock]
    exact fun request hrequest =>
      (good.requests request hrequest).imp_left fun h => h.trans hclock
  · rw [hid, hminted]
    exact good.responses

-- The state after a request, by what its extraction put in the slot.
theorem arrived_eq [LawfulUuidText Uuid] {request : Request} {id : Uuid}
    (hnames : Names config request.token id) {now : Int} {fresh : Uuid}
    {extraction : Extraction Role Uuid}
    (h : runAuthExtraction config .auto now fresh request.token state.world.table = extraction) :
    state.arrived Role config now request fresh = { state with
      world := state.world.next now (.ping fresh 10 id)
      requests := state.requests.erase request
      responses := state.responses ++ [⟨attachRefreshedCookie extraction.slot [], now⟩]
      lastPing := now } := by
  obtain ⟨claims, hdecode, hid⟩ := hnames
  have hparse : UuidText.parse claims.uniqueId = Except.ok id := by
    rw [hid, LawfulUuidText.parse_toStr]
  have hserved := World.served_ping Role hdecode hparse state.world now fresh
  rw [arrived, hserved, h]

variable [LawfulUuidText Uuid] [LawfulJsonwebtoken]

-- A request that reaches its ping in time is accepted.
theorem Good.arrive (good : state.Good Role config session row) {now : Int}
    (readable : config.Readable now) (htime : state.InTime now)
    (hping : now ≤ state.lastPing + minutes 10)
    {request : Request} (hrequest : request ∈ state.requests) {fresh : Uuid}
    (hfresh : fresh ∉ state.world.issued) :
    (∃ raw, (runAuthExtraction config .auto now fresh request.token state.world.table :
      Extraction Role Uuid).answer = .ok raw) ∧
    ∃ after, (state.arrived Role config now request fresh).Good Role config session after := by
  obtain ⟨id, hnames, hmatches, hactive, hgrace⟩ := good.presents htime hping hrequest
  obtain ⟨after, haccepts, hanswer, hlive⟩ :=
    good.valid.ping_accepts good.live hmatches hactive hgrace fresh
  obtain ⟨role, hrole⟩ := good.role
  have hissued := good.valid.idIssued row good.live
  have hne : row.id ≠ fresh := fun h => hfresh (h ▸ hissued)
  have hvalid := World.next_valid good.valid now (.ping fresh 10 id) hfresh
  have horigin : (state.world.next now (.ping fresh 10 id)).origin after.id = session := by
    rw [World.next_ping, hanswer, good.valid.accepted_origin good.live hfresh haccepts]
    exact good.origin
  have hkept : after ∈ (state.world.next now (.ping fresh 10 id)).table := by
    rwa [World.next_ping, World.record_table]
  have hclock := World.next_clock state.world now (.ping fresh 10 id)
  have hafter : UserRole.tryFrom after.role = Except.ok role := by
    cases haccepts <;> exact hrole
  obtain ⟨raw, slot, hextraction, _, _, hslot⟩ :=
    runAuthExtraction_accepted readable hnames hanswer hafter
  refine ⟨⟨raw, by rw [hextraction]⟩, after, ?_⟩
  rw [arrived_eq hnames hextraction]
  cases haccepts with
  | current hid =>
      have hsame : (Ping.renew now row).id = id := hid
      obtain rfl : slot = none := by rwa [if_pos hsame] at hslot
      exact good.renewed htime hvalid hkept horigin hclock request (.inl rfl)
  | rotated hid hdue =>
      have hnew : (Ping.rotate now fresh row).id ≠ id := fun h => hne (hid.trans h.symm)
      rw [if_neg hnew] at hslot
      obtain ⟨token, htoken, rfl, hheader⟩ := hslot
      refine good.rotated htime hdue hvalid hkept horigin hclock request ⟨token, ?_, htoken⟩ rfl
      simp only [attachRefreshedCookie, hheader]
  | grace hold hopen =>
      have hother : (Ping.renew now row).id ≠ id := hold.1
      rw [if_neg hother] at hslot
      obtain ⟨token, htoken, rfl, hheader⟩ := hslot
      refine good.renewed htime hvalid hkept horigin hclock request
        (.inr ⟨⟨token, ?_, htoken⟩, ?_⟩)
      · simp only [attachRefreshedCookie, hheader]
      · change now ≤ row.timeMinted + seconds 10
        unfold Lapsed at hopen
        omega

theorem starts_readable (hstart : state.Starts Role config session) :
    ∃ now, config.Readable now := by
  obtain ⟨_, _, _, now, _, _, _, _, _, _, hlogin, _⟩ := hstart
  exact ⟨now, (login_ok hlogin).2.1⟩

theorem starts_good (hstart : state.Starts Role config session) :
    ∃ row, Good Role config session state row := by
  obtain ⟨clock, trace, before, now, role, metadata, response, hrun, hnow, hid, hlogin, rfl⟩ := hstart
  obtain ⟨htable, _, hrole, token, hcookie, hnames⟩ := login_ok hlogin
  let row : Row Uuid := ⟨session, session, UserRole.toStr role, now, now, now, metadata⟩
  have hbefore := World.run_valid hrun (World.valid_empty clock)
  have hworld : before.loggedIn now session (UserRole.toStr role) metadata
      (login config now session role metadata before.table).2 =
        before.next now (.create session (UserRole.toStr role) now now metadata) := by
    rw [World.loggedIn, htable]
    rfl
  have hvalid := World.next_valid hbefore now
    (.create session (UserRole.toStr role) now now metadata) hid
  rw [hworld]
  refine ⟨row, hvalid, List.mem_cons_self, Function.update_self _ _ _, rfl, Int.le_refl _, rfl,
    hrole, by simp, ?_, by simp, ?_⟩
  · exact .inr ⟨_, List.mem_singleton_self _, rfl, token, by rw [hcookie], hnames⟩
  · intro other hother
    obtain rfl := List.mem_singleton.mp hother
    refine .inr ⟨⟨token, by rw [hcookie], hnames⟩, ?_⟩
    change now ≤ now + seconds 10
    unfold seconds
    omega

theorem step_good {since : Int} (readable : config.Readable since) {after : Client Uuid}
    {label : Int × Act Uuid}
    (hgood : ∃ row, Good Role config session state row)
    (step : Step Role config session state label after) :
    ∃ row, Good Role config session after row := by
  obtain ⟨row, good⟩ := hgood
  cases step with
  | send now token htime hcookie => exact ⟨row, good.send htime hcookie⟩
  | arrive now request fresh htime hping hfits hrequest hfresh =>
      exact (good.arrive (readable.later hfits) htime hping hrequest hfresh).2
  | receive now response htime hresponse => exact ⟨row, good.receive htime hresponse⟩
  | other now command htime hfresh hspares => exact good.other htime hfresh hspares

-- Whatever overlaps, every request that comes to its ping is accepted, and when
-- nothing is in flight the client holds the current id.
theorem parallel_requests (Role : Type) [UserRole Role] (config : Config) (session : Uuid)
    (start finish : Client Uuid) (trace : List (Int × Act Uuid))
    (hstart : start.Starts Role config session)
    (run : Run (Step Role config session) start trace finish) :
    (∀ now request fresh, finish.InTime now → now ≤ finish.lastPing + minutes 10 →
      config.Fits now → request ∈ finish.requests → fresh ∉ finish.world.issued →
      ∃ raw, (runAuthExtraction config .auto now fresh request.token finish.world.table :
        Extraction Role Uuid).answer = .ok raw) ∧
    (finish.requests = [] → finish.responses = [] →
      ∃ token row, finish.cookie = some token ∧ row ∈ finish.world.table ∧
        finish.world.origin row.id = session ∧ Names config token row.id) := by
  obtain ⟨_, readable⟩ := starts_readable hstart
  obtain ⟨row, good⟩ := run.invariant (fun state => ∃ row, Good Role config session state row)
    (starts_good hstart) fun _ _ _ hgood step => step_good readable hgood step
  refine ⟨?_, ?_⟩
  · intro now request fresh htime hping hfits hrequest hfresh
    exact (good.arrive (readable.later hfits) htime hping hrequest hfresh).1
  · intro _ hresponses
    rcases good.behind with ⟨token, htoken, hnames⟩ | ⟨response, hmem, _⟩
    · exact ⟨token, row, htoken, good.live, good.origin, hnames⟩
    · simp [hresponses] at hmem

end Client

end

namespace Client

-- An administrator logs in at 0, and the response is on its way.
def created : World Nat :=
  (World.empty 0).next 0 (.create 1 (UserRole.toStr DefaultRole.admin) 0 0 none)

def loggedIn (setCookie : SetCookie) : Client Nat :=
  ⟨created, none, [], [⟨[setCookie], 0⟩], 0⟩

theorem loggedIn_starts : ∃ token, Names Unary.config token 1 ∧
    (loggedIn (AuthTokenCookie.yieldCookieString token)).Starts DefaultRole Unary.config 1 := by
  have hrole : UserRole.tryFrom (UserRole.toStr DefaultRole.admin) = Except.ok DefaultRole.admin :=
    DefaultRole.tryFrom_toStr .admin
  have hnew : 1 ∉ ([] : AuthSessions Nat).map Row.id := by simp
  have hreadable : Unary.config.Readable 0 := Unary.readable (by decide)
  obtain ⟨response, hlogin⟩ := login_accepts hreadable hrole (by decide +kernel) none hnew
  obtain ⟨htable, _, _, token, hcookie, hnames⟩ := login_ok hlogin
  refine ⟨token, hnames, 0, [], World.empty 0, 0, .admin, none, response, .nil, Int.le_refl _,
    List.not_mem_nil, hlogin, ?_⟩
  change _ = (⟨{ (World.empty 0).next 0 _ with table := (login Unary.config 0 1 _ none []).2 }, _, _,
    _, _⟩ : Client Nat)
  rw [htable, hcookie]
  rfl

-- Six minutes after the login two requests are sent with the same token. The first
-- rotates the session, and the second comes with the id that it had.
theorem parallel_requests_rotated : ∃ finish : Client Nat,
    (∃ start trace, start.Starts DefaultRole Unary.config 1 ∧
      Run (Step DefaultRole Unary.config 1) start trace finish ∧ trace.length = 7) ∧
    finish.world.issued = [2, 1] ∧ finish.requests = [] ∧ finish.responses = [] ∧
    (∀ now request fresh, finish.InTime now → now ≤ finish.lastPing + minutes 10 →
      Unary.config.Fits now → request ∈ finish.requests → fresh ∉ finish.world.issued →
      ∃ raw, (runAuthExtraction Unary.config .auto now fresh request.token finish.world.table :
        Extraction DefaultRole Nat).answer = .ok raw) ∧
    (finish.requests = [] → finish.responses = [] →
      ∃ token row, finish.cookie = some token ∧ row ∈ finish.world.table ∧
        finish.world.origin row.id = 1 ∧ Names Unary.config token row.id) := by
  obtain ⟨token, ⟨claims, hdecode, hid⟩, hstart⟩ := loggedIn_starts
  have hparse : UuidText.parse claims.uniqueId = Except.ok 1 := by
    rw [hid, LawfulUuidText.parse_toStr]
  let soon := minutes 6 + seconds 1
  let start := loggedIn (AuthTokenCookie.yieldCookieString token)
  let received : Client Nat := { start with
    cookie := some token
    responses := start.responses.erase ⟨[AuthTokenCookie.yieldCookieString token], 0⟩ }
  let first : Request := ⟨token, minutes 6⟩
  let second : Request := ⟨token, soon⟩
  let sent : Client Nat := { received with
    world := { created with clock := minutes 6 }
    requests := [first] }
  let sending : Client Nat := { sent with
    world := { created with clock := soon }
    requests := [first, second] }
  let answered := sending.arrived DefaultRole Unary.config soon first 2
  let served := answered.arrived DefaultRole Unary.config soon second 3
  have hempty : received.responses = [] := List.erase_cons_head _ _
  have hlater : (0 : Int) ≤ minutes 6 := by decide
  have hsoon : minutes 6 ≤ soon := by decide
  have hgap : soon ≤ 0 + minutes 10 := by decide
  have hissued : 2 ∉ created.issued := by decide
  have hissued' : 3 ∉ ({ created with clock := soon }.next soon (.ping 2 10 1)).issued := by decide
  have hanswered : answered.world = sending.world.next soon (.ping 2 10 1) :=
    World.served_ping DefaultRole hdecode hparse sending.world soon 2
  have hserved : served.world = (sending.world.next soon (.ping 2 10 1)).next soon (.ping 3 10 1) := by
    rw [← hanswered]
    exact World.served_ping DefaultRole hdecode hparse answered.world soon 3
  obtain ⟨one, hone⟩ : ∃ one, answered.responses = [⟨one, soon⟩] :=
    ⟨_, congrArg (· ++ [_]) hempty⟩
  obtain ⟨two, htwo⟩ : ∃ two, served.responses = [⟨one, soon⟩, ⟨two, soon⟩] :=
    ⟨_, congrArg (· ++ [_]) hone⟩
  have hrequests : answered.requests = [second] := List.erase_cons_head _ _
  have hnone : served.requests = [] := by
    change answered.requests.erase second = []
    rw [hrequests, List.erase_cons_head]
  have hclock : answered.world.clock = soon := by rw [hanswered, World.next_clock]
  have hlast : served.world.clock = soon := by rw [hserved, World.next_clock]
  have hfits : Unary.config.Fits soon := (Unary.readable (by decide)).fits
  have hreceive : Step DefaultRole Unary.config 1 start
      (0, .receive ⟨[AuthTokenCookie.yieldCookieString token], 0⟩) received :=
    .receive 0 _ ⟨Int.le_refl 0, by simp [start, loggedIn], by simp [start, loggedIn, seconds]⟩
      (List.mem_singleton_self _)
  have hsend : Step DefaultRole Unary.config 1 received (minutes 6, .send) sent :=
    .send _ token ⟨hlater, by simp [received, start, loggedIn], by simp [hempty]⟩ rfl
  have hsecond : Step DefaultRole Unary.config 1 sent (soon, .send) sending := by
    refine .send _ token ⟨hsoon, ?_, ?_⟩ rfl
    · simp [sent, first, soon, seconds]
    · simp [sent, hempty]
  have hfirst : Step DefaultRole Unary.config 1 sending (soon, .arrive first 2) answered := by
    refine .arrive soon first 2 ⟨Int.le_refl _, ?_, ?_⟩ hgap hfits List.mem_cons_self hissued
    · simp [sending, first, second, soon, seconds]
    · simp [sending, sent, hempty]
  have harrive : Step DefaultRole Unary.config 1 answered (soon, .arrive second 3) served := by
    refine .arrive soon second 3 ⟨hclock.le, ?_, ?_⟩ ?_ hfits ?_ ?_
    · simp [hrequests, second, seconds]
    · simp [hone, seconds]
    · change soon ≤ soon + minutes 10
      decide
    · simp [hrequests]
    · rw [hanswered]
      exact hissued'
  let told : Client Nat := { served with
    world := { served.world with clock := soon }
    cookie := adopt served.cookie one
    responses := served.responses.erase ⟨one, soon⟩ }
  let finish : Client Nat := { told with
    cookie := adopt told.cookie two
    responses := told.responses.erase ⟨two, soon⟩ }
  have htold : told.responses = [⟨two, soon⟩] := by
    change served.responses.erase _ = _
    rw [htwo, List.erase_cons_head]
  have hone' : Step DefaultRole Unary.config 1 served (soon, .receive ⟨one, soon⟩) told :=
    .receive soon ⟨one, soon⟩ ⟨hlast.le, by simp [hnone], by simp [htwo, seconds]⟩ (by simp [htwo])
  have htwo' : Step DefaultRole Unary.config 1 told (soon, .receive ⟨two, soon⟩) finish :=
    .receive soon ⟨two, soon⟩ ⟨Int.le_refl _, by simp [told, hnone], by simp [htold, seconds]⟩
      (by simp [htold])
  have hrun := Run.snoc (.snoc (.snoc (.snoc (.snoc (.snoc (.snoc .nil hreceive) hsend) hsecond)
    hfirst) harrive) hone') htwo'
  refine ⟨finish, ⟨start, _, hstart, hrun, rfl⟩, ?_, hnone, ?_,
    parallel_requests DefaultRole Unary.config 1 start finish _ hstart hrun⟩
  · change served.world.issued = [2, 1]
    rw [hserved]
    change (({ created with clock := soon }.next soon (.ping 2 10 1)).next soon
      (.ping 3 10 1)).issued = _
    decide
  · change told.responses.erase _ = []
    rw [htold, List.erase_cons_head]

end Client

end Saps.Auth
