import Saps.Auth.Client
import Saps.Auth.HeaderToken

-- A client that sends one request after another, to routes under the layer.
namespace Saps.Auth

-- The extractor of a route: its refresh policy and its role check.
structure Guard (Role : Type) where
  mode : RefreshMode
  checkUserRole : Role → Except SapsError Unit

-- A logout needs the token of its extractor.
inductive Route (Role : Type) where
  | plain (guard : Option (Guard Role))
  | login (guard : Option (Guard Role)) (role : Role) (metadata : Option Jsonb)
  | logout (guard : Guard Role)

-- What is left to do for the handler.
inductive Task (Role Uuid : Type) where
  | plain
  | login (role : Role) (metadata : Option Jsonb)
  | logout (token : HeaderToken Role Uuid)

inductive Answer (Uuid : Type) where
  | other
  | login (id : Uuid)
  | logout
  deriving DecidableEq

inductive Phase (Role Uuid : Type) where
  | idle (last : Answer Uuid)
  | handling (task : Task Role Uuid) (slot : Option SetCookie)
  | answered (answer : Answer Uuid) (slot : Option SetCookie) (setCookies : List SetCookie)

-- `session` is the one that the latest login created.
structure Visitor (Role Uuid : Type) where
  world : World Uuid
  cookie : Option Str
  session : Option Uuid
  phase : Phase Role Uuid

variable {Role Uuid : Type} [UserRole Role] [UuidText Uuid] [DecidableEq Uuid] [Jsonwebtoken]

-- What the client can rely on after a response.
structure Agreement (config : Config) (world : World Uuid) (session : Option Uuid)
    (cookie : Option Str) (last : Answer Uuid) : Prop where
  live : ∀ own ∈ session, ∀ row ∈ world.table, world.origin row.id = own →
    ∃ token, cookie = some token ∧ Names config token row.id
  logout : last = .logout → cookie = none
  login : ∀ id, last = .login id → session = some id ∧
    ∃ token, cookie = some token ∧ Names config token id

-- The history of an extraction, and the table it left.
def World.extracted (world : World Uuid) (config : Config) (mode : RefreshMode) (now : Int)
    (fresh : Uuid) (rawToken : Str) (table : AuthSessions Uuid) : World Uuid :=
  match mode with
  | .auto => world.served config now fresh rawToken table
  | .never => { world with clock := now, table := table }

namespace Visitor

inductive Act (Role Uuid : Type) where
  | request (route : Route Role) (fresh : Uuid)
  | handle (fresh : Uuid)
  | receive
  | other (command : Command Uuid)

-- The clock goes on and the request is in another phase.
def enter (now : Int) (phase : Phase Role Uuid) (visitor : Visitor Role Uuid) :
    Visitor Role Uuid :=
  { visitor with world := { visitor.world with clock := now }, phase := phase }

-- The extractor, which rejects the request or hands its token to the handler.
def guarded (config : Config) (now : Int) (guard : Guard Role) (fresh : Uuid)
    (task : HeaderToken Role Uuid → Task Role Uuid) (visitor : Visitor Role Uuid) :
    Visitor Role Uuid :=
  match visitor.cookie with
  | none => visitor.enter now (.answered .other none [])
  | some rawToken =>
    let extraction : Extraction Role Uuid :=
      runAuthExtraction config guard.mode now fresh rawToken visitor.world.table
    let world :=
      visitor.world.extracted config guard.mode now fresh rawToken extraction.table
    match HeaderToken.fromRequestParts guard.checkUserRole extraction.answer with
    | .ok token =>
      { visitor with world := world, phase := .handling (task token) extraction.slot }
    | .error _ => { visitor with world := world, phase := .answered .other extraction.slot [] }

def requested (config : Config) (now : Int) (route : Route Role) (fresh : Uuid)
    (visitor : Visitor Role Uuid) : Visitor Role Uuid :=
  match route with
  | .plain none => visitor.enter now (.handling .plain none)
  | .plain (some guard) => visitor.guarded config now guard fresh fun _ => .plain
  | .login none role metadata => visitor.enter now (.handling (.login role metadata) none)
  | .login (some guard) role metadata =>
    visitor.guarded config now guard fresh fun _ => .login role metadata
  | .logout guard => visitor.guarded config now guard fresh .logout

def handled (config : Config) (now : Int) (fresh : Uuid) (task : Task Role Uuid)
    (slot : Option SetCookie) (visitor : Visitor Role Uuid) : Visitor Role Uuid :=
  match task with
  | .plain => visitor.enter now (.answered .other slot [])
  | .login role metadata =>
    let (answer, table) := login config now fresh role metadata visitor.world.table
    let world := visitor.world.loggedIn now fresh (UserRole.toStr role) metadata table
    match answer with
    | .ok response =>
      { visitor with
        world := world
        session := some fresh
        phase := .answered (.login fresh) slot [response.setCookie] }
    | .error _ => { visitor with world := world, phase := .answered .other slot [] }
  | .logout token =>
    let outcome := token.deleteAuthSession visitor.world.table
    let world := { visitor.world with clock := now, table := outcome.table }
    match outcome.answer with
    | .ok _ =>
      { visitor with
        world := world, phase := .answered .logout slot [AuthTokenCookie.wipeFromCookies] }
    | .error _ => { visitor with world := world, phase := .answered .other slot [] }

-- The layer, and the client that adopts what it gets.
def received (now : Int) (answer : Answer Uuid) (slot : Option SetCookie)
    (setCookies : List SetCookie) (visitor : Visitor Role Uuid) : Visitor Role Uuid :=
  { visitor with
    world := { visitor.world with clock := now }
    cookie := adopt visitor.cookie (attachRefreshedCookie slot setCookies)
    phase := .idle answer }

inductive Step (config : Config) (before : Visitor Role Uuid) :
    Int × Act Role Uuid → Visitor Role Uuid → Prop
  | request (now : Int) (route : Route Role) (fresh : Uuid) (last : Answer Uuid)
      (htime : before.world.clock ≤ now) (hfresh : fresh ∉ before.world.issued)
      (hphase : before.phase = .idle last) :
      Step config before (now, .request route fresh) (before.requested config now route fresh)
  | handle (now : Int) (fresh : Uuid) (task : Task Role Uuid) (slot : Option SetCookie)
      (htime : before.world.clock ≤ now) (hfresh : fresh ∉ before.world.issued)
      (hphase : before.phase = .handling task slot) :
      Step config before (now, .handle fresh) (before.handled config now fresh task slot)
  | receive (now : Int) (answer : Answer Uuid) (slot : Option SetCookie)
      (setCookies : List SetCookie) (htime : before.world.clock ≤ now)
      (hphase : before.phase = .answered answer slot setCookies) :
      Step config before (now, .receive) (before.received now answer slot setCookies)
  | other (now : Int) (command : Command Uuid) (htime : before.world.clock ≤ now)
      (hfresh : before.world.Fresh command)
      (hunpinged : ∀ session ∈ before.session, before.world.Unpinged session command) :
      Step config before (now, .other command)
        { before with world := before.world.next now command }

-- The client holds no token yet.
def Starts (visitor : Visitor Role Uuid) : Prop :=
  ∃ clock trace, Transition.Run World.Step (World.empty clock) trace visitor.world ∧
    visitor.cookie = none ∧ visitor.session = none ∧ visitor.phase = .idle .other

-- Between its requests the client and the server agree.
def Agrees (config : Config) (visitor : Visitor Role Uuid) : Prop :=
  ∀ last, visitor.phase = .idle last →
    Agreement config visitor.world visitor.session visitor.cookie last

-- The layer has a refreshed cookie or the handler has set one, but not both.
def Unmixed (visitor : Visitor Role Uuid) : Prop :=
  ∀ answer slot setCookies, visitor.phase = .answered answer slot setCookies →
    slot = none ∨ setCookies = []

-- A step, where a response does not mix its cookies and a request comes while
-- tokens can be dated.
def UnmixedStep (config : Config)
    (before : Visitor Role Uuid) (label : Int × Act Role Uuid) (after : Visitor Role Uuid) : Prop :=
  Step config before label after ∧ before.Unmixed ∧
    ∀ route fresh, label.2 = .request route fresh → config.Fits label.1

end Visitor

end Saps.Auth
