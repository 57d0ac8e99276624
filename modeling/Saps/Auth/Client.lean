import Saps.Auth.Served

-- A client with any number of requests in flight, and the server it talks to.
namespace Saps.Auth

structure Request where
  token : Str
  sentAt : Int
  deriving DecidableEq

structure Response where
  setCookies : List SetCookie
  pingedAt : Int
  deriving DecidableEq

structure Client (Uuid : Type) where
  world : World Uuid
  cookie : Option Str
  requests : List Request
  responses : List Response
  lastPing : Int

-- A cookie whose `Max-Age` is 0 is gone.
def adopt (cookie : Option Str) (setCookies : List SetCookie) : Option Str :=
  setCookies.foldl (fun _ set => if set.maxAge = 0 then none else some set.token) cookie

variable {Uuid : Type} [UuidText Uuid] [DecidableEq Uuid] [Jsonwebtoken]

namespace Client

inductive Act (Uuid : Type) where
  | send
  | arrive (request : Request) (fresh : Uuid)
  | receive (response : Response)
  | other (command : Command Uuid)

-- No request and no response is later than five seconds.
structure InTime (state : Client Uuid) (now : Int) : Prop where
  clock : state.world.clock ≤ now
  requests : ∀ request ∈ state.requests, now ≤ request.sentAt + seconds 5
  responses : ∀ response ∈ state.responses, now ≤ response.pingedAt + seconds 5

-- The request reaches its ping. It is for a route with an `AutoRefresh` token
-- under the layer, whose handler sets no cookie of its own.
def arrived (Role : Type) [UserRole Role] (config : Config) (now : Int) (request : Request)
    (fresh : Uuid) (state : Client Uuid) : Client Uuid :=
  let extraction : Extraction Role Uuid :=
    runAuthExtraction config .auto now fresh request.token state.world.table
  { state with
    world := state.world.served config now fresh request.token extraction.table
    requests := state.requests.erase request
    responses := state.responses ++ [⟨attachRefreshedCookie extraction.slot [], now⟩]
    lastPing := now }

-- `other` is what else happens to the table, short of the client's session.
inductive Step (Role : Type) [UserRole Role] (config : Config) (session : Uuid)
    (before : Client Uuid) : Int × Act Uuid → Client Uuid → Prop
  | send (now : Int) (token : Str) (htime : before.InTime now)
      (hcookie : before.cookie = some token) :
      Step Role config session before (now, .send) { before with
        world := { before.world with clock := now }
        requests := before.requests ++ [⟨token, now⟩] }
  | arrive (now : Int) (request : Request) (fresh : Uuid) (htime : before.InTime now)
      (hping : now ≤ before.lastPing + minutes 10) (hfits : config.Fits now)
      (hrequest : request ∈ before.requests) (hfresh : fresh ∉ before.world.issued) :
      Step Role config session before (now, .arrive request fresh)
        (before.arrived Role config now request fresh)
  | receive (now : Int) (response : Response) (htime : before.InTime now)
      (hresponse : response ∈ before.responses) :
      Step Role config session before (now, .receive response) { before with
        world := { before.world with clock := now }
        cookie := adopt before.cookie response.setCookies
        responses := before.responses.erase response }
  | other (now : Int) (command : Command Uuid) (htime : before.InTime now)
      (hfresh : before.world.Fresh command) (hspares : before.world.Spares session command) :
      Step Role config session before (now, .other command) { before with
        world := before.world.next now command }

-- The client logged in a moment ago: the response is on its way.
def Starts (Role : Type) [UserRole Role] (config : Config) (session : Uuid)
    (client : Client Uuid) : Prop :=
  ∃ clock trace before now, ∃ role : Role, ∃ metadata response,
    Transition.Run World.Step (World.empty clock) trace before ∧ before.clock ≤ now ∧
      session ∉ before.issued ∧
      (login config now session role metadata before.table).1 = .ok response ∧
      client = ⟨before.loggedIn now session (UserRole.toStr role) metadata
        (login config now session role metadata before.table).2, none, [],
        [⟨[response.setCookie], now⟩], now⟩

end Client

end Saps.Auth
