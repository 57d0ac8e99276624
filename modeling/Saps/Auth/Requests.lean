import Saps.Auth.Client
import Saps.Auth.HeaderToken

-- Requests that have been authenticated and are still being handled, among
-- whatever else happens to the table.
namespace Saps.Auth

-- The operations on the session of a token.
inductive Operation where
  | delete
  | updateMeta (metadata : Jsonb)
  | upsertMetaKey (key : Str) (value : Jsonb)
  | deleteMetaKey (key : Str)
  | compareAndSwap (key : Str) (expected newValue : Jsonb)

namespace Operation

-- What the statement stores, given what `meta` holds.
def newMeta : Operation → Option Jsonb → Except (Str × Str) (Option Jsonb)
  | delete, metadata => .ok metadata
  | updateMeta new, _ => .ok (some new)
  | upsertMetaKey key value, metadata => ((metadata.getD (.object [])).set key value).map some
  | deleteMetaKey key, metadata => metadata.mapM (·.remove key)
  | compareAndSwap key _ newValue, metadata => metadata.mapM (·.set key newValue)

variable {Role Uuid : Type} [UserRole Role] [UuidText Uuid] [DecidableEq Uuid]

-- The operation by its name. Those that answer nothing answer `true`.
def run (token : HeaderToken Role Uuid) (table : AuthSessions Uuid) :
    Operation → Outcome Bool Role Uuid
  | delete => token.deleteAuthSession table
  | updateMeta metadata =>
    let outcome := token.updateAuthSessionMeta metadata table
    ⟨outcome.answer.map fun _ => true, outcome.token, outcome.table⟩
  | upsertMetaKey key value =>
    let outcome := token.upsertAuthSessionMetaKey key value table
    ⟨outcome.answer.map fun _ => true, outcome.token, outcome.table⟩
  | deleteMetaKey key =>
    let outcome := token.deleteAuthSessionMetaKey key table
    ⟨outcome.answer.map fun _ => true, outcome.token, outcome.table⟩
  | compareAndSwap key expected newValue =>
    token.compareAndSwapAuthSessionMeta key expected newValue table

end Operation

-- The operation did its work on `row`: it removed it, it stored what it was
-- to store, or it said why not and left everything as it was.
inductive Acts {Uuid : Type} (row : Row Uuid) (before after : AuthSessions Uuid) :
    Operation → Except SapsError Bool → Prop
  | deleted (front back : List (Row Uuid)) (hbefore : before = front ++ row :: back)
      (hafter : after = front ++ back) : Acts row before after .delete (.ok true)
  | stored (operation : Operation) (metadata : Option Jsonb) (front back : List (Row Uuid))
      (hwrites : operation ≠ .delete)
      (hexpected : ∀ key expected newValue, operation = .compareAndSwap key expected newValue →
        row.metadata.bind (·.get key) = some expected)
      (hnew : operation.newMeta row.metadata = .ok metadata)
      (hbefore : before = front ++ row :: back)
      (hafter : after = front ++ { row with metadata := metadata } :: back) :
      Acts row before after operation (.ok true)
  | differs (key : Str) (expected newValue : Jsonb)
      (hdiffers : row.metadata.bind (·.get key) ≠ some expected) (hafter : after = before) :
      Acts row before after (.compareAndSwap key expected newValue) (.ok false)
  | refused (operation : Operation) (code message : Str)
      (hnew : operation.newMeta row.metadata = .error (code, message)) (hafter : after = before) :
      Acts row before after operation (.error (.fromSqlx (.database code message)))

-- A request past its ping. `since` counts the rotations of its session so far.
structure Held (Role Uuid : Type) where
  token : HeaderToken Role Uuid
  session : Uuid
  since : Nat

structure Server (Role Uuid : Type) where
  world : World Uuid
  held : List (Held Role Uuid)

variable {Role Uuid : Type} [DecidableEq Uuid]

def World.rotationsOf (world : World Uuid) (session : Uuid) : Nat :=
  world.rotations.countP (·.session = session)

namespace Server

inductive Act (Role Uuid : Type) where
  | authenticate (rawToken : Str) (fresh : Uuid)
  | operate (held : Held Role Uuid) (operation : Operation)
  | other (command : Command Uuid)

def empty (clock : Int) : Server Role Uuid :=
  ⟨World.empty clock, []⟩

variable [UserRole Role] [UuidText Uuid] [Jsonwebtoken]

-- A token that the extractor hands out is bound to the session it found.
def accept (world : World Uuid) (token : HeaderToken Role Uuid) : List (Held Role Uuid) :=
  match token.authSession with
  | some session => [⟨token, world.origin session.id, world.rotationsOf (world.origin session.id)⟩]
  | none => []

def authenticated (config : Config) (checkUserRole : Role → Except SapsError Unit) (now : Int)
    (rawToken : Str) (fresh : Uuid) (server : Server Role Uuid) : Server Role Uuid :=
  let extraction : Extraction Role Uuid :=
    runAuthExtraction config .auto now fresh rawToken server.world.table
  let world := server.world.served config now fresh rawToken extraction.table
  match HeaderToken.fromRequestParts checkUserRole extraction.answer with
  | .ok token => ⟨world, server.held ++ accept world token⟩
  | .error _ => ⟨world, server.held⟩

def operated (now : Int) (held : Held Role Uuid) (operation : Operation)
    (server : Server Role Uuid) : Server Role Uuid :=
  let outcome := operation.run held.token server.world.table
  ⟨{ server.world with clock := now, table := outcome.table },
    { held with token := outcome.token } :: server.held⟩

inductive Step (config : Config) (checkUserRole : Role → Except SapsError Unit)
    (before : Server Role Uuid) : Int × Act Role Uuid → Server Role Uuid → Prop
  | authenticate (now : Int) (rawToken : Str) (fresh : Uuid) (htime : before.world.clock ≤ now)
      (hfresh : fresh ∉ before.world.issued) :
      Step config checkUserRole before (now, .authenticate rawToken fresh)
        (before.authenticated config checkUserRole now rawToken fresh)
  | operate (now : Int) (held : Held Role Uuid) (operation : Operation)
      (htime : before.world.clock ≤ now) (hheld : held ∈ before.held) :
      Step config checkUserRole before (now, .operate held operation)
        (before.operated now held operation)
  | other (now : Int) (command : Command Uuid) (htime : before.world.clock ≤ now)
      (hfresh : before.world.Fresh command) :
      Step config checkUserRole before (now, .other command)
        ⟨before.world.next now command, before.held⟩

end Server

end Saps.Auth
