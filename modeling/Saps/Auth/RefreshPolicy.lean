import Saps.Auth.Client
import Saps.Auth.Headers

-- Routes of both refresh policies over one session table.
namespace Saps.Auth.RefreshPolicy

-- What the extractor answers and what it hands to the `CookieSlot`.
structure Reply (Role Uuid : Type) where
  mode : RefreshMode
  answer : Except SapsError (HeaderToken Role Uuid)
  slot : Option SetCookie

structure Site (Role Uuid : Type) where
  world : World Uuid
  replies : List (Reply Role Uuid)

def Site.empty {Role Uuid : Type} (clock : Int) : Site Role Uuid :=
  ⟨World.empty clock, []⟩

inductive Act (Role Uuid : Type) where
  | request (mode : RefreshMode) (checkUserRole : Role → Except SapsError Unit)
      (headers : HeaderMap) (fresh : Uuid)
  | other (command : Command Uuid)

-- All but the requests of `NoRefresh` routes.
def Act.loud {Role Uuid : Type} : Act Role Uuid → Bool
  | .request .never _ _ _ => false
  | .request .auto _ _ _ => true
  | .other _ => true

-- Sessions are pinged by requests only.
def isPing {Uuid : Type} : Command Uuid → Bool
  | .ping _ _ _ => true
  | .create _ _ _ _ _ => false
  | .delete _ => false
  | .updateMeta _ => false

variable {Role Uuid : Type} [UserRole Role] [UuidText Uuid] [DecidableEq Uuid] [Jsonwebtoken]

def reply (config : Config) (mode : RefreshMode) (checkUserRole : Role → Except SapsError Unit)
    (now : Int) (headers : HeaderMap) (fresh : Uuid) (table : AuthSessions Uuid) :
    Reply Role Uuid :=
  let extraction := extractRequest config mode now fresh headers table
  ⟨mode, HeaderToken.fromRequestParts checkUserRole extraction.answer, extraction.slot⟩

-- The table after a request, with its history.
def asked (Role : Type) [UserRole Role] (config : Config) (mode : RefreshMode) (now : Int)
    (headers : HeaderMap) (fresh : Uuid) (world : World Uuid) : World Uuid :=
  let extraction : Extraction Role Uuid :=
    extractRequest config mode now fresh headers world.table
  match mode, locateToken headers with
  | .auto, .ok rawToken => world.served config now fresh rawToken extraction.table
  | _, _ => { world with clock := now, table := extraction.table }

-- Only a ping draws an id.
inductive Step (config : Config) (before : Site Role Uuid) :
    Int × Act Role Uuid → Site Role Uuid → Prop
  | request (now : Int) (mode : RefreshMode) (checkUserRole : Role → Except SapsError Unit)
      (headers : HeaderMap) (fresh : Uuid) (htime : before.world.clock ≤ now)
      (hfresh : mode = .auto → fresh ∉ before.world.issued) :
      Step config before (now, .request mode checkUserRole headers fresh)
        ⟨asked Role config mode now headers fresh before.world, before.replies ++
          [reply config mode checkUserRole now headers fresh before.world.table]⟩
  | other (now : Int) (command : Command Uuid) (htime : before.world.clock ≤ now)
      (hfresh : before.world.Fresh command) (hcommand : isPing command = false) :
      Step config before (now, .other command)
        ⟨before.world.next now command, before.replies⟩

-- What the token of a request says.
structure Presents (config : Config) (headers : HeaderMap) (claims : JwtClaims) (id : Uuid) :
    Prop where
  located : ∃ rawToken, locateToken headers = .ok rawToken ∧
    JwtClaims.decode config rawToken = .ok claims
  named : UuidText.parse claims.uniqueId = Except.ok id

-- The role of the row reads as one that the route lets through.
def Allowed (checkUserRole : Role → Except SapsError Unit) (row : Row Uuid) : Prop :=
  ∃ role : Role, UserRole.tryFrom row.role = Except.ok role ∧ checkUserRole role = .ok ()

-- The requests that a policy lets through. `AutoRefresh` asks for a session that was
-- used in the last ten minutes and, for another id than the one presented, that a token
-- can be issued. `NoRefresh` asks for a token that is still valid.
inductive Admits (issues : Prop) (checkUserRole : Role → Except SapsError Unit)
    (table : AuthSessions Uuid) (now : Int) (claims : JwtClaims) (id : Uuid) : RefreshMode → Prop
  | current (row : Row Uuid) (hrow : row ∈ table) (hid : row.id = id)
      (hallowed : Allowed checkUserRole row) (hactive : now - minutes 10 ≤ row.lastInteracted)
      (hissues : row.dateCreated < now - minutes 5 ∨ UuidText.toStr id ≠ claims.uniqueId →
        issues) : Admits issues checkUserRole table now claims id .auto
  | grace (row : Row Uuid) (hrow : row ∈ table) (hid : row.id ≠ id) (hold : row.oldId = id)
      (hallowed : Allowed checkUserRole row) (hactive : now - minutes 10 ≤ row.lastInteracted)
      (hopen : now ≤ row.timeMinted + seconds 10) (hissues : issues) :
      Admits issues checkUserRole table now claims id .auto
  | never (row : Row Uuid) (hrow : row ∈ table) (hid : row.id = id)
      (hallowed : Allowed checkUserRole row) (hunexpired : now ≤ claims.timeExpire) :
      Admits issues checkUserRole table now claims id .never

end Saps.Auth.RefreshPolicy
