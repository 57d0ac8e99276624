import Saps.Auth.Dal

namespace Saps.Auth

-- `X::get_config_variable`.
abbrev Config := Str → Except SapsError Str

structure JwtClaims where
  uniqueId : Str
  timeExpire : Int
  deriving DecidableEq

-- The `jsonwebtoken` crate with HS256: the key comes first.
class Jsonwebtoken where
  encode : Str → JwtClaims → Except Str Str
  decode : Str → Str → Except Str JwtClaims

-- A byte that `HeaderValue::to_str` takes.
def isVisibleAscii (c : Char) : Bool :=
  (32 ≤ c.toNat ∧ c.toNat < 127) ∨ c = '\t'

-- `HeaderValue::from_str` takes all bytes from 128 on as well.
def isHeaderText (c : Char) : Bool :=
  (32 ≤ c.toNat ∧ c.toNat ≠ 127) ∨ c = '\t'

-- Tokens are header text and decode to what was encoded.
class LawfulJsonwebtoken [Jsonwebtoken] : Prop where
  encode_ok : ∀ key claims, ∃ token, Jsonwebtoken.encode key claims = Except.ok token
  decode_encode : ∀ key claims token, Jsonwebtoken.encode key claims = Except.ok token →
    Jsonwebtoken.decode key token = Except.ok claims ∧ token.all isVisibleAscii = true

-- What a `Set-Cookie` of the auth cookie says: its value and its `Max-Age`.
structure SetCookie where
  token : Str
  maxAge : Nat
  deriving DecidableEq

namespace AuthTokenCookie

def yieldCookieString (token : Str) : SetCookie :=
  ⟨token, 86400⟩

def wipeFromCookies : SetCookie :=
  ⟨[], 0⟩

-- `HeaderValue::from_str` of the cookie.
def headerValue (cookie : SetCookie) : Except SapsError SetCookie :=
  if cookie.token.all isHeaderText then .ok cookie
  else .error (.unknown "failed to parse header value".toList)

end AuthTokenCookie

namespace JwtClaims

variable [Jsonwebtoken]

def encode (config : Config) (claims : JwtClaims) : Except SapsError Str := do
  let key ← config "SECRET_KEY".toList
  (Jsonwebtoken.encode key claims).mapError SapsError.unauthorized

def decode (config : Config) (token : Str) : Except SapsError JwtClaims := do
  let key ← config "SECRET_KEY".toList
  (Jsonwebtoken.decode key token).mapError SapsError.unauthorized

end JwtClaims

-- The times that the `chrono` crate has: the years from -262143 to 262142.
def InChrono (time : Int) : Prop :=
  seconds (-8334601228800) ≤ time ∧ time < seconds 8210266876800

instance (time : Int) : Decidable (InChrono time) :=
  inferInstanceAs (Decidable (_ ∧ _))

-- A sum that `chrono` does not have is a panic. Nothing comes after it and nobody
-- gets an answer, so that it is told as an error.
def addMinutes (now mins : Int) : Except SapsError Int :=
  if InChrono (now + minutes mins) then .ok (now + minutes mins)
  else .error (.unknown "`DateTime + TimeDelta` overflowed".toList)

-- `Utc::now()` plus the configured minutes.
def tokenExpiry (config : Config) (now : Int) : Except SapsError Int := do
  let text ← config "TOKEN_EXPIRE_MINS".toList
  let mins ← (parseInt 64 text).mapError SapsError.unknown
  addMinutes now mins

inductive RefreshMode where
  | auto
  | never
  deriving DecidableEq

structure RawAuthExtraction (Role Uuid : Type) where
  session : AuthSession Role Uuid
  uniqueId : Str
  timeExpire : Int
  oldUuid : Option Str

-- What comes out of an extraction: the answer, the cookie handed to the
-- `CookieSlot` and the table.
structure Extraction (Role Uuid : Type) where
  answer : Except SapsError (RawAuthExtraction Role Uuid)
  slot : Option SetCookie
  table : AuthSessions Uuid

section

variable {Role Uuid : Type} [UserRole Role] [UuidText Uuid] [DecidableEq Uuid] [Jsonwebtoken]

-- A session that was handed out under another id gets a new token.
def refreshToken (config : Config) (now : Int) (claims : JwtClaims)
    (session : AuthSession Role Uuid) :
    Except SapsError (RawAuthExtraction Role Uuid × Option SetCookie) :=
  let sessionId := UuidText.toStr session.id
  if sessionId ≠ claims.uniqueId then do
    let timeExpire ← tokenExpiry config now
    let newClaims : JwtClaims := ⟨sessionId, timeExpire⟩
    let newJwt ← newClaims.encode config
    return (⟨session, sessionId, timeExpire, some claims.uniqueId⟩,
      some (AuthTokenCookie.yieldCookieString newJwt))
  else .ok (⟨session, claims.uniqueId, claims.timeExpire, none⟩, none)

-- What follows the ping.
def afterPing (config : Config) (now : Int) (claims : JwtClaims)
    (pinged : Except SqlxError (Option (AuthSession Role Uuid))) (table : AuthSessions Uuid) :
    Extraction Role Uuid :=
  match pinged with
  | .error e => ⟨.error (.fromSqlx e), none, table⟩
  | .ok none => ⟨.error (.unauthorized "session not present".toList), none, table⟩
  | .ok (some session) =>
    match refreshToken config now claims session with
    | .error e => ⟨.error e, none, table⟩
    | .ok (raw, slot) => ⟨.ok raw, slot, table⟩

-- The read-only lookup of `RefreshMode::Never`.
def lookupSession (now : Int) (claims : JwtClaims) (table : AuthSessions Uuid) :
    Except SapsError (RawAuthExtraction Role Uuid) :=
  if claims.timeExpire < now then .error (.forbidden "Token has expired".toList)
  else
    match Dal.getAuthSession claims.uniqueId table with
    | .error e => .error (.fromSqlx e)
    | .ok none => .error (.unauthorized "session not present".toList)
    | .ok (some session) => .ok ⟨session, claims.uniqueId, claims.timeExpire, none⟩

-- `rawToken` is the token that was found on the request.
def runAuthExtraction (config : Config) (mode : RefreshMode) (now : Int) (fresh : Uuid)
    (rawToken : Str) (table : AuthSessions Uuid) : Extraction Role Uuid :=
  match JwtClaims.decode config rawToken with
  | .error e => ⟨.error e, none, table⟩
  | .ok claims =>
    match mode with
    | .never => ⟨lookupSession now claims table, none, table⟩
    | .auto =>
      let (pinged, table) := Dal.pingAuthSession now fresh 10 claims.uniqueId table
      afterPing config now claims pinged table

-- The layer, given the slot and the `Set-Cookie` headers of the handler. Its
-- `insert` puts one value in the place of all of them.
def attachRefreshedCookie (slot : Option SetCookie) (setCookies : List SetCookie) :
    List SetCookie :=
  match slot with
  | some cookie =>
    match AuthTokenCookie.headerValue cookie with
    | .ok value => [value]
    | .error _ => setCookies
  | none => setCookies

-- The part of `HeaderToken` that is no marker.
structure HeaderToken (Role Uuid : Type) where
  uniqueId : Str
  timeExpire : Int
  authSession : Option (AuthSession Role Uuid)
  oldUuid : Option Str

namespace HeaderToken

-- `fresh` is what `Uuid::new_v4()` returned.
def new (config : Config) (now : Int) (fresh : Uuid) :
    Except SapsError (HeaderToken Role Uuid) := do
  let timeExpire ← tokenExpiry config now
  return ⟨UuidText.toStr fresh, timeExpire, none, none⟩

def encode (config : Config) (token : HeaderToken Role Uuid) : Except SapsError Str :=
  (⟨token.uniqueId, token.timeExpire⟩ : JwtClaims).encode config

-- `checkUserRole` is the strategy `Y`.
def fromRequestParts (checkUserRole : Role → Except SapsError Unit)
    (raw : Except SapsError (RawAuthExtraction Role Uuid)) :
    Except SapsError (HeaderToken Role Uuid) := do
  let raw ← raw
  checkUserRole raw.session.role
  return ⟨raw.uniqueId, raw.timeExpire, some raw.session, raw.oldUuid⟩

end HeaderToken

-- What `login` answers with: the cookie of its header map and its body.
structure LoginResponse where
  setCookie : SetCookie
  token : Str
  uniqueId : Str

def loginSession (id : Uuid) (role : Role) (now : Int) (metadata : Option Jsonb) :
    AuthSession Role Uuid :=
  match metadata with
  | some metadata => (AuthSession.new id role now).withMeta metadata
  | none => AuthSession.new id role now

def login (config : Config) (now : Int) (fresh : Uuid) (role : Role) (metadata : Option Jsonb)
    (table : AuthSessions Uuid) : Except SapsError LoginResponse × AuthSessions Uuid :=
  match (HeaderToken.new config now fresh : Except SapsError (HeaderToken Role Uuid)) with
  | .error e => (.error e, table)
  | .ok token =>
    match UuidText.parse token.uniqueId with
    | .error e => (.error (.unknown e), table)
    | .ok id =>
      match Dal.createAuthSession (loginSession id role now metadata) table with
      | (.error e, table) => (.error (.fromSqlx e), table)
      | (.ok _, table) =>
        let response := do
          let encoded ← token.encode config
          let cookie ← AuthTokenCookie.headerValue (AuthTokenCookie.yieldCookieString encoded)
          return (⟨cookie, encoded, token.uniqueId⟩ : LoginResponse)
        (response, table)

end

end Saps.Auth
