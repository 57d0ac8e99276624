import Saps.Auth.Token.Theorems

-- A login whose insert can fail.
namespace Saps.Auth

-- How an insert ends without an answer of the server: the row was not written,
-- or it was and the answer was lost.
inductive InsertFault where
  | refused (error : SqlxError)
  | unacknowledged (error : SqlxError)
  deriving DecidableEq

section

variable {Role Uuid : Type} [UserRole Role] [UuidText Uuid] [DecidableEq Uuid] [Jsonwebtoken]

def Dal.createAuthSessionUnder (fault : Option InsertFault) (session : AuthSession Role Uuid)
    (table : AuthSessions Uuid) :
    Except SqlxError (AuthSession Role Uuid) × AuthSessions Uuid :=
  match fault with
  | none => Dal.createAuthSession session table
  | some (.refused error) => (.error error, table)
  | some (.unacknowledged error) => (.error error, (Dal.createAuthSession session table).2)

-- What `login` does with its token once the row is there.
def loginResponse (config : Config) (token : HeaderToken Role Uuid) :
    Except SapsError LoginResponse := do
  let encoded ← token.encode config
  let cookie ← AuthTokenCookie.headerValue (AuthTokenCookie.yieldCookieString encoded)
  return ⟨cookie, encoded, token.uniqueId⟩

def loginAnswer (config : Config) (token : HeaderToken Role Uuid) :
    Except SqlxError (AuthSession Role Uuid) × AuthSessions Uuid →
      Except SapsError LoginResponse × AuthSessions Uuid
  | (.error e, table) => (.error (.fromSqlx e), table)
  | (.ok _, table) => (loginResponse config token, table)

def loginUnder (fault : Option InsertFault) (config : Config) (now : Int) (fresh : Uuid)
    (role : Role) (metadata : Option Jsonb) (table : AuthSessions Uuid) :
    Except SapsError LoginResponse × AuthSessions Uuid :=
  match (HeaderToken.new config now fresh : Except SapsError (HeaderToken Role Uuid)) with
  | .error e => (.error e, table)
  | .ok token =>
    match UuidText.parse token.uniqueId with
    | .error e => (.error (.unknown e), table)
    | .ok id =>
      loginAnswer config token
        (Dal.createAuthSessionUnder fault (loginSession id role now metadata) table)

-- Without a fault it is the login of the other modules.
theorem loginUnder_none (config : Config) (now : Int) (fresh : Uuid) (role : Role)
    (metadata : Option Jsonb) (table : AuthSessions Uuid) :
    loginUnder none config now fresh role metadata table =
      login config now fresh role metadata table :=
  rfl

end

namespace Login

variable {Role Uuid : Type} [UserRole Role] [UuidText Uuid] [DecidableEq Uuid] [Jsonwebtoken]

-- A response comes with one new row, which it names three times. An error comes
-- with none.
def AllOrNothing (config : Config) (role : Role) (metadata : Option Jsonb)
    (table : AuthSessions Uuid) :
    Except SapsError LoginResponse × AuthSessions Uuid → Prop
  | (.ok response, left) =>
    ∃ row : Row Uuid, left = row :: table ∧ row.id ∉ table.map Row.id ∧
      response.uniqueId = UuidText.toStr row.id ∧ row.role = UserRole.toStr role ∧
      row.metadata = metadata ∧ Names config response.token row.id ∧
      Names config response.setCookie.token row.id
  | (.error _, left) => left = table

-- The insert is sent and the server carries it out.
structure Inserts (config : Config) (fault : Option InsertFault) (now : Int) (role : Role)
    (fresh : Uuid) (table : AuthSessions Uuid) : Prop where
  dated : ∃ text mins, config "TOKEN_EXPIRE_MINS".toList = .ok text ∧
    parseInt 64 text = .ok mins ∧ InChrono (now + minutes mins)
  length : (UserRole.toStr role).length ≤ 255
  fresh : fresh ∉ table.map Row.id
  sent : ∀ error, fault ≠ some (.refused error)

-- What stands behind the insert can only succeed.
structure Answers (config : Config) (fault : Option InsertFault) (role : Role) : Prop where
  secretKey : ∃ key, config "SECRET_KEY".toList = .ok key
  parses : ∃ role' : Role, UserRole.tryFrom (UserRole.toStr role) = Except.ok role'
  acknowledged : fault = none

-- The row that a login writes.
def loginRow (fresh : Uuid) (role : Role) (now : Int) (metadata : Option Jsonb) : Row Uuid :=
  ⟨fresh, fresh, UserRole.toStr role, now, now, now, metadata⟩

end Login

end Saps.Auth
