import Saps.Auth.Token

-- What a handler can do with its token.
namespace Saps.Auth

-- The answer of an operation, the token it leaves and the table.
structure Outcome (α Role Uuid : Type) where
  answer : Except SapsError α
  token : HeaderToken Role Uuid
  table : AuthSessions Uuid

namespace HeaderToken

variable {Role Uuid : Type} [UserRole Role] [UuidText Uuid] [DecidableEq Uuid]

def deleteAuthSession (token : HeaderToken Role Uuid) (table : AuthSessions Uuid) :
    Outcome Bool Role Uuid :=
  match UuidText.parse token.uniqueId with
  | .error e => ⟨.error (.unknown e), token, table⟩
  | .ok sessionId =>
    let (deleted, table) := Dal.deleteAuthSession sessionId table
    ⟨.ok deleted, token, table⟩

def updateAuthSessionMeta (token : HeaderToken Role Uuid) (metadata : Jsonb)
    (table : AuthSessions Uuid) : Outcome Unit Role Uuid :=
  match Dal.updateAuthSessionMeta token.uniqueId metadata table with
  | (.error e, table) => ⟨.error (.fromSqlx e), token, table⟩
  | (.ok (), table) =>
    let authSession := token.authSession.map fun session => { session with metadata := some metadata }
    ⟨.ok (), { token with authSession := authSession }, table⟩

-- The other operations keep the row they got back, if they got one.
def remember (token : HeaderToken Role Uuid) (updated : Option (AuthSession Role Uuid)) :
    HeaderToken Role Uuid :=
  match updated with
  | some session => { token with authSession := some session }
  | none => token

def upsertAuthSessionMetaKey (token : HeaderToken Role Uuid) (key : Str) (value : Jsonb)
    (table : AuthSessions Uuid) : Outcome Unit Role Uuid :=
  match Dal.upsertAuthSessionMetaKey token.uniqueId key value table with
  | (.error e, table) => ⟨.error (.fromSqlx e), token, table⟩
  | (.ok updated, table) => ⟨.ok (), token.remember updated, table⟩

def deleteAuthSessionMetaKey (token : HeaderToken Role Uuid) (key : Str)
    (table : AuthSessions Uuid) : Outcome Unit Role Uuid :=
  match Dal.deleteAuthSessionMetaKey token.uniqueId key table with
  | (.error e, table) => ⟨.error (.fromSqlx e), token, table⟩
  | (.ok updated, table) => ⟨.ok (), token.remember updated, table⟩

def compareAndSwapAuthSessionMeta (token : HeaderToken Role Uuid) (key : Str)
    (expected newValue : Jsonb) (table : AuthSessions Uuid) : Outcome Bool Role Uuid :=
  match Dal.compareAndSwapAuthSessionMeta token.uniqueId key expected newValue table with
  | (.error e, table) => ⟨.error (.fromSqlx e), token, table⟩
  | (.ok updated, table) => ⟨.ok updated.isSome, token.remember updated, table⟩

end HeaderToken

end Saps.Auth
