import Saps.Auth.Checks
import Saps.Auth.Model

namespace Saps

-- The errors of `sqlx` that the crate tells apart, with their texts.
inductive SqlxError where
  | rowNotFound
  | protocol (message : Str)
  | database (code message : Str)
  deriving DecidableEq

def SqlxError.text : SqlxError → Str
  | .rowNotFound =>
    "no rows returned by a query that expected to return at least one row".toList
  | .protocol message => "encountered unexpected or invalid data: ".toList ++ message
  | .database _ message => "error returned from database: ".toList ++ message

-- `From<sqlx::Error> for SapsError`.
def SapsError.fromSqlx : SqlxError → SapsError
  | .rowNotFound => .notFound "Resource not found".toList
  | .database code message =>
    if code = "23505".toList then .conflict "Duplicate entry".toList
    else if code = "23503".toList then .badRequest "Foreign key constraint violation".toList
    else .unknown ("Database error: ".toList ++ (SqlxError.database code message).text)
  | .protocol message =>
    .unknown ("Database error: ".toList ++ (SqlxError.protocol message).text)

namespace Auth

-- The `uuid` crate: ids as text.
class UuidText (Uuid : Type) where
  toStr : Uuid → Str
  parse : Str → Except Str Uuid

class LawfulUuidText (Uuid : Type) [UuidText Uuid] : Prop where
  parse_toStr : ∀ id : Uuid, UuidText.parse (UuidText.toStr id) = Except.ok id

structure AuthSession (Role Uuid : Type) where
  id : Uuid
  role : Role
  dateCreated : Int
  lastInteracted : Int
  metadata : Option Jsonb

section

variable {Role Uuid : Type} [UserRole Role]

def AuthSession.fromRow (row : Row Uuid) : Except SapsError (AuthSession Role Uuid) := do
  let role ← UserRole.tryFrom row.role
  return ⟨row.id, role, row.dateCreated, row.lastInteracted, row.metadata⟩

def AuthSession.new (id : Uuid) (role : Role) (now : Int) : AuthSession Role Uuid :=
  ⟨id, role, now, now, none⟩

def AuthSession.withMeta (session : AuthSession Role Uuid) (metadata : Jsonb) :
    AuthSession Role Uuid :=
  { session with metadata := some metadata }

end

namespace Dal

variable {Role Uuid : Type} [UserRole Role] [UuidText Uuid]

def parseId (sessionId : Str) : Except SqlxError Uuid :=
  (UuidText.parse sessionId).mapError fun e => .protocol ("invalid session_id UUID: ".toList ++ e)

def sessionOf (row : Row Uuid) : Except SqlxError (AuthSession Role Uuid) :=
  (AuthSession.fromRow row).mapError fun e => .protocol e.message

def sessionOfOption (row : Option (Row Uuid)) :
    Except SqlxError (Option (AuthSession Role Uuid)) :=
  match row with
  | some row => (sessionOf row).map some
  | none => .ok none

variable [DecidableEq Uuid]

-- `id` is the primary key and `role` a `VARCHAR(255)`.
def createAuthSession (session : AuthSession Role Uuid) (table : AuthSessions Uuid) :
    Except SqlxError (AuthSession Role Uuid) × AuthSessions Uuid :=
  let role := UserRole.toStr session.role
  if 255 < role.length then
    (.error (.database "22001".toList
      "value too long for type character varying(255)".toList), table)
  else if session.id ∈ table.map Row.id then
    (.error (.database "23505".toList
      "duplicate key value violates unique constraint \"auth_sessions_pkey\"".toList), table)
  else
    let row : Row Uuid := ⟨session.id, session.id, role, session.dateCreated,
      session.lastInteracted, session.dateCreated, session.metadata⟩
    (sessionOf row, Auth.createAuthSession session.id role session.dateCreated
      session.lastInteracted session.metadata table)

def pingAuthSession (now : Int) (fresh : Uuid) (pMinutes : Int) (sessionId : Str)
    (table : AuthSessions Uuid) :
    Except SqlxError (Option (AuthSession Role Uuid)) × AuthSessions Uuid :=
  match parseId sessionId with
  | .error e => (.error e, table)
  | .ok id =>
    let (row, table) := ping now fresh pMinutes id table
    (sessionOfOption row, table)

def getAuthSession (sessionId : Str) (table : AuthSessions Uuid) :
    Except SqlxError (Option (AuthSession Role Uuid)) := do
  let id ← parseId sessionId
  sessionOfOption (table.find? (·.id = id))

def deleteAuthSession (sessionId : Uuid) (table : AuthSessions Uuid) :
    Bool × AuthSessions Uuid :=
  (0 < table.countP (·.id = sessionId), table.filter (·.id ≠ sessionId))

-- `UPDATE .. SET meta = .. WHERE id = .. AND .. RETURNING ..`. An error of the
-- new value leaves the table as it was.
def updateMetaWhere (id : Uuid) (keep : Option Jsonb → Bool)
    (change : Option Jsonb → Except (Str × Str) (Option Jsonb)) (table : AuthSessions Uuid) :
    Except SqlxError (Option (Row Uuid)) × AuthSessions Uuid :=
  match table.find? fun row => row.id = id ∧ keep row.metadata with
  | none => (.ok none, table)
  | some row =>
    match change row.metadata with
    | .error (code, message) => (.error (.database code message), table)
    | .ok metadata =>
      (.ok (some { row with metadata := metadata }),
        table.map fun other => if other.id = id then { other with metadata := metadata } else other)

-- What the four operations on `meta` have in common.
def updateMeta (sessionId : Str) (keep : Option Jsonb → Bool)
    (change : Option Jsonb → Except (Str × Str) (Option Jsonb)) (table : AuthSessions Uuid) :
    Except SqlxError (Option (Row Uuid)) × AuthSessions Uuid :=
  match parseId sessionId with
  | .error e => (.error e, table)
  | .ok id => updateMetaWhere id keep change table

def updateAuthSessionMeta (sessionId : Str) (metadata : Jsonb) (table : AuthSessions Uuid) :
    Except SqlxError Unit × AuthSessions Uuid :=
  let (answer, table) := updateMeta sessionId (fun _ => true) (fun _ => .ok (some metadata)) table
  (answer.map fun _ => (), table)

-- The row goes through `AuthSession::from_row` after it was written.
def upsertAuthSessionMetaKey (sessionId key : Str) (value : Jsonb)
    (table : AuthSessions Uuid) :
    Except SqlxError (Option (AuthSession Role Uuid)) × AuthSessions Uuid :=
  let (answer, table) := updateMeta sessionId (fun _ => true)
    (fun metadata => ((metadata.getD (.object [])).set key value).map some) table
  (answer.bind sessionOfOption, table)

def compareAndSwapAuthSessionMeta (sessionId key : Str) (expected newValue : Jsonb)
    (table : AuthSessions Uuid) :
    Except SqlxError (Option (AuthSession Role Uuid)) × AuthSessions Uuid :=
  let (answer, table) := updateMeta sessionId
    (fun metadata => metadata.bind (·.get key) = some expected)
    (fun metadata => metadata.mapM (·.set key newValue)) table
  (answer.bind sessionOfOption, table)

def deleteAuthSessionMetaKey (sessionId key : Str) (table : AuthSessions Uuid) :
    Except SqlxError (Option (AuthSession Role Uuid)) × AuthSessions Uuid :=
  let (answer, table) := updateMeta sessionId (fun _ => true)
    (fun metadata => metadata.mapM (·.remove key)) table
  (answer.bind sessionOfOption, table)

end Dal

end Auth

end Saps
