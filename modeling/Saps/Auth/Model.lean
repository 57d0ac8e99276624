import Saps.Auth.Jsonb

namespace Saps.Auth

-- A `TIMESTAMP` or an `INTERVAL`, in microseconds.
def seconds (count : Int) : Int :=
  count * 1000000

def minutes (count : Int) : Int :=
  seconds (count * 60)

-- A row of `saps.auth_sessions`.
structure Row (Uuid : Type) where
  id : Uuid
  oldId : Uuid
  role : Str
  dateCreated : Int
  lastInteracted : Int
  timeMinted : Int
  metadata : Option Jsonb
  deriving DecidableEq

-- The table. No statement of the crate orders its rows.
abbrev AuthSessions (Uuid : Type) := List (Row Uuid)

variable {Uuid : Type} [DecidableEq Uuid]

-- `UPDATE .. WHERE id = .. RETURNING * INTO session_record`: no row leaves NULL.
def updateById (id : Uuid) (change : Row Uuid → Row Uuid) (table : AuthSessions Uuid) :
    Option (Row Uuid) × AuthSessions Uuid :=
  ((table.find? (·.id = id)).map change,
    table.map fun row => if row.id = id then change row else row)

-- The statement of `create_auth_session`, for an id that is not in the table.
def createAuthSession (id : Uuid) (role : Str) (dateCreated lastInteracted : Int)
    (metadata : Option Jsonb) (table : AuthSessions Uuid) : AuthSessions Uuid :=
  ⟨id, id, role, dateCreated, lastInteracted, dateCreated, metadata⟩ :: table

namespace Ping

-- `id = p_session_id OR old_id = p_session_id`.
def Matches (sessionId : Uuid) (row : Row Uuid) : Prop :=
  row.id = sessionId ∨ row.oldId = sessionId

instance (sessionId : Uuid) (row : Row Uuid) : Decidable (Matches sessionId row) :=
  inferInstanceAs (Decidable (_ ∨ _))

def TimedOut (now : Int) (pMinutes : Int) (row : Row Uuid) : Prop :=
  row.lastInteracted < now - minutes pMinutes

instance (now : Int) (pMinutes : Int) (row : Row Uuid) :
    Decidable (TimedOut now pMinutes row) :=
  inferInstanceAs (Decidable (_ < _))

-- The `WHERE` of the `DELETE`.
def gone (now : Int) (pMinutes : Int) (sessionId : Uuid) (row : Row Uuid) : Bool :=
  Matches sessionId row ∧ TimedOut now pMinutes row

-- The `DELETE`, with its row count.
def deleteTimedOut (now : Int) (pMinutes : Int) (sessionId : Uuid)
    (table : AuthSessions Uuid) : Nat × AuthSessions Uuid :=
  (table.countP (gone now pMinutes sessionId), table.filter (! gone now pMinutes sessionId ·))

-- The `SELECT .. LIMIT 1`.
def select (sessionId : Uuid) (table : AuthSessions Uuid) : Option (Row Uuid) :=
  table.find? (Matches sessionId ·)

-- `SET last_interacted = NOW()`.
def renew (now : Int) (row : Row Uuid) : Row Uuid :=
  { row with lastInteracted := now }

-- `SET old_id = id, id = gen_random_uuid(), ..`.
def rotate (now : Int) (fresh : Uuid) (row : Row Uuid) : Row Uuid :=
  { row with
    oldId := row.id, id := fresh, dateCreated := now, lastInteracted := now, timeMinted := now }

-- The caller used the id that the latest rotation replaced.
def IsGrace (sessionId : Uuid) (session : Row Uuid) : Prop :=
  session.id ≠ sessionId ∧ session.oldId = sessionId

instance (sessionId : Uuid) (session : Row Uuid) : Decidable (IsGrace sessionId session) :=
  inferInstanceAs (Decidable (_ ∧ _))

-- The grace period is over.
def Lapsed (now : Int) (session : Row Uuid) : Prop :=
  session.timeMinted < now - seconds 10

instance (now : Int) (session : Row Uuid) : Decidable (Lapsed now session) :=
  inferInstanceAs (Decidable (_ < _))

-- The session is old enough to rotate.
def Due (now : Int) (session : Row Uuid) : Prop :=
  session.dateCreated < now - minutes 5

instance (now : Int) (session : Row Uuid) : Decidable (Due now session) :=
  inferInstanceAs (Decidable (_ < _))

end Ping

open Ping in
-- `saps.ping`, run as one atomic step at time `now`. `fresh` is what
-- `gen_random_uuid()` would return.
def ping (now : Int) (fresh : Uuid) (pMinutes : Int) (sessionId : Uuid)
    (table : AuthSessions Uuid) : Option (Row Uuid) × AuthSessions Uuid :=
  let (rowsAffected, table) := deleteTimedOut now pMinutes sessionId table
  if 0 < rowsAffected then (none, table)
  else
    match select sessionId table with
    | none => (none, table)
    | some session =>
      if IsGrace sessionId session then
        if Lapsed now session then (none, table)
        else updateById session.id (renew now) table
      else if Due now session then updateById sessionId (rotate now fresh) table
      else updateById sessionId (renew now) table

end Saps.Auth
