import Saps.Auth.Requests

-- The session that a token carries along, while its row goes on changing.
namespace Saps.Auth

variable {Role Uuid α : Type}

namespace AuthSession

def metaGet (key : Str) (session : AuthSession Role Uuid) : Option Jsonb :=
  session.metadata.bind (·.get key)

def metaGetStrict (key : Str) (session : AuthSession Role Uuid) : Except SapsError Jsonb :=
  match session.metaGet key with
  | some value => .ok value
  | none => .error (.notFound ("meta key not found: ".toList ++ key))

-- `decode` is `T::deserialize`.
def decodeMeta (decode : Jsonb → Except Str α) (key : Str) (value : Jsonb) : Except SapsError α :=
  (decode value).mapError fun e =>
    .badRequest ("failed to deserialize meta key ".toList ++ key ++ ": ".toList ++ e)

def metaGetTyped (decode : Jsonb → Except Str α) (key : Str) (session : AuthSession Role Uuid) :
    Except SapsError (Option α) :=
  match session.metaGet key with
  | some value => (decodeMeta decode key value).map some
  | none => .ok none

def metaGetTypedStrict (decode : Jsonb → Except Str α) (key : Str)
    (session : AuthSession Role Uuid) : Except SapsError α :=
  (session.metaGetStrict key).bind (decodeMeta decode key)

end AuthSession

section

variable [UserRole Role] [UuidText Uuid] [DecidableEq Uuid]

def Dal.getAuthSessionStrict (sessionId : Str) (table : AuthSessions Uuid) :
    Except SqlxError (AuthSession Role Uuid) := do
  let id ← parseId sessionId
  match table.find? (·.id = id) with
  | some row => sessionOf row
  | none => .error .rowNotFound

namespace HeaderToken

def getAuthSession (token : HeaderToken Role Uuid) : Except SapsError (AuthSession Role Uuid) :=
  match token.authSession with
  | some session => .ok session
  | none => .error (.badRequest "auth session not present on token".toList)

-- What `refresh_auth_session` and the getters have in common: the row is read
-- again, kept, and `read` from the token.
def refreshing (read : HeaderToken Role Uuid → Except SapsError α) (token : HeaderToken Role Uuid)
    (table : AuthSessions Uuid) : Outcome α Role Uuid :=
  match Dal.getAuthSessionStrict token.uniqueId table with
  | .error e => ⟨.error (.fromSqlx e), token, table⟩
  | .ok session =>
    let token := { token with authSession := some session }
    ⟨read token, token, table⟩

def refreshAuthSession (token : HeaderToken Role Uuid) (table : AuthSessions Uuid) :
    Outcome (AuthSession Role Uuid) Role Uuid :=
  refreshing getAuthSession token table

-- The owned getters answer the same.
def metaGet (key : Str) (token : HeaderToken Role Uuid) (table : AuthSessions Uuid) :
    Outcome (Option Jsonb) Role Uuid :=
  refreshing (fun token => token.getAuthSession.map (AuthSession.metaGet key)) token table

def metaGetStrict (key : Str) (token : HeaderToken Role Uuid) (table : AuthSessions Uuid) :
    Outcome Jsonb Role Uuid :=
  refreshing (fun token => token.getAuthSession.bind (AuthSession.metaGetStrict key)) token table

def metaGetTyped (decode : Jsonb → Except Str α) (key : Str) (token : HeaderToken Role Uuid)
    (table : AuthSessions Uuid) : Outcome (Option α) Role Uuid :=
  refreshing (fun token => token.getAuthSession.bind (AuthSession.metaGetTyped decode key))
    token table

def metaGetTypedStrict (decode : Jsonb → Except Str α) (key : Str)
    (token : HeaderToken Role Uuid) (table : AuthSessions Uuid) : Outcome α Role Uuid :=
  refreshing (fun token => token.getAuthSession.bind (AuthSession.metaGetTypedStrict decode key))
    token table

end HeaderToken

end

namespace MetaCache

-- What a handler calls on its token. The getters and `refresh_auth_session` are
-- `refreshing` of what they read.
inductive Call (Role Uuid : Type) : Type 1 where
  | operate (operation : Operation)
  | refreshing {α : Type} (read : HeaderToken Role Uuid → Except SapsError α)

namespace Call

-- The statement of the call reads the row again or changes it, given its meta.
def touches (metadata : Option Jsonb) : Call Role Uuid → Bool
  | operate .delete => false
  | operate (.compareAndSwap key expected newValue) =>
    metadata.bind (·.get key) = some expected &&
      (Operation.newMeta (.compareAndSwap key expected newValue) metadata).isOk
  | operate operation => (operation.newMeta metadata).isOk
  | refreshing _ => true

variable [UserRole Role] [UuidText Uuid] [DecidableEq Uuid]

-- The token that the call leaves when it returns, and the table that its
-- statement leaves at once.
def run (call : Call Role Uuid) (token : HeaderToken Role Uuid) (table : AuthSessions Uuid) :
    HeaderToken Role Uuid × AuthSessions Uuid :=
  match call with
  | operate operation =>
    let outcome := operation.run token table
    (outcome.token, outcome.table)
  | refreshing read =>
    let outcome := token.refreshing read table
    (outcome.token, outcome.table)

end Call

-- A call whose statement is done and whose answer has not been looked at. `left`
-- is what the row held right after a statement that touched it.
structure Flight (Role Uuid : Type) where
  token : HeaderToken Role Uuid
  left : Option (Option Jsonb)

-- One token and the table. `held` are the metas that the session's row has had,
-- and `settled` is the `left` of the last call, until the next one.
structure State (Role Uuid : Type) where
  table : AuthSessions Uuid
  token : HeaderToken Role Uuid
  flight : Option (Flight Role Uuid)
  held : List (Option Jsonb)
  settled : Option (Option Jsonb)

-- What the others do to the table: delete rows or change metas.
inductive Change (Uuid : Type) where
  | delete (gone : Row Uuid → Bool)
  | updateMeta (metadata : Row Uuid → Option Jsonb)

def Change.apply (table : AuthSessions Uuid) : Change Uuid → AuthSessions Uuid
  | delete gone => table.filter fun row => !gone row
  | updateMeta metadata => table.map fun row => { row with metadata := metadata row }

inductive Label (Role Uuid : Type) : Type 1 where
  | issue (call : Call Role Uuid)
  | resume
  | others (change : Change Uuid)

variable [DecidableEq Uuid]

-- What the row of the session holds.
def rowMeta (id : Uuid) (table : AuthSessions Uuid) : Option (Option Jsonb) :=
  (table.find? (·.id = id)).map Row.metadata

-- The next table, with its meta among those that the row has had.
def State.withTable (id : Uuid) (table : AuthSessions Uuid) (state : State Role Uuid) :
    State Role Uuid :=
  { state with table := table, held := (rowMeta id table).toList ++ state.held }

-- What a statement that touched the row left in it.
def leftBy (id : Uuid) (call : Call Role Uuid) (before after : AuthSessions Uuid) :
    Option (Option Jsonb) :=
  (rowMeta id before).bind fun metadata => if call.touches metadata then rowMeta id after else none

variable [UserRole Role] [UuidText Uuid]

def State.issued (id : Uuid) (call : Call Role Uuid) (state : State Role Uuid) :
    State Role Uuid :=
  let (token, table) := call.run state.token state.table
  { state.withTable id table with
    flight := some ⟨token, leftBy id call state.table table⟩
    settled := none }

inductive Step (id : Uuid) (before : State Role Uuid) :
    Label Role Uuid → State Role Uuid → Prop
  | issue (call : Call Role Uuid) (hidle : before.flight = none) :
      Step id before (.issue call) (before.issued id call)
  | resume (flight : Flight Role Uuid) (hflight : before.flight = some flight) :
      Step id before .resume
        { before with token := flight.token, flight := none, settled := flight.left }
  | others (change : Change Uuid) :
      Step id before (.others change) (before.withTable id (change.apply before.table))

-- A token that has just been loaded from its row.
structure Loaded (id : Uuid) (state : State Role Uuid) : Prop where
  ids : (state.table.map Row.id).Nodup
  uniqueId : state.token.uniqueId = UuidText.toStr id
  loaded : ∃ row ∈ state.table, row.id = id ∧ state.held = [row.metadata] ∧
    ∃ session, Dal.sessionOf row = .ok session ∧ state.token.authSession = some session
  idle : state.flight = none
  unsettled : state.settled = none

-- The cached meta is one that the row has had, and right after a call that
-- touched the row it is the one which that call left.
structure Coherent (state : State Role Uuid) : Prop where
  cached : ∃ session, state.token.authSession = some session ∧ session.metadata ∈ state.held
  settled : ∀ metadata, state.settled = some metadata →
    ∃ session, state.token.authSession = some session ∧ session.metadata = metadata

-- `update_auth_session_meta` is called while the row is there, or with a meta that
-- the row has had.
def Meets (id : Uuid) (before : State Role Uuid) : Label Role Uuid → Prop
  | .issue (.operate (.updateMeta metadata)) =>
    (∃ row ∈ before.table, row.id = id) ∨ some metadata ∈ before.held
  | _ => True

end MetaCache

end Saps.Auth
