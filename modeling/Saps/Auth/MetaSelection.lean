import Saps.Auth.Containment
import Saps.Auth.Dal

-- The statements that select sessions by what `meta` holds under one or two keys.
namespace Saps.Auth

-- `jsonb_build_object`, where the last of two values for one key is kept.
def jsonbBuildObject (pairs : List (Str × Jsonb)) : Jsonb :=
  .object (pairs.foldl (fun fields pair => Jsonb.setField pair.1 pair.2 fields) [])

-- `meta -> key`.
def Row.metaGet {Uuid : Type} (key : Str) (row : Row Uuid) : Option Jsonb :=
  row.metadata.bind (·.get key)

-- `meta @> jsonb_build_object(..)`. A `NULL` meta does not match.
def Row.metaContains {Uuid : Type} (pairs : List (Str × Jsonb)) (row : Row Uuid) : Bool :=
  row.metadata.any (·.contains (jsonbBuildObject pairs))

namespace Dal

variable {Role Uuid : Type} [UserRole Role]

-- `SELECT .. WHERE ..`, with `AuthSession::from_row` for each row.
def selectWhere (matched : Row Uuid → Bool) (table : AuthSessions Uuid) :
    Except SqlxError (List (AuthSession Role Uuid)) :=
  (table.filter matched).mapM sessionOf

-- `DELETE .. WHERE ..`, with its row count.
def deleteWhere (matched : Row Uuid → Bool) (table : AuthSessions Uuid) :
    Nat × AuthSessions Uuid :=
  (table.countP matched, table.filter fun row => !matched row)

-- The row as the statement leaves it.
def changedRow (matched : Row Uuid → Bool)
    (change : Option Jsonb → Except (Str × Str) (Option Jsonb)) (row : Row Uuid) :
    Except (Str × Str) (Row Uuid) :=
  if matched row then (change row.metadata).map fun metadata => { row with metadata := metadata }
  else .ok row

-- `UPDATE .. SET meta = .. WHERE ..`, with its row count. An error in one row
-- leaves every row as it was.
def updateWhere (matched : Row Uuid → Bool)
    (change : Option Jsonb → Except (Str × Str) (Option Jsonb)) (table : AuthSessions Uuid) :
    Except SqlxError Nat × AuthSessions Uuid :=
  match table.mapM (changedRow matched change) with
  | .ok changed => (.ok (table.countP matched), changed)
  | .error (code, message) => (.error (.database code message), table)

-- `jsonb_set(COALESCE(meta, '{}'), ARRAY[key], value, true)`.
def upsertMeta (key : Str) (value : Jsonb) (metadata : Option Jsonb) :
    Except (Str × Str) (Option Jsonb) :=
  ((metadata.getD (.object [])).set key value).map some

def getAuthSessionsByMetaKey (key : Str) (value : Jsonb) (table : AuthSessions Uuid) :
    Except SqlxError (List (AuthSession Role Uuid)) :=
  selectWhere (Row.metaContains [(key, value)]) table

def getAuthSessionsByMetaKeyPair (key1 : Str) (value1 : Jsonb) (key2 : Str) (value2 : Jsonb)
    (table : AuthSessions Uuid) : Except SqlxError (List (AuthSession Role Uuid)) :=
  selectWhere (Row.metaContains [(key1, value1), (key2, value2)]) table

def upsertAuthSessionsMetaKeyByMeta (matchKey : Str) (matchValue : Jsonb) (upsertKey : Str)
    (upsertValue : Jsonb) (table : AuthSessions Uuid) :
    Except SqlxError Nat × AuthSessions Uuid :=
  updateWhere (Row.metaContains [(matchKey, matchValue)]) (upsertMeta upsertKey upsertValue) table

def upsertAuthSessionsMetaKeyByMetaKeyPair (matchKey1 : Str) (matchValue1 : Jsonb)
    (matchKey2 : Str) (matchValue2 : Jsonb) (upsertKey : Str) (upsertValue : Jsonb)
    (table : AuthSessions Uuid) : Except SqlxError Nat × AuthSessions Uuid :=
  updateWhere (Row.metaContains [(matchKey1, matchValue1), (matchKey2, matchValue2)])
    (upsertMeta upsertKey upsertValue) table

def deleteAuthSessionsByMetaKey (key : Str) (value : Jsonb) (table : AuthSessions Uuid) :
    Nat × AuthSessions Uuid :=
  deleteWhere (Row.metaContains [(key, value)]) table

def deleteAuthSessionsByMetaKeyPair (key1 : Str) (value1 : Jsonb) (key2 : Str) (value2 : Jsonb)
    (table : AuthSessions Uuid) : Nat × AuthSessions Uuid :=
  deleteWhere (Row.metaContains [(key1, value1), (key2, value2)]) table

end Dal

namespace MetaSelection

variable {Uuid : Type}

-- What the statements are documented to select.
def metaEquals (key : Str) (value : Jsonb) (row : Row Uuid) : Bool :=
  row.metaGet key = some value

def pairEquals (key1 : Str) (value1 : Jsonb) (key2 : Str) (value2 : Jsonb) (row : Row Uuid) :
    Bool :=
  metaEquals key1 value1 row && metaEquals key2 value2 row

-- The row with `key` of its meta set, where the meta is an object.
def withKey (key : Str) (value : Jsonb) (row : Row Uuid) : Row Uuid :=
  match row.metadata with
  | some (.object fields) =>
    { row with metadata := some (.object (Jsonb.setField key value fields)) }
  | _ => row

-- The three statements act on the rows that are documented, and on no others.
structure Exact (Role : Type) [UserRole Role] (documented : Row Uuid → Bool)
    (get : AuthSessions Uuid → Except SqlxError (List (AuthSession Role Uuid)))
    (upsert : Str → Jsonb → AuthSessions Uuid → Except SqlxError Nat × AuthSessions Uuid)
    (delete : AuthSessions Uuid → Nat × AuthSessions Uuid) (table : AuthSessions Uuid) : Prop where
  returned : get table = (table.filter documented).mapM Dal.sessionOf
  updated : ∀ key value, upsert key value table =
    (.ok (table.countP documented),
      table.map fun row => if documented row then withKey key value row else row)
  deleted : delete table = (table.countP documented, table.filter fun row => !documented row)

def ExactByKey (Role : Type) [UserRole Role] (key : Str) (value : Jsonb)
    (table : AuthSessions Uuid) : Prop :=
  Exact Role (metaEquals key value) (Dal.getAuthSessionsByMetaKey key value)
    (Dal.upsertAuthSessionsMetaKeyByMeta key value) (Dal.deleteAuthSessionsByMetaKey key value)
    table

def ExactByPair (Role : Type) [UserRole Role] (key1 : Str) (value1 : Jsonb) (key2 : Str)
    (value2 : Jsonb) (table : AuthSessions Uuid) : Prop :=
  Exact Role (pairEquals key1 value1 key2 value2)
    (Dal.getAuthSessionsByMetaKeyPair key1 value1 key2 value2)
    (Dal.upsertAuthSessionsMetaKeyByMetaKeyPair key1 value1 key2 value2)
    (Dal.deleteAuthSessionsByMetaKeyPair key1 value1 key2 value2) table

-- A value as a caller can pass it or a row can hold it.
abbrev Value := { json : Jsonb // json.Valid }

-- A table as the database can hold it.
structure Stored (table : AuthSessions Uuid) : Prop where
  ids : (table.map Row.id).Nodup
  metas : ∀ row ∈ table, ∀ json ∈ row.metadata, json.Valid

end MetaSelection

end Saps.Auth
