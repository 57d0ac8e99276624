import Saps.Auth.Requests.Theorems
import Saps.Lib.Register

-- What a session holds under one key, through all the ids that the session has.
namespace Saps.Auth

open Register Transition

variable {Role Uuid : Type} [DecidableEq Uuid]

def World.rowOf (world : World Uuid) (session : Uuid) : Option (Row Uuid) :=
  world.table.find? fun row => world.origin row.id = session

def World.metaValue (world : World Uuid) (session : Uuid) (key : Str) : Option Jsonb :=
  (world.rowOf session).bind fun row => row.metadata.bind (·.get key)

namespace MetaRegister

-- The operations that go for the value of a key.
def touches (key : Str) : Operation → Bool
  | .compareAndSwap other _ _ | .upsertMetaKey other _ | .deleteMetaKey other => other = key
  | .updateMeta _ | .delete => true

-- A write is one that leaves another value.
def changed (before after : Option Jsonb) : List (Access Jsonb) :=
  if after = before then [] else [.wrote after]

-- What a request can tell of the register from its operation, the answer and what
-- there was before and after.
def told (key : Str) (before after : Option Jsonb) (operation : Operation)
    (answer : Except SapsError Bool) : List (Access Jsonb) :=
  match operation with
  | .compareAndSwap other expected newValue =>
    if other = key ∧ answer = .ok true then [.swapped expected newValue] else []
  | other => if touches key other then changed before after else []

section

variable [UserRole Role] [UuidText Uuid]

-- The operations of the session's own requests count, a ping where it left no row,
-- and whatever else is done to the session.
def observed (session : Uuid) (key : Str) (before after : Server Role Uuid) :
    Server.Act Role Uuid → List (Access Jsonb)
  | .authenticate _ _ =>
    if (after.world.rowOf session).isSome then []
    else changed (before.world.metaValue session key) none
  | .operate held operation =>
    if held.session = session then
      told key (before.world.metaValue session key) (after.world.metaValue session key) operation
        (operation.run held.token before.world.table).answer
    else []
  | .other _ => changed (before.world.metaValue session key) (after.world.metaValue session key)

structure Watched (Role Uuid : Type) where
  server : Server Role Uuid
  log : List (Access Jsonb)

variable [Jsonwebtoken]

inductive Watch (config : Config) (checkUserRole : Role → Except SapsError Unit) (session : Uuid)
    (key : Str) (before : Watched Role Uuid) :
    Int × Server.Act Role Uuid → Watched Role Uuid → Prop
  | step (label : Int × Server.Act Role Uuid) (after : Server Role Uuid)
      (hstep : Server.Step config checkUserRole before.server label after) :
      Watch config checkUserRole session key before label
        ⟨after, before.log ++ observed session key before.server after label.2⟩

end

end MetaRegister

end Saps.Auth
