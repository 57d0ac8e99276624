import Saps.Auth.Model
import Saps.Lib.Transition
import Mathlib.Logic.Function.Basic

-- The session table over time: every statement is one atomic step of one clock.
namespace Saps.Auth

variable {Uuid : Type} [DecidableEq Uuid]

-- One rotation: the session, named by the id it was created with, and the ids.
structure Rotation (Uuid : Type) where
  session : Uuid
  time : Int
  old : Uuid
  new : Uuid
  deriving DecidableEq

-- The table with its history: which ids there ever were, which session each
-- one belonged to, and the rotations, the latest first.
structure World (Uuid : Type) where
  clock : Int
  table : AuthSessions Uuid
  issued : List Uuid
  origin : Uuid → Uuid
  rotations : List (Rotation Uuid)

inductive Command (Uuid : Type) where
  | create (id : Uuid) (role : Str) (dateCreated lastInteracted : Int)
      (metadata : Option Jsonb)
  | ping (fresh : Uuid) (pMinutes : Int) (sessionId : Uuid)
  | delete (gone : Row Uuid → Bool)
  | updateMeta (metadata : Row Uuid → Option Jsonb)

namespace World

def empty (clock : Int) : World Uuid :=
  ⟨clock, [], [], id, []⟩

-- The ids that are drawn are new.
def Fresh (world : World Uuid) : Command Uuid → Prop
  | .create id _ _ _ _ => id ∉ world.issued
  | .ping fresh _ _ => fresh ∉ world.issued
  | .delete _ => True
  | .updateMeta _ => True

-- What a ping that answered `session` adds to the history.
def record (world : World Uuid) (now : Int) (fresh sessionId : Uuid)
    (session : Option (Row Uuid)) : World Uuid :=
  if session.map Row.id = some fresh then
    { world with
      issued := fresh :: world.issued
      origin := Function.update world.origin fresh (world.origin sessionId)
      rotations := ⟨world.origin sessionId, now, sessionId, fresh⟩ :: world.rotations }
  else world

def next (world : World Uuid) (now : Int) : Command Uuid → World Uuid
  | .create id role dateCreated lastInteracted metadata =>
    { world with
      clock := now
      table := createAuthSession id role dateCreated lastInteracted metadata world.table
      issued := id :: world.issued
      origin := Function.update world.origin id id }
  | .ping fresh pMinutes sessionId =>
    let (session, table) := Auth.ping now fresh pMinutes sessionId world.table
    record { world with clock := now, table := table } now fresh sessionId session
  | .delete gone => { world with clock := now, table := world.table.filter (! gone ·) }
  | .updateMeta metadata =>
    { world with
      clock := now
      table := world.table.map fun row => { row with metadata := metadata row } }

def Step (before : World Uuid) (label : Int × Command Uuid) (after : World Uuid) : Prop :=
  before.clock ≤ label.1 ∧ before.Fresh label.2 ∧ after = before.next label.1 label.2

end World

end Saps.Auth
