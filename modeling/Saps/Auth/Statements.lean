import Saps.Auth.Model
import Saps.Lib.Transition
import Mathlib.Logic.Function.Basic

-- `saps.ping` under READ COMMITTED, one SQL statement at a time.
namespace Saps.Auth.Statements

-- One call, all of whose statements see one `NOW()`. `fresh` is what its
-- `gen_random_uuid()` returns.
structure Call (Uuid : Type) where
  now : Int
  fresh : Uuid
  pMinutes : Int

inductive Change where
  | renew
  | rotate
  deriving DecidableEq

-- The statements that write.
inductive Write (Uuid : Type) where
  | delete
  | update (id : Uuid) (change : Change)

-- Where a call stands. A writing statement has found its rows when it started
-- and goes through them one after the other.
inductive Pc (Uuid : Type) where
  | write (write : Write Uuid)
  | writing (write : Write Uuid) (targets : List Nat) (written : List (Option (Row Uuid)))
  | select
  | returning (answer : Option (Row Uuid))
  | done (answer : Option (Row Uuid))

-- The rows as last committed, by their place in the table, and the rows that a
-- call has changed and not committed, with the call and the new version.
structure Db (n : Nat) (Uuid : Type) where
  rows : Nat → Option (Row Uuid)
  locks : Nat → Option (Fin n × Option (Row Uuid))
  pc : Fin n → Pc Uuid

variable {n : Nat} {Uuid : Type} [DecidableEq Uuid]

def Change.apply (call : Call Uuid) : Change → Row Uuid → Row Uuid
  | .renew => Ping.renew call.now
  | .rotate => Ping.rotate call.now call.fresh

namespace Write

def Where (sessionId : Uuid) (call : Call Uuid) : Write Uuid → Row Uuid → Prop
  | .delete, row => Ping.gone call.now call.pMinutes sessionId row = true
  | .update id _, row => row.id = id

def version (call : Call Uuid) : Write Uuid → Row Uuid → Option (Row Uuid)
  | .delete, _ => none
  | .update _ change, row => some (change.apply call row)

-- `ROW_COUNT` decides after the `DELETE`. After an `UPDATE` the variable has
-- the first row that was returned, and NULL when there was none.
def after (written : List (Option (Row Uuid))) : Write Uuid → Pc Uuid
  | .delete => if 0 < written.length then .returning none else .select
  | .update _ _ => .returning written.head?.join

end Write

open Ping in
-- What the function does with the row that the `SELECT` found.
def afterSelect (sessionId : Uuid) (call : Call Uuid) (session : Row Uuid) : Pc Uuid :=
  if IsGrace sessionId session then
    if Lapsed call.now session then .returning none
    else .write (.update session.id .renew)
  else if Due call.now session then .write (.update sessionId .rotate)
  else .write (.update sessionId .renew)

-- The rows a statement finds when it starts, in the order of its scan.
structure Targets (rows : Nat → Option (Row Uuid)) (find : Row Uuid → Prop)
    (targets : List Nat) : Prop where
  nodup : targets.Nodup
  mem_iff : ∀ place, place ∈ targets ↔ ∃ row, rows place = some row ∧ find row

namespace Db

def setPc (db : Db n Uuid) (i : Fin n) (pc : Pc Uuid) : Db n Uuid :=
  { db with pc := Function.update db.pc i pc }

-- The function is over and so is its transaction.
def commit (db : Db n Uuid) (i : Fin n) (answer : Option (Row Uuid)) : Db n Uuid where
  rows place :=
    match db.locks place with
    | some (holder, version) => if holder = i then version else db.rows place
    | none => db.rows place
  locks place :=
    match db.locks place with
    | some (holder, version) => if holder = i then none else some (holder, version)
    | none => none
  pc := Function.update db.pc i (.done answer)

end Db

-- One step of call `i`. A row that another call has changed is waited for, and
-- its newest version has to meet the `WHERE` once more.
inductive Step (sessionId : Uuid) (calls : Fin n → Call Uuid) (before : Db n Uuid) :
    Fin n → Db n Uuid → Prop
  | start (i : Fin n) (write : Write Uuid) (targets : List Nat)
      (hpc : before.pc i = .write write)
      (htargets : Targets before.rows (write.Where sessionId (calls i)) targets) :
      Step sessionId calls before i (before.setPc i (.writing write targets []))
  | hit (i : Fin n) (write : Write Uuid) (place : Nat) (targets : List Nat)
      (written : List (Option (Row Uuid))) (row : Row Uuid)
      (hpc : before.pc i = .writing write (place :: targets) written)
      (hlock : before.locks place = none) (hrow : before.rows place = some row)
      (hwhere : write.Where sessionId (calls i) row) :
      Step sessionId calls before i
        { before.setPc i (.writing write targets (written ++ [write.version (calls i) row])) with
          locks := Function.update before.locks place (some (i, write.version (calls i) row)) }
  | skip (i : Fin n) (write : Write Uuid) (place : Nat) (targets : List Nat)
      (written : List (Option (Row Uuid)))
      (hpc : before.pc i = .writing write (place :: targets) written)
      (hlock : before.locks place = none)
      (hskip : ∀ row, before.rows place = some row → ¬write.Where sessionId (calls i) row) :
      Step sessionId calls before i (before.setPc i (.writing write targets written))
  | finish (i : Fin n) (write : Write Uuid) (written : List (Option (Row Uuid)))
      (hpc : before.pc i = .writing write [] written) :
      Step sessionId calls before i (before.setPc i (write.after written))
  | select (i : Fin n) (place : Nat) (session : Row Uuid) (hpc : before.pc i = .select)
      (hrow : before.rows place = some session) (hmatches : Ping.Matches sessionId session) :
      Step sessionId calls before i (before.setPc i (afterSelect sessionId (calls i) session))
  | selectNone (i : Fin n) (hpc : before.pc i = .select)
      (hnone : ∀ place row, before.rows place = some row → ¬Ping.Matches sessionId row) :
      Step sessionId calls before i (before.setPc i (.returning none))
  | commit (i : Fin n) (answer : Option (Row Uuid)) (hpc : before.pc i = .returning answer) :
      Step sessionId calls before i (before.commit i answer)

-- Every call has been sent and none has begun.
def initial (table : AuthSessions Uuid) : Db n Uuid where
  rows place := table[place]?
  locks _ := none
  pc _ := .write .delete

-- Every call comes back, with the session, and one of them at most rotated it.
structure Served (calls : Fin n → Call Uuid) (row : Row Uuid) (trace : List (Fin n))
    (finish : Db n Uuid) : Prop where
  answered : ∀ i answer, finish.pc i = .done answer → ∃ session, answer = some session ∧
    (session.id = row.id ∨ session.id = (calls i).fresh)
  once : ∀ i j left right, finish.pc i = .done (some left) → finish.pc j = .done (some right) →
    left.id = (calls i).fresh → right.id = (calls j).fresh → i = j
  bounded : trace.length ≤ n * 7
  ended : (∀ i after, ¬Step row.id calls finish i after) → ∀ i, ∃ answer,
    finish.pc i = .done answer

end Saps.Auth.Statements
