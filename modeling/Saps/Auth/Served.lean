import Saps.Auth.Token.Theorems
import Saps.Auth.Sessions.Row

-- What a request or a login does to the table and its history.
namespace Saps.Auth

open Ping

variable {Uuid : Type} [UuidText Uuid] [Jsonwebtoken]

-- The id a token presents.
def presentedId (config : Config) (token : Str) : Option Uuid :=
  match JwtClaims.decode config token with
  | .error _ => none
  | .ok claims => (UuidText.parse claims.uniqueId).toOption

theorem presentedId_parsed {config : Config} {token : Str} {claims : JwtClaims}
    (hdecode : JwtClaims.decode config token = .ok claims) {id : Uuid}
    (hparse : UuidText.parse claims.uniqueId = Except.ok id) :
    presentedId config token = some id := by
  simp [presentedId, hdecode, hparse, Except.toOption]

theorem presentedId_some {config : Config} {token : Str} {id : Uuid}
    (h : presentedId config token = some id) :
    ∃ claims, JwtClaims.decode config token = .ok claims ∧
      UuidText.parse claims.uniqueId = Except.ok id := by
  unfold presentedId at h
  cases hdecode : JwtClaims.decode config token with
  | error e => simp [hdecode] at h
  | ok claims =>
      refine ⟨claims, rfl, ?_⟩
      cases hparse : (UuidText.parse claims.uniqueId : Except Str Uuid) with
      | error e => simp [hdecode, hparse, Except.toOption] at h
      | ok parsed => simpa [hdecode, hparse, Except.toOption] using h

variable [DecidableEq Uuid]

theorem runAuthExtraction_unpresented (Role : Type) [UserRole Role] {config : Config} {token : Str}
    (now : Int) (fresh : Uuid) (table : AuthSessions Uuid)
    (h : (presentedId config token : Option Uuid) = none) :
    ∃ e, (runAuthExtraction config .auto now fresh token table : Extraction Role Uuid) =
      ⟨.error e, none, table⟩ := by
  refine runAuthExtraction_unparsed Role ?_
  intro claims hdecode id hparse
  rw [presentedId_parsed hdecode hparse] at h
  cases h

namespace World

-- The history of the ping behind a request, and the table the request left.
def served (world : World Uuid) (config : Config) (now : Int) (fresh : Uuid) (token : Str)
    (table : AuthSessions Uuid) : World Uuid :=
  match presentedId config token with
  | some id => { world.next now (.ping fresh 10 id) with table := table }
  | none => { world with clock := now, table := table }

-- The history of a login, and the table it left.
def loggedIn (world : World Uuid) (now : Int) (id : Uuid) (role : Str)
    (metadata : Option Jsonb) (table : AuthSessions Uuid) : World Uuid :=
  { world.next now (.create id role now now metadata) with table := table }

@[simp] theorem served_clock (world : World Uuid) (config : Config) (now : Int) (fresh : Uuid)
    (token : Str) (table : AuthSessions Uuid) :
    (world.served config now fresh token table).clock = now := by
  unfold served
  split
  · exact next_clock world now _
  · rfl

variable (Role : Type) [UserRole Role]

-- A request with an id is the ping of that id.
theorem served_ping {config : Config} {token : Str} {claims : JwtClaims}
    (hdecode : JwtClaims.decode config token = .ok claims) {id : Uuid}
    (hparse : UuidText.parse claims.uniqueId = Except.ok id) (world : World Uuid) (now : Int)
    (fresh : Uuid) :
    world.served config now fresh token (runAuthExtraction config .auto now fresh token world.table :
      Extraction Role Uuid).table = world.next now (.ping fresh 10 id) := by
  rw [served, presentedId_parsed hdecode hparse, runAuthExtraction_parsed Role hdecode hparse,
    afterPing_table, ← next_ping_table]

-- In any case it is one command.
theorem served_next (config : Config) (world : World Uuid) (now : Int) {fresh : Uuid}
    (hfresh : fresh ∉ world.issued) (token : Str) :
    ∃ command, world.Fresh command ∧
      world.served config now fresh token (runAuthExtraction config .auto now fresh token
        world.table : Extraction Role Uuid).table = world.next now command := by
  cases hpresented : (presentedId config token : Option Uuid) with
  | some id =>
      obtain ⟨claims, hdecode, hparse⟩ := presentedId_some hpresented
      exact ⟨.ping fresh 10 id, hfresh, served_ping Role hdecode hparse world now fresh⟩
  | none =>
      refine ⟨.delete fun _ => false, trivial, ?_⟩
      obtain ⟨e, hfail⟩ := runAuthExtraction_unpresented Role now fresh world.table hpresented
      rw [served, hpresented, hfail]
      simp [next]

end World

end Saps.Auth
