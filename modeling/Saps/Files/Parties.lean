import Saps.Files.Session
import Mathlib.Logic.Function.Basic

-- Several guards over one store, next to others that write to the store itself.
namespace Saps.Files.Parties

open Session (Call)

variable {Doc : Type} [Yrs Doc]

structure State (Doc : Type) where
  guards : Nat → MemFileGuard Doc
  store : BlockingMemIo

def State.session (state : State Doc) (party : Nat) : Session.State Doc :=
  ⟨state.guards party, state.store⟩

-- What a party does through its guard. Dropping the guard leaves a new one.
inductive Command where
  | call (command : Call)
  | loadAll (paths : List (Path .file))
  | drop

def Command.run (session : Session.State Doc) : Command → Session.State Doc
  | .call command => (Session.call session command).2
  | .loadAll paths =>
    let (guard, store) := session.guard.loadAll session.store paths
    ⟨guard, store⟩
  | .drop => ⟨.new, session.guard.drop session.store⟩

inductive Act where
  | guarded (party : Nat) (command : Command)
  | direct

-- A direct write may leave any store behind. What order a guard's maps are
-- iterated in is not known.
inductive Step (before : State Doc) : Act → State Doc → Prop
  | guarded (party : Nat) (command : Command) (session : Session.State Doc)
      (order : Session.Reordered (before.session party) session) :
      Step before (.guarded party command)
        ⟨Function.update before.guards party (command.run session).guard,
          (command.run session).store⟩
  | direct (store : BlockingMemIo) : Step before .direct ⟨before.guards, store⟩

-- The labels of a run carry the state that each step led to.
def Traced (before : State Doc) (label : Act × State Doc) (after : State Doc) : Prop :=
  Step before label.1 after ∧ label.2 = after

-- The calls that edit, overwrite, move or delete a file or put another in its place.
def Command.Edits (key : PathBuf.Key) : Command → Prop
  | .call (.write path _) | .call (.resetFile path _) | .call (.applyTransaction path _)
  | .call (.delete path) => path.key = key
  | .call (.moveFile source target) => source.key = key ∨ target.key = key
  | .call (.copy _ target) => target.key = key
  | .call (.moveFolder source target) => key.startsWith source.key ∨ key.startsWith target.key
  | .call (.copyFolder _ target) => key.startsWith target.key
  | .call (.deleteFolder path) => key.startsWith path.key
  | .call (.read _) | .call (.fileExists _) | .call (.extractPath _ _) | .call (.dropFile _)
  | .call (.dropDir _) | .call .snapshot | .loadAll _ | .drop => False

def Act.Edits (party : Nat) (key : PathBuf.Key) : Act → Prop
  | .guarded actor command => actor = party ∧ command.Edits key
  | .direct => False

-- No other party changes a file while this one holds a buffer of it.
def Undisturbed (party : Nat) (key : PathBuf.Key) (before : State Doc) (act : Act)
    (after : State Doc) : Prop :=
  (∃ command, act = .guarded party command) ∨ (before.guards party).text key = none ∨
    after.store.files.lookup key = before.store.files.lookup key

def start (store : BlockingMemIo) : State Doc :=
  ⟨fun _ => .new, store⟩

-- The states that a run went through, the first one and the last one included.
def states (store : BlockingMemIo) (trace : List (Act × State Doc)) : List (State Doc) :=
  start store :: trace.map Prod.snd

end Saps.Files.Parties
