import Saps.Files.BrowserState

-- What the callers of the browser session know: which calls they made, in which
-- order, and what each of them answered.
namespace Saps.Files.BrowserState

variable {Doc : Type} [Yrs Doc]

-- An edit or an update that was answered.
inductive Done (Doc : Type) [Yrs Doc] where
  | wrote (edits : List Edit) (result : Result)
  | merged (update : Yrs.Update Doc) (result : Result)

-- The documents that a seed may have become. What was accepted is in them, and of
-- what failed a front of the edits, or the update or nothing.
inductive Admits (seed : Doc) : List (Done Doc) → Doc → Prop
  | seed : Admits seed [] seed
  | wrote {dones : List (Done Doc)} {doc : Doc} (rest : Admits seed dones doc)
      {made edits : List Edit} {result : Result} (hmade : made <+: edits)
      (hall : result = .ok () → made = edits) :
      Admits seed (dones ++ [.wrote edits result]) (Edit.applyAll doc made)
  | merged {dones : List (Done Doc)} {doc after : Doc} (rest : Admits seed dones doc)
      {update : Yrs.Update Doc} (hafter : Yrs.applyUpdate doc update = .ok after)
      (result : Result) : Admits seed (dones ++ [.merged update result]) after
  | refused {dones : List (Done Doc)} {doc : Doc} (rest : Admits seed dones doc)
      (update : Yrs.Update Doc) (error : FileError) :
      Admits seed (dones ++ [.merged update (.error error)]) doc

-- The seed of an insert and what was answered since.
structure Entry (Doc : Type) [Yrs Doc] where
  seed : Doc
  dones : List (Done Doc)

-- `begun` is when a number was last given to a call, `changed` when a path was last
-- inserted, removed or wiped. A path that has an entry is inserted and not removed.
structure Ledger (Doc : Type) [Yrs Doc] where
  clock : Nat
  begun : Nat → Nat
  calls : Nat → Option (Call Doc)
  changed : Str → Nat
  history : Str → Option (Entry Doc)

namespace Ledger

def new : Ledger Doc :=
  ⟨0, fun _ => 0, fun _ => none, fun _ => 0, fun _ => none⟩

def tick (ledger : Ledger Doc) : Ledger Doc :=
  { ledger with clock := ledger.clock + 1 }

def change (path : Str) (entry : Option (Entry Doc)) (ledger : Ledger Doc) : Ledger Doc :=
  { ledger with
    changed := Function.update ledger.changed path ledger.clock
    history := Function.update ledger.history path entry }

def wipe (ledger : Ledger Doc) : Ledger Doc :=
  { ledger with changed := fun _ => ledger.clock, history := fun _ => none }

def begin (id : Nat) (call : Call Doc) (ledger : Ledger Doc) : Ledger Doc :=
  { ledger with
    begun := Function.update ledger.begun id ledger.clock
    calls := Function.update ledger.calls id (some call) }

def did (path : Str) (done : Done Doc) (ledger : Ledger Doc) : Ledger Doc :=
  { ledger with
    history := Function.update ledger.history path
      ((ledger.history path).map fun entry => { entry with dones := entry.dones ++ [done] }) }

def inserted (path : Str) (seed : Except FileError (MemFile Doc)) (result : Result)
    (ledger : Ledger Doc) : Ledger Doc :=
  match result, seed with
  | .ok (), .ok file => ledger.change path (some ⟨file.doc, []⟩)
  | _, _ => ledger

-- A call has answered.
def completed (call : Call Doc) (result : Result) (ledger : Ledger Doc) : Ledger Doc :=
  match call with
  | .insertFileFromState path state =>
    ledger.inserted path (AsyncMemFile.fromState (Path.new path) state) result
  | .insertFileFromString path contents =>
    ledger.inserted path (.ok (MemFile.fromString (Path.new path) contents)) result
  | .writeTransactionToFile path transaction =>
    ledger.did path (.wrote transaction.edits result)
  | .applyUpdateToFile path update => ledger.did path (.merged update result)
  | .flushAll => ledger

def answered (id : Nat) (result : Option Result) (ledger : Ledger Doc) : Ledger Doc :=
  match result, ledger.calls id with
  | some result, some call => ledger.completed call result
  | _, _ => ledger

def next (ledger : Ledger Doc) : Label Doc → Ledger Doc
  | .start id call result => ((ledger.begin id call).answered id result).tick
  | .resume id _ result => (ledger.answered id result).tick
  | .removeFile path => (ledger.change path none).tick
  | .wipeState => ledger.wipe.tick
  | .readFile _ _ => ledger.tick

end Ledger

-- The session, with the ledger beside it.
structure Observed (Doc : Type) [Yrs Doc] where
  state : State Doc
  ledger : Ledger Doc

def Observed.new (configured : Bool) : Observed Doc :=
  ⟨⟨configured, .new, fun _ => none⟩, .new⟩

structure Moves (before : Observed Doc) (label : Label Doc) (after : Observed Doc) : Prop where
  step : Step before.state label after.state
  ledger : after.ledger = before.ledger.next label

-- No step undoes what another one has done since it was begun, and no file that is
-- inserted and not removed is said not to be open. The words of `yrs` about an update
-- to an open buffer are not such an answer.
def Sound (before : Observed Doc) (label : Label Doc) (after : Observed Doc) : Prop :=
  match label with
  | .start _ (.writeTransactionToFile path _) result =>
    result = some (.error (notOpen path "apply a transaction to")) →
      before.ledger.history path = none
  | .start _ (.applyUpdateToFile path update) result =>
    result = some (.error (notOpen path "apply an update to")) →
      before.ledger.history path = none ∨
        ∃ file, before.state.files.lookup path = some file ∧
          AsyncMemFile.applyUpdate file update =
            .error (notOpen path "apply an update to")
  | .resume id _ _ =>
    ∀ path, before.ledger.begun id < before.ledger.changed path →
      after.state.files.lookup path = before.state.files.lookup path
  | .readFile path contents => contents = none → before.ledger.history path = none
  | _ => True

-- The call has the buffer of the path.
def Suspended.Holds (path : Str) : Suspended Doc → Prop
  | .inserting _ _ => False
  | .writing own _ _ => path = own
  | .merging own _ => path = own
  | .flushing taken _ _ => (taken.lookup path).isSome

def State.Held (state : State Doc) (id : Nat) (path : Str) : Prop :=
  ∃ call, state.calls id = some call ∧ call.Holds path

def Admitted (history : Str → Option (Entry Doc)) (path : Str) (doc : Doc) : Prop :=
  ∃ entry, history path = some entry ∧ Admits entry.seed entry.dones doc

-- What is in the map has lost nothing that was accepted, and what is not there was
-- removed or is with a call.
structure Kept (observed : Observed Doc) : Prop where
  admitted : ∀ path file, observed.state.files.lookup path = some file →
    Admitted observed.ledger.history path file.doc
  present : ∀ path, observed.ledger.history path ≠ none →
    (∃ file, observed.state.files.lookup path = some file) ∨
      ∃ id, observed.state.Held id path

-- A file is edited, read, removed and wiped when no call has its buffer, and an insert
-- ends then too, unless its path was inserted, removed or wiped since it was begun.
def Undisturbed (before : Observed Doc) : Label Doc → Prop
  | .start _ (.writeTransactionToFile path _) _ => ∀ id, ¬ before.state.Held id path
  | .start _ (.applyUpdateToFile path _) _ => ∀ id, ¬ before.state.Held id path
  | .resume id (.ok ()) _ =>
    ∀ path file, before.state.calls id = some (.inserting path file) →
      (∀ other, ¬ before.state.Held other path) ∧
        before.ledger.changed path ≤ before.ledger.begun id
  | .removeFile path => ∀ id, ¬ before.state.Held id path
  | .wipeState => ∀ id path, ¬ before.state.Held id path
  | .readFile path _ => ∀ id, ¬ before.state.Held id path
  | _ => True

end Saps.Files.BrowserState
