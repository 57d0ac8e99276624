import Saps.Tasks.Pool

-- `#[background_task]`: what it makes of a function, and who calls that.
namespace Saps.Tasks

open Auth (Jsonb)

-- `serde` for one type. Errors are their `Debug` texts.
structure Serde (Ty : Type) where
  toValue : Ty → Except Str Jsonb
  fromValue : Jsonb → Except Str Ty
  fromValue_toValue : ∀ arg value, toValue arg = .ok value → fromValue value = .ok arg

-- A typed input. Only a plain identifier is packaged.
inductive FnArg where
  | ident (name : Str) (Ty : Type) (serde : Serde Ty)
  | other (Ty : Type)

namespace FnArg

-- The arguments of a call.
def Args : List FnArg → Type
  | [] => Unit
  | ident _ Ty _ :: inputs => Ty × Args inputs
  | other Ty :: inputs => Ty × Args inputs

-- The variables that the body of the function gets to see.
def Locals : List FnArg → Type
  | [] => Unit
  | ident _ Ty _ :: inputs => Ty × Locals inputs
  | other _ :: inputs => Locals inputs

def locals : (inputs : List FnArg) → Args inputs → Locals inputs
  | [], _ => ()
  | ident _ _ _ :: inputs, (arg, args) => (arg, locals inputs args)
  | other _ :: inputs, (_, args) => locals inputs args

def names : List FnArg → List Str
  | [] => []
  | ident name _ _ :: inputs => name :: names inputs
  | other _ :: inputs => names inputs

-- `generate_package_inputs`. The error is the text of the panic.
def packageInputs : (inputs : List FnArg) → Args inputs → List (Str × Jsonb) →
    Except Str (List (Str × Jsonb))
  | [], _, map => .ok map
  | ident name _ serde :: inputs, (arg, args), map =>
    match serde.toValue arg with
    | .error e =>
      .error ("failed to serialize parameter '".toList ++ name ++ "' to JSON: ".toList ++ e)
    | .ok value => packageInputs inputs args (Jsonb.setField name value map)
  | other _ :: inputs, (_, args), map => packageInputs inputs args map

-- `generate_extract_inputs`.
def extractInputs : (inputs : List FnArg) → Jsonb → Except Str (Locals inputs)
  | [], _ => .ok ()
  | ident name _ serde :: inputs, value =>
    match value.get name with
    | none => .error ("missing parameter '".toList ++ name ++ "'".toList)
    | some field =>
      match serde.fromValue field with
      | .error e =>
        .error ("failed to deserialize parameter '".toList ++ name ++ "': ".toList ++ e)
      | .ok arg =>
        match extractInputs inputs value with
        | .error e => .error e
        | .ok args => .ok (arg, args)
  | other _ :: inputs, value => extractInputs inputs value

end FnArg

-- A function under the attribute. Inputs have different names, and none takes the name
-- of the variable that the core function reads them from.
structure BackgroundTask where
  name : Str
  inputs : List FnArg
  distinct : (FnArg.names inputs).Nodup
  unshadowed : "input_val".toList ∉ FnArg.names inputs

namespace BackgroundTask

-- The interface function, up to the `INSERT`. `fresh` is the id of the task.
def queued {Uuid : Type} (task : BackgroundTask) (fresh : Uuid) (now : Int)
    (args : FnArg.Args task.inputs) : Except Str (QueuedTask Uuid) :=
  (FnArg.packageInputs task.inputs args []).map fun map =>
    QueuedTask.new fresh now task.name (.object map)

-- The core function, up to the body: what the body runs on, or the text of the panic.
def core (task : BackgroundTask) (inputVal : Jsonb) : Except Str (FnArg.Locals task.inputs) :=
  FnArg.extractInputs task.inputs inputVal

end BackgroundTask

-- `TASK_REGISTRY`, by the functions whose cores it holds.
abbrev Registry := Str → Option BackgroundTask

namespace Registry

-- A constructor runs for each function before `main`, in some order.
def register (registry : Registry) (task : BackgroundTask) : Registry :=
  Function.update registry task.name (some task)

def ofTasks (tasks : List BackgroundTask) : Registry :=
  tasks.foldl register fun _ => none

end Registry

-- One call of an interface function that answered `Ok(true)`.
structure Posted (Uuid : Type) where
  id : Uuid
  task : BackgroundTask
  args : FnArg.Args task.inputs

-- One handler that a worker ran: the core it called, on what is left of the arguments.
structure Ran (Uuid : Type) where
  id : Uuid
  task : BackgroundTask
  locals : Except Str (FnArg.Locals task.inputs)

-- The queue with its callers. The latest comes first.
structure Application (Uuid : Type) where
  pool : Pool Uuid
  posted : List (Posted Uuid)
  ran : List (Ran Uuid)

namespace Application

variable {Uuid : Type} [DecidableEq Uuid]

def call (task : BackgroundTask) (args : FnArg.Args task.inputs) (row : QueuedTask Uuid)
    (app : Application Uuid) : Application Uuid :=
  match (insertBackgroundTask row app.pool.table).1 with
  | .ok true => { app with pool := app.pool.insert row, posted := ⟨row.id, task, args⟩ :: app.posted }
  | _ => { app with pool := app.pool.insert row }

-- Step 2 of the cycle finds the core, step 3 calls it on the column `params`.
def run (registry : Registry) (task : QueuedTask Uuid) (app : Application Uuid) :
    List (Ran Uuid) :=
  match registry task.functionName with
  | some handler => ⟨task.id, handler, handler.core task.params⟩ :: app.ran
  | none => app.ran

inductive Act (Uuid : Type) where
  | call (task : BackgroundTask) (args : FnArg.Args task.inputs) (fresh : Uuid)
  | lookUp (worker : Nat)
  | other (act : Pool.Act Uuid)

-- What is left to the pool: no insertion but through a call, and no lookup.
def isOther : Pool.Act Uuid → Bool
  | .insert _ => false
  | .lookUp _ => false
  | _ => true

inductive Step (tasks : List BackgroundTask) (before : Application Uuid) :
    Int × Act Uuid → Application Uuid → Prop
  | call (now : Int) (task : BackgroundTask) (args : FnArg.Args task.inputs) (fresh : Uuid)
      (row : QueuedTask Uuid) (htask : task ∈ tasks)
      (hrow : task.queued fresh now args = .ok row) :
      Step tasks before (now, .call task args fresh) (before.call task args row)
  | lookUp (now : Int) (worker : Nat) (task : QueuedTask Uuid)
      (hworker : before.pool.workers worker = .taken task) :
      Step tasks before (now, .lookUp worker)
        { before with
          pool := before.pool.lookUp (fun name => (Registry.ofTasks tasks name).isSome) worker task
          ran := run (Registry.ofTasks tasks) task before }
  | other (now : Int) (act : Pool.Act Uuid) (after : Pool Uuid) (hother : isOther act = true)
      (hstep : Pool.Step (fun name => (Registry.ofTasks tasks name).isSome) before.pool
        (now, act) after) :
      Step tasks before (now, .other act) { before with pool := after }

-- An empty queue, and workers that have done nothing.
def empty : Application Uuid :=
  ⟨⟨[], fun _ => .polling, []⟩, [], []⟩

end Application

end Saps.Tasks
