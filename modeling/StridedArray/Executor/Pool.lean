import StridedArray.Datum
import StridedArray.Device
import StridedArray.Executor

/-! # Pools of executors

Executors are made on demand. Those that are asked for by name are kept, so that the same name always
gives the same executor. An executor's number in the pool is the owner of its handles.

* `Settings` — which executor is the default one, and how the deferred one is set up;
* `Pool` — the executors so far; `newHost`, `newDeferred` — one more;
* `Pool.get`, `Pool.request` — the executor of a name; `Pool.prepare` — those of several names. -/

namespace StridedArray

structure Settings where
  /-- The name of the default executor. -/
  executor : String := "cpu"
  /-- The device of the deferred executor, if one is asked for. -/
  device : Option String := none
  /-- How the deferred executor reads buffers back. -/
  readback : String := "auto"

/-- Executors by number, and the numbers of those that were asked for by name. -/
structure Pool where
  settings : Settings := {}
  executors : Array Executor := #[]
  named : List (String × Nat) := []

namespace Pool

def names : List String := ["cpu", "device"]

def namesText : String := Text.bracketed (names.map Text.quoted)

def add (p : Pool) (x : Executor) : Nat × Pool :=
  (p.executors.size, { p with executors := p.executors.push x })

def newHost (p : Pool) : Nat × Pool := p.add (.host (.fresh p.executors.size))

/-- One more deferred executor, if the settings allow for it. The device is looked at first. -/
def newDeferred (p : Pool) : Except Failure (Nat × Pool) := do
  let device ← (Device.ofText (p.settings.device.getD "cpu")).mapError Failure.device
  if device.isAccelerator then throw .noAccelerator
  let readback ← Readback.ofDatum (.text p.settings.readback)
  return p.add (.deferred (.fresh p.executors.size device.text readback))

def make (p : Pool) (name : String) : Except Failure (Nat × Pool) :=
  match name with
  | "cpu" => pure p.newHost
  | "device" => p.newDeferred.mapError fun f => .unavailable (Text.quoted name) f.reason
  | _ => throw (.unavailable (Text.quoted name) ("expected one of " ++ namesText))

/-- The executor of the given name, made when it is first asked for. -/
def get (p : Pool) (name : String) : Except Failure (Nat × Pool) :=
  match p.named.lookup name with
  | some n => pure (n, p)
  | none => do
    let (n, p) ← p.make name
    return (n, { p with named := (name, n) :: p.named })

def getDefault (p : Pool) : Except Failure (Nat × Pool) := p.get p.settings.executor

/-- The executor that is asked for, the default one if nothing is said. Sequences and slices cannot be
    looked up. -/
def request (p : Pool) (given : Datum) : Except Failure (Nat × Pool) :=
  match given with
  | .none => p.getDefault
  | .text name => p.get name
  | .list _ | .slice .. => throw .operand
  | given => throw (.unavailable given.shown ("expected one of " ++ namesText))

/-- The requests that an executor can be had for. Anything but the lack of an executor ends it. -/
def prepareAll (p : Pool) : List Datum → Except Failure (List Datum) × Pool
  | [] => (pure [], p)
  | given :: rest =>
    match p.request given with
    | .ok (_, p) =>
      let (ready, p) := p.prepareAll rest
      ((given :: ·) <$> ready, p)
    | .error (.unavailable ..) => p.prepareAll rest
    | .error f => (throw f, p)

def prepare (p : Pool) (given : List Datum) : Except Failure (List Datum) × Pool :=
  p.prepareAll (if given.isEmpty then names.map Datum.text else given)

end Pool

end StridedArray
