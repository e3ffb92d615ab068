import StridedArray.Executor.Pool

/-! # Sessions

An array is a handle to a buffer together with the layout that the buffer is seen through and the kind
of its elements. A session holds executors and all arrays made on them. Every array owns one reference
to its buffer, from when it is made until it is disposed of.

* `Tensor`, `TensorRef` — an array and its number in the session;
* `Session`, `Action` — the state, and what changes it; a failed action keeps what it did;
* `onExecutor`, `allocate`, `retain`, `release` — buffers;
* `find`, `live`, `adopt` — arrays by number; `view`, `share`, `dispose` — references. -/

namespace StridedArray

structure Tensor where
  /-- The buffer. Its owner is the number of the executor. -/
  handle : Handle
  layout : Layout
  kind : Element
  disposed : Bool := false

structure TensorRef where
  number : Nat
  deriving DecidableEq, Repr

structure Session where
  pool : Pool := {}
  tensors : Array Tensor := #[]

abbrev Action (α : Type) := ExceptT Failure (StateM Session) α

namespace Tensor

def shape (t : Tensor) : List Int := t.layout.shape

def owner (t : Tensor) : Nat := t.handle.owner

end Tensor

namespace Session

variable [Room]

def ofResult {α : Type} (r : Except Failure α) : Action α := ExceptT.mk (pure r)

def executor (owner : Nat) : Action Executor := do
  match (← get).pool.executors[owner]? with
  | some x => return x
  | none => throw .unbound

def onExecutor {α : Type} (owner : Nat) (f : Executor → Executor.Step α) : Action α := do
  let (answer, x) := f (← executor owner)
  modify fun s =>
    { s with pool := { s.pool with executors := s.pool.executors.setIfInBounds owner x } }
  ofResult answer

/-- The executor that is asked for by name, the default one if nothing is said. -/
def executorFor (given : Datum) : Action Nat := do
  match given with
  | .none | .text _ =>
    let (owner, pool) ← ofResult ((← get).pool.request given)
    modify fun s => { s with pool := pool }
    return owner
  | _ => throw .unsupported

def allocate (owner : Nat) (size : Int) (initial : Option Bytes) : Action Handle :=
  onExecutor owner fun x => x.allocate size initial

def retain (h : Handle) : Action Unit := onExecutor h.owner fun x => x.retain h

def release (h : Handle) : Action Unit := onExecutor h.owner fun x => x.release h

/-! ## Arrays -/

def find (r : TensorRef) : Action Tensor := do
  match (← get).tensors[r.number]? with
  | some t => return t
  | none => throw .unbound

def requireLive (t : Tensor) : Action Unit :=
  if t.disposed then throw (.lifetime .disposed t.handle.slot) else pure ()

/-- The array of the given number, unless it was disposed of. -/
def live (r : TensorRef) : Action Tensor := do
  let t ← find r
  requireLive t
  return t

def adopt (handle : Handle) (layout : Layout) (kind : Element) : Action TensorRef := do
  let number := (← get).tensors.size
  modify fun s => { s with tensors := s.tensors.push { handle, layout, kind } }
  return ⟨number⟩

/-- Another array over the same buffer, seen through another layout, with a reference of its own. -/
def view (t : Tensor) (layout : Layout) : Action TensorRef := do
  requireLive t
  retain t.handle
  adopt t.handle layout t.kind

def share (r : TensorRef) : Action TensorRef := do
  let t ← find r
  view t t.layout

def dispose (r : TensorRef) : Action Unit := do
  let t ← live r
  -- Marked first: a failing release leaves the array disposed of all the same.
  modify fun s => { s with tensors := s.tensors.modify r.number fun t => { t with disposed := true } }
  release t.handle

def sameBuffer (a b : TensorRef) : Action Bool := do
  let x ← live a
  let y ← live b
  return x.handle = y.handle

def liveBuffers (r : TensorRef) : Action Nat := do
  let t ← find r
  return (← executor t.owner).live

end Session

end StridedArray
