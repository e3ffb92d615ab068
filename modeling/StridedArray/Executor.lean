import StridedArray.Executor.Deferred
import StridedArray.Executor.Host

/-! # Executors

Both executors behave alike as far as callers can see: buffers are counted, work is validated before
it is begun, and every operation fails in the same way.

* `Executor` — either of the two; `Step` — an operation that may fail and keeps the state it reached;
* `allocate`, `retain`, `release`, `refcount`, `size`, `live` — buffers;
* `execute` — expressions over buffers; `read`, `synchronize`, `close` — results. -/

namespace StridedArray

inductive Executor
  | host (x : Host)
  | deferred (x : Deferred)

namespace Executor

variable [Room]

abbrev Step (α : Type) := Except Failure α × Executor

def name : Executor → String
  | host _ => "cpu"
  | deferred _ => "device"

def owner : Executor → Nat
  | host x => x.table.owner
  | deferred x => x.table.owner

def text : Executor → String
  | host x => x.table.shown
  | deferred x => x.table.shown

def live : Executor → Nat
  | host x => x.table.live
  | deferred x => x.table.live

def refcount (x : Executor) (h : Handle) : Except Failure Nat :=
  match x with
  | host x => x.table.refcount h
  | deferred x => x.table.refcount h

def size (x : Executor) (h : Handle) : Except Failure Nat :=
  match x with
  | host x => x.table.size h
  | deferred x => x.table.size h

/-- How it fails if there is no room for so many zeros. Sizes beyond 64 bits are not even tried. -/
def noRoom (x : Executor) (size : Int) : Failure :=
  match x with
  | host _ => if fitsSigned 64 size then .exhausted else .overflow
  | deferred _ => if fitsSigned 64 size then .refused else .operand

def skip : Executor → Executor
  | host x => host { x with table := x.table.skip }
  | deferred x => deferred { x with table := x.table.skip, memory := x.memory.push #[] }

/-- A new buffer of zeros or of the given bytes, with one reference. If there is no room for it, its
    number is used up all the same. -/
def allocate (x : Executor) (size : Int) (initial : Option Bytes) : Step Handle :=
  if initial.isNone ∧ Room.limit ≤ size then (throw (x.noRoom size), x.skip)
  else
    match initialBytes size initial with
    | .error f => (throw f, x)
    | .ok bytes =>
      match x with
      | host x =>
        let (h, table) := x.table.allocate bytes.size bytes
        (pure h, host { x with table := table })
      | deferred x =>
        let (h, table) := x.table.allocate bytes.size none
        (pure h, deferred { x with table := table, memory := x.memory.push bytes })

def withTable (x : Executor)
    (f : {σ : Type} → Table σ → Except Failure (Table σ)) : Step Unit :=
  match x with
  | host y =>
    match f y.table with
    | .ok table => (pure (), host { y with table := table })
    | .error e => (throw e, x)
  | deferred y =>
    match f y.table with
    | .ok table => (pure (), deferred { y with table := table })
    | .error e => (throw e, x)

def retain (x : Executor) (h : Handle) : Step Unit := x.withTable fun t => t.retain h

def release (x : Executor) (h : Handle) : Step Unit := x.withTable fun t => t.release h

def read (x : Executor) (h : Handle) : Step Bytes :=
  match x with
  | host y => (Slot.content <$> y.table.lookup h, x)
  | deferred y =>
    match y.table.lookup h with
    | .error f => (throw f, x)
    | .ok s =>
      let (answer, y) := y.readBuffer h s
      (answer, deferred y)

def plan {σ : Type} (t : Table σ) (exprs : List Expr) (inputs outputs : List HandleArgument) :
    Except Failure (Kernel × List (Handle × Slot σ) × List (Handle × Slot σ)) := do
  if exprs.length ≠ outputs.length then
    throw (.execution (.expressionCount exprs.length outputs.length))
  let ins ← inputs.mapM t.resolve
  let outs ← outputs.mapM t.resolve
  let kernel ← Kernel.plan exprs (ins.map fun b => b.2.size) (outs.map fun b => b.2.size)
  return (kernel, ins, outs)

def sources {σ : Type} (kernel : Kernel) (ins : List (Handle × Slot σ)) : List (Int × Nat) :=
  kernel.kinds.filterMap fun (slot, _) =>
    (Shape.entry? (ins.map fun b => b.1.slot) slot).map fun memory => (slot, memory)

/-- Evaluate expressions at every position of the outputs. The host does so at once, the deferred
    executor takes the work and does it later. -/
def execute (x : Executor) (exprs : List Expr) (inputs outputs : List HandleArgument) : Step Unit :=
  match x with
  | host y =>
    let result : Except Failure Host := do
      let (kernel, ins, outs) ← plan y.table exprs inputs outputs
      y.run kernel (ins.map fun b => b.2.content) (outs.map fun b => b.1.slot)
    match result with
    | .ok y => (pure (), host y)
    | .error f => (throw f, x)
  | deferred y =>
    let result : Except Failure Deferred := do
      let (kernel, ins, outs) ← plan y.table exprs inputs outputs
      -- The job takes the memory of its buffers with it, so that they may be released meanwhile.
      y.submit ⟨kernel, sources kernel ins, outs.map fun b => b.1.slot⟩
    match result with
    | .ok y => (pure (), deferred y)
    | .error f => (throw f, x)

def synchronize (x : Executor) : Step Unit :=
  match x with
  | host y => (pure (), host y)
  | deferred y =>
    let (answer, y) := y.synchronize
    (answer, deferred y)

/-- Finish all work and take no more. The host has nothing to finish and does not know this. -/
def close (x : Executor) : Step Unit :=
  match x with
  | host y => (throw .unsupported, host y)
  | deferred y => (pure (), deferred y.close)

end Executor

end StridedArray
