import StridedArray.Buffer.Table
import StridedArray.Bytes
import StridedArray.Kernel
import StridedArray.Lanes.Sharing
import StridedArray.Readback

/-! # The deferred executor

The accelerated executor hands its kernels to a single worker, which runs them one at a time in order
of submission. Submitting returns at once; waiting for a kernel lets the worker get that far.

* `Job` — a submitted kernel with the memory it works on; `Deferred` — table, memory, queue, outcomes;
* `step`, `advance`, `await` — the worker: one job, several, up to a given one;
* `submit` — a kernel; `readBuffer` — a buffer, after the last kernel that writes it;
* `synchronize` — wait, and raise the first failure; `close` — finish and take no more work. -/

namespace StridedArray

/-- A submitted kernel. It keeps the memory of its buffers, whether or not they are still in use. -/
structure Job where
  kernel : Kernel
  /-- Memory of each input slot that is read, by slot as written. -/
  sources : List (Int × Nat)
  targets : List Nat

/-- The deferred executor. Memory is numbered like the slots and outlives them. Jobs are numbered in
    order of submission: those with an outcome are finished, those in the queue come next. -/
structure Deferred where
  /-- Each slot remembers the last job that writes it. -/
  table : Table (Option Nat)
  memory : Array Bytes := #[]
  queue : List Job := []
  /-- How each finished job ended: with a failure or not. -/
  outcomes : Array (Option Failure) := #[]
  /-- Jobs whose failure may still have to be reported. -/
  outstanding : List Nat := []
  closed : Bool := false
  readback : Readback := .mapped

variable [Room]

namespace Job

def buffers (j : Job) (memory : Array Bytes) : Buffers :=
  let decoded := j.kernel.kinds.map fun (slot, kind) =>
    (slot, kind.decode (((j.sources.lookup slot).bind fun m => memory[m]?).getD #[]))
  fun slot => decoded.lookup slot

def outputBytes (j : Job) (buffers : Buffers) (e : Expr) : Except Failure Bytes := do
  if j.kernel.size < 0 then throw .refused
  let size := j.kernel.size.toNat
  let l ← e.lanesShared buffers size
  e.kind.encodeAll ((Array.range size).map fun i => l.get i 0)

/-- The memory after the job. All outputs are computed before any is written, so a failed job writes
    nothing. -/
def run (j : Job) (memory : Array Bytes) : Except Failure (Array Bytes) := do
  let buffers := j.buffers memory
  let results ← j.kernel.exprs.mapM (j.outputBytes buffers)
  return (j.targets.zip results).foldl
    (fun memory (target, bytes) =>
      memory.modify target fun old => bytes ++ old.drop bytes.size) memory

end Job

namespace Deferred

def fresh (owner : Nat) (device : String) (readback : Readback) : Deferred :=
  { table :=
      { owner
        shown := "DeviceBackend(device=" ++ Text.quoted device ++ ", readback="
          ++ Text.quoted readback.name ++ ")" }
    readback := readback }

/-! ## The worker -/

def step (x : Deferred) : Deferred :=
  match x.queue with
  | [] => x
  | job :: rest =>
    match job.run x.memory with
    | .ok memory => { x with memory := memory, queue := rest, outcomes := x.outcomes.push none }
    | .error f => { x with queue := rest, outcomes := x.outcomes.push (some f) }

def advance (x : Deferred) : Nat → Deferred
  | 0 => x
  | n + 1 => advance x.step n

def await (x : Deferred) (job : Nat) : Except Failure Unit × Deferred :=
  -- Finished jobs come first in the numbering, so this runs nothing for one of them.
  let x := x.advance (job + 1 - x.outcomes.size)
  match (x.outcomes[job]?).join with
  | some f => (throw f, x)
  | none => (pure (), x)

def succeeded (x : Deferred) (job : Nat) : Bool :=
  match x.outcomes[job]? with
  | some none => true
  | _ => false

/-! ## The caller -/

def submit (x : Deferred) (job : Job) : Except Failure Deferred :=
  if x.closed then throw .refused
  else
    let number := x.outcomes.size + x.queue.length
    pure
      { x with
        queue := x.queue ++ [job]
        -- Jobs that failed stay: nobody may have heard of them yet.
        outstanding := x.outstanding.filter (fun n => !x.succeeded n) ++ [number]
        table := job.targets.foldl (fun t slot => t.modifyContent slot fun _ => some number) x.table }

def readBuffer (x : Deferred) (h : Handle) (s : Slot (Option Nat)) : Except Failure Bytes × Deferred :=
  let (outcome, x) := match s.content with
    | some job => x.await job
    | none => (pure (), x)
  match outcome with
  | .error f => (throw f, x)
  | .ok () =>
    let (bytes, readback) := x.readback.read (x.memory[h.slot]?.getD #[])
    (pure bytes, { x with readback := readback })

def awaitAll (x : Deferred) : List Nat → Except Failure Unit × Deferred
  | [] => (pure (), x)
  | job :: rest =>
    match x.await job with
    | (.ok (), x) => awaitAll x rest
    -- The jobs in `rest` are not waited for, and whoever called has forgotten them.
    | failed => failed

def synchronize (x : Deferred) : Except Failure Unit × Deferred :=
  awaitAll { x with outstanding := [] } x.outstanding

def close (x : Deferred) : Deferred := { x.advance x.queue.length with closed := true }

end Deferred

end StridedArray
