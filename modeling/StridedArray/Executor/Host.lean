import StridedArray.Buffer.Table
import StridedArray.Bytes
import StridedArray.Expr.Evaluate
import StridedArray.Kernel

/-! # The host executor

The plain executor: buffers are bytes in host memory, and every output element is the value of its
expression at one position.

* `Host` — the table; `Host.run` — a kernel, at once;
* `elementBytes`, `outputBytes` — one element and one output of a kernel;
* `storeFront` — an output written over the front of its buffer. -/

namespace StridedArray

structure Host where
  table : Table Bytes

/-- The contents that a kernel reads, by slot as written. Contents are those of the bound buffers, and
    kinds those of the kernel. -/
def Kernel.buffers (k : Kernel) (inputs : List Bytes) : Buffers :=
  let decoded := k.kinds.map fun (slot, kind) =>
    (slot, (Shape.entry? inputs slot).map kind.decode)
  fun slot => (decoded.lookup slot).join

def atOutput (position : Nat) : Environment :=
  fun name => if name = outputIndex then some position else none

def whileRunning (f : Failure) : Failure :=
  match f with
  | .index fault => .execution (.whileRunning fault.message)
  | .missingElement index count =>
    .execution (.whileRunning s!"index {index} is out of bounds for axis 0 with size {count}")
  | f => f

def elementBytes (e : Expr) (buffers : Buffers) (position : Nat) : Except Failure (List UInt8) := do
  e.kind.encode (← e.evaluate (atOutput position) buffers)

def outputBytes (e : Expr) (buffers : Buffers) (size : Int) : Except Failure Bytes := do
  if size < 0 then throw .malformed
  let out := (List.range size.toNat).foldlM
    (fun (out : Bytes) position => do return out ++ (← elementBytes e buffers position).toArray) #[]
  out.mapError whileRunning

def storeFront (old new : Bytes) : Bytes := new ++ old.drop new.size

namespace Host

def fresh (owner : Nat) : Host := ⟨{ owner, shown := "CpuBackend(name='cpu')" }⟩

def run (x : Host) (k : Kernel) (inputs : List Bytes) (outputs : List Nat) :
    Except Failure Host := do
  let buffers := k.buffers inputs
  -- Everything is evaluated before anything is written, so a failure leaves the outputs as they were.
  let results ← k.exprs.mapM fun e => outputBytes e buffers k.size
  let table := (outputs.zip results).foldl
    (fun t (slot, bytes) => t.modifyContent slot fun old => storeFront old bytes) x.table
  return { x with table := table }

end Host

end StridedArray
