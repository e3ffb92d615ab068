import StridedArray.Expr.Build
import StridedArray.Layout.Stretch
import StridedArray.Tensor.Session

/-! # Elementwise operations on arrays

An operation broadcasts its operands to a common shape, reads them through their layouts at every
position of the result, and writes the result to a new buffer. Scalars become constants.

* `Operand` — an array or something beside it; `scalarExpr` — the constant of a scalar;
* `Common`, `common` — the common shape of several operands; `argument` — one operand as an expression;
* `runKernel` — an expression into a new array;
* `unary`, `binary`, `ternary` — operations; `add` … `cos`, `cast`, `compact`, `choose` — the particular
  ones. -/

namespace StridedArray

inductive Operand
  | tensor (r : TensorRef)
  | value (d : Datum)

/-- A scalar as a constant beside elements of a kind: an integer takes the kind that it is combined
    in, a truth value stays one. -/
def scalarExpr (beside : Element) (d : Datum) : Except Failure Expr :=
  match d with
  | .scalar (.bool b) => pure (Expr.truth b)
  | .scalar (.int n) =>
    if beside = .float32 then Expr.constant .float32 (.int n) else pure (Expr.int32 n)
  | .scalar value => Expr.constant .float32 value
  | d => throw (.kind (.unsupportedOperand d))

def Expr.negateCounted (a : Expr) : Except Failure Expr := do
  if a.kind = .bool then (← a.cast .int32).neg else a.neg

namespace Session

variable [Room]

/-- What operands have in common: their executor and shape, and the kind of the first one. -/
structure Common where
  owner : Nat
  shape : List Int
  kind : Element

def tensorsOf (operands : List Operand) : List TensorRef :=
  operands.filterMap fun
    | .tensor r => some r
    | .value _ => none

def requireBeside (owner : Nat) (t : Tensor) : Action Unit := do
  requireLive t
  if t.owner ≠ owner then
    throw (.argument (.differentExecutors (← executor owner).text (← executor t.owner).text))

def common (first : TensorRef) (others : List Operand) : Action Common := do
  let t ← live first
  let tensors ← (tensorsOf others).mapM find
  tensors.forM (requireBeside t.owner)
  let shape ← ofResult (Shape.broadcast (t.shape :: tensors.map Tensor.shape))
  return { owner := t.owner, shape := shape, kind := t.kind }

/-- An operand as an expression over the positions of the common shape, with the buffers that are read
    so far. -/
def argument (c : Common) (inputs : List Handle) (x : Operand) : Action (Expr × List Handle) := do
  match x with
  | .tensor r =>
    let t ← find r
    let layout ← ofResult (t.layout.stretch c.shape)
    let index := Expr.outputPosition (Shape.product c.shape)
    let e ← ofResult (Expr.read inputs.length t.kind layout index)
    return (e, inputs ++ [t.handle])
  | .value d => return (← ofResult (scalarExpr c.kind d), inputs)

/-- A new array that holds the values of an expression. The buffer is given back if that fails. -/
def runKernel (owner : Nat) (e : Expr) (shape : List Int) (inputs : List Handle) :
    Action TensorRef := do
  let handle ← allocate owner (Shape.product shape * e.kind.itemSize) none
  try
    onExecutor owner fun x => x.execute [e] (inputs.map HandleArgument.handle) [.handle handle]
  catch failure =>
    release handle
    throw failure
  -- Nobody gives the buffer back if the shape is refused now.
  adopt handle (← ofResult (Layout.ofShape shape)) e.kind

def unary (f : Expr → Except Failure Expr) (a : TensorRef) : Action TensorRef := do
  let c ← common a []
  let (x, inputs) ← argument c [] (.tensor a)
  runKernel c.owner (← ofResult (f x)) c.shape inputs

def binary (f : Expr → Expr → Except Failure Expr) (a : TensorRef) (b : Operand) :
    Action TensorRef := do
  let c ← common a [b]
  let (x, inputs) ← argument c [] (.tensor a)
  let (y, inputs) ← argument c inputs b
  runKernel c.owner (← ofResult (f x y)) c.shape inputs

def ternary (f : Expr → Expr → Expr → Except Failure Expr) (a : TensorRef) (b c : Operand) :
    Action TensorRef := do
  let k ← common a [b, c]
  let (x, inputs) ← argument k [] (.tensor a)
  let (y, inputs) ← argument k inputs b
  let (z, inputs) ← argument k inputs c
  runKernel k.owner (← ofResult (f x y z)) k.shape inputs

/-- An operation whose operands may come in either order. The array operand is the first one if there
    are two. -/
def eitherOrder (f : Expr → Expr → Except Failure Expr) (a b : Operand) : Action TensorRef :=
  match a, b with
  | .tensor a, b => binary f a b
  | .value a, .tensor b => binary (fun x y => f y x) b (.value a)
  | .value _, .value _ => throw .operand

def add : Operand → Operand → Action TensorRef := eitherOrder Expr.add

def sub : Operand → Operand → Action TensorRef :=
  eitherOrder fun x y => do x.add (← y.negateCounted)

def mul : Operand → Operand → Action TensorRef := eitherOrder Expr.mul

/-- Is the first operand below the second? A scalar on the left is compared the other way round. -/
def less (a b : Operand) : Action TensorRef :=
  match a, b with
  | .tensor a, b => binary Expr.cmplt a b
  | .value a, .tensor b => binary Expr.cmpgt b (.value a)
  | .value _, .value _ => throw .operand

/-- Is the first operand above the second? A scalar on the left is compared the other way round. -/
def greater (a b : Operand) : Action TensorRef :=
  match a, b with
  | .tensor a, b => binary Expr.cmpgt a b
  | .value a, .tensor b => binary Expr.cmplt b (.value a)
  | .value _, .value _ => throw .operand

def maximum : Operand → Operand → Action TensorRef
  | .tensor a, b => binary Expr.max a b
  | .value _, _ => throw .unsupported

def negate : TensorRef → Action TensorRef := unary Expr.negateCounted

def sin : TensorRef → Action TensorRef := unary Expr.sin

def cos : TensorRef → Action TensorRef := unary Expr.cos

def cast (kind : Element) : TensorRef → Action TensorRef := unary (Expr.cast kind)

def compact : TensorRef → Action TensorRef := unary pure

/-- The second operand where the first one is not zero, and the third one elsewhere. -/
def choose (condition a b : Operand) : Action TensorRef :=
  match condition with
  | .tensor c => ternary (fun x y z => do Expr.choose (← x.cast .bool) y z) c a b
  | .value d => throw (.kind (.conditionNotAnArray d.typeName))

end Session

end StridedArray
