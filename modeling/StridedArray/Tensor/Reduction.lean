import StridedArray.Tensor.Elementwise
import StridedArray.Tensor.Movement

/-! # Reductions of arrays

A reduction brings the axes it runs over to the end, joins them to one, and folds every row.

* `ReductionPlan` — the axes, the shape of the result and the number of elements of a row;
* `Layout.planReduction` — the plan for a request, or what is wrong with it;
* `reduce`, `sum`, `max` — reductions. -/

namespace StridedArray

/-- The axes that are asked for, counted from the first one. -/
def Datum.requestedAxes (rank : Nat) : Datum → Except Failure (List Datum)
  | none => pure (ints (Layout.axisNumbers rank))
  | list items => items.mapM fun axis => Loose.normalizeAxis axis (.int rank)
  | given => do return [← Loose.normalizeAxis given (.int rank)]

/-- The axes that a reduction runs over. They are compared as numbers are, and only then have to be
    integers. -/
def Datum.reducedAxes (rank : Nat) (given : Datum) : Except Failure (List Nat) := do
  let axes ← given.requestedAxes rank
  if (axes.foldl Loose.insertOnce []).length ≠ axes.length then
    throw (.shape (.duplicateAxis given))
  axes.mapM fun axis => do return (← axis.exact).toNat

structure ReductionPlan where
  /-- The axes that are folded, in the order in which they were asked for. -/
  axes : List Nat
  /-- The shape of the result. -/
  shape : List Int
  /-- The number of elements that are folded together. -/
  count : Int
  /-- The layout with one row for each element of the result. -/
  rows : Layout

def Layout.extent (l : Layout) (axis : Nat) : Int := l.shape[axis]?.getD 0

def Layout.axesOutside (l : Layout) (axes : List Nat) : List Nat :=
  (List.range l.rank).filter fun a => !axes.contains a

/-- The plan of a reduction, the axes being as they were asked for. The greatest element of nothing
    does not exist. -/
def Layout.planReduction (l : Layout) (op : Reduction) (given : Datum) :
    Except Failure ReductionPlan := do
  let axes ← given.reducedAxes l.rank
  let kept := l.axesOutside axes
  let shape := kept.map l.extent
  let count := Shape.product (axes.map l.extent)
  if op = .max ∧ count = 0 then throw (.shape .emptyMaximum)
  -- Rows come first, so that position `row * count + r` is element `r` of a row.
  let moved ← l.permute ((kept ++ axes).map Int.ofNat)
  return { axes, shape, count, rows := ← moved.reshape (shape ++ [count]) }

def Expr.rowPosition (rows length : Int) : Except Failure Expr := do
  ((← (Expr.outputPosition rows).mulScalar (.int length))).add (Expr.reductionPosition length)

def ReductionPlan.expr (p : ReductionPlan) (op : Reduction) (kind : Element) :
    Except Failure Expr := do
  let index ← Expr.rowPosition (Shape.product p.shape) p.count
  Expr.fold op (← Expr.read 0 kind p.rows index) p.count

def keptShape (shape : List Int) (axes : List Nat) : List Int :=
  shape.mapIdx fun a s => if axes.contains a then 1 else s

namespace Session

variable [Room]

/-- A reduction of an array over the axes that are asked for, all if nothing is said. They are removed,
    or kept with extent 1. -/
def reduce (op : Reduction) (r : TensorRef) (axes : Datum) (keep : Bool) : Action TensorRef := do
  let t ← live r
  let p ← ofResult (t.layout.planReduction op axes)
  let e ← ofResult (p.expr op t.kind)
  let out ← runKernel t.owner e p.shape [t.handle]
  if keep then
    let result ← moved out fun l => l.reshape (keptShape t.shape p.axes)
    dispose out
    return result
  return out

def sum : TensorRef → Datum → Bool → Action TensorRef := reduce .add

def max : TensorRef → Datum → Bool → Action TensorRef := reduce .max

end Session

end StridedArray
