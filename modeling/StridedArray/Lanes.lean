import StridedArray.Buffer.Table
import StridedArray.Expr.Evaluate

/-! # Evaluating expressions at all positions at once

The accelerated executor evaluates an expression node by node, each node for all positions together.
Values are laid out as a grid with one row per output position and one column per position in the
reduction; a grid with a single row or column stands for any number of equal ones.

* `Lanes` — the grid, with `Lanes.map`, `Lanes.zip`, `Lanes.zip3` over stretched operands;
* `BinaryOp.onLane` and its neighbours — the operations as the accelerator does them: every result is
  brought back to its kind at once, a zero divisor anywhere is refused;
* `Expr.lanesWith` — the evaluation, given how reads through layouts are done;
* `Expr.lanes` — the evaluation with those reads lowered to reads at offsets. -/

namespace StridedArray

structure Lanes where
  rows : Nat
  columns : Nat
  cells : Array Scalar

namespace Lanes

def get (l : Lanes) (row column : Nat) : Scalar :=
  -- The only row or column stands for every other one.
  let i := if l.rows = 1 then 0 else row
  let j := if l.columns = 1 then 0 else column
  l.cells[i * l.columns + j]?.getD default

def ofFnM (rows columns : Nat) (f : Nat → Nat → Except Failure Scalar) : Except Failure Lanes := do
  let cells ← (Array.range (rows * columns)).mapM fun p => f (p / columns) (p % columns)
  return ⟨rows, columns, cells⟩

def uniform (value : Scalar) : Lanes := ⟨1, 1, #[value]⟩

def ofColumn (values : Array Scalar) : Lanes := ⟨values.size, 1, values⟩

def ofRow (values : Array Scalar) : Lanes := ⟨1, values.size, values⟩

def numbers (n : Nat) : Array Scalar := (Array.range n).map fun (i : Nat) => .int (wrap32 i)

def stretched (a b : Nat) : Nat := if a = 1 then b else a

def map (f : Scalar → Except Failure Scalar) (a : Lanes) : Except Failure Lanes :=
  ofFnM a.rows a.columns fun i j => f (a.get i j)

def zip (f : Scalar → Scalar → Except Failure Scalar) (a b : Lanes) : Except Failure Lanes :=
  ofFnM (stretched a.rows b.rows) (stretched a.columns b.columns)
    fun i j => f (a.get i j) (b.get i j)

def zip3 (f : Scalar → Scalar → Scalar → Except Failure Scalar) (a b c : Lanes) :
    Except Failure Lanes :=
  ofFnM (stretched (stretched a.rows b.rows) c.rows)
    (stretched (stretched a.columns b.columns) c.columns)
    fun i j => f (a.get i j) (b.get i j) (c.get i j)

def isEmpty (l : Lanes) : Bool := l.rows = 0 || l.columns = 0

def range (l : Lanes) : Int × Int :=
  let ns := l.cells.toList.filterMap Scalar.whole?
  (ns.min?.getD 0, ns.max?.getD (-1))

end Lanes

/-! ## Operations -/

def Element.convert (kind : Element) (value : Scalar) : Except Failure Scalar :=
  match kind, value with
  | .int32, .float x => pure (.int (truncate32 x))
  | .int32, .nan .. => pure (.int (truncate32 Binary64.notANumber))
  | _, _ => kind.coerce value

def Scalar.largerOrNone (a b : Scalar) : Scalar :=
  match a, b with
  | .nan .., _ => notANumber
  | _, .nan .. => notANumber
  | _, _ => a.larger b

/-- An operation on one value of the given kind. The opposite of a number of single precision is one
    already. -/
def UnaryOp.onLane (op : UnaryOp) (kind : Element) (a : Scalar) : Except Failure Scalar :=
  match op with
  | .neg => if kind = .float32 then pure a.negate else kind.coerce a.negate
  | .sin => do kind.coerce (Scalar.floatResult a a (← a.toFloat).sin)
  | .cos => do kind.coerce (Scalar.floatResult a a (← a.toFloat).cos)
  | .cast => kind.convert a

def BinaryOp.onLane (op : BinaryOp) (kind operands : Element) (a b : Scalar) :
    Except Failure Scalar :=
  match op with
  | .idiv | .mod =>
    -- Refused for the whole grid, since a single cell that fails ends `Lanes.zip`.
    if b.sameNumber (.int 0) then throw .refused
    else do kind.coerce (← op.apply operands a b)
  | .max => pure (a.largerOrNone b)
  | .and => pure (.bool (a.truthy && b.truthy))
  | _ => do kind.coerce (← op.apply operands a b)

/-- A row of values folded into one. Sums of integers are exact until the end, sums of other numbers
    are rounded at every step. -/
def Reduction.onRow (op : Reduction) (kind : Element) (values : List Scalar) :
    Except Failure Scalar :=
  match op, values with
  | .add, _ => do
    let sum ← values.foldlM
      (fun acc x => do
        let s ← acc.add x
        if kind = .float32 then kind.coerce s else return s)
      kind.zero
    kind.coerce sum
  | .max, [] => kind.convert (.float Binary64.negativeInfinity)
  | .max, x :: rest => pure (rest.foldl Scalar.largerOrNone x)

/-! ## Evaluation -/

abbrev LaneEnvironment := String → Option Lanes

abbrev LayoutRead := Int → Element → Layout → Lanes → Except Failure Lanes

namespace Expr

def loadLanes (buffers : Buffers) (slot : Int) (kind : Element) (index : Lanes) :
    Except Failure Lanes := do
  let some elements := buffers slot | throw .unbound
  if index.isEmpty then return ⟨index.rows, index.columns, #[]⟩
  let (low, high) := index.range
  if low < 0 ∨ (elements.size : Int) ≤ high then
    throw (.execution (.loadRange slot low high elements.size))
  index.map fun place => do
    return (elements[(place.whole?.getD 0).toNat]?).getD kind.zero

def insideReduction (env : LaneEnvironment) (extent : Nat) : LaneEnvironment :=
  fun name => if name = reductionIndex then some (.ofRow (Lanes.numbers extent)) else env name

def rowCount (env : LaneEnvironment) : Nat :=
  match env outputIndex with
  | some l => l.rows
  | none => 1

def reduceLanes (op : Reduction) (kind : Element) (rows columns : Nat) (body : Lanes) :
    Except Failure Lanes :=
  Lanes.ofFnM rows 1 fun i _ => op.onRow kind ((List.range columns).map fun j => body.get i j)

variable [Room]

def isRefused (extent : Int) : Bool :=
  decide (extent < 0) || decide (Room.limit ≤ Element.int32.itemSize * extent)

def lanesWith (readLayout : LayoutRead) (buffers : Buffers) :
    Expr → LaneEnvironment → Except Failure Lanes
  | const _ value _, _ => pure (.uniform value)
  | special name _ _, env =>
    match env name with
    | some l => pure l
    | none => throw .unbound
  | accessor slot kind layout index, env => do
    readLayout slot kind layout (← lanesWith readLayout buffers index env)
  | load slot kind index, env => do
    loadLanes buffers slot kind (← lanesWith readLayout buffers index env)
  | unary op kind a, env => do
    (← lanesWith readLayout buffers a env).map (op.onLane kind)
  | binary op kind a b, env => do
    let x ← lanesWith readLayout buffers a env
    let y ← lanesWith readLayout buffers b env
    x.zip (op.onLane kind a.kind) y
  | select _ condition a b, env => do
    -- Both sides are worked out at every position, also where the condition picks the other one.
    let c ← lanesWith readLayout buffers condition env
    let x ← lanesWith readLayout buffers a env
    let y ← lanesWith readLayout buffers b env
    Lanes.zip3 (fun c x y => pure (if c.truthy then x else y)) c x y
  | reduce op kind body extent, env => do
    if isRefused extent then throw .refused
    let n := extent.toNat
    let values ← lanesWith readLayout buffers body (insideReduction env n)
    reduceLanes op kind (rowCount env) n values

def positionIndex : String := "position"

def checkPositions (slot : Int) (layout : Layout) (index : Lanes) : Except Failure Unit :=
  if index.isEmpty then pure ()
  else
    let (low, high) := index.range
    if low < 0 ∨ layout.size ≤ high then
      throw (.execution (.positions slot low high layout.size))
    else pure ()

def loweredRead (slot : Int) (kind : Element) (layout : Layout) : Except Failure Expr :=
  lower (.accessor slot kind layout (.special positionIndex layout.size))

def atPositions (index : Lanes) : LaneEnvironment :=
  fun name => if name = positionIndex then some index else none

def noLayoutRead : LayoutRead := fun _ _ _ _ => throw .unmet

def readLanes (buffers : Buffers) : LayoutRead := fun slot kind layout index => do
  checkPositions slot layout index
  let low ← loweredRead slot kind layout
  low.lanesWith noLayoutRead buffers (atPositions index)

def lanes (e : Expr) (buffers : Buffers) (size : Nat) : Except Failure Lanes :=
  e.lanesWith (readLanes buffers) buffers
    (fun name => if name = outputIndex then some (.ofColumn (Lanes.numbers size)) else none)

end Expr

end StridedArray
