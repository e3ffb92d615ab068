import StridedArray.Datum.Reading
import StridedArray.Datum.Operators
import StridedArray.Expr.Lower
import StridedArray.View.Loose

/-! # Expressions on request

Expressions built of loosely typed arguments.

* `Expr.constantOf`, `Expr.specialOf`, `Expr.readOf`, `Expr.loadOf`, `Expr.foldOf` — constants, variables,
  reads and reductions, numbers being read first;
* `Expr.liftData`, `Expr.mulData` and its neighbours — data as a constant beside an expression;
* `Loose.unravelExpr`, `LooseView.addressExpr` — address arithmetic with extents and strides of any
  form. -/

namespace StridedArray

namespace Expr

def constantOf (kind : Element) (d : Datum) : Except Failure Expr := do
  return .const kind (← kind.ofDatum d)

def specialOf (kind : Element) (name : String) (extent : Datum) : Except Failure Expr := do
  if kind ≠ .int32 then throw (.kind (.specialKind name))
  return .special name (← extent.whole)

def readOf (slot : Datum) (kind : Element) (layout : Layout) (index : Expr) : Except Failure Expr := do
  if index.kind ≠ .int32 then throw (.kind .accessorIndex)
  if ← slot.less (.int 0) then throw (.argument (.negativeSlot slot))
  return .accessor (← slot.whole) kind layout index

def loadOf (slot : Datum) (kind : Element) (index : Expr) : Except Failure Expr := do
  if index.kind ≠ .int32 then throw (.kind .loadIndex)
  return .load (← slot.whole) kind index

def foldOf (op : Reduction) (body : Expr) (extent : Datum) : Except Failure Expr := do
  let body ← if body.kind = .bool then cast .int32 body else pure body
  return .reduce op body.kind body (← extent.whole)

def liftData (beside : Expr) (d : Datum) : Except Failure Expr :=
  match d with
  | .scalar value => beside.lift value
  | d => constantOf .float32 d

def mulData (a : Expr) (d : Datum) : Except Failure Expr := do a.mul (← a.liftData d)

def idivData (a : Expr) (d : Datum) : Except Failure Expr := do a.idiv (← a.liftData d)

def modData (a : Expr) (d : Datum) : Except Failure Expr := do a.mod (← a.liftData d)

end Expr

namespace Loose

/-- One step of `unravelExpr`: the indices of the given axes, and the number of positions that they
    span. An axis of extent 1 has index 0, the leading axis needs no remainder. -/
def unravelExprFrom (flat : Expr) : List Datum → Bool → Except Failure (List Expr × Datum)
  | [], _ => pure ([], .int 1)
  | s :: rest, leading => do
    let (index, span) ← unravelExprFrom flat rest false
    if s.isInt 1 then return (Expr.int32 0 :: index, span)
    let i ← if span.isInt 1 then pure flat else flat.idivData span
    let i ← if leading then pure i else i.modData s
    return (i :: index, ← span.multiply s)

def unravelExpr (shape : Datum) (flat : Expr) : Except Failure (List Expr) := do
  let shape ← shape.items
  match Datum.plainInts? shape with
  | some shape => StridedArray.unravelExpr shape flat
  | none => return (← unravelExprFrom flat shape true).1

end Loose

namespace LooseView

/-- An offset moved along several axes. Axes of stride 0 do not move it. -/
def offsetExpr (offset : Expr) : List Expr → List Datum → Except Failure Expr
  | i :: index, st :: strides => do
    let offset ← if st.isInt 0 then pure offset else offset.add (← i.mulData st)
    offsetExpr offset index strides
  | _, _ => pure offset

def addressExpr (v : LooseView) (index : List Expr) : Except Failure (Expr × Expr) := do
  let offset ← offsetExpr (Expr.int32 v.offset) index v.strides
  let valid ← match v.mask with
    | some mask => View.validExpr (Expr.truth true) index v.shape mask
    | none => pure (Expr.truth true)
  return (offset, valid)

end LooseView

end StridedArray
