import StridedArray.Expr.Traverse

/-! # Addressing as expressions

The address arithmetic of views and layouts, built as expressions of a position instead of computed
for one, and with it expressions that read buffers by offset alone.

* `unravelExpr` — the multi-index of a flat position; `View.addressExpr`, `Layout.addressExpr` — the
  offset and the condition under which it is not padding;
* `Expr.lower` — every read through a layout replaced by a guarded read at an offset; `lowerShared` —
  the same, operands that occur several times being lowered once. -/

namespace StridedArray

/-- One step of `unravelExpr`: the indices of the given axes, and the number of positions that they
    span. An axis of extent 1 has index 0, the leading axis needs no remainder. -/
def unravelExprFrom (flat : Expr) : List Int → Bool → Except Failure (List Expr × Int)
  | [], _ => pure ([], 1)
  | s :: rest, leading => do
    let (index, span) ← unravelExprFrom flat rest false
    if s = 1 then return (Expr.int32 0 :: index, span)
    let i ← if span = 1 then pure flat else flat.idivScalar (.int span)
    let i ← if leading then pure i else i.modScalar (.int s)
    return (i :: index, span * s)

def unravelExpr (shape : List Int) (flat : Expr) : Except Failure (List Expr) := do
  return (← unravelExprFrom flat shape true).1

namespace View

/-- An offset moved along several axes. Axes of stride 0 do not move it. -/
def offsetExpr (offset : Expr) : List Expr → List Int → Except Failure Expr
  | i :: index, st :: strides => do
    let offset ← if st = 0 then pure offset else offset.add (← i.mulScalar (.int st))
    offsetExpr offset index strides
  | _, _ => pure offset

/-- A condition strengthened by the valid ranges of several axes. An end that is an end of the axis
    is not tested; an empty range never holds. -/
def validExpr (valid : Expr) : List Expr → List Int → List (Int × Int) → Except Failure Expr
  | i :: index, s :: shape, (low, high) :: mask => do
    if high ≤ low then return Expr.truth false
    let valid ← if 0 < low then valid.both (← i.cmpgt (Expr.int32 (low - 1))) else pure valid
    let valid ← if high < s then valid.both (← i.cmplt (Expr.int32 high)) else pure valid
    validExpr valid index shape mask
  | _, _, _ => pure valid

def addressExpr (v : View) (index : List Expr) : Except Failure (Expr × Expr) := do
  let offset ← offsetExpr (Expr.int32 v.offset) index v.strides
  let valid ← match v.mask with
    | some mask => validExpr (Expr.truth true) index v.shape mask
    | none => pure (Expr.truth true)
  return (offset, valid)

end View

namespace Layout

def descendExpr : List View → Expr × Expr → Except Failure (Expr × Expr)
  | [], state => pure state
  | v :: rest, (flat, valid) => do
    let (offset, here) ← v.addressExpr (← unravelExpr v.shape flat)
    descendExpr rest (offset, ← valid.both here)

def addressExpr (l : Layout) (flat : Expr) : Except Failure (Expr × Expr) :=
  descendExpr (l.top :: l.below) (flat, Expr.truth true)

end Layout

namespace Expr

/-- A read through a layout as a read at an offset. Where the position is padding the read goes to
    offset 0, and its result is not used. -/
def guardedLoad (slot : Int) (kind : Element) (layout : Layout) (index : Expr) :
    Except Failure Expr := do
  let (offset, valid) ← layout.addressExpr index
  -- Both sides of a selection may be evaluated, so the read itself has to stay inside everywhere.
  let load ← loadAt slot kind (← choose valid offset (int32 0))
  choose valid load (.const kind kind.zero)

def lowerNode : Expr → Except Failure Expr
  | accessor slot kind layout index => guardedLoad slot kind layout index
  | e => pure e

def lower (e : Expr) : Except Failure Expr := transform lowerNode e

def lowerShared (e : Expr) : Except Failure Expr := transformShared lowerNode e

@[simp] theorem lowerShared_eq (e : Expr) : e.lowerShared = e.lower := transformShared_eq lowerNode e

end Expr

end StridedArray
