import StridedArray.Counting
import StridedArray.Expr.Lower

/-! # Evaluating expressions at one point

`Expr.evaluate` gives the value of an expression under a binding of its variables and given buffer
contents. The reduction index is the only variable whose binding changes on the way: a reduction sets
it for each of its positions and takes it away at its end, so it is threaded through. -/

namespace StridedArray

abbrev Environment := String → Option Int

abbrev Buffers := Int → Option (Array Scalar)

def elementAt (buffers : Buffers) (slot : Int) (place : Scalar) : Except Failure Scalar := do
  let some elements := buffers slot | throw .noElement
  let some n := place.whole? | throw .operand
  let some k := Shape.place? elements.size n | throw (.missingElement n elements.size)
  let some x := elements[k]? | throw (.missingElement n elements.size)
  return x

def Scalar.within (place : Scalar) (limit : Int) : Bool :=
  !place.less (.int 0) && place.less (.int limit)

namespace Expr

def readAt (buffers : Buffers) (slot : Int) (kind : Element) (layout : Layout) (place : Scalar) :
    Except Failure Scalar := do
  if !place.within layout.size then
    throw (.index (.outsideView (.scalar place) layout.size))
  let some flat := place.whole? | throw .operand
  match ← layout.addressFlat flat with
  | none => return kind.zero
  | some offset => kind.coerce (← elementAt buffers slot (.int offset))

def loadFrom (buffers : Buffers) (slot : Int) (kind : Element) (place : Scalar) :
    Except Failure Scalar := do
  let some elements := buffers slot | throw .noElement
  if !place.within elements.size then
    throw (.index (.load slot (.scalar place) elements.size))
  kind.coerce (← elementAt buffers slot place)

def trigonometric (f : Float → Float) (a : Scalar) : Except Failure Scalar :=
  match a with
  | .nan negative fraction => pure (.nan negative (Scalar.quiet fraction))
  | a => do
    let x ← a.toFloat
    match Binary64.parts x with
    | .infinite _ => throw .malformed
    | _ => return .ofFloat (f x)

def applyUnary (op : UnaryOp) (kind : Element) (a : Scalar) : Except Failure Scalar :=
  match op with
  | .neg => kind.coerce a.negate
  | .sin => trigonometric Float.sin a
  | .cos => trigonometric Float.cos a
  | .cast => kind.coerce a

/-- The value of an operation on two operands of one kind. Only integer results are brought back into
    range here. -/
def applyBinary (op : BinaryOp) (kind operands : Element) (a b : Scalar) :
    Except Failure Scalar := do
  let c ← op.apply operands a b
  if kind = .int32 then kind.coerce c else return c

def evaluateFrom (env : Environment) (buffers : Buffers) :
    Expr → Option Int → Except Failure (Scalar × Option Int)
  | const _ value _, position => pure (value, position)
  | special name _ _, position =>
    match if name = reductionIndex then position else env name with
    | some n => pure (.int n, position)
    | none => throw .unbound
  | accessor slot kind layout index, position => do
    let (place, position) ← evaluateFrom env buffers index position
    return (← readAt buffers slot kind layout place, position)
  | load slot kind index, position => do
    let (place, position) ← evaluateFrom env buffers index position
    return (← loadFrom buffers slot kind place, position)
  | unary op kind a, position => do
    let (x, position) ← evaluateFrom env buffers a position
    return (← applyUnary op kind x, position)
  | binary op kind a b, position => do
    let (x, position) ← evaluateFrom env buffers a position
    let (y, position) ← evaluateFrom env buffers b position
    return (← applyBinary op kind a.kind x y, position)
  | select _ condition a b, position => do
    let (c, position) ← evaluateFrom env buffers condition position
    if c.truthy then evaluateFrom env buffers a position
    else evaluateFrom env buffers b position
  | reduce op kind body extent, _ => do
    let acc ← foldBelow extent.toNat
      (fun acc (r : Nat) => do
        let (x, _) ← evaluateFrom env buffers body (some (r : Nat))
        op.step kind acc x)
      (op.start kind)
    -- Nothing is put back: what follows a reduction inside of another one finds no position.
    return (← op.finish kind acc, none)

def evaluate (e : Expr) (env : Environment) (buffers : Buffers) : Except Failure Scalar :=
  Prod.fst <$> e.evaluateFrom env buffers (env reductionIndex)

end Expr

end StridedArray
