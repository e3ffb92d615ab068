import StridedArray.Expr.Evaluate
import StridedArray.Expr.Request
import StridedArray.Layout.Address

/-! # Evaluating expressions on data

Variables may be bound to other things than integers, and buffers may hold other things than elements.
Then the operators on data take the place of those on scalars; what an operation brings to a kind is
brought to it by `Element.ofDatum`.

* `LooseEnvironment`, `LooseBuffers` — bindings and contents; `environment?`, `buffers?` — the plain ones
  among them;
* `Expr.evaluateLoose` — the value of an expression; `Expr.evaluateData` — by `Expr.evaluate` where
  bindings and contents are plain. -/

namespace StridedArray

abbrev LooseEnvironment := List (String × Datum)

abbrev LooseBuffers := List Datum

namespace Loose

/-- The contents of a slot, negative numbers counting from the last one. -/
def slotOf (buffers : LooseBuffers) (slot : Int) : Except Failure (List Datum) := do
  let some contents := Shape.entry? buffers slot | throw .noElement
  contents.items

def environment? (env : LooseEnvironment) : Option Environment := do
  let plain ← env.mapM fun (name, value) =>
    match value with
    | .scalar (.int n) => some (name, n)
    | _ => none
  return fun name => plain.lookup name

def elements? : Datum → Option (Array Scalar)
  | .list items => do
    let scalars ← items.mapM fun item =>
      match item with
      | .scalar value => some value
      | _ => none
    return scalars.toArray
  | _ => none

def buffers? (buffers : LooseBuffers) : Option Buffers := do
  let contents ← buffers.mapM elements?
  return fun slot => Shape.entry? contents slot

end Loose

namespace Expr

def readData (buffers : LooseBuffers) (slot : Int) (kind : Element) (layout : Layout) (place : Datum) :
    Except Failure Scalar := do
  match ← layout.addressOfFlat place with
  | none => return kind.zero
  | some offset => kind.ofDatum (← Datum.entryAt (← Loose.slotOf buffers slot) offset)

/-- The value read at an offset. That the offset is a number is looked at first. -/
def loadData (buffers : LooseBuffers) (slot : Int) (kind : Element) (place : Datum) :
    Except Failure Scalar := do
  discard ((Datum.int 0).atMost place)
  let contents ← Loose.slotOf buffers slot
  if !(← Datum.within (.int 0) place (.int contents.length)) then
    throw (.index (.load slot place contents.length))
  kind.ofDatum (← Datum.entryAt contents place)

def applyUnaryData (op : UnaryOp) (kind : Element) (a : Datum) : Except Failure Datum := do
  match op with
  | .neg => return .scalar (← kind.ofDatum (← a.negate))
  | .cast => return .scalar (← kind.ofDatum a)
  | op =>
    match a with
    | .scalar value => Datum.scalar <$> applyUnary op kind value
    | _ => throw .operand

def applyBinaryData (op : BinaryOp) (operands : Element) (a b : Datum) : Except Failure Datum :=
  match op with
  | .add => if operands = .bool then pure (if a.truthy then a else b) else a.add b
  | .mul => if operands = .bool then pure (if a.truthy then b else a) else a.multiply b
  | .idiv => a.floorDivide b
  | .mod => a.floorModulo b
  | .max => a.larger b
  | .cmplt => do return .scalar (.bool (← a.less b))
  | .cmpgt => do return .scalar (.bool (← b.less a))
  | .and => pure (if a.truthy then b else a)

def stepData (op : Reduction) (kind : Element) (acc x : Datum) : Except Failure Datum :=
  match op with
  | .add => applyBinaryData .add kind acc x
  | .max => acc.larger x

def finishData (op : Reduction) (kind : Element) (acc : Datum) : Except Failure Datum :=
  match op, kind with
  | .add, .int32 => Datum.scalar <$> kind.ofDatum acc
  | _, _ => pure acc

def evaluateLooseFrom (env : LooseEnvironment) (buffers : LooseBuffers) :
    Expr → Option Datum → Except Failure (Datum × Option Datum)
  | const _ value _, position => pure (.scalar value, position)
  | special name _ _, position =>
    match if name = reductionIndex then position else env.lookup name with
    | some d => pure (d, position)
    | none => throw .unbound
  | accessor slot kind layout index, position => do
    let (place, position) ← evaluateLooseFrom env buffers index position
    return (.scalar (← readData buffers slot kind layout place), position)
  | load slot kind index, position => do
    let (place, position) ← evaluateLooseFrom env buffers index position
    return (.scalar (← loadData buffers slot kind place), position)
  | unary op kind a, position => do
    let (x, position) ← evaluateLooseFrom env buffers a position
    return (← applyUnaryData op kind x, position)
  | binary op kind a b, position => do
    let (x, position) ← evaluateLooseFrom env buffers a position
    let (y, position) ← evaluateLooseFrom env buffers b position
    let z ← applyBinaryData op a.kind x y
    return (← if kind = .int32 then Datum.scalar <$> kind.ofDatum z else pure z, position)
  | select _ condition a b, position => do
    let (c, position) ← evaluateLooseFrom env buffers condition position
    if c.truthy then evaluateLooseFrom env buffers a position
    else evaluateLooseFrom env buffers b position
  | reduce op kind body extent, _ => do
    let acc ← foldBelow extent.toNat
      (fun acc (r : Nat) => do
        let (x, _) ← evaluateLooseFrom env buffers body (some (.int (r : Nat)))
        stepData op kind acc x)
      (Datum.scalar (op.start kind))
    return (← finishData op kind acc, none)

def evaluateLoose (e : Expr) (env : LooseEnvironment) (buffers : LooseBuffers) :
    Except Failure Datum :=
  Prod.fst <$> e.evaluateLooseFrom env buffers (env.lookup reductionIndex)

/-- The value of an expression, by `evaluate` where all bindings are integers and all contents are
    scalars. -/
def evaluateData (e : Expr) (env : LooseEnvironment) (buffers : LooseBuffers) : Except Failure Datum :=
  match Loose.environment? env, Loose.buffers? buffers with
  | some env, some buffers => Datum.scalar <$> e.evaluate env buffers
  | _, _ => e.evaluateLoose env buffers

end Expr

end StridedArray
