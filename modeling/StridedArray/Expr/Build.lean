import StridedArray.Expr

/-! # Building expressions

The constructors check the kinds of their operands, bring operands to a common kind, and simplify
while they build: operations on constants are carried out, neutral operands disappear.

* `constant`, `int32`, `truth`, `float32` — constants;
* `variableOf`, `read`, `loadAt` — variables and buffer reads;
* `neg`, `sin`, `cos`, `cast`, `add`, `mul`, `idiv`, `mod`, `max`, `cmplt`, `cmpgt`, `both`, `choose`,
  `fold` — operations;
* `lift` — a scalar as a constant that fits beside an expression, and the operators on an expression
  and a scalar. -/

namespace StridedArray.Expr

/-! ## Leaves -/

def constant (kind : Element) (value : Scalar) : Except Failure Expr := do
  return .const kind (← kind.coerce value)

def int32 (n : Int) : Expr := .const .int32 (.int (wrap32 n))

def truth (b : Bool) : Expr := .const .bool (.bool b)

def variableOf (kind : Element) (name : String) (extent : Scalar) : Except Failure Expr := do
  if kind ≠ .int32 then throw (.kind (.specialKind name))
  return .special name (← extent.toInt)

def read (slot : Int) (kind : Element) (layout : Layout) (index : Expr) : Except Failure Expr :=
  if index.kind ≠ .int32 then throw (.kind .accessorIndex)
  else if slot < 0 then throw (.argument (.negativeSlot (.int slot)))
  else pure (.accessor slot kind layout index)

def loadAt (slot : Int) (kind : Element) (index : Expr) : Except Failure Expr :=
  if index.kind ≠ .int32 then throw (.kind .loadIndex) else pure (.load slot kind index)

def isConstant (e : Expr) (n : Int) : Bool :=
  match e with
  | .const _ value _ => value.sameNumber (.int n)
  | _ => false

/-! ## One operand -/

def cast (kind : Element) (a : Expr) : Except Failure Expr :=
  if a.kind = kind then pure a
  else
    match a with
    | .const _ value _ => constant kind value
    | _ => pure (.unary .cast kind a)

def neg (a : Expr) : Except Failure Expr :=
  if a.kind = .bool then throw (.kind .negatedBool)
  else
    match a with
    | .const kind value _ => constant kind value.negate
    | _ => pure (.unary .neg a.kind a)

def sin (a : Expr) : Except Failure Expr := do
  return .unary .sin .float32 (← cast .float32 a)

def cos (a : Expr) : Except Failure Expr := do
  return .unary .cos .float32 (← cast .float32 a)

/-! ## Two operands -/

def combine (op : BinaryOp) (a b : Expr) : Except Failure Expr := do
  let kind := Element.promote a.kind b.kind
  let a ← cast kind a
  let b ← cast kind b
  match a, b with
  -- Unlike the value of an operation, a constant of single precision is rounded at once.
  | .const _ x _, .const _ y _ => constant (op.resultKind kind) (← op.apply kind x y)
  | _, _ => return .binary op (op.resultKind kind) a b

def add (a b : Expr) : Except Failure Expr :=
  let kind := Element.promote a.kind b.kind
  if a.isConstant 0 then cast kind b
  else if b.isConstant 0 then cast kind a
  else combine .add a b

def mul (a b : Expr) : Except Failure Expr :=
  let kind := Element.promote a.kind b.kind
  if a.isConstant 1 then cast kind b
  else if b.isConstant 1 then cast kind a
  -- Zero times infinity is no number, so this is for integers only.
  else if kind = .int32 && (a.isConstant 0 || b.isConstant 0) then pure (int32 0)
  else combine .mul a b

def requireWhole (operation : String) (a b : Expr) : Except Failure Unit :=
  if a.kind ≠ .int32 || b.kind ≠ .int32 then
    throw (.kind (.wholeOperands operation a.kind b.kind))
  else pure ()

def idiv (a b : Expr) : Except Failure Expr := do
  requireWhole "idiv" a b
  if b.isConstant 1 then return a
  combine .idiv a b

def mod (a b : Expr) : Except Failure Expr := do
  requireWhole "mod" a b
  if b.isConstant 1 then return int32 0
  combine .mod a b

def max (a b : Expr) : Except Failure Expr := combine .max a b

def cmplt (a b : Expr) : Except Failure Expr := combine .cmplt a b

def cmpgt (a b : Expr) : Except Failure Expr := combine .cmpgt a b

def both (a b : Expr) : Except Failure Expr :=
  if a.kind ≠ .bool || b.kind ≠ .bool then throw (.kind .conjunction)
  else
    match a, b with
    | .const _ x _, _ => pure (if x.truthy then b else truth false)
    | _, .const _ y _ => pure (if y.truthy then a else truth false)
    | _, _ => pure (.binary .and .bool a b)

/-! ## Selection and reduction -/

/-- The second operand where the first one holds, and the third one elsewhere. -/
def choose (condition a b : Expr) : Except Failure Expr := do
  if condition.kind ≠ .bool then throw (.kind .condition)
  let kind := Element.promote a.kind b.kind
  let a ← cast kind a
  let b ← cast kind b
  match condition with
  | .const _ c _ => return if c.truthy then a else b
  | _ => return .select kind condition a b

def reductionPosition (extent : Int) : Expr := .special reductionIndex extent

def outputPosition (extent : Int) : Expr := .special outputIndex extent

def fold (op : Reduction) (body : Expr) (extent : Int) : Except Failure Expr := do
  let body ← if body.kind = .bool then cast .int32 body else pure body
  return .reduce op body.kind body extent

def operations : List (String × String) :=
  [("const", "Const"), ("special", "Special"), ("accessor", "Accessor"),
   ("global_index", "GlobalIndex"), ("neg", "Neg"), ("sin", "Sin"), ("cos", "Cos"),
   ("cast", "Cast"), ("add", "Add"), ("mul", "Mul"), ("idiv", "Idiv"), ("mod", "Mod"),
   ("max", "Max"), ("cmplt", "Cmplt"), ("cmpgt", "Cmpgt"), ("and", "And"), ("where", "Where"),
   ("reduce", "Reduce")]

def reductionNamed (name : String) : Except Failure Reduction :=
  match name with
  | "add" => pure .add
  | "max" => pure .max
  | _ =>
    match operations.find? (·.1 == name) with
    | some (_, title) => throw (.argument (.reduction ("AluOp." ++ title)))
    | none => throw .malformed

/-! ## Scalars beside expressions -/

/-- A scalar as a constant beside an expression: a truth value stays one, an integer takes the kind
    that the expression is computed in, anything else is a number of single precision. -/
def lift (beside : Expr) (value : Scalar) : Except Failure Expr :=
  match value with
  | .bool b => pure (truth b)
  | .int n => if beside.kind = .float32 then constant .float32 (.int n) else pure (int32 n)
  | value => constant .float32 value

def mulScalar (a : Expr) (value : Scalar) : Except Failure Expr := do a.mul (← a.lift value)

def idivScalar (a : Expr) (value : Scalar) : Except Failure Expr := do a.idiv (← a.lift value)

def modScalar (a : Expr) (value : Scalar) : Except Failure Expr := do a.mod (← a.lift value)

end StridedArray.Expr
