import StridedArray.Arithmetic
import StridedArray.Layout

/-! # Expressions

An expression is evaluated once for every position of an output. Its leaves are constants, variables
that the evaluation binds, and reads of buffers.

* `Expr` — the type; `Expr.kind` — the kind of elements an expression stands for; `Expr.declared` — a
  leaf with the number of its declaration;
* `UnaryOp`, `BinaryOp`, `Reduction` — the operations, with `BinaryOp.apply` and the three parts of a
  reduction, `start`, `step` and `finish`;
* `outputIndex`, `reductionIndex` — the names of the two variables that executors bind. -/

namespace StridedArray

inductive UnaryOp
  | neg
  | sin
  | cos
  | cast
  deriving DecidableEq

inductive BinaryOp
  | add
  | mul
  | idiv
  | mod
  | max
  | cmplt
  | cmpgt
  | and
  deriving DecidableEq

/-- Ways of folding a sequence of values into one. -/
inductive Reduction
  | add
  | max
  deriving DecidableEq

/-- Scalar expressions. A leaf may bear the number of its declaration, which tells it apart from equal
    leaves that were declared on their own; it has no bearing on values. -/
inductive Expr
  | const (kind : Element) (value : Scalar) (declaration : Nat := 0)
  /-- A 32-bit variable that ranges over `0 .. extent - 1`. -/
  | special (name : String) (extent : Int) (declaration : Nat := 0)
  /-- A read of a buffer slot through a layout, at a row-major position of that layout. -/
  | accessor (slot : Int) (kind : Element) (layout : Layout) (index : Expr)
  /-- A read of a buffer slot at an offset. -/
  | load (slot : Int) (kind : Element) (index : Expr)
  | unary (op : UnaryOp) (kind : Element) (a : Expr)
  | binary (op : BinaryOp) (kind : Element) (a b : Expr)
  /-- The second operand where the first one holds, and the third one elsewhere. -/
  | select (kind : Element) (condition a b : Expr)
  /-- The body folded over the values `0 .. extent - 1` of the reduction index. -/
  | reduce (op : Reduction) (kind : Element) (body : Expr) (extent : Int)

def outputIndex : String := "gidx"

def reductionIndex : String := "ridx"

namespace UnaryOp

def name : UnaryOp → String
  | neg => "neg"
  | sin => "sin"
  | cos => "cos"
  | cast => "cast"

end UnaryOp

namespace BinaryOp

def name : BinaryOp → String
  | add => "add"
  | mul => "mul"
  | idiv => "idiv"
  | mod => "mod"
  | max => "max"
  | cmplt => "cmplt"
  | cmpgt => "cmpgt"
  | and => "and"

def resultKind (operands : Element) : BinaryOp → Element
  | cmplt | cmpgt => .bool
  | _ => operands

/-- The operation on operands of the given kind. Sum and product of truth values are disjunction and
    conjunction. -/
def apply (op : BinaryOp) (operands : Element) (a b : Scalar) : Except Failure Scalar :=
  match op with
  | add => if operands = .bool then pure (if a.truthy then a else b) else a.add b
  | mul => if operands = .bool then pure (if a.truthy then b else a) else a.multiply b
  | idiv => a.floorDivide b
  | mod => a.floorModulo b
  | max => pure (a.larger b)
  | cmplt => pure (.bool (a.less b))
  | cmpgt => pure (.bool (b.less a))
  | and => pure (if a.truthy then b else a)

end BinaryOp

namespace Reduction

def name : Reduction → String
  | add => "add"
  | max => "max"

/-- The value of a reduction over nothing: zero, or minus infinity. -/
def start (kind : Element) : Reduction → Scalar
  | add => kind.zero
  | max => .float Binary64.negativeInfinity

def step (op : Reduction) (kind : Element) (acc x : Scalar) : Except Failure Scalar :=
  match op with
  | add => BinaryOp.add.apply kind acc x
  | max => pure (acc.larger x)

/-- The result after the last value. Sums of integers are exact until here. -/
def finish (op : Reduction) (kind : Element) (acc : Scalar) : Except Failure Scalar :=
  match op, kind with
  | add, .int32 => kind.coerce acc
  | _, _ => pure acc

end Reduction

namespace Expr

def kind : Expr → Element
  | const kind .. => kind
  | special .. => .int32
  | accessor _ kind _ _ => kind
  | load _ kind _ => kind
  | unary _ kind _ => kind
  | binary _ kind _ _ => kind
  | select kind _ _ _ => kind
  | reduce _ kind _ _ => kind

def operands : Expr → List Expr
  | const .. => []
  | special .. => []
  | accessor _ _ _ index => [index]
  | load _ _ index => [index]
  | unary _ _ a => [a]
  | binary _ _ a b => [a, b]
  | select _ condition a b => [condition, a, b]
  | reduce _ _ body _ => [body]

def operation : Expr → String
  | const .. => "const"
  | special .. => "special"
  | accessor .. => "accessor"
  | load .. => "global_index"
  | unary op _ _ => op.name
  | binary op _ _ _ => op.name
  | select .. => "where"
  | reduce .. => "reduce"

def declared (number : Nat) : Expr → Expr
  | const kind value 0 => const kind value number
  | special name extent 0 => special name extent number
  | e => e

def text : Expr → String
  | const kind value _ => value.text ++ ":" ++ kind.name
  | special name extent _ => s!"{name}<{extent}>"
  | accessor slot _ layout index => s!"load[{slot}](" ++ index.text ++ ", " ++ layout.text ++ ")"
  | load slot _ index => s!"load[{slot}](" ++ index.text ++ ")"
  | unary op _ a => op.name ++ "(" ++ a.text ++ ")"
  | binary op _ a b => op.name ++ "(" ++ a.text ++ ", " ++ b.text ++ ")"
  | select _ condition a b =>
    "where(" ++ condition.text ++ ", " ++ a.text ++ ", " ++ b.text ++ ")"
  | reduce op _ body extent => "reduce_" ++ op.name ++ s!"<{extent}>(" ++ body.text ++ ")"

end Expr

end StridedArray
