import StridedArray.Expr.Build
import StridedArray.Expr.Sharing

/-! # Ranges of expressions

`Expr.bounds?` gives an inclusive range of the integers that an expression can take over all values
of its variables, computed from the ranges of its operands. There is none for what depends on the
contents of buffers, on constants of single precision, or on a reduction. `Expr.boundsShared` is the
same range, operands that occur several times being looked at once. -/

namespace StridedArray

abbrev Range := Int × Int

namespace BinaryOp

/-- The range of an operation from the ranges of its operands. Quotient and remainder need a divisor
    known to be one positive number. -/
def bounds? (op : BinaryOp) (a b : Range) : Option Range :=
  match op with
  | add => some (a.1 + b.1, a.2 + b.2)
  | mul =>
    let p := a.1 * b.1
    let q := a.1 * b.2
    let r := a.2 * b.1
    let s := a.2 * b.2
    some (min (min p q) (min r s), Max.max (Max.max p q) (Max.max r s))
  | max => some (Max.max a.1 b.1, Max.max a.2 b.2)
  | idiv => if b.1 = b.2 ∧ 0 < b.1 then some (a.1.fdiv b.1, a.2.fdiv b.1) else none
  | mod => if b.1 = b.2 ∧ 0 < b.1 then some (0, b.1 - 1) else none
  | cmplt | cmpgt | and => some (0, 1)

def isTruth : BinaryOp → Bool
  | cmplt | cmpgt | and => true
  | _ => false

end BinaryOp

namespace Expr

def constantBounds? (kind : Element) (value : Scalar) : Option Range :=
  if kind = .float32 then none else value.whole?.map fun n => (n, n)

def bounds? : Expr → Option Range
  | const kind value _ => constantBounds? kind value
  -- A variable over nothing is taken to be 0.
  | special _ extent _ => some (0, Max.max (extent - 1) 0)
  | accessor .. => none
  | load .. => none
  | unary op _ a =>
    match op with
    -- The range of the operand stands for its truth value as well.
    | .cast => if a.kind = .float32 then none else bounds? a
    | .neg => (bounds? a).map fun r => (-r.2, -r.1)
    | .sin | .cos => none
  | binary op _ a b =>
    if op.isTruth then some (0, 1)
    else
      match bounds? a, bounds? b with
      | some ra, some rb => op.bounds? ra rb
      | _, _ => none
  | select _ condition a b =>
    match bounds? condition, bounds? a, bounds? b with
    | some _, some ra, some rb => some (min ra.1 rb.1, Max.max ra.2 rb.2)
    | _, _, _ => none
  | reduce .. => none

def boundsStep (e : Expr) (ranges : List (Option Range)) : Option Range :=
  match e, ranges with
  | const kind value _, _ => constantBounds? kind value
  | special _ extent _, _ => some (0, Max.max (extent - 1) 0)
  | unary .cast _ a, [x] => if a.kind = .float32 then none else x
  | unary .neg _ _, [x] => x.map fun r => (-r.2, -r.1)
  | binary op _ _ _, [x, y] =>
    if op.isTruth then some (0, 1)
    else
      match x, y with
      | some ra, some rb => op.bounds? ra rb
      | _, _ => none
  | select .., [c, x, y] =>
    match c, x, y with
    | some _, some ra, some rb => some (min ra.1 rb.1, Max.max ra.2 rb.2)
    | _, _, _ => none
  | _, _ => none

theorem foldUp_boundsStep (e : Expr) : foldUp boundsStep e = e.bounds? := by
  induction e with
  | const => rfl
  | special => rfl
  | accessor => rfl
  | load => rfl
  | unary op _ a ih => cases op <;> simp [foldUp, boundsStep, bounds?, ih]
  | binary _ _ a b iha ihb => simp [foldUp, boundsStep, bounds?, iha, ihb]
  | select _ c a b ihc iha ihb => simp [foldUp, boundsStep, bounds?, ihc, iha, ihb]
  | reduce => rfl

def boundsShared (e : Expr) : Option Range := foldUpShared boundsStep e

@[simp] theorem boundsShared_eq (e : Expr) : e.boundsShared = e.bounds? := by
  rw [boundsShared, foldUpShared_eq, foldUp_boundsStep]

end Expr

end StridedArray
