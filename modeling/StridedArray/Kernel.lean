import StridedArray.Expr.Bounds
import StridedArray.Expr.Traverse

/-! # Kernels

A kernel is a validated unit of work: several expressions, one per output, to be evaluated at the same
positions. Validation looks at the expressions and at the sizes of the buffers, never at contents.

* `checkReductions` — reductions are not nested, the reduction index stays inside of one;
* `checkRead` — a read stays inside its buffer, as far as that is known beforehand;
* `Kernel.plan` — all checks, in order. -/

namespace StridedArray

structure Kernel where
  /-- Written to the outputs in order, at positions `0 .. size - 1`. -/
  exprs : List Expr
  size : Int
  /-- The kind of elements of every input slot that is read, by slot number as written. -/
  kinds : List (Int × Element)

def checkReductions : Expr → Bool → Except Failure Unit
  | .const .., _ => pure ()
  | .special name _ _, inside =>
    if name = reductionIndex && !inside then throw (.execution .looseReductionIndex) else pure ()
  | .accessor _ _ _ index, inside => checkReductions index inside
  | .load _ _ index, inside => checkReductions index inside
  | .unary _ _ a, inside => checkReductions a inside
  | .binary _ _ a b, inside => do
    checkReductions a inside
    checkReductions b inside
  | .select _ condition a b, inside => do
    checkReductions condition inside
    checkReductions a inside
    checkReductions b inside
  | .reduce _ _ body _, inside =>
    if inside then throw (.execution .nestedReduction) else checkReductions body true

/-- Fail if a read through a layout leaves a buffer of the given number of elements. Positions are
    only checked where the expression is evaluated at all. -/
def checkReach (slot : Int) (layout : Layout) (index : Expr) (count : Nat) (evaluated : Bool) :
    Except Failure Unit := do
  match layout.offsetRange? with
  | some (low, high) =>
    if low < 0 ∨ (count : Int) ≤ high then
      throw (.execution (.reach layout.text low high count))
  | none => pure ()
  if evaluated then
    match index.boundsShared with
    | some (low, high) =>
      if low < 0 ∨ layout.size ≤ high then
        throw (.execution (.positions slot low high layout.size))
    | none => pure ()

/-- Fail if a read does not fit a buffer of the given size in bytes. -/
def checkRead (node : Expr) (bytes : Nat) (evaluated : Bool) : Except Failure Unit := do
  if bytes % node.kind.itemSize ≠ 0 then
    throw (.execution (.partialElements bytes node.kind))
  match node with
  | .accessor slot _ layout index =>
    checkReach slot layout index (bytes / node.kind.itemSize) evaluated
  | _ => pure ()

def readSlot? : Expr → Option Int
  | .accessor slot .. => some slot
  | .load slot .. => some slot
  | _ => none

def noteKind (kinds : List (Int × Element)) (slot : Int) (kind : Element) :
    Except Failure (List (Int × Element)) :=
  match kinds.lookup slot with
  | none => pure (kinds ++ [(slot, kind)])
  | some known =>
    if known = kind then pure kinds else throw (.execution (.kindConflict slot known kind))

/-- One more read: its slot is bound, agrees in kind with the earlier reads and is large enough. -/
def planRead (inputSizes : List Nat) (evaluated : Bool) (kinds : List (Int × Element)) (node : Expr) :
    Except Failure (List (Int × Element)) := do
  let some slot := readSlot? node | return kinds
  if (inputSizes.length : Int) ≤ slot then
    throw (.execution (.slotOutside slot inputSizes.length))
  let kinds ← noteKind kinds slot node.kind
  -- A negative slot counts from the last input, and is noted under its own number above.
  let some bytes := Shape.entry? inputSizes slot | throw .noElement
  checkRead node bytes evaluated
  return kinds

/-- One more variable: the output index has one extent throughout, and only the two indices are
    bound. -/
def planSpecial (size : Option Int) (entry : String × Int) : Except Failure (Option Int) :=
  let (name, extent) := entry
  if name = outputIndex then
    match size with
    | some known =>
      if known = extent then pure size else throw (.execution (.extentConflict known extent))
    | none => pure (some extent)
  else if name = reductionIndex then pure size
  else throw (.execution (.unboundSpecial name))

/-- One more expression. Nothing is evaluated over an empty range, so positions are not checked
    there. -/
def planExpr (inputSizes : List Nat) (state : Option Int × List (Int × Element)) (e : Expr) :
    Except Failure (Option Int × List (Int × Element)) := do
  let (size, kinds) := state
  checkReductions e false
  let specials := e.specials
  -- One extent 0 is enough, also where it belongs to a reduction that other reads stand beside.
  let evaluated := !specials.any fun (_, extent) => extent = 0
  let size ← specials.foldlM planSpecial size
  let kinds ← e.reads.foldlM (planRead inputSizes evaluated) kinds
  return (size, kinds)

def commonSize (exprs : List Expr) (outputSizes : List Nat) : Nat :=
  ((outputSizes.zip exprs).map fun (bytes, e) => bytes / e.kind.itemSize).min?.getD 0

def checkOutputs (size : Int) : Nat → List (Nat × Expr) → Except Failure Unit
  | _, [] => pure ()
  | i, (bytes, e) :: rest =>
    let needed := size * e.kind.itemSize
    if (bytes : Int) < needed then throw (.execution (.outputTooSmall i bytes needed))
    else checkOutputs size (i + 1) rest

def Kernel.plan (exprs : List Expr) (inputSizes outputSizes : List Nat) : Except Failure Kernel := do
  let (size, kinds) ← exprs.foldlM (planExpr inputSizes) (none, [])
  -- Without an output index the shortest output decides how many positions there are.
  let size := size.getD (commonSize exprs outputSizes)
  checkOutputs size 0 (outputSizes.zip exprs)
  return { exprs, size, kinds }

end StridedArray
