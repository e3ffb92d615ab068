import StridedArray.Datum.Operators
import StridedArray.Shape

/-! # Shapes of loosely typed numbers

The functions of shapes on data that need not be integers. Where all of it is integers they are the
functions of `Shape`; elsewhere the same steps are taken with the operators on data, so that fractions,
truth values and texts go as far as those operators take them.

* `product`, `rowMajorStrides` — how many positions there are and how far apart along each axis;
* `normalizeAxis`, `unravel`, `broadcast` — axes, positions and common shapes. -/

namespace StridedArray.Loose

def plainOr {α : Type} (items : List Datum) (typed : List Int → Except Failure α)
    (loose : Except Failure α) : Except Failure α :=
  match Datum.plainInts? items with
  | some ns => typed ns
  | none => loose

def product (given : Datum) : Except Failure Datum := do
  let items ← given.items
  plainOr items (fun ns => pure (.int (Shape.product ns)))
    (items.foldlM Datum.multiply (.int 1))

/-- The strides of the axes of a shape, last axis first: each is the product of the extents behind. -/
def stridesFrom (stride : Datum) : List Datum → Except Failure (List Datum)
  | [] => pure []
  | s :: rest => do return stride :: (← stridesFrom (← stride.multiply s) rest)

/-- The distance between neighbours along each axis when the last axis runs fastest. -/
def rowMajorStrides (given : Datum) : Except Failure (List Datum) := do
  let shape ← given.items
  plainOr shape (fun ns => pure (Datum.ints (Shape.rowMajorStrides ns)))
    (List.reverse <$> stridesFrom (.int 1) shape.reverse)

/-- The axis that data stands for, negative numbers counting from the last. -/
def normalizeAxis (axis rank : Datum) : Except Failure Datum := do
  if ← Datum.within (← rank.negate) axis rank then axis.floorModulo rank
  else throw (.shape (.axisOutside axis rank))

/-- One step of `unravel`: what is left of the position, and the indices so far. An axis that is empty
    has index 0 and leaves nothing. -/
def unravelStep (state : Datum × List Datum) (s : Datum) : Except Failure (Datum × List Datum) := do
  let (flat, index) := state
  if s.truthy then
    let i ← flat.floorModulo s
    return (← flat.floorDivide s, i :: index)
  else return (.int 0, .int 0 :: index)

def unravelItems (flat : Datum) (shape : List Datum) : Except Failure (List Datum) := do
  return (← shape.reverse.foldlM unravelStep (flat, [])).2

def unravel (flat given : Datum) : Except Failure (List Datum) := do
  let shape ← given.items
  match flat with
  | .scalar (.int n) =>
    plainOr shape (fun ns => pure (Datum.ints (Shape.unravel n ns))) (unravelItems flat shape)
  | _ => unravelItems flat shape

/-! ## Broadcasting -/

def insertOnce (known : List Datum) (d : Datum) : List Datum :=
  if known.any fun k => Datum.same k d then known else known ++ [d]

/-- Is there a slice in the data? Slices cannot be told apart in a collection. -/
def holdsSlice (d : Datum) : Bool :=
  d.leaves.any fun leaf =>
    match leaf with
    | .slice .. => true
    | _ => false

/-- The extent to which all the given ones stretch: only 1 does, and to anything. -/
def commonExtent (fault : Failure) (extents : List Datum) : Except Failure Datum := do
  if extents.any holdsSlice then throw .operand
  match (extents.foldl insertOnce []).filter fun d => !d.isInt 1 with
  | [] => return .int 1
  | [d] => return d
  | _ => throw fault

/-- The shape to which shapes of numbers stretch, aligned at the last axis. -/
def broadcastItems (fault : Failure) (shapes : List (List Datum)) : Except Failure (List Datum) :=
  let rank := (shapes.map List.length).foldl max 0
  (List.range rank).reverse.mapM fun fromLast =>
    commonExtent fault (shapes.filterMap fun shape => shape.reverse[fromLast]?)

def broadcast (given : List Datum) : Except Failure (List Datum) := do
  if given.isEmpty then throw .malformed
  let shapes ← given.mapM Datum.items
  match shapes.mapM Datum.plainInts? with
  | some typed => Datum.ints <$> Shape.broadcast typed
  | none => broadcastItems (.shape (.broadcast given)) shapes

end StridedArray.Loose
