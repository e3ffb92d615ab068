import StridedArray.Failure

/-! # Extents, axes and row-major positions

A shape is the list of extents of an array, outermost axis first. Extents are integers; what is made
of untrusted numbers may be zero or negative, and the definitions say what happens then.

* `product`, `rowMajorStrides` — how many positions there are and how far apart along each axis;
* `unravel`, `ravel` — a flat position as a multi-index and back;
* `normalizeAxis`, `place?`, `entry?` — axes and entries counted from either end;
* `broadcast` — the common shape of several arrays;
* `ceilDivide` — division that rounds up. -/

namespace StridedArray.Shape

def product : List Int → Int
  | [] => 1
  | s :: rest => s * product rest

@[simp] theorem product_nil : product [] = 1 := rfl

@[simp] theorem product_cons (s : Int) (rest : List Int) : product (s :: rest) = s * product rest := rfl

theorem product_append (a b : List Int) : product (a ++ b) = product a * product b := by
  induction a with
  | nil => simp
  | cons s rest ih => simp [ih, Int.mul_assoc]

/-- The distance in memory between neighbours along each axis when the last axis runs fastest. -/
def rowMajorStrides : List Int → List Int
  | [] => []
  | _ :: rest => product rest :: rowMajorStrides rest

@[simp] theorem length_rowMajorStrides (shape : List Int) :
    (rowMajorStrides shape).length = shape.length := by
  induction shape with
  | nil => rfl
  | cons _ _ ih => simp [rowMajorStrides, ih]

def dot : List Int → List Int → Int
  | i :: is, s :: ss => i * s + dot is ss
  | _, _ => 0

def ravel (index shape : List Int) : Int := dot index (rowMajorStrides shape)

/-- One step of `unravel`: what is left of the flat position after the axes of the given shape have
    been taken off its low end, and their indices. An empty axis has index 0 and leaves nothing. -/
def unravelFrom (flat : Int) : List Int → Int × List Int
  | [] => (flat, [])
  | s :: rest =>
    let (q, index) := unravelFrom flat rest
    if s = 0 then (0, 0 :: index) else (q.fdiv s, q.fmod s :: index)

def unravel (flat : Int) (shape : List Int) : List Int := (unravelFrom flat shape).2

/-- The axis that a number stands for, negative ones counting from the last. -/
def normalizeAxis (axis : Int) (rank : Nat) : Except Failure Nat :=
  if -(rank : Int) ≤ axis ∧ axis < rank then pure (axis % rank).toNat
  else throw (.shape (.axisOutside (.int axis) (.int rank)))

def ceilDivide (a b : Int) : Except Failure Int :=
  if b = 0 then throw .divisionByZero else pure (-((-a).fdiv b))

/-! ## Picking by number -/

/-- The place in a list of the given length that a number stands for, negative ones counting from
    the end. -/
def place? (length : Nat) (axis : Int) : Option Nat :=
  let fromStart := if axis < 0 then axis + length else axis
  if 0 ≤ fromStart ∧ fromStart < length then some fromStart.toNat else none

def entry? {α : Type} (xs : List α) (axis : Int) : Option α :=
  (place? xs.length axis).bind fun k => xs[k]?

/-! ## Broadcasting -/

def alignedExtents (shapes : List (List Int)) (fromLast : Nat) : List Int :=
  shapes.filterMap fun shape => shape.reverse[fromLast]?

/-- The extent to which all the given ones stretch: only 1 does, and to anything. -/
def commonExtent? (extents : List Int) : Option Int :=
  match extents.filter (· ≠ 1) with
  | [] => some 1
  | e :: rest => if rest.all (· = e) then some e else none

def greatestRank (shapes : List (List Int)) : Nat := (shapes.map List.length).foldl max 0

/-- The shape to which all the given ones stretch, aligned at the last axis; `none` if some axis has
    two different extents other than 1. -/
def broadcast? (shapes : List (List Int)) : Option (List Int) :=
  (List.range (greatestRank shapes)).reverse.mapM fun fromLast =>
    commonExtent? (alignedExtents shapes fromLast)

def broadcast (shapes : List (List Int)) : Except Failure (List Int) :=
  if shapes.isEmpty then throw .malformed
  else
    match broadcast? shapes with
    | some shape => pure shape
    | none => throw (.shape (.broadcast (shapes.map fun shape => .list (Datum.ints shape))))

end StridedArray.Shape
