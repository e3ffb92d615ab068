import StridedArray.View

/-! # Layouts

A layout is a stack of views. The lowest one addresses a buffer; every other one addresses the flat
row-major positions of the view below it.

* `Layout` — the top view and the views below it, the nearest first;
* `Layout.ofShape` — the layout of a whole row-major array;
* `offsetOf?` — the offset of a multi-index through the whole stack;
* `address`, `addressFlat` — the same with checked arguments;
* `offsetRange?` — which offsets can be read at all. -/

namespace StridedArray

structure Layout where
  top : View
  /-- The views under the top, the nearest first and the one over the buffer last. -/
  below : List View
  deriving DecidableEq

namespace Layout

def shape (l : Layout) : List Int := l.top.shape

def rank (l : Layout) : Nat := l.shape.length

def size (l : Layout) : Int := Shape.product l.shape

def base (l : Layout) : View := l.below.getLast?.getD l.top

def views (l : Layout) : List View := (l.top :: l.below).reverse

def contiguous (l : Layout) : Bool := l.below.isEmpty && l.top.contiguous

def rowMajor (shape : List Int) : Layout := ⟨View.rowMajor shape, []⟩

def ofShape (shape : List Int) : Except Failure Layout :=
  if shape.any (· < 0) then throw (.shape (.extents (Datum.ints shape)))
  else pure (rowMajor shape)

def text (l : Layout) : String :=
  "ShapeTracker(shape=" ++ Text.integers l.shape ++ s!", views={l.below.length + 1})"

/-! ## Addressing -/

def descend : List View → Int → Option Int
  | [], offset => some offset
  | v :: rest, offset => (v.offsetOf? (Shape.unravel offset v.shape)).bind (descend rest)

def offsetOf? (l : Layout) (index : List Int) : Option Int :=
  (l.top.offsetOf? index).bind (descend l.below)

/-- The first axis on which a multi-index is out of range, with index and extent. -/
def firstOutside? : Nat → List Int → List Int → Option (Int × Nat × Int)
  | axis, i :: is, s :: ss => if 0 ≤ i ∧ i < s then firstOutside? (axis + 1) is ss else some (i, axis, s)
  | _, _, _ => none

def address (l : Layout) (index : List Int) : Except Failure (Option Int) :=
  if index.length ≠ l.rank then throw (.shape (.indexRank (Datum.ints index) l.shape))
  else
    match firstOutside? 0 index l.shape with
    | some (i, axis, extent) => throw (.shape (.indexOutside (.int i) axis extent))
    | none => pure (l.offsetOf? index)

def addressFlat (l : Layout) (flat : Int) : Except Failure (Option Int) :=
  if 0 ≤ flat ∧ flat < l.size then l.address (Shape.unravel flat l.shape)
  else throw (.index (.outsideView (.int flat) l.size))

/-- The offsets between which one axis moves, given those before it; `none` if its valid range is
    empty. -/
def widen? (reach : Int × Int) (axis : Int × (Int × Int)) : Option (Int × Int) :=
  let (stride, low, high) := axis
  if high ≤ low then none
  else if 0 ≤ stride then some (reach.1 + stride * low, reach.2 + stride * (high - 1))
  else some (reach.1 + stride * (high - 1), reach.2 + stride * low)

def offsetRange? (l : Layout) : Option (Int × Int) :=
  let b := l.base
  -- The views above may hide positions of the base; what they hide is counted as read.
  if Shape.product b.shape = 0 ∨ l.size = 0 then none
  else (b.strides.zip b.ranges).foldlM widen? (b.offset, b.offset)

@[simp] theorem shape_rowMajor (s : List Int) : (rowMajor s).shape = s := rfl

end Layout

end StridedArray
