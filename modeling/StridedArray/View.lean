import StridedArray.Shape

/-! # Strided views

A view maps a multi-index onto an offset by a base offset and one stride per axis. A mask of valid
ranges per axis marks everything outside of them as padding, which has no offset and reads as zero.

* `View.create` — the normal form: an axis of extent 1 never moves the offset, a mask that hides
  nothing is dropped;
* `View.offsetOf?` — the offset of a multi-index;
* `permute?`, `pad`, `shrink`, `expand`, `flip?`, `reshape?` — the same buffer seen otherwise.

The operations do not check their arguments. They stop at the end of the shorter list, and those
that pick axes by number fail where there is none. -/

namespace StridedArray

structure View where
  shape : List Int
  strides : List Int
  offset : Int := 0
  mask : Option (List (Int × Int)) := none
  deriving DecidableEq

namespace View

def fullMask (shape : List Int) : List (Int × Int) := shape.map fun s => (0, s)

def coversAll (mask : List (Int × Int)) (shape : List Int) : Bool :=
  (mask.zip shape).all fun (m, s) => m = (0, s)

def settleStrides (shape strides : List Int) : List Int :=
  shape.zipWith (fun s st => if s = 1 then 0 else st) strides

def create (shape strides : List Int) (offset : Int) (mask : Option (List (Int × Int))) : View :=
  { shape := shape
    strides := settleStrides shape strides
    offset := offset
    -- A mask over several axes is kept whole or not at all, so one open axis does not shorten it.
    mask := mask.filter fun m => !coversAll m shape }

def rowMajor (shape : List Int) : View := create shape (Shape.rowMajorStrides shape) 0 none

@[simp] theorem create_shape (shape strides : List Int) (offset : Int)
    (mask : Option (List (Int × Int))) : (create shape strides offset mask).shape = shape := rfl

@[simp] theorem create_offset (shape strides : List Int) (offset : Int)
    (mask : Option (List (Int × Int))) : (create shape strides offset mask).offset = offset := rfl

@[simp] theorem rowMajor_shape (shape : List Int) : (rowMajor shape).shape = shape := rfl

def contiguous (v : View) : Bool :=
  v.offset = 0 && v.mask.isNone && v.strides = (rowMajor v.shape).strides

def ranges (v : View) : List (Int × Int) := v.mask.getD (fullMask v.shape)

def admits (mask : List (Int × Int)) (index : List Int) : Bool :=
  (index.zip mask).all fun (i, r) => decide (r.1 ≤ i ∧ i < r.2)

def offsetOf? (v : View) (index : List Int) : Option Int :=
  match v.mask with
  | some mask =>
    if admits mask index then some (v.offset + Shape.dot index v.strides) else none
  | none => some (v.offset + Shape.dot index v.strides)

/-! ## Movements -/

def permute? (v : View) (order : List Int) : Option View := do
  let shape ← order.mapM (Shape.entry? v.shape)
  let strides ← order.mapM (Shape.entry? v.strides)
  let mask ← match v.mask with
    | none => pure none
    | some mask => some <$> order.mapM (Shape.entry? mask)
  return create shape strides v.offset mask

def pad (v : View) (widths : List (Int × Int)) : View :=
  let lows := widths.map Prod.fst
  create (v.shape.zipWith (fun s w => s + w.1 + w.2) widths) v.strides
    (v.offset - Shape.dot lows v.strides)
    (some (v.ranges.zipWith (fun r w => (r.1 + w.1, r.2 + w.1)) widths))

/-- A range cut to a smaller one and counted from its start; `(0, 0)` if nothing is left. -/
def cutRange (valid kept : Int × Int) : Int × Int :=
  let low := max valid.1 kept.1 - kept.1
  let high := min valid.2 kept.2 - kept.1
  if low < high then (low, high) else (0, 0)

def shrink (v : View) (ranges : List (Int × Int)) : View :=
  let lows := ranges.map Prod.fst
  create (ranges.map fun r => r.2 - r.1) v.strides
    (v.offset + Shape.dot lows v.strides)
    (some (v.ranges.zipWith cutRange ranges))

/-- One axis of `expand`: its stride and valid range. A repeated axis is valid throughout or not at
    all. -/
def expandAxis (old new stride : Int) (range : Int × Int) : Int × (Int × Int) :=
  if old = new then (stride, range)
  else (0, if range = (0, 1) then (0, new) else (0, 0))

def expandAxes : List Int → List Int → List Int → List (Int × Int) → List (Int × (Int × Int))
  | s :: ss, n :: ns, st :: sts, r :: rs => expandAxis s n st r :: expandAxes ss ns sts rs
  | _, _, _, _ => []

def expand (v : View) (shape : List Int) : View :=
  let axes := expandAxes v.shape shape v.strides v.ranges
  create shape (axes.map Prod.fst) v.offset (some (axes.map Prod.snd))

/-- One axis backwards: offset, strides and ranges before and after. An empty axis stays as it is. -/
def flipAxis? (shape : List Int) (state : Int × List Int × List (Int × Int)) (axis : Int) :
    Option (Int × List Int × List (Int × Int)) := do
  let (offset, strides, ranges) := state
  let s ← Shape.entry? shape axis
  if s = 0 then return state
  -- An axis of extent 1 is turned too: an empty range there becomes `(1, 1)`, not `(0, 0)`.
  let place ← Shape.place? strides.length axis
  let stride ← strides[place]?
  let rangePlace ← Shape.place? ranges.length axis
  let range ← ranges[rangePlace]?
  return (offset + (s - 1) * stride, strides.set place (-stride),
    ranges.set rangePlace (s - range.2, s - range.1))

def flip? (v : View) (axes : List Int) : Option View := do
  let (offset, strides, ranges) ←
    axes.foldlM (flipAxis? v.shape) (v.offset, v.strides, v.ranges)
  return create v.shape strides offset (some ranges)

/-- Strides and ranges handed out to the extents of a shape in turn; an axis of extent 1 takes
    none. -/
def distribute : List Int → List (Int × (Int × Int)) → List (Int × (Int × Int))
  | [], _ => []
  | s :: rest, pool =>
    if s = 1 then (0, (0, 1)) :: distribute rest pool
    else
      match pool with
      | [] => []
      | axis :: pool => axis :: distribute rest pool

def axes (v : View) : List (Int × Int × (Int × Int)) := v.shape.zip (v.strides.zip v.ranges)

/-- Another shape for the same positions, if a single view can show it: the row-major view can take
    any shape, every other one only gain and lose axes of extent 1. A lost axis must not be masked
    out. -/
def reshape? (v : View) (shape : List Int) : Option View :=
  if v.contiguous then some (rowMajor shape)
  else
    let kept := v.axes.filter fun a => a.1 ≠ 1
    if kept.map Prod.fst ≠ shape.filter (· ≠ 1) then none
    -- Only `(0, 0)` counts as masked out, not every empty range.
    else if (v.shape.zip v.ranges).any fun (s, r) => s = 1 && r = (0, 0) then none
    else
      let axes := distribute shape (kept.map Prod.snd)
      some (create shape (axes.map Prod.fst) v.offset (some (axes.map Prod.snd)))

end View

end StridedArray
