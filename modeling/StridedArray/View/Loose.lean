import StridedArray.Shape.Loose
import StridedArray.View

/-! # Views with loosely typed strides

Views can be made of data: extents, ranges and the offset are cut to integers, strides stay what they
are. The operations are those of `View`, with the operators on data in place of those on integers, and
like them do not check their arguments.

* `LooseView`, `LooseView.create` — the type and the normal form;
* `offsetOf` — the offset of a multi-index, if it is not padding;
* `permute`, `pad`, `shrink`, `expand`, `flip`, `reshape` — the same buffer seen otherwise. -/

namespace StridedArray

/-- A window onto flat memory with strides of any form. -/
structure LooseView where
  shape : List Int
  strides : List Datum
  offset : Int := 0
  mask : Option (List (Int × Int)) := none

namespace LooseView

def create (shape : List Datum) (strides : Option (List Datum)) (offset : Datum)
    (mask : Option (List Datum)) : Except Failure LooseView := do
  let shape ← shape.mapM Datum.whole
  let strides := strides.getD (Datum.ints (Shape.rowMajorStrides shape))
  let mask ← mask.mapM fun m => m.mapM Datum.wholePair
  return {
    shape := shape
    strides := shape.zipWith (fun s st => if s = 1 then .int 0 else st) strides
    offset := ← offset.whole
    mask := mask.filter fun m => !View.coversAll m shape }

/-- A view in normal form, made of data whose parts need not be sequences. -/
def ofData (shape strides offset mask : Datum) : Except Failure LooseView := do
  let shape ← shape.items
  let extents ← shape.mapM Datum.whole
  let strides ← match strides with
    | .none => pure none
    | given => some <$> given.items
  let mask ← match mask with
    | .none => pure none
    | given => some <$> given.items
  create (Datum.ints extents) strides offset mask

/-- Does the view show its buffer in order, from the beginning and without padding? -/
def contiguous (v : LooseView) : Bool :=
  v.offset = 0 && v.mask.isNone
    && Datum.sameAll v.strides (Datum.ints (View.rowMajor v.shape).strides)

def ranges (v : LooseView) : List (Int × Int) := v.mask.getD (View.fullMask v.shape)

def admits : List Datum → List (Int × Int) → Except Failure Bool
  | i :: index, (low, high) :: mask => do
    if ← Datum.within (.int low) i (.int high) then admits index mask else return false
  | _, _ => pure true

def dotFrom (total : Datum) : List Datum → List Datum → Except Failure Datum
  | i :: index, st :: strides => do dotFrom (← total.add (← i.multiply st)) index strides
  | _, _ => pure total

def dot (index strides : List Datum) : Except Failure Datum := dotFrom (.int 0) index strides

def offsetOf (v : LooseView) (index : Datum) : Except Failure (Option Datum) := do
  let index ← index.items
  if let some mask := v.mask then
    if !(← admits index mask) then return none
  return some (← (Datum.int v.offset).add (← dot index v.strides))

/-! ## Movements -/

def permute (v : LooseView) (order : Datum) : Except Failure LooseView := do
  let order ← order.items
  let shape ← order.mapM (Datum.entryAt (Datum.ints v.shape))
  let strides ← order.mapM (Datum.entryAt v.strides)
  let mask ← v.mask.mapM fun mask =>
    order.mapM (Datum.entryAt (mask.map fun r => .list [.int r.1, .int r.2]))
  create shape (some strides) (.int v.offset) mask

/-- The sum of products of the first numbers of pairs with strides. A pair is only taken apart where
    there is a stride. -/
def dotLows (total : Datum) : List Datum → List Datum → Except Failure Datum
  | pair :: pairs, st :: strides => do
    let (low, _) ← pair.two
    dotLows (← total.add (← low.multiply st)) pairs strides
  | _, _ => pure total

def zipWithM {α β γ : Type} (f : α → β → Except Failure γ) : List α → List β →
    Except Failure (List γ)
  | a :: as, b :: bs => do return (← f a b) :: (← zipWithM f as bs)
  | _, _ => pure []

def pad (v : LooseView) (widths : Datum) : Except Failure LooseView := do
  let widths ← widths.items
  let offset ← (Datum.int v.offset).subtract (← dotLows (.int 0) widths v.strides)
  let shape ← zipWithM (fun (s : Int) w => do
    let (low, high) ← w.two
    (← (Datum.int s).add low).add high) v.shape widths
  let mask ← zipWithM (fun (r : Int × Int) w => do
    let (low, _) ← w.two
    return Datum.list [← (Datum.int r.1).add low, ← (Datum.int r.2).add low]) v.ranges widths
  create shape (some v.strides) offset (some mask)

/-- A range cut to a smaller one and counted from its start; `(0, 0)` if nothing is left. -/
def cutRange (valid : Int × Int) (kept : Datum) : Except Failure Datum := do
  let (low, high) ← kept.two
  let first ← (← (Datum.int valid.1).larger low).subtract low
  let last ← (← (Datum.int valid.2).smaller high).subtract low
  if ← first.less last then return .list [first, last] else return .list [.int 0, .int 0]

def shrink (v : LooseView) (ranges : Datum) : Except Failure LooseView := do
  let ranges ← ranges.items
  let offset ← (Datum.int v.offset).add (← dotLows (.int 0) ranges v.strides)
  let shape ← ranges.mapM fun r => do
    let (low, high) ← r.two
    high.subtract low
  let mask ← zipWithM cutRange v.ranges ranges
  create shape (some v.strides) offset (some mask)

def expandAxes : List Int → List Datum → List Datum → List (Int × Int) → List (Datum × Datum)
  | s :: ss, n :: ns, st :: sts, r :: rs =>
    let axis : Datum × Datum :=
      if n.isInt s then (st, .list [.int r.1, .int r.2])
      else (.int 0, .list [.int 0, if r = (0, 1) then n else .int 0])
    axis :: expandAxes ss ns sts rs
  | _, _, _, _ => []

def expand (v : LooseView) (shape : Datum) : Except Failure LooseView := do
  let shape ← shape.items
  let axes := expandAxes v.shape shape v.strides v.ranges
  create shape (some (axes.map Prod.fst)) (.int v.offset) (some (axes.map Prod.snd))

def placeOf (length : Nat) (axis : Datum) : Except Failure Nat := do
  match Shape.place? length (← axis.exact) with
  | some place => return place
  | none => throw .noElement

/-- An axis backwards: offset, strides and ranges before and after. An empty axis stays as it is. -/
def flipAxis (v : LooseView) (state : Datum × List Datum × List (Int × Int)) (axis : Datum) :
    Except Failure (Datum × List Datum × List (Int × Int)) := do
  let (offset, strides, ranges) := state
  let .scalar (.int s) ← Datum.entryAt (Datum.ints v.shape) axis | throw .operand
  if s = 0 then return state
  let stride ← Datum.entryAt strides axis
  let offset ← offset.add (← (Datum.int (s - 1)).multiply stride)
  let strides := strides.set (← placeOf strides.length axis) (← stride.negate)
  let place ← placeOf ranges.length axis
  let (low, high) := (ranges[place]?).getD (0, 0)
  return (offset, strides, ranges.set place (s - high, s - low))

def flip (v : LooseView) (axes : Datum) : Except Failure LooseView := do
  let axes ← axes.items
  let (offset, strides, ranges) ← axes.foldlM v.flipAxis (.int v.offset, v.strides, v.ranges)
  create (Datum.ints v.shape) (some strides) offset
    (some (ranges.map fun r => .list [.int r.1, .int r.2]))

/-- Strides and ranges handed out to the extents of a shape in turn; an axis of extent 1 takes
    none. -/
def distribute : List Datum → List (Datum × (Int × Int)) → List (Datum × (Int × Int))
  | [], _ => []
  | s :: rest, pool =>
    if s.isInt 1 then (.int 0, (0, 1)) :: distribute rest pool
    else
      match pool with
      | [] => []
      | axis :: pool => axis :: distribute rest pool

def reshape (v : LooseView) (shape : Datum) : Except Failure (Option LooseView) := do
  let shape ← shape.items
  if v.contiguous then return some (← create shape none (.int 0) none)
  let kept := (v.shape.zip (v.strides.zip v.ranges)).filter fun a => a.1 ≠ 1
  if !Datum.sameAll (Datum.ints (kept.map Prod.fst)) (shape.filter fun s => !s.isInt 1) then
    return none
  if (v.shape.zip v.ranges).any fun (s, r) => s = 1 && r = (0, 0) then return none
  let axes := distribute shape (kept.map Prod.snd)
  return some (← create shape (some (axes.map Prod.fst)) (.int v.offset)
    (some (axes.map fun a => .list [.int a.2.1, .int a.2.2])))

end LooseView

end StridedArray
