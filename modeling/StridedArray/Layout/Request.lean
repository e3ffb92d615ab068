import StridedArray.Layout.Address
import StridedArray.Layout.Move

/-! # Layouts on request

Movements as they are asked for, with loosely typed arguments.

* `Layout.requestReshape`, `requestPermute`, `requestMoveAxis`, `requestPad`, `requestShrink`,
  `requestExpand`, `requestTile`, `requestFlip` — the movements, arguments being read first;
* `Layout.requestShape` — the layout of a whole array of a shape that is asked for. -/

namespace StridedArray.Layout

def requestShape (shape : Datum) : Except Failure Layout := do ofShape (← shape.extents)

def requestReshape (l : Layout) (shape : Datum) : Except Failure Layout := do
  l.reshape (← shape.wholes)

/-- The axes in another order. The order is compared as numbers are, and only then has to consist of
    integers. -/
def requestPermute (l : Layout) (order : Datum) : Except Failure Layout := do
  let order ← order.items
  match Datum.plainInts? order with
  | some axes => l.permute axes
  | none =>
    if !Datum.sameAll (← Datum.sort order) (Datum.ints (axisNumbers l.rank)) then
      throw (.shape (.permutation order l.rank))
    l.permute (← order.mapM Datum.exact)

def requestMoveAxis (l : Layout) (source target : Datum) : Except Failure Layout := do
  let n := Datum.int l.rank
  let low := Datum.int (-(l.rank : Int))
  let inside ← (do
    if ← Datum.within low source n then Datum.within low target n else return false)
  if !inside then throw (.shape (.moveAxis source target l.rank))
  let source ← source.floorModulo n
  let target ← target.floorModulo n
  let others := (Datum.ints (axisNumbers l.rank)).filter fun a => !Datum.same a source
  l.requestPermute (.list (others.insertIdx (← target.exact).toNat source))

def requestPad (l : Layout) (widths : Datum) : Except Failure Layout := do l.pad (← widths.pairs)

def requestShrink (l : Layout) (ranges : Datum) : Except Failure Layout := do
  l.shrink (← ranges.pairs)

def requestExpand (l : Layout) (shape : Datum) : Except Failure Layout := do
  l.expand (← shape.wholes)

def requestTile (l : Layout) (counts : Datum) : Except Failure Layout := do
  l.tile (← counts.wholes)

def requestFlip (l : Layout) (axes : Datum) : Except Failure Layout := do
  let axes ← (← axes.items).mapM fun a => Loose.normalizeAxis a (.int l.rank)
  l.flip (← axes.mapM Datum.exact)

end StridedArray.Layout
