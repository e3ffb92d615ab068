import StridedArray.Datum.Reading
import StridedArray.Layout.Move

/-! # Selecting parts of a layout

Leading axes are cut down one after the other: a position removes its axis, a slice keeps every so
many positions of a range. The result is a layout over the same buffer.

* `Selector`, `Selector.ofDatum` — what to do with one axis;
* `sliceRange` — the range of a slice inside an axis;
* `Layout.sliceAxis`, `Layout.selectAxis` — one axis; `Layout.select` — several. -/

namespace StridedArray

inductive Selector
  /-- One position, counted from the end if it is negative, and as it was given. -/
  | position (index : Int) (given : Datum)
  /-- Every `step`-th position from `start` up to `stop`, the ends being open if not given. -/
  | slice (start stop : Option Int) (step : Int)
  /-- Something that selects nothing. -/
  | refused (failure : Failure)

def Datum.slicePart : Datum → Except Failure (Option Int)
  | none => pure Option.none
  | given => some <$> given.exact

/-- A slice whose parts are given as data. The step is looked at first. -/
def Selector.ofParts (start stop step : Datum) : Except Failure Selector := do
  let step ← step.slicePart
  if step = some 0 then throw .malformed
  return .slice (← start.slicePart) (← stop.slicePart) (step.getD 1)

def Selector.ofDatum (d : Datum) : Selector :=
  match d with
  | .slice start stop step =>
    match ofParts start stop step with
    | .ok s => s
    | .error f => .refused f
  | .scalar value =>
    match value.whole? with
    | some n => .position n d
    | none => .refused (.index (.unsupported d))
  | _ => .refused (.index (.unsupported d))

def Selector.ofIndex : Datum → List Selector
  | .list items => items.map ofDatum
  | d => [ofDatum d]

def clampEnd (extent given : Int) : Int :=
  if given < 0 then max (given + extent) 0 else min given extent

def sliceRange (extent : Int) (start stop : Option Int) : Int × Int :=
  let first := (start.map (clampEnd extent)).getD 0
  let last := (stop.map (clampEnd extent)).getD extent
  (first, max last first)

namespace Layout

def fullExcept (shape : List Int) (axis : Nat) (range : Int × Int) : List (Int × Int) :=
  shape.mapIdx fun a s => if a = axis then range else (0, s)

def padOnly (rank axis : Nat) (widths : Int × Int) : List (Int × Int) :=
  (List.range rank).map fun a => if a = axis then widths else (0, 0)

/-- Every `step`-th position of an axis, the first one included. The axis is padded to a multiple of
    the step, split in rows of that length, and the first column is kept. -/
def everyNth (l : Layout) (axis : Nat) (step : Int) : Except Failure Layout := do
  let length := l.shape[axis]?.getD 0
  let count ← Shape.ceilDivide length step
  let l ← l.pad (padOnly l.rank axis (0, count * step - length))
  let before := l.shape.take axis
  let after := l.shape.drop (axis + 1)
  let l ← l.reshape (before ++ [count, step] ++ after)
  -- The first column holds no padding: its last entry is `(count - 1) * step < length`.
  let l ← l.shrink (fullExcept l.shape (axis + 1) (0, 1))
  l.reshape (before ++ [count] ++ after)

def sliceAxis (l : Layout) (axis : Nat) (start stop : Option Int) (step : Int) :
    Except Failure Layout := do
  if step ≤ 0 then throw (.index .backwardSlice)
  let range := sliceRange (l.shape[axis]?.getD 0) start stop
  let l ← l.shrink (fullExcept l.shape axis range)
  if step = 1 then return l
  l.everyNth axis step

def selectAxis (l : Layout) (axis : Nat) : Selector → Except Failure (Layout × Option Int)
  | .slice start stop step => do
    let l ← l.sliceAxis axis start stop step
    return (l, some (l.shape[axis]?.getD 0))
  | .position index given => do
    let extent := l.shape[axis]?.getD 0
    let i := if index < 0 then index + extent else index
    if i < 0 ∨ extent ≤ i then throw (.index (.outOfBounds given axis extent))
    return (← l.shrink (fullExcept l.shape axis (i, i + 1)), none)
  | .refused failure => throw failure

def selectFrom (l : Layout) (axis : Nat) : List Selector → Except Failure (Layout × List Int)
  | [] => pure (l, [])
  | s :: rest => do
    let (l, extent?) ← l.selectAxis axis s
    let (l, kept) ← l.selectFrom (axis + 1) rest
    return (l, extent?.toList ++ kept)

def select (l : Layout) (selectors : List Selector) : Except Failure Layout := do
  if l.rank < selectors.length then throw (.index (.tooMany l.rank))
  let (l, kept) ← l.selectFrom 0 selectors
  l.reshape (kept ++ l.shape.drop selectors.length)

end Layout

end StridedArray
