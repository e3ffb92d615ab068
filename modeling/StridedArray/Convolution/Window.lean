import StridedArray.Convolution.Params
import StridedArray.Layout.Move

/-! # Convolution as layouts

A convolution needs no copy of its operands: dilating, padding and sliding windows are movements. The
two layouts made here broadcast against each other, so that a product and a sum over the last axis
are all that is left to do.

* `Layout.pool` — sliding windows over the last axes;
* `Layout.dilate` — gaps between neighbours; `Layout.padOrCut` — padding that may be negative;
* `prepareConvolution` — the layouts of both operands. -/

namespace StridedArray

structure Sliding where
  input : Int
  kernel : Int
  stride : Int
  dilation : Int
  deriving DecidableEq

namespace Sliding

def starts (w : Sliding) : Int := w.input - w.dilation * (w.kernel - 1)

def count (w : Sliding) : Except Failure Int := Shape.ceilDivide w.starts w.stride

/-- How often a row of windows has to repeat the input so that all strides fit into it. -/
def stretch (w : Sliding) (count : Int) : Except Failure Int :=
  if count * w.stride ≤ w.starts then pure 1
  else do return max 2 (← Shape.ceilDivide (count * w.stride - w.dilation) w.input)

def ofLists : List Int → List Int → List Int → List Int → List Sliding
  | i :: is, k :: ks, s :: ss, d :: ds => ⟨i, k, s, d⟩ :: ofLists is ks ss ds
  | _, _, _, _ => []

end Sliding

/-- A planned row of windows: the axis, the number of windows, and the length of the row, which is
    longer than a multiple of the input by the dilation so that every row starts later than the one
    before. -/
structure SlidingRow where
  axis : Sliding
  count : Int
  row : Int

def wholeRanges (shape : List Int) : List (Int × Int) := shape.map fun s => (0, s)

namespace Layout

/-- The order that brings the windows of `m` axes behind their positions, after `kept` other axes. -/
def windowOrder (kept m : Nat) : List Int :=
  axisNumbers kept ++ (List.range m).map (fun j => ((kept + 2 * j + 1 : Nat) : Int))
    ++ (List.range m).map (fun j => ((kept + 2 * j : Nat) : Int))

def planRows (axes : List Sliding) (extents dilation input : List Int) :
    Except Failure (List SlidingRow) := do
  let counts ← axes.mapM Sliding.count
  if counts.any (· ≤ 0) then
    throw (.convolution (.window (Datum.ints extents) (Datum.ints dilation) input))
  (axes.zip counts).mapM fun (axis, count) => do
    let f ← axis.stretch count
    return ⟨axis, count, axis.input * f + axis.dilation⟩

def requireCount (name : String) (given expected : Nat) : Except Failure Unit :=
  if given = expected then pure ()
  else throw (.convolution (.poolParameterCount name given expected))

/-- The last axes split into sliding windows: `[…, positions, windows]`. The input is repeated and
    cut into rows, each of which starts later than the one before by the dilation; the stride then
    keeps some columns. -/
def pool (l : Layout) (extents strides dilation : List Int) : Except Failure Layout := do
  let m := extents.length
  if l.rank < m then throw (.convolution .poolRank)
  requireCount "strides" strides.length m
  requireCount "dilation" dilation.length m
  let kept := l.shape.take (l.rank - m)
  let input := l.shape.drop kept.length
  let keep := wholeRanges kept
  let rows ← planRows (Sliding.ofLists input extents strides dilation) extents dilation input
  let copies ← rows.mapM fun r => Shape.ceilDivide (r.axis.kernel * r.row) r.axis.input
  -- Row `j` of an axis begins at `j * row`, which is `j * dilation` behind a multiple of the input.
  let l ← l.tile (kept.map (fun _ => 1) ++ copies)
  let l ← l.shrink (keep ++ rows.map fun r => (0, r.axis.kernel * r.row))
  let l ← l.reshape (kept ++ rows.flatMap fun r => [r.axis.kernel, r.row])
  if rows.any fun r => r.row < r.count * r.axis.stride then throw .unmet
  -- The columns are grouped by the stride, and the first one of each group is kept.
  let l ← l.shrink (keep ++ rows.flatMap fun r => [(0, r.axis.kernel), (0, r.count * r.axis.stride)])
  let l ← l.reshape (kept ++ rows.flatMap fun r => [r.axis.kernel, r.count, r.axis.stride])
  let l ← l.shrink (keep ++ rows.flatMap fun r => [(0, r.axis.kernel), (0, r.count), (0, 1)])
  let l ← l.reshape (kept ++ rows.flatMap fun r => [r.axis.kernel, r.count])
  l.permute (windowOrder kept.length m)

def dilate (l : Layout) (dilation : List Int) : Except Failure Layout :=
  if dilation.all (· = 1) then pure l
  else
    match l.shape with
    | a :: b :: extents => do
      let l ← l.reshape (a :: b :: extents.flatMap fun k => [k, 1])
      let l ← l.pad ((0, 0) :: (0, 0) :: dilation.flatMap fun s => [(0, 0), (0, s - 1)])
      let l ← l.reshape (a :: b :: extents.zipWith (· * ·) dilation)
      l.shrink ((0, a) :: (0, b)
        :: extents.zipWith (fun k s => (0, dilatedExtent k s)) dilation)
    | _ => throw .malformed

def padOrCut (l : Layout) (padding : List (Int × Int)) : Except Failure Layout := do
  let l ← l.pad ((0, 0) :: (0, 0) :: padding.map fun p => (max p.1 0, max p.2 0))
  let a ← axisEntry l.shape 0
  let b ← axisEntry l.shape 1
  l.shrink ((0, a) :: (0, b)
    :: padding.zipWith (fun p s => (max (-p.1) 0, s - max (-p.2) 0)) (l.shape.drop 2))

end Layout

/-- Windows `[batch, channels, …, window]` and a filter with their channels and windows joined:
    `[batch, 1, …, reduction]` and `[outputs, 1, …, reduction]`, for `n` spatial axes. -/
def joinWindows (x filter : Layout) (n : Nat) : Except Failure (Layout × Layout) := do
  let kernel := filter.shape.drop 2
  let batch ← axisEntry x.shape 0
  let channels ← axisEntry x.shape 1
  let out := (x.shape.drop 2).take n
  let x ← x.moveAxis 1 ((n : Int) + 1)
  let x ← x.reshape (batch :: 1 :: out ++ [channels * Shape.product kernel])
  let outputs ← axisEntry filter.shape 0
  let depth ← axisEntry filter.shape 1
  let y ← filter.reshape (outputs :: List.replicate n 1 ++ [depth * Shape.product kernel])
  return (x, y)

/-- The layouts of both operands of a convolution, the reduction running over channels and window.
    The shapes are not checked here. -/
def prepareConvolution (input filter : Layout) (p : ConvParams) :
    Except Failure (Layout × Layout) := do
  let x ← input.dilate p.inputDilation
  let x ← x.padOrCut p.padding
  let x ← x.pool (filter.shape.drop 2) p.strides p.filterDilation
  joinWindows x filter (input.rank - 2)

end StridedArray
