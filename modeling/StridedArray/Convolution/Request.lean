import StridedArray.Convolution.Loose
import StridedArray.Convolution.Window
import StridedArray.Layout.Request

/-! # Windows on request

The movements of convolutions with loosely typed arguments. Where these are integers the movements are
those of `Layout`; elsewhere all extents are worked out with the operators on data, and only what is
handed to a movement is cut to integers.

* `Layout.requestPool`, `Layout.requestDilate` — windows and gaps; `Loose.prepareConvolution` — the
  layouts of both operands;
* `MoveRequest` — a movement that is asked for; `Layout.request` — doing it; `Layout.build` — a layout
  from a shape and several movements. -/

namespace StridedArray

namespace Loose

structure LooseSliding where
  input : Datum
  kernel : Datum
  stride : Datum
  dilation : Datum

/-- A planned row of windows: the axis, the number of windows, and the length of the row. -/
structure LooseSlidingRow where
  axis : LooseSliding
  count : Datum
  row : Datum

namespace LooseSliding

def starts (w : LooseSliding) : Except Failure Datum := do
  w.input.subtract (← w.dilation.multiply (← w.kernel.subtract (.int 1)))

def count (w : LooseSliding) : Except Failure Datum := do (← w.starts).ceilDivide w.stride

def stretch (w : LooseSliding) (count : Datum) : Except Failure Datum := do
  let steps ← count.multiply w.stride
  if ← steps.atMost (← w.starts) then return .int 1
  (Datum.int 2).larger (← (← steps.subtract w.dilation).ceilDivide w.input)

def ofLists : List Int → List Datum → List Datum → List Datum → List LooseSliding
  | i :: is, k :: ks, s :: ss, d :: ds => ⟨.int i, k, s, d⟩ :: ofLists is ks ss ds
  | _, _, _, _ => []

end LooseSliding

namespace LooseSlidingRow

def rows (r : LooseSlidingRow) : Except Failure Datum := r.axis.kernel.multiply r.row

def steps (r : LooseSlidingRow) : Except Failure Datum := r.count.multiply r.axis.stride

end LooseSlidingRow

def upTo (extent : Datum) : Datum := .list [.int 0, extent]

/-- A number for every axis: a sequence with one for each, or the only one. -/
def perAxis (name : String) (n : Nat) (given : Datum) : Except Failure (List Datum) := do
  match given with
  | .scalar value =>
    if value.whole?.isNone then throw .operand
    return List.replicate n given
  | given =>
    let items ← given.items
    if items.length ≠ n then throw (.convolution (.poolParameterCount name items.length n))
    return items

end Loose

namespace Layout

open Loose (LooseSliding LooseSlidingRow upTo perAxis)

def planLooseRows (axes : List LooseSliding) (fault : Failure) :
    Except Failure (List LooseSlidingRow) := do
  let counts ← axes.mapM LooseSliding.count
  if ← counts.anyM fun c => c.atMost (.int 0) then throw fault
  (axes.zip counts).mapM fun (axis, count) => do
    let f ← axis.stretch count
    return ⟨axis, count, ← (← axis.input.multiply f).add axis.dilation⟩

/-- The last axes split into sliding windows, for numbers of any form. -/
def loosePool (l : Layout) (extents strides dilation : List Datum) : Except Failure Layout := do
  let m := extents.length
  let kept := l.shape.take (l.rank - m)
  let input := l.shape.drop kept.length
  let keep := Datum.ints kept
  let whole := keep.map upTo
  let rows ← planLooseRows (LooseSliding.ofLists input extents strides dilation)
    (.convolution (.window extents dilation input))
  let copies ← rows.mapM fun r => do (← r.rows).ceilDivide r.axis.input
  let l ← l.requestTile (.list (kept.map (fun _ => .int 1) ++ copies))
  let l ← l.requestShrink (.list (whole ++ (← rows.mapM LooseSlidingRow.rows).map upTo))
  let l ← l.requestReshape (.list (keep ++ rows.flatMap fun r => [r.axis.kernel, r.row]))
  let steps ← rows.mapM LooseSlidingRow.steps
  if ← (rows.zip steps).anyM fun (r, s) => do return !(← s.atMost r.row) then throw .unmet
  let l ← l.requestShrink (.list (whole ++ (rows.zip steps).flatMap fun (r, s) =>
    [upTo r.axis.kernel, upTo s]))
  let l ← l.requestReshape
    (.list (keep ++ rows.flatMap fun r => [r.axis.kernel, r.count, r.axis.stride]))
  let l ← l.requestShrink (.list (whole ++ rows.flatMap fun r =>
    [upTo r.axis.kernel, upTo r.count, upTo (.int 1)]))
  let l ← l.requestReshape (.list (keep ++ rows.flatMap fun r => [r.axis.kernel, r.count]))
  l.permute (windowOrder kept.length m)

/-- Sliding windows over the last axes, asked for with one number or one per axis. -/
def requestPool (l : Layout) (extents strides dilation : Datum) : Except Failure Layout := do
  let extents ← extents.items
  if l.rank < extents.length then throw (.convolution .poolRank)
  let strides ← perAxis "strides" extents.length strides
  let dilation ← perAxis "dilation" extents.length dilation
  match Datum.plainInts? extents, Datum.plainInts? strides, Datum.plainInts? dilation with
  | some ks, some ss, some ds => l.pool ks ss ds
  | _, _, _ => l.loosePool extents strides dilation

def looseDilate (l : Layout) (dilation : List Datum) : Except Failure Layout := do
  if dilation.all fun s => s.isInt 1 then return l
  match l.shape with
  | a :: b :: extents =>
    let front := [Datum.int a, .int b]
    let l ← l.reshape (a :: b :: extents.flatMap fun k => [k, 1])
    let gaps ← dilation.mapM fun s => do return Datum.list [.int 0, ← s.subtract (.int 1)]
    let bare := Datum.list [.int 0, .int 0]
    let l ← l.requestPad (.list (bare :: bare :: gaps.flatMap fun gap => [bare, gap]))
    let axes := (Datum.ints extents).zip dilation
    let l ← l.requestReshape (.list (front ++ (← axes.mapM fun (k, s) => k.multiply s)))
    let cut ← axes.mapM fun (k, s) => Loose.dilated k (pure s)
    l.requestShrink (.list (front.map upTo ++ cut.map upTo))
  | _ => throw .malformed

def requestDilate (l : Layout) (dilation : Datum) : Except Failure Layout := do
  let dilation ← dilation.items
  match Datum.plainInts? dilation with
  | some ds => l.dilate ds
  | none => l.looseDilate dilation

def loosePadOrCut (l : Layout) (padding : Datum) : Except Failure Layout := do
  let padding ← (← padding.items).mapM Datum.two
  let bare := Datum.list [.int 0, .int 0]
  let widths ← padding.mapM fun (low, high) => do
    return Datum.list [← low.larger (.int 0), ← high.larger (.int 0)]
  let l ← l.requestPad (.list (bare :: bare :: widths))
  let cuts ← (padding.zip (l.shape.drop 2)).mapM fun ((low, high), s) => do
    let first ← (← low.negate).larger (.int 0)
    return Datum.list [first, ← (Datum.int s).subtract (← (← high.negate).larger (.int 0))]
  let a ← axisEntry l.shape 0
  let b ← axisEntry l.shape 1
  l.requestShrink (.list (upTo (.int a) :: upTo (.int b) :: cuts))

end Layout

def Loose.prepareConvolution (input filter : Layout) (p : LooseConvParams) :
    Except Failure (Layout × Layout) :=
  match p.plain? with
  | some p => StridedArray.prepareConvolution input filter p
  | none => do
    let n := input.rank - 2
    let x ← input.requestDilate p.inputDilation
    let kernel := filter.shape.drop 2
    let x ← x.loosePadOrCut p.padding
    let x ← x.requestPool (.list (Datum.ints kernel)) p.strides p.filterDilation
    joinWindows x filter n

/-! ## Requests -/

/-- A movement with arguments that are not yet looked at. -/
inductive MoveRequest
  | reshape (shape : Datum)
  | permute (order : Datum)
  | moveAxis (source target : Datum)
  | pad (widths : Datum)
  | shrink (ranges : Datum)
  | expand (shape : Datum)
  | tile (counts : Datum)
  | flip (axes : Datum)
  /-- Sliding windows, with one number or one per axis. -/
  | pool (extents strides dilation : Datum)
  | dilate (dilation : Datum)

namespace Layout

def request (l : Layout) : MoveRequest → Except Failure Layout
  | .reshape shape => l.requestReshape shape
  | .permute order => l.requestPermute order
  | .moveAxis source target => l.requestMoveAxis source target
  | .pad widths => l.requestPad widths
  | .shrink ranges => l.requestShrink ranges
  | .expand shape => l.requestExpand shape
  | .tile counts => l.requestTile counts
  | .flip axes => l.requestFlip axes
  | .pool extents strides dilation => l.requestPool extents strides dilation
  | .dilate dilation => l.requestDilate dilation

def build (shape : Datum) (requests : List MoveRequest) : Except Failure Layout := do
  requests.foldlM request (← requestShape shape)

end Layout

end StridedArray
