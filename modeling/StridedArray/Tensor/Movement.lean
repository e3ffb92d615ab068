import StridedArray.Convolution.Request
import StridedArray.Layout.Select
import StridedArray.Layout.Stretch
import StridedArray.Tensor.Session

/-! # Moving arrays

A movement of an array only makes another layout: the result shares the buffer. The layout is found
before the array is looked at, so a wrong movement is reported even of an array that was disposed of.

* `moved` — an array seen through a layout made from its own;
* `reshape`, `broadcastTo`, `permute`, `transpose`, `moveAxis`, `pad`, `shrink`, `flip` — the
  movements; `index` — selections. -/

namespace StridedArray

def Datum.flipAxes : Datum → Datum
  | scalar (.bool b) => list [scalar (.bool b)]
  | scalar (.int n) => list [scalar (.int n)]
  | given => given

namespace Session

variable [Room]

def moved (r : TensorRef) (f : Layout → Except Failure Layout) : Action TensorRef := do
  let t ← find r
  view t (← ofResult (f t.layout))

def request (r : TensorRef) (m : MoveRequest) : Action TensorRef := moved r fun l => l.request m

def reshape (r : TensorRef) (shape : Datum) : Action TensorRef := moved r fun l => l.reshapeTo shape

def broadcastTo (r : TensorRef) (shape : Datum) : Action TensorRef :=
  moved r fun l => l.stretchTo shape

def permute (r : TensorRef) (order : Datum) : Action TensorRef := request r (.permute order)

def transpose (r : TensorRef) : Action TensorRef :=
  moved r fun l => l.permute (Layout.axisNumbers l.rank).reverse

def moveAxis (r : TensorRef) (source target : Datum) : Action TensorRef :=
  request r (.moveAxis source target)

def pad (r : TensorRef) (widths : Datum) : Action TensorRef := request r (.pad widths)

def shrink (r : TensorRef) (ranges : Datum) : Action TensorRef := request r (.shrink ranges)

def flip (r : TensorRef) (axes : Datum) : Action TensorRef := request r (.flip axes.flipAxes)

def index (r : TensorRef) (given : Datum) : Action TensorRef :=
  moved r fun l => l.select (Selector.ofIndex given)

end Session

end StridedArray
