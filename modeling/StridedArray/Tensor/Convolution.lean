import StridedArray.Convolution.Request
import StridedArray.Tensor.Elementwise
import StridedArray.Tensor.Movement
import StridedArray.Tensor.Reduction

/-! # Convolutions of arrays

A convolution is one kernel: both operands are viewed as `[batch, outputs, …, reduction]`, multiplied,
and summed over the last axis. Its gradients are convolutions again, with other parameters.

* `ConvOptions`, `ConvOptions.check` — parameters as they are asked for, padding also by mode;
* `convolutionLayouts`, `convolutionExpr` — the operands and the sum of products;
* `convolve` — the convolution; `inputGradient`, `filterGradient` — its two transposes. -/

namespace StridedArray

/-- Parameters of a convolution as they are asked for. What is not given is neutral. -/
structure ConvOptions where
  strides : Datum := .none
  /-- A pair for every axis, or the name of a mode. -/
  padding : Datum := .none
  inputDilation : Datum := .none
  filterDilation : Datum := .none

namespace ConvOptions

/-- The parameters for operands of the given shapes. A wrong rank is left to the check of the
    parameters. -/
def params (o : ConvOptions) (input filter : List Datum) : Except Failure LooseConvParams := do
  let n := Datum.int (input.length - 2)
  match o.padding with
  | .text mode =>
    let p ← LooseConvParams.create n o.strides .none o.inputDilation o.filterDilation
    match Text.capitals mode with
    | "VALID" => return p
    | "SAME" =>
      -- The parameters are checked later only: a stride of 0 fails in the division, a short list here.
      if input.length ≠ filter.length ∨ input.length < 2 then return p
      let padding ← Loose.samePadding (.list input) (.list filter) p.strides p.inputDilation
        p.filterDilation
      return { p with padding := .list padding }
    | _ => throw (.convolution (.paddingMode mode))
  | padding => LooseConvParams.create n o.strides padding o.inputDilation o.filterDilation

def check (o : ConvOptions) (input filter : List Datum) :
    Except Failure (LooseConvParams × List Datum) := do
  let p ← o.params input filter
  return (p, ← p.check (.list input) (.list filter))

def checkCotangent (o : ConvOptions) (input filter : List Datum) (cotangent : List Int) :
    Except Failure LooseConvParams := do
  let (p, output) ← o.check input filter
  if !Datum.sameAll (Datum.ints cotangent) output then
    throw (.convolution (.cotangent cotangent output))
  return p

end ConvOptions

/-- The layouts of both operands, brought to the shape of the result with the reduction behind it,
    and the number of products to be summed. -/
def convolutionLayouts (input filter : Layout) (p : LooseConvParams) (output : List Datum) :
    Except Failure (Layout × Layout × Int) := do
  let (x, y) ← Loose.prepareConvolution input filter p
  let length := x.shape.getLast?.getD 1
  let full := Datum.list (output ++ [.int length])
  let x ← x.requestExpand full
  let y ← y.reshape (1 :: y.shape)
  let y ← y.requestExpand full
  return (x, y, length)

def convolutionExpr (input filter : Layout) (inputKind filterKind : Element) (p : LooseConvParams)
    (output : List Datum) : Except Failure Expr := do
  let (x, y, length) ← convolutionLayouts input filter p output
  let index ← Expr.rowPosition (← (← Loose.product (.list output)).whole) length
  let a ← Expr.read 0 inputKind x index
  let b ← Expr.read 1 filterKind y index
  Expr.fold .add (← a.mul b) length

def Layout.swapFront (l : Layout) : Except Failure Layout :=
  l.permute (1 :: 0 :: (Layout.axisNumbers l.rank).drop 2)

def swappedFront : List Datum → List Datum
  | a :: b :: rest => b :: a :: rest
  | shape => shape

namespace Session

variable [Room]

/-- The convolution of two arrays, seen through the given layouts, whose parameters are checked. That
    the arrays are live is looked at when the buffer of the result is already there. -/
def runConvolution (lhs : Tensor) (input : Layout) (rhs : Tensor) (filter : Layout)
    (p : LooseConvParams) (output : List Datum) : Action TensorRef := do
  if lhs.owner ≠ rhs.owner then
    throw (.argument
      (.convolutionExecutors (← executor lhs.owner).text (← executor rhs.owner).text))
  let e ← ofResult (convolutionExpr input filter lhs.kind rhs.kind p output)
  let size ← ofResult (Loose.product (.list output))
  let bytes ← ofResult (size.multiply (.int e.kind.itemSize))
  let handle ← allocate lhs.owner (← ofResult bytes.whole) none
  try
    requireLive lhs
    requireLive rhs
    onExecutor lhs.owner fun x =>
      x.execute [e] [.handle lhs.handle, .handle rhs.handle] [.handle handle]
  catch failure =>
    release handle
    throw failure
  -- Nobody gives the buffer back if the shape is refused now.
  adopt handle (← ofResult (Layout.requestShape (.list output))) e.kind

def convolve (input filter : TensorRef) (o : ConvOptions) : Action TensorRef := do
  let x ← find input
  let w ← find filter
  let (p, output) ← ofResult (o.check (Datum.ints x.shape) (Datum.ints w.shape))
  runConvolution x x.layout w w.layout p output

/-- The layout of a filter that is run over a cotangent: inputs and outputs exchanged, windows
    backwards. -/
def flippedFilter (l : Layout) : Except Failure Layout := do
  (← l.swapFront).flip ((Layout.axisNumbers l.rank).drop 2)

def inputGradient (cotangent filter : TensorRef) (input : Datum) (o : ConvOptions) :
    Action TensorRef := do
  let input ← ofResult input.items
  let g ← find cotangent
  let w ← find filter
  let kernelShape := Datum.ints w.shape
  let p ← ofResult (o.checkCotangent input kernelShape g.shape)
  let q ← ofResult (p.transposeInput (.list input) (.list kernelShape))
  let kernel ← ofResult (flippedFilter w.layout)
  let output ← ofResult (q.outputShape (.list (Datum.ints g.shape)) (.list (Datum.ints kernel.shape)))
  if !Datum.sameAll output input then throw .unmet
  runConvolution g g.layout w kernel q output

def filterGradient (input cotangent : TensorRef) (filter : Datum) (o : ConvOptions) :
    Action TensorRef := do
  let filter ← ofResult filter.items
  let x ← find input
  let g ← find cotangent
  let shape := Datum.ints x.shape
  let p ← ofResult (o.checkCotangent shape filter g.shape)
  let q ← ofResult (p.transposeFilter (.list shape) (.list filter))
  let swappedInput ← ofResult x.layout.swapFront
  let swappedCotangent ← ofResult g.layout.swapFront
  let output ← ofResult (q.outputShape (.list (Datum.ints swappedInput.shape))
    (.list (Datum.ints swappedCotangent.shape)))
  if !Datum.sameAll output (swappedFront filter) then throw .unmet
  let out ← runConvolution x swappedInput g swappedCotangent q output
  let gradient ← moved out Layout.swapFront
  dispose out
  return gradient

end Session

end StridedArray
