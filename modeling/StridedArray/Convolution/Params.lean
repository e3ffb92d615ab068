import StridedArray.Shape

/-! # Convolution parameters

A convolution takes an input `[batch, channels, …]` and a filter `[outputs, channels, …]` and is
described by a stride, padding and two dilations per spatial axis.

* `ConvParams` — the parameters; `outputShape` — the shape of the result; `check` — the same, if the
  parameters fit the operands;
* `transposeInput`, `transposeFilter` — the parameters of the two transposed convolutions;
* `samePadding` — padding that keeps the extents. -/

namespace StridedArray

/-- Parameters per spatial axis. Padding is in front of and behind the axis. -/
structure ConvParams where
  strides : List Int
  padding : List (Int × Int)
  inputDilation : List Int
  filterDilation : List Int
  deriving DecidableEq

def axisEntry {α : Type} (xs : List α) (axis : Nat) : Except Failure α :=
  match xs[axis]? with
  | some x => pure x
  | none => throw .noElement

def dilatedExtent (extent dilation : Int) : Int := max ((extent - 1) * dilation + 1) 0

def windowReach (extent dilation : Int) : Int := (extent - 1) * dilation + 1

namespace ConvParams

/-- The extents of the spatial axes of a result, the axes being numbered from the given one. Padding
    may be negative here. -/
def outputExtents (p : ConvParams) : Nat → List Int → List Int → Except Failure (List Int)
  | axis, x :: xs, k :: ks => do
    let (low, high) ← axisEntry p.padding axis
    let kernel := windowReach k (← axisEntry p.filterDilation axis)
    let input := dilatedExtent x (← axisEntry p.inputDilation axis) + low + high
    if input < kernel then throw (.convolution (.kernelTooLarge (.int kernel) (.int input) axis))
    let extent ← Shape.ceilDivide (input - kernel + 1) (← axisEntry p.strides axis)
    return extent :: (← outputExtents p (axis + 1) xs ks)
  | _, _, _ => pure []

def outputShape (p : ConvParams) (input filter : List Int) : Except Failure (List Int) := do
  let batch ← axisEntry input 0
  let outputs ← axisEntry filter 0
  return batch :: outputs :: (← p.outputExtents 0 (input.drop 2) (filter.drop 2))

def requireEntries (name : String) (given expected : Nat) : Except Failure Unit :=
  if given = expected then pure ()
  else throw (.convolution (.parameterCount name given expected))

def checkAxis (p : ConvParams) (filter : List Int) (axis : Nat) : Except Failure Unit := do
  if (← axisEntry p.strides axis) ≤ 0 then throw (.convolution (.notPositive "strides" axis))
  let (low, high) ← axisEntry p.padding axis
  if low < 0 ∨ high < 0 then throw (.convolution (.padding axis))
  if (← axisEntry p.inputDilation axis) ≤ 0 then
    throw (.convolution (.notPositive "lhs_dilation" axis))
  if (← axisEntry p.filterDilation axis) ≤ 0 then
    throw (.convolution (.notPositive "rhs_dilation" axis))
  if (← axisEntry filter (axis + 2)) ≤ 0 then throw (.convolution .emptyKernel)

def check (p : ConvParams) (input filter : List Int) : Except Failure (List Int) := do
  if input.length ≠ filter.length then throw (.convolution (.ranks input.length filter.length))
  if input.length < 2 then throw (.convolution .rankTooSmall)
  let n := input.length - 2
  requireEntries "strides" p.strides.length n
  requireEntries "padding" p.padding.length n
  requireEntries "lhs_dilation" p.inputDilation.length n
  requireEntries "rhs_dilation" p.filterDilation.length n
  let left ← axisEntry input 1
  let right ← axisEntry filter 1
  if left ≠ right then throw (.convolution (.channels (.int left) (.int right)))
  (List.range n).forM (p.checkAxis filter)
  p.outputShape input filter

abbrev AxisPadding := (x k o : Int) → (low stride inputDilation filterDilation : Int) → Int × Int

def transposedPadding (p : ConvParams) (f : AxisPadding) :
    Nat → List Int → List Int → List Int → Except Failure (List (Int × Int))
  | axis, x :: xs, k :: ks, o :: os => do
    let (low, _) ← axisEntry p.padding axis
    let filterDilation ← axisEntry p.filterDilation axis
    let inputDilation ← axisEntry p.inputDilation axis
    let stride ← axisEntry p.strides axis
    return f x k o low stride inputDilation filterDilation
      :: (← transposedPadding p f (axis + 1) xs ks os)
  | _, _, _, _ => pure []

/-- Padding for the gradient of the input: in front what the kernel reaches beyond the forward
    padding, behind whatever the forward stride dropped. -/
def inputGradientPadding : AxisPadding :=
  fun x k o low stride inputDilation filterDilation =>
    let reach := windowReach k filterDilation
    let before := reach - low - 1
    (before, dilatedExtent x inputDilation + reach - 1 - dilatedExtent o stride - before)

/-- Padding for the gradient of the filter: the same in front, behind whatever the forward stride
    dropped. -/
def filterGradientPadding : AxisPadding :=
  fun x k o low stride inputDilation filterDilation =>
    let reach := windowReach k filterDilation
    (low, (dilatedExtent o stride - dilatedExtent x inputDilation) + (reach - low - 1))

/-- The parameters of the convolution with the flipped filter that gives the gradient of the input.
    Strides and input dilation change places. -/
def transposeInput (p : ConvParams) (input filter : List Int) : Except Failure ConvParams := do
  let output ← p.outputShape input filter
  let padding ← p.transposedPadding inputGradientPadding 0 (input.drop 2) (filter.drop 2)
    (output.drop 2)
  return { strides := p.inputDilation, padding := padding, inputDilation := p.strides,
           filterDilation := p.filterDilation }

/-- The parameters of the convolution of the input with the output that gives the gradient of the
    filter. Strides and filter dilation change places. -/
def transposeFilter (p : ConvParams) (input filter : List Int) : Except Failure ConvParams := do
  let output ← p.outputShape input filter
  let padding ← p.transposedPadding filterGradientPadding 0 (input.drop 2) (filter.drop 2)
    (output.drop 2)
  return { strides := p.filterDilation, padding := padding, inputDilation := p.inputDilation,
           filterDilation := p.strides }

end ConvParams

/-- Padding with which each output extent is the input extent divided by the stride, rounded up; an
    odd total has its extra position behind. -/
def samePadding (strides inputDilation filterDilation : List Int) :
    Nat → List Int → List Int → Except Failure (List (Int × Int))
  | axis, x :: xs, k :: ks => do
    let input := dilatedExtent x (← axisEntry inputDilation axis)
    let reach := windowReach k (← axisEntry filterDilation axis)
    let stride ← axisEntry strides axis
    let output ← Shape.ceilDivide input stride
    let total := max ((output - 1) * stride + reach - input) 0
    let low := total.fdiv 2
    return (low, total - low) :: (← samePadding strides inputDilation filterDilation (axis + 1) xs ks)
  | _, _, _ => pure []

end StridedArray
