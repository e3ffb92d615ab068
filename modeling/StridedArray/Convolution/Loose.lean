import StridedArray.Convolution.Params
import StridedArray.Shape.Loose

/-! # Convolution parameters of loosely typed numbers

Parameters as they are asked for. They need be neither integers nor of the right number: every function
looks at the entries that it needs, in the order in which it needs them. Where all that is given is
integers, the functions are those of `ConvParams`.

* `LooseConvParams` — the parameters; `create` — with what is not given neutral;
* `outputShape`, `transposeInput`, `transposeFilter`, `Loose.samePadding` — as for integers;
* `check` — the output shape of a convolution, or what is wrong with its parameters; `settle` —
  parameters that were checked, as integers;
* `plain?` — the parameters, if they are integers and nothing else. -/

namespace StridedArray

structure LooseConvParams where
  strides : Datum
  padding : Datum
  inputDilation : Datum
  filterDilation : Datum

namespace Loose

def entryOf (given : Datum) (axis : Nat) : Except Failure Datum := do
  axisEntry (← given.items) axis

def dilated (extent : Datum) (dilation : Except Failure Datum) : Except Failure Datum := do
  (← (← (← extent.subtract (.int 1)).multiply (← dilation)).add (.int 1)).larger (.int 0)

def covered (extent : Datum) (dilation : Except Failure Datum) : Except Failure Datum := do
  (← (← extent.subtract (.int 1)).multiply (← dilation)).add (.int 1)

def plainPairs? (items : List Datum) : Option (List (Int × Int)) :=
  items.mapM fun item =>
    match item with
    | .list [.scalar (.int a), .scalar (.int b)] => some (a, b)
    | _ => none

def ofPair (p : Int × Int) : Datum := .list [.int p.1, .int p.2]

def plain? : Datum → Option (List Int)
  | .list items => Datum.plainInts? items
  | _ => none

end Loose

namespace LooseConvParams

open Loose (entryOf dilated covered)

def ofParams (p : ConvParams) : LooseConvParams :=
  { strides := .list (Datum.ints p.strides), padding := .list (p.padding.map Loose.ofPair),
    inputDilation := .list (Datum.ints p.inputDilation),
    filterDilation := .list (Datum.ints p.filterDilation) }

def plain? (p : LooseConvParams) : Option ConvParams := do
  let .list padding := p.padding | none
  return { strides := ← Loose.plain? p.strides, padding := ← Loose.plainPairs? padding,
           inputDilation := ← Loose.plain? p.inputDilation,
           filterDilation := ← Loose.plain? p.filterDilation }

/-- The parameters and two shapes, if all of them are integers. -/
def plainWith? (p : LooseConvParams) (input filter : Datum) :
    Option (ConvParams × List Int × List Int) := do
  return (← p.plain?, ← Loose.plain? input, ← Loose.plain? filter)

def neutral (n item : Datum) : Except Failure Datum := (Datum.list [item]).multiply n

def givenOr (given n item : Datum) : Except Failure Datum := do
  match given with
  | .none => neutral n item
  | given => return Datum.list (← given.items)

/-- Parameters for `n` spatial axes, with what is not given neutral. -/
def create (n strides padding inputDilation filterDilation : Datum) :
    Except Failure LooseConvParams := do
  let strides ← givenOr strides n (.int 1)
  let padding ← match padding with
    | .none => neutral n (.list [.int 0, .int 0])
    | given => Datum.list <$> ((← given.items).mapM fun pair => Datum.list <$> pair.items)
  let inputDilation ← givenOr inputDilation n (.int 1)
  let filterDilation ← givenOr filterDilation n (.int 1)
  return { strides, padding, inputDilation, filterDilation }

def outputExtents (p : LooseConvParams) : Nat → List Datum → List Datum →
    Except Failure (List Datum)
  | axis, x :: xs, k :: ks => do
    let (low, high) ← (← entryOf p.padding axis).two
    let kernel ← covered k (entryOf p.filterDilation axis)
    let input ← (← (← dilated x (entryOf p.inputDilation axis)).add low).add high
    if ← input.less kernel then throw (.convolution (.kernelTooLarge kernel input axis))
    let extent ← (← (← input.subtract kernel).add (.int 1)).ceilDivide (← entryOf p.strides axis)
    return extent :: (← outputExtents p (axis + 1) xs ks)
  | _, _, _ => pure []

def outputShape (p : LooseConvParams) (input filter : Datum) : Except Failure (List Datum) :=
  match p.plainWith? input filter with
  | some (p, input, filter) => Datum.ints <$> p.outputShape input filter
  | none => do
    let batch ← entryOf input 0
    let outputs ← entryOf filter 0
    return batch :: outputs
      :: (← p.outputExtents 0 ((← input.items).drop 2) ((← filter.items).drop 2))

/-- What the padding of one axis of a transposed convolution is made of: the padding in front, the
    reach of the window, and the dilated extents of input and output. -/
structure AxisSizes where
  low : Datum
  reach : Datum
  input : Datum
  output : Datum

def axisSizes (p : LooseConvParams) (axis : Nat) (x k o : Datum) : Except Failure AxisSizes := do
  let (low, _) ← (← entryOf p.padding axis).two
  let reach ← covered k (entryOf p.filterDilation axis)
  let input ← dilated x (entryOf p.inputDilation axis)
  let output ← dilated o (entryOf p.strides axis)
  return { low, reach, input, output }

def AxisSizes.before (a : AxisSizes) : Except Failure Datum := do
  (← a.reach.subtract a.low).subtract (.int 1)

def AxisSizes.inputPadding (a : AxisSizes) : Except Failure Datum := do
  let before ← a.before
  let whole ← (← a.input.add a.reach).subtract (.int 1)
  return .list [before, ← (← whole.subtract a.output).subtract before]

def AxisSizes.filterPadding (a : AxisSizes) : Except Failure Datum := do
  let grown ← a.output.subtract a.input
  return .list [a.low, ← grown.add (← a.before)]

def transposedPadding (p : LooseConvParams) (f : AxisSizes → Except Failure Datum) :
    Nat → List Datum → List Datum → List Datum → Except Failure (List Datum)
  | axis, x :: xs, k :: ks, o :: os => do
    let pair ← f (← p.axisSizes axis x k o)
    return pair :: (← transposedPadding p f (axis + 1) xs ks os)
  | _, _, _, _ => pure []

def paddingFor (p : LooseConvParams) (f : AxisSizes → Except Failure Datum) (input filter : Datum) :
    Except Failure Datum := do
  let output ← p.outputShape input filter
  return .list (← p.transposedPadding f 0 ((← input.items).drop 2) ((← filter.items).drop 2)
    (output.drop 2))

def transposeInput (p : LooseConvParams) (input filter : Datum) : Except Failure LooseConvParams :=
  match p.plainWith? input filter with
  | some (p, input, filter) => ofParams <$> p.transposeInput input filter
  | none => do
    return { p with strides := p.inputDilation, inputDilation := p.strides,
                    padding := ← p.paddingFor AxisSizes.inputPadding input filter }

def transposeFilter (p : LooseConvParams) (input filter : Datum) : Except Failure LooseConvParams :=
  match p.plainWith? input filter with
  | some (p, input, filter) => ofParams <$> p.transposeFilter input filter
  | none => do
    return { p with strides := p.filterDilation, filterDilation := p.strides,
                    padding := ← p.paddingFor AxisSizes.filterPadding input filter }

/-! ## Checking -/

def isPositive : Datum → Bool
  | .scalar (.int n) => decide (0 < n)
  | _ => false

def isWidth : Datum → Bool
  | .scalar value =>
    match value.whole? with
    | some n => decide (0 ≤ n)
    | none => false
  | _ => false

def checkAxis (p : LooseConvParams) (filter : List Datum) (axis : Nat) : Except Failure Unit := do
  if !isPositive (← entryOf p.strides axis) then
    throw (.convolution (.notPositive "strides" axis))
  let pad ← (← entryOf p.padding axis).items
  if pad.length ≠ 2 || !pad.all isWidth then throw (.convolution (.padding axis))
  if !isPositive (← entryOf p.inputDilation axis) then
    throw (.convolution (.notPositive "lhs_dilation" axis))
  if !isPositive (← entryOf p.filterDilation axis) then
    throw (.convolution (.notPositive "rhs_dilation" axis))
  let kernel ← axisEntry filter (axis + 2)
  if ← kernel.atMost (.int 0) then throw (.convolution .emptyKernel)

/-- The output shape of a convolution, if the parameters fit the operands; for numbers of any form. -/
def checkItems (p : LooseConvParams) (xs ks : List Datum) : Except Failure (List Datum) := do
  if xs.length ≠ ks.length then throw (.convolution (.ranks xs.length ks.length))
  if xs.length < 2 then throw (.convolution .rankTooSmall)
  let n := xs.length - 2
  ConvParams.requireEntries "strides" (← p.strides.items).length n
  ConvParams.requireEntries "padding" (← p.padding.items).length n
  ConvParams.requireEntries "lhs_dilation" (← p.inputDilation.items).length n
  ConvParams.requireEntries "rhs_dilation" (← p.filterDilation.items).length n
  let left ← axisEntry xs 1
  let right ← axisEntry ks 1
  if !Datum.same left right then throw (.convolution (.channels left right))
  (List.range n).forM (p.checkAxis ks)
  p.outputShape (.list xs) (.list ks)

def check (p : LooseConvParams) (input filter : Datum) : Except Failure (List Datum) :=
  match p.plainWith? input filter with
  | some (p, input, filter) => Datum.ints <$> p.check input filter
  | none => do p.checkItems (← input.items) (← filter.items)

def settle (p : LooseConvParams) : Except Failure ConvParams := do
  return { strides := ← p.strides.exacts,
           padding := ← (← p.padding.items).mapM fun pair => do
             let (low, high) ← pair.two
             return (← low.exact, ← high.exact),
           inputDilation := ← p.inputDilation.exacts,
           filterDilation := ← p.filterDilation.exacts }

end LooseConvParams

namespace Loose

/-- Padding with which each output extent is the input extent divided by the stride, rounded up. -/
def samePaddingFrom (strides inputDilation filterDilation : Datum) :
    Nat → List Datum → List Datum → Except Failure (List Datum)
  | axis, x :: xs, k :: ks => do
    let input ← dilated x (entryOf inputDilation axis)
    let reach ← covered k (entryOf filterDilation axis)
    let output ← input.ceilDivide (← entryOf strides axis)
    let span ← (← (← output.subtract (.int 1)).multiply (← entryOf strides axis)).add reach
    let total ← (← span.subtract input).larger (.int 0)
    let low ← total.floorDivide (.int 2)
    return .list [low, ← total.subtract low]
      :: (← samePaddingFrom strides inputDilation filterDilation (axis + 1) xs ks)
  | _, _, _ => pure []

def samePadding (input filter strides inputDilation filterDilation : Datum) :
    Except Failure (List Datum) := do
  let xs := (← input.items).drop 2
  let ks := (← filter.items).drop 2
  match plain? strides, plain? inputDilation, plain? filterDilation, Datum.plainInts? xs,
      Datum.plainInts? ks with
  | some strides, some inputDilation, some filterDilation, some xs, some ks =>
    return (← StridedArray.samePadding strides inputDilation filterDilation 0 xs ks).map ofPair
  | _, _, _, _, _ => samePaddingFrom strides inputDilation filterDilation 0 xs ks

end Loose

end StridedArray
