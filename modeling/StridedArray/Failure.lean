import StridedArray.Datum
import StridedArray.Element

/-! # Failures

Everything that can go wrong, as causes. A failure either comes from a check of this library and
then carries a message, or from the arithmetic or the data structure underneath and then has none.
Messages show arguments as they were given, so faults about arguments carry data.

* `ShapeFault`, `ConvolutionFault` — extents and parameters that do not fit together;
* `ExecutionFault` — expressions that cannot run against the bound buffers;
* `LifetimeFault` — use of something already released;
* `KindFault`, `ArgumentFault`, `IndexFault` — wrong kinds, values and positions;
* `DeviceFault` — texts that name no device;
* `Failure` — all of them, with `Failure.message?`. -/

namespace StridedArray

/-- Convolution parameters that do not fit the operands. -/
inductive ConvolutionFault
  | ranks (left right : Nat)
  | rankTooSmall
  | parameterCount (name : String) (given expected : Nat)
  | channels (left right : Datum)
  | notPositive (name : String) (axis : Nat)
  | padding (axis : Nat)
  | emptyKernel
  | kernelTooLarge (kernel input : Datum) (axis : Nat)
  | paddingMode (mode : String)
  | cotangent (shape : List Int) (output : List Datum)
  | poolRank
  | poolParameterCount (name : String) (given expected : Nat)
  | window (extents dilation : List Datum) (input : List Int)

/-- Extents, axes and operation parameters that do not fit together. -/
inductive ShapeFault
  | axisOutside (given rank : Datum)
  | broadcast (shapes : List Datum)
  | extents (shape : List Datum)
  | indexRank (index : List Datum) (shape : List Int)
  | indexOutside (index : Datum) (axis : Nat) (extent : Int)
  | negativeExtent (shape : List Int)
  | sizes (old : List Int) (size : Int) (new : List Int)
  | permutation (order : List Datum) (rank : Nat)
  | moveAxis (source target : Datum) (rank : Nat)
  | pairCount (operation : String) (rank given : Nat)
  | negativePadding (pairs : List (Int × Int))
  | badRange (low high : Int) (axis : Nat) (extent : Int)
  | expandRank (shape : List Int) (rank : Nat)
  | expand (old new : List Int)
  | repeatCounts (counts : List Int)
  | unknownExtents
  | inferredExtent (old : List Int) (new : List Datum)
  | duplicateAxis (given : Datum)
  | emptyMaximum
  | broadcastTo (old : List Int) (new : List Datum)
  | convolution (fault : ConvolutionFault)

/-- Work that cannot be done on the given buffers. -/
inductive ExecutionFault
  | negativeAllocation (size : Int)
  | initialSize (given : Nat) (expected : Int)
  | foreignHandle (slot : Nat) (executor : String)
  | expressionCount (expressions outputs : Nat)
  | nestedReduction
  | looseReductionIndex
  | extentConflict (first second : Int)
  | unboundSpecial (name : String)
  | slotOutside (slot : Int) (bound : Nat)
  | kindConflict (slot : Int) (first second : Element)
  | partialElements (bytes : Nat) (kind : Element)
  | reach (view : String) (low high : Int) (count : Nat)
  | positions (slot : Int) (low high : Int) (size : Int)
  | outputTooSmall (output : Nat) (size : Nat) (needed : Int)
  | loadRange (slot : Int) (low high : Int) (count : Nat)
  | whileRunning (message : String)

inductive LifetimeFault
  | released
  | disposed

inductive KindFault
  | specialKind (name : String)
  | accessorIndex
  | loadIndex
  | negatedBool
  | conjunction
  | condition
  | wholeOperands (operation : String) (left right : Element)
  | notAHandle (given : String)
  | unsupportedElements (name : String)
  | unsupportedOperand (given : Datum)
  | conditionNotAnArray (given : String)

/-- Arguments outside of what an operation takes. -/
inductive ArgumentFault
  | negativeSlot (slot : Datum)
  | reduction (operation : String)
  | readbackStrategy (name : Datum)
  | differentExecutors (left right : String)
  | convolutionExecutors (left right : String)

inductive IndexFault
  | outsideView (flat : Datum) (size : Int)
  | load (slot : Int) (index : Datum) (count : Nat)
  | tooMany (rank : Nat)
  | outOfBounds (index : Datum) (axis : Nat) (extent : Int)
  | backwardSlice
  | unsupported (given : Datum)

inductive DeviceFault
  | empty
  | form (given : String)
  | unknown (given : String)
  | index (digits given : String)

inductive Failure
  | shape (fault : ShapeFault)
  | execution (fault : ExecutionFault)
  | lifetime (fault : LifetimeFault) (slot : Nat)
  /-- An executor that cannot be had, as it was asked for. -/
  | unavailable (shown reason : String)
  | kind (fault : KindFault)
  | argument (fault : ArgumentFault)
  | index (fault : IndexFault)
  /-- The requested accelerator is not there. -/
  | noAccelerator
  | device (fault : DeviceFault)
  | divisionByZero
  /-- A number too large for its destination. -/
  | overflow
  /-- A value outside the domain of a function, or a structure of the wrong form. -/
  | malformed
  /-- A name that nothing is bound to. -/
  | unbound
  /-- An element that a sequence does not have. -/
  | noElement
  /-- A position beyond the end of a buffer. -/
  | missingElement (index : Int) (count : Nat)
  /-- An operand of a type that an operation does not take. -/
  | operand
  /-- A text with characters that its destination has no place for. -/
  | unencodable
  /-- A text that is not put together in the right way. -/
  | illFormed
  /-- There is no room for a buffer of the size. -/
  | exhausted
  /-- There is no room for an array of the shape. -/
  | tooLarge
  /-- A condition that an operation relies on does not hold. -/
  | unmet
  /-- The accelerator, or a closed one, refused the work. -/
  | refused
  /-- An operation that an executor does not have. -/
  | unsupported

namespace ConvolutionFault

def message : ConvolutionFault → String
  | .ranks left right =>
    s!"conv() requires inputs with the same number of dimensions, got {left} and {right}"
  | .rankTooSmall => "conv() requires at least 2D inputs"
  | .parameterCount name given expected =>
    s!"conv() {name} has {given} entries, expected {expected}"
  | .channels left right => "conv() input channels: " ++ left.plain ++ " != " ++ right.plain
  | .notPositive name axis => s!"conv() {name}[{axis}] must be a positive integer"
  | .padding axis => s!"conv() padding[{axis}] must be a pair of non-negative integers"
  | .emptyKernel => "conv() kernel size must be positive"
  | .kernelTooLarge kernel input axis =>
    "conv() kernel size " ++ kernel.plain ++ " > input size " ++ input.plain
      ++ s!" in dimension {axis}"
  | .paddingMode mode =>
    "conv() padding must be 'VALID', 'SAME' or pairs, got " ++ Text.quoted mode
  | .cotangent shape output =>
    "cotangent has shape " ++ Text.integers shape ++ ", convolution output is "
      ++ Text.tuple (output.map Datum.shown)
  | .poolRank => "pool() called with too many dimensions"
  | .poolParameterCount name given expected =>
    s!"pool() {name} has {given} entries, expected {expected}"
  | .window extents dilation input =>
    "pool() window " ++ Text.tuple (extents.map Datum.shown) ++ " with dilation "
      ++ Text.tuple (dilation.map Datum.shown) ++ " does not fit input " ++ Text.integers input

end ConvolutionFault

namespace ShapeFault

def message : ShapeFault → String
  | .axisOutside given rank =>
    "axis " ++ given.plain ++ " is out of range for " ++ rank.plain ++ " dimensions"
  | .broadcast shapes =>
    "shapes " ++ Text.tuple (shapes.map Datum.shown) ++ " cannot be broadcast together"
  | .extents shape => "invalid shape " ++ Text.tuple (shape.map Datum.shown)
  | .indexRank index shape =>
    "index " ++ Text.tuple (index.map Datum.shown) ++ " does not match shape " ++ Text.integers shape
  | .indexOutside index axis extent =>
    "index " ++ index.plain ++ s!" out of range for axis {axis} of size {extent}"
  | .negativeExtent shape => "reshape() got negative dimension in " ++ Text.integers shape
  | .sizes old size new =>
    "cannot reshape " ++ Text.integers old ++ s!" ({size} elements) to " ++ Text.integers new
  | .permutation order rank =>
    "permute() order " ++ Text.tuple (order.map Datum.shown) ++ s!" is not a permutation of {rank} axes"
  | .moveAxis source target rank =>
    "moveaxis(" ++ source.plain ++ ", " ++ target.plain ++ s!") out of range for {rank} axes"
  | .pairCount operation rank given =>
    s!"{operation}() needs {rank} (low, high) pairs, got {given}"
  | .negativePadding pairs => "pad() widths must be non-negative, got " ++ Text.pairs pairs
  | .badRange low high axis extent =>
    s!"shrink() range ({low}, {high}) invalid for axis {axis} of size {extent}"
  | .expandRank shape rank => "expand() to " ++ Text.integers shape ++ s!" needs {rank} axes"
  | .expand old new => "cannot expand " ++ Text.integers old ++ " to " ++ Text.integers new
  | .repeatCounts counts =>
    "repeat() needs one positive count per axis, got " ++ Text.integers counts
  | .unknownExtents => "can only specify one unknown dimension"
  | .inferredExtent old new =>
    "cannot reshape " ++ Text.integers old ++ " to " ++ Text.tuple (new.map Datum.shown)
  | .duplicateAxis given => "duplicate axis in " ++ given.plain
  | .emptyMaximum => "max() of an empty axis has no identity"
  | .broadcastTo old new =>
    "cannot broadcast " ++ Text.integers old ++ " to " ++ Text.tuple (new.map Datum.shown)
  | .convolution fault => fault.message

end ShapeFault

namespace ExecutionFault

def message : ExecutionFault → String
  | .negativeAllocation size => s!"cannot allocate {size} bytes"
  | .initialSize given expected => s!"initial data has {given} bytes, expected {expected}"
  | .foreignHandle slot executor =>
    s!"BufferHandle(slot={slot}) belongs to a different backend than {executor}"
  | .expressionCount expressions outputs => s!"{expressions} expressions for {outputs} outputs"
  | .nestedReduction => "nested reductions are not supported"
  | .looseReductionIndex => "ridx used outside of a reduction"
  | .extentConflict first second => s!"outputs disagree on extent: {first} != {second}"
  | .unboundSpecial name => "unbound special variable " ++ Text.quoted name
  | .slotOutside slot bound => s!"expression reads buffer {slot}, only {bound} bound"
  | .kindConflict slot first second =>
    s!"buffer {slot} accessed as both " ++ first.text ++ " and " ++ second.text
  | .partialElements bytes kind =>
    s!"buffer of {bytes} bytes is not a whole number of " ++ kind.text
  | .reach view low high count =>
    s!"view {view} reads offsets {low}..{high} of a buffer with {count} elements"
  | .positions slot low high size =>
    s!"accessor {slot} reads positions {low}..{high} of a view with {size} elements"
  | .outputTooSmall output size needed => s!"output {output} holds {size} bytes, needs {needed}"
  | .loadRange slot low high count =>
    s!"load[{slot}] index range {low}..{high} out of range for {count} elements"
  | .whileRunning message => message

end ExecutionFault

namespace LifetimeFault

def message (slot : Nat) : LifetimeFault → String
  | .released => s!"buffer slot {slot} was used after its reference count reached zero"
  | .disposed => "array was used after dispose()"

end LifetimeFault

namespace KindFault

def message : KindFault → String
  | .specialKind name => "special variable " ++ Text.quoted name ++ " must be int32"
  | .accessorIndex => "accessor index must be int32"
  | .loadIndex => "global index must be int32"
  | .negatedBool => "neg() is not defined for bool"
  | .conjunction => "and() requires bool operands"
  | .condition => "where() condition must be bool"
  | .wholeOperands operation left right =>
    s!"{operation}() requires int32 operands, got " ++ left.text ++ " and " ++ right.text
  | .notAHandle given => s!"expected a BufferHandle, got {given}"
  | .unsupportedElements name => s!"Unsupported dtype: {name}"
  | .unsupportedOperand given => "unsupported operand " ++ given.shown
  | .conditionNotAnArray given => s!"where() condition must be an NDArray, got {given}"

end KindFault

namespace ArgumentFault

def message : ArgumentFault → String
  | .negativeSlot slot => "buffer slot must be non-negative, got " ++ slot.plain
  | .reduction operation => s!"unsupported reduction {operation}"
  | .readbackStrategy name =>
    "unknown readback strategy " ++ name.shown
      ++ ", expected one of ['auto', 'mapped', 'staged']"
  | .differentExecutors left right => s!"arrays live on different backends: {left} and {right}"
  | .convolutionExecutors left right =>
    s!"conv() operands live on different backends: {left} and {right}"

end ArgumentFault

namespace IndexFault

def message : IndexFault → String
  | .outsideView flat size =>
    "position " ++ flat.plain ++ s!" out of range for a view of {size} elements"
  | .load slot index count =>
    s!"load[{slot}] index " ++ index.plain ++ s!" out of range for {count} elements"
  | .tooMany rank => s!"too many indices for array with {rank} dimensions"
  | .outOfBounds index axis extent =>
    "index " ++ index.plain ++ s!" is out of bounds for axis {axis} with size {extent}"
  | .backwardSlice => "slices with non-positive steps are not supported"
  | .unsupported given => "unsupported index " ++ given.shown

end IndexFault

namespace DeviceFault

def kinds : List String :=
  ["cpu", "cuda", "ipu", "xpu", "mkldnn", "opengl", "opencl", "ideep", "hip", "ve", "fpga", "maia",
   "xla", "lazy", "vulkan", "mps", "meta", "hpu", "mtia", "privateuseone"]

def message : DeviceFault → String
  | .empty => "Device string must not be empty"
  | .form given => s!"Invalid device string: '{given}'"
  | .unknown given =>
    "Expected one of " ++ ", ".intercalate kinds ++ " device type at start of device string: "
      ++ given
  | .index digits given =>
    s!"Could not parse device index '{digits}' in device string '{given}'"

end DeviceFault

namespace Failure

abbrev convolution (fault : ConvolutionFault) : Failure := .shape (.convolution fault)

def message? : Failure → Option String
  | .shape fault => some fault.message
  | .execution fault => some fault.message
  | .lifetime fault slot => some (fault.message slot)
  | .unavailable shown reason =>
    some ("backend " ++ shown ++ " is not available"
      ++ if reason.isEmpty then "" else ": " ++ reason)
  | .kind fault => some fault.message
  | .argument fault => some fault.message
  | .index fault => some fault.message
  | .noAccelerator => some "CUDA was requested but is not available"
  | .device _ | .divisionByZero | .overflow | .malformed | .unbound | .noElement | .missingElement ..
  | .operand | .unencodable | .illFormed | .exhausted | .tooLarge | .unmet | .refused
  | .unsupported => none

/-- Why an executor cannot be had, when this failure came up while it was made. -/
def reason : Failure → String
  | .device fault => fault.message
  | f => f.message?.getD ""

end Failure

end StridedArray
