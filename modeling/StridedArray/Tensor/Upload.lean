import StridedArray.Tensor.Readback
import StridedArray.Tensor.Source

/-! # Making arrays

* `upload` — an array of given data, or a copy of an array;
* `fill`, `fillLike` — an array of one value. -/

namespace StridedArray

namespace Session

variable [Room]

def place (s : Source) (kind : Element) (owner : Nat) : Action TensorRef := do
  let elements ← ofResult (s.elements kind)
  let bytes ← ofResult (kind.encodeAll elements.toArray)
  let handle ← allocate owner bytes.size (some bytes)
  adopt handle (← ofResult (Layout.ofShape s.shape)) kind

def arrayAsValue : Datum := .slice .none .none .none

/-- Data to be uploaded: nested sequences, as a type that is asked for, or the elements of an array. -/
def sourceOf (data : Operand) (type : Option SourceType) : Action Source := do
  match data, type with
  | .tensor r, none => return Source.ofContents (← contents r)
  | .tensor _, some type => ofResult (Source.typed type arrayAsValue)
  | .value d, none => ofResult (Source.discover d)
  | .value d, some type => ofResult (Source.typed type d)

/-- A new array of data. The kind is settled before the executor is looked up, and the elements are
    converted after that. -/
def upload (data : Operand) (type : Option SourceType) (kind : KindRequest) (executor : Datum) :
    Action TensorRef := do
  let s ← sourceOf data type
  let kind ← ofResult (s.kind kind)
  place s kind (← executorFor executor)

def fill (value : Int) (shape : Datum) (kind : KindRequest) (executor : Datum) : Action TensorRef := do
  let kind ← ofResult kind.resolve
  let shape ← ofResult (shape.filledShape kind.itemSize)
  place (Source.filled shape kind value) kind (← executorFor executor)

/-- A new array of one value beside another array: of its shape, on its executor, and of its kind if
    no other one is asked for. -/
def fillLike (value : Int) (r : TensorRef) (kind : KindRequest) : Action TensorRef := do
  let t ← find r
  let kind ← match kind with
    | .unspecified => pure t.kind
    | request => ofResult request.resolve
  let shape ← ofResult ((Datum.list (Datum.ints t.shape)).filledShape kind.itemSize)
  place (Source.filled shape kind value) kind t.owner

end Session

end StridedArray
