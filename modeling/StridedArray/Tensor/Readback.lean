import StridedArray.Tensor.Contents
import StridedArray.Tensor.Elementwise

/-! # Reading arrays

* `hostBytes` — the elements of an array as bytes, through a copy if its layout is not that of the
  buffer;
* `contents`, `nested` — the elements; `rawContents` — the buffer itself;
* `Description`, `describe` — what can be said about an array without reading it;
* `plainText`, `text` — an array in messages. -/

namespace StridedArray

/-- What can be said about an array without reading it. -/
structure Description where
  layout : Layout
  kind : Element
  executor : String
  slot : Nat
  /-- Size of the buffer in bytes. -/
  bytes : Nat
  refcount : Nat
  /-- Buffers in use on the executor. -/
  live : Nat

namespace Session

variable [Room]

def readBuffer (h : Handle) : Action Bytes := onExecutor h.owner fun x => x.read h

/-- The elements of an array in row-major order, as bytes at the front. If the layout is not that of
    the buffer they are copied to another buffer, which is given back whether or not that can be
    read. -/
def hostBytes (r : TensorRef) : Action Bytes := do
  let t ← find r
  if t.layout.contiguous then readBuffer t.handle
  else
    let copy ← compact r
    let bytes ←
      try readBuffer (← find copy).handle
      catch failure =>
        dispose copy
        throw failure
    dispose copy
    return bytes

/-- The elements of an array. They are read even if their shape does not fit then. -/
def contents (r : TensorRef) : Action Contents := do
  let t ← live r
  let bytes ← hostBytes r
  if !Contents.fits t.shape t.kind.itemSize then throw .malformed
  return Contents.ofBytes t.shape t.kind bytes

def nested (r : TensorRef) : Action Datum := return (← contents r).nested

def rawContents (r : TensorRef) : Action (Array Scalar) := do
  let t ← live r
  return t.kind.decode (← readBuffer t.handle)

def describe (r : TensorRef) : Action Description := do
  let t ← live r
  let x ← executor t.owner
  let bytes ← ofResult (x.size t.handle)
  let refcount ← ofResult (x.refcount t.handle)
  return { layout := t.layout, kind := t.kind, executor := x.name, slot := t.handle.slot, bytes,
           refcount, live := x.live }

def plainText (r : TensorRef) : Action String := return (← contents r).text

/-- An array in messages. One that was disposed of only shows its shape and kind. -/
def text (r : TensorRef) : Action String := do
  let t ← find r
  if t.disposed then
    return "NDArray(<disposed>, shape=" ++ Text.integers t.shape ++ ", dtype=" ++ t.kind.name ++ ")"
  let elements ← plainText r
  return "NDArray(" ++ elements ++ ", dtype=" ++ t.kind.name ++ ", backend="
    ++ (← executor t.owner).name ++ ")"

end Session

end StridedArray
