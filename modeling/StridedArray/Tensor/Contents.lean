import StridedArray.Bytes
import StridedArray.Datum
import StridedArray.Shape
import StridedArray.Text.Grid

/-! # Contents of arrays

What an array holds, as it is brought to the host: a shape, a kind, and the elements in row-major
order.

* `Contents` — the data; `Contents.ofBytes` — from the front of a buffer; `Contents.fits` — which shapes
  there are;
* `Contents.nested` — as nested sequences; `Contents.text` — as text. -/

namespace StridedArray

/-- The elements of an array in row-major order. -/
structure Contents where
  shape : List Int
  kind : Element
  values : Array Scalar

namespace Contents

def mostAxes : Nat := 64

/-- Can an array of this shape be on the host? There are no negative extents there. There is a limit to
    the number of axes, and one to the number of bytes, which axes without any positions do not make
    less. -/
def fits (shape : List Int) (itemSize : Nat) : Bool :=
  shape.all (0 ≤ ·) && decide (shape.length ≤ mostAxes)
    && fitsSigned 64 (Shape.product (shape.filter (· ≠ 0)) * itemSize)

def ofBytes (shape : List Int) (kind : Element) (bytes : Bytes) : Contents :=
  ⟨shape, kind, kind.decode (bytes.take ((Shape.product shape).toNat * kind.itemSize))⟩

def nest (values : Array Scalar) : List Nat → Nat → Datum
  | [], start => .scalar (values[start]?.getD default)
  | n :: rest, start =>
    .list ((List.range n).map fun i => nest values rest (start + i * Text.Grid.count rest))

def nested (c : Contents) : Datum := nest c.values (c.shape.map Int.toNat) 0

def leastWidth : Element → Nat
  | .bool => (Text.truth false).length
  | _ => 0

def text (c : Contents) : String :=
  Text.Grid.grid (c.shape.map Int.toNat) (c.values.map Scalar.text) (leastWidth c.kind)

end Contents

end StridedArray
