import StridedArray.Arithmetic

/-! # Elements as bytes

Buffers are plain bytes. An integer takes four of them, the lowest first; a number of single
precision is stored as its bits in the same order; a truth value takes one byte, where everything but
zero reads as true.

* `wordBytes`, `wordAt` — a 32-bit word as bytes and back; `wordOfNaN`, `singleOfWord` — a word as a
  number of single precision;
* `Element.encode`, `Element.decodeAt` — one element;
* `Element.decode`, `Element.encodeAll` — many. -/

namespace StridedArray

abbrev Bytes := Array UInt8

def wordBytes (w : UInt32) : List UInt8 :=
  [w.toUInt8, (w >>> 8).toUInt8, (w >>> 16).toUInt8, (w >>> 24).toUInt8]

def byteAt (bytes : Bytes) (place : Nat) : UInt8 := bytes[place]?.getD 0

def wordAt (bytes : Bytes) (place : Nat) : UInt32 :=
  (byteAt bytes place).toUInt32 ||| ((byteAt bytes (place + 1)).toUInt32 <<< 8)
    ||| ((byteAt bytes (place + 2)).toUInt32 <<< 16) ||| ((byteAt bytes (place + 3)).toUInt32 <<< 24)

def signedWord (w : UInt32) : Int := wrap32 w.toNat

def wordOfInt (n : Int) : UInt32 := UInt32.ofNat (n % 0x100000000).toNat

/-- The word of what is no number in single precision: all bits of the exponent, and the upper bits of
    the fraction. -/
def wordOfNaN (negative : Bool) (fraction : Nat) : UInt32 :=
  UInt32.ofNat ((if negative then 0xff800000 else 0x7f800000) + (fraction >>> doubleOnlyBits) % 0x800000)

def singleOfWord (w : UInt32) : Scalar :=
  let fraction := w.toNat % 0x800000
  if w.toNat / 0x800000 % 0x100 = 0xff ∧ fraction ≠ 0 then
    .nan (decide (0x80000000 ≤ w.toNat)) (fraction <<< doubleOnlyBits)
  else .float (Float32.ofBits w).toFloat

namespace Element

def encode (kind : Element) (value : Scalar) : Except Failure (List UInt8) := do
  match kind with
  | .bool => return [if value.truthy then 1 else 0]
  -- What is stored has to fit; only the operators wrap around.
  | .int32 => return wordBytes (wordOfInt (← requireWord (← value.toInt)))
  | .float32 =>
    match value with
    | .nan negative fraction => return wordBytes (wordOfNaN negative fraction)
    | value => return wordBytes (← value.toFloat).toFloat32.toBits

def decodeAt (kind : Element) (bytes : Bytes) (place : Nat) : Scalar :=
  match kind with
  | .bool => .bool (byteAt bytes place != 0)
  | .int32 => .int (signedWord (wordAt bytes place))
  | .float32 => singleOfWord (wordAt bytes place)

def decode (kind : Element) (bytes : Bytes) : Array Scalar :=
  Array.ofFn (n := bytes.size / kind.itemSize) fun i => kind.decodeAt bytes (i * kind.itemSize)

def encodeAll (kind : Element) (values : Array Scalar) : Except Failure Bytes :=
  values.foldlM (fun out value => do return out ++ (← kind.encode value).toArray) #[]

end Element

end StridedArray
