import StridedArray.Binary64

/-! # Floating-point formats

Formats of other widths than the double, for the data that arrays are made from.

* `FloatFormat` — a number of significant bits and a range of exponents; `half`, `single`, `double`,
  `extended` — the particular ones;
* `round` — the nearest number of a format; `ofQuotient` — a quotient, with enough bits for that;
* `bits` — the bits that a number is stored as. -/

namespace StridedArray

open Binary64 (Parts roundShift)

structure FloatFormat where
  /-- The number of significant bits. -/
  precision : Nat
  /-- The exponent of the last place of the smallest numbers. -/
  least : Int
  /-- Numbers that would reach two to this power are infinite. -/
  top : Int

namespace FloatFormat

def half : FloatFormat := ⟨11, -24, 16⟩

def single : FloatFormat := ⟨24, -149, 128⟩

def double : FloatFormat := ⟨53, -1074, 1024⟩

def extended : FloatFormat := ⟨64, -16445, 16384⟩

def width (n : Nat) : Nat := if n = 0 then 0 else n.log2 + 1

/-- The nearest number of the format, a half going to the even neighbour. -/
def round (f : FloatFormat) : Parts → Parts
  | .finite negative m e =>
    let dropped := max ((width m : Int) - f.precision) (f.least - e)
    let (m, e) := if dropped ≤ 0 then (m, e) else (roundShift m dropped.toNat, e + dropped)
    -- Rounding up may carry into one more bit, so the width is that of the rounded number.
    if m ≠ 0 ∧ f.top < width m + e then .infinite negative else .finite negative m e
  | p => p

def toFloat (p : Parts) : Float :=
  match double.round p with
  | .notANumber => Binary64.notANumber
  | .infinite negative => if negative then Binary64.negativeInfinity else Binary64.infinity
  | .finite negative m e => if m = 0 then Binary64.signedZero negative else Binary64.ofDyadic negative m e

def ofInt (n : Int) : Parts := .finite (n < 0) n.natAbs 0

/-- A quotient of positive numbers with some bits more than any format has. The last bit stands for
    all that is cut off, so that rounding to a format goes the right way. -/
def ofQuotient (negative : Bool) (numerator denominator : Nat) : Parts :=
  let shift := 160 + width denominator - width numerator
  let scaled := numerator * Nat.pow 2 shift
  let q := scaled / denominator
  let rest := if scaled % denominator = 0 then 0 else 1
  .finite negative (2 * q + rest) (-(shift : Int) - 1)

def normal (f : FloatFormat) (m : Nat) (e : Int) : Nat × Int :=
  let e' := max f.least (e + width m - f.precision)
  if e' ≤ e then (m * Nat.pow 2 (e - e').toNat, e') else (m / Nat.pow 2 (e' - e).toNat, e')

def exponentField (f : FloatFormat) (m : Nat) (e : Int) : Nat :=
  if m < Nat.pow 2 (f.precision - 1) then 0 else (e - f.least + 1).toNat

def topField (f : FloatFormat) : Nat := 2 * f.top.toNat - 1

def bits (f : FloatFormat) (p : Parts) : Nat :=
  let fractionBits := f.precision - 1
  let unit := Nat.pow 2 fractionBits
  let signUnit := (f.topField + 1) * unit
  match f.round p with
  | .notANumber => f.topField * unit + unit / 2
  | .infinite negative => (if negative then signUnit else 0) + f.topField * unit
  | .finite negative m e =>
    let (m, e) := f.normal m e
    (if negative then signUnit else 0) + f.exponentField m e * unit + m % unit

def extendedBits (p : Parts) : Nat :=
  let unit := Nat.pow 2 64
  let signUnit := (extended.topField + 1) * unit
  match extended.round p with
  | .notANumber => extended.topField * unit + 0xc000000000000000
  | .infinite negative =>
    (if negative then signUnit else 0) + extended.topField * unit + 0x8000000000000000
  | .finite negative m e =>
    let (m, e) := extended.normal m e
    (if negative then signUnit else 0) + extended.exponentField m e * unit + m

end FloatFormat

end StridedArray
