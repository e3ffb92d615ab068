/-! # Double-precision numbers, taken apart exactly

A double is a sign and a value `significand * 2 ^ exponent`, an infinity, or no number at all.
Everything that has to be exact is done on those parts in integer arithmetic:

* `parts` — the decomposition; `ofDyadic` — the nearest double of a dyadic number;
* `truncate` — the integer towards zero;
* `compareInt?` — comparison with an integer, without converting it;
* `remainder`, `floorDivide`, `floorModulo` — division of doubles that rounds towards minus infinity;
* `roundShift` — the nearest integer of a dyadic fraction. -/

namespace StridedArray.Binary64

/-- What a double stands for. A finite one is `significand * 2 ^ exponent`, with its sign. -/
inductive Parts
  | notANumber
  | infinite (negative : Bool)
  | finite (negative : Bool) (significand : Nat) (exponent : Int)
  deriving DecidableEq, Repr

/-- The decomposition of a double. Subnormal numbers share the least exponent and have no
    implicit leading bit. -/
def parts (x : Float) : Parts :=
  let bits : Nat := x.toBits.toNat
  let negative := decide (bits / Nat.pow 2 63 = 1)
  let biased : Nat := bits / Nat.pow 2 52 % Nat.pow 2 11
  let fraction : Nat := bits % Nat.pow 2 52
  if biased = 2047 then
    if fraction = 0 then .infinite negative else .notANumber
  else if biased = 0 then .finite negative fraction (-1074)
  else .finite negative (Nat.pow 2 52 + fraction) ((biased : Int) - 1075)

def infinity : Float := Float.ofBits 0x7ff0000000000000

def negativeInfinity : Float := Float.ofBits 0xfff0000000000000

def notANumber : Float := Float.ofBits 0x7ff8000000000000

def signedZero (negative : Bool) : Float :=
  if negative then Float.ofBits 0x8000000000000000 else Float.ofBits 0

def isNegative (x : Float) : Bool := decide (x.toBits.toNat / Nat.pow 2 63 = 1)

/-- The double nearest to `significand * 2 ^ exponent` with the given sign. A negative exponent is
    written in tenths, since `2 ^ (-k) = 5 ^ k / 10 ^ k`. -/
def ofDyadic (negative : Bool) (significand : Nat) (exponent : Int) : Float :=
  let magnitude :=
    if 0 ≤ exponent then Float.ofNat (significand * Nat.pow 2 exponent.toNat)
    else Float.ofScientific (significand * Nat.pow 5 (-exponent).toNat) true (-exponent).toNat
  if negative then -magnitude else magnitude

def ofInt? (n : Int) : Option Float :=
  let x := Float.ofInt n
  match parts x with
  | .finite .. => some x
  | _ => none

def signed (negative : Bool) (magnitude : Nat) : Int :=
  if negative then -(magnitude : Int) else magnitude

def truncate (negative : Bool) (significand : Nat) (exponent : Int) : Int :=
  signed negative
    (if 0 ≤ exponent then significand * Nat.pow 2 exponent.toNat
     else significand / Nat.pow 2 (-exponent).toNat)

def compareDyadic (n : Int) (negative : Bool) (significand : Nat) (exponent : Int) : Ordering :=
  let value := signed negative significand
  if 0 ≤ exponent then compare n (value * Nat.pow 2 exponent.toNat)
  else compare (n * Nat.pow 2 (-exponent).toNat) value

def compareInt? (n : Int) (x : Float) : Option Ordering :=
  match parts x with
  | .notANumber => none
  | .infinite negative => some (if negative then .gt else .lt)
  | .finite negative significand exponent =>
    some (compareDyadic n negative significand exponent)

/-- The exact remainder of two doubles, with the sign of the dividend. -/
def remainder (x y : Float) : Float :=
  match parts x, parts y with
  | .finite negative m e, .finite _ m' e' =>
    if m' = 0 then notANumber
    else
      let least := min e e'
      let r := (m * Nat.pow 2 (e - least).toNat) % (m' * Nat.pow 2 (e' - least).toNat)
      if r = 0 then signedZero negative else ofDyadic negative r least
  | .finite .., .infinite _ => x
  | _, _ => notANumber

/-- The remainder of `remainder x y` moved to the sign of the divisor, and the quotient that goes
    with it before rounding. The divisor is not zero. -/
def floorParts (x y : Float) : Float × Float :=
  let r := remainder x y
  let q := (x - r) / y
  if r == 0 then (signedZero (isNegative y), q)
  else if decide (y < 0) != decide (r < 0) then (r + y, q - 1)
  else (r, q)

def floorModulo (x y : Float) : Float := (floorParts x y).1

/-- Quotient rounded towards minus infinity. The divisor is not zero. -/
def floorDivide (x y : Float) : Float :=
  let q := (floorParts x y).2
  if q == 0 then signedZero (isNegative (x / y))
  else
    -- `q` is whole up to rounding, and may have been rounded to just below a whole number.
    let below := q.floor
    if q - below > 0.5 then below + 1 else below

/-- `m / 2 ^ k` to the nearest integer, a half going to the even neighbour. -/
def roundShift (m k : Nat) : Nat :=
  let q := m / Nat.pow 2 k
  let twice := 2 * (m % Nat.pow 2 k)
  if Nat.pow 2 k < twice ∨ (twice = Nat.pow 2 k ∧ q % 2 = 1) then q + 1 else q

end StridedArray.Binary64
