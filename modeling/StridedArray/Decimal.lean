import StridedArray.Binary64

/-! # The shortest decimal text of a double

A double is written with the fewest significant digits that still read back as the same double,
and of several such texts with the one nearest to its value.

* `Interval` — the reals that round to a given double, as a fraction of naturals;
* `shortest` — the digits and the power of ten;
* `Spelling` — where positional notation ends and how exponents look; `render` — the text. -/

namespace StridedArray.Decimal

/-- The reals that round to the double `value / scale`: from `low / scale` to `high / scale`, the
    ends included iff `closed`. -/
structure Interval where
  low : Nat
  value : Nat
  high : Nat
  scale : Nat
  closed : Bool

/-- The rounding interval of `significand * 2 ^ exponent`. The lower neighbour of a power of two is
    only half as far away, unless it is subnormal. Ends round to the even significand. -/
def Interval.ofDyadic (significand : Nat) (exponent : Int) : Interval :=
  let narrow := significand = Nat.pow 2 52 ∧ exponent ≠ -1074
  let low := 4 * significand - (if narrow then 1 else 2)
  let value := 4 * significand
  let high := 4 * significand + 2
  let up := Nat.pow 2 (exponent - 2).toNat
  let down := Nat.pow 2 (2 - exponent).toNat
  { low := low * up, value := value * up, high := high * up, scale := down,
    closed := significand % 2 = 0 }

def Interval.contains (i : Interval) (digits : Nat) (power : Int) : Bool :=
  let d := digits * Nat.pow 10 power.toNat * i.scale
  let one := Nat.pow 10 (-power).toNat
  if i.closed then decide (i.low * one ≤ d) && decide (d ≤ i.high * one)
  else decide (i.low * one < d) && decide (d < i.high * one)

def digitCount (n : Nat) : Nat := (Nat.toDigits 10 n).length

/-- The exponent of the leading digit of `value / scale`, i.e. the largest `p` with
    `10 ^ p ≤ value / scale`. -/
def Interval.leading (i : Interval) : Int :=
  let guess : Int := (digitCount i.value : Int) - digitCount i.scale
  if i.scale * Nat.pow 10 guess.toNat ≤ i.value * Nat.pow 10 (-guess).toNat then guess else guess - 1

/-- The neighbour of the value on the grid of multiples of `10 ^ power` that lies in the interval,
    the nearer one if both do, the even one if both are equally near. -/
def Interval.onGrid? (i : Interval) (power : Int) : Option Nat :=
  let scaled := i.value * Nat.pow 10 (-power).toNat
  let unit := i.scale * Nat.pow 10 power.toNat
  let below := scaled / unit
  let rest := 2 * (scaled % unit)
  let inside := fun d => i.contains d power
  match inside below, inside (below + 1) with
  | true, false => some below
  | false, true => some (below + 1)
  | true, true =>
    some (if rest < unit ∨ (rest = unit ∧ below % 2 = 0) then below else below + 1)
  | false, false => none

/-- The first of the given digit counts for which a decimal reads back. -/
def Interval.search (i : Interval) (leading : Int) : List Nat → Nat × Int
  | [] => (i.value, 0)
  | count :: more =>
    let power := leading + 1 - count
    match i.onGrid? power with
    | some digits => (digits, power)
    | none => i.search leading more

/-- Digits and power of ten of the shortest decimal of a positive dyadic number. Seventeen digits
    always suffice. -/
def shortest (significand : Nat) (exponent : Int) : Nat × Int :=
  let i := Interval.ofDyadic significand exponent
  i.search i.leading ((List.range 17).map (· + 1))

/-- How a number is spelled around its digits. -/
structure Spelling where
  /-- Least and largest exponent of the leading digit that is written positionally. -/
  leastPositional : Int
  mostPositional : Int
  /-- Least number of digits of a written exponent. -/
  exponentWidth : Nat
  infinity : String
  notANumber : String

/-- Numbers in messages: positional from `1e-4` up to below `1e16`, a whole number keeps `.0`, an
    exponent has a sign and at least two digits. -/
def Spelling.message : Spelling :=
  { leastPositional := -4, mostPositional := 15, exponentWidth := 2,
    infinity := "inf", notANumber := "nan" }

/-- Digits without the zeros at their end, and the power of ten that takes those in. -/
def trimZeros : List Char → Int → List Char × Int
  | digits, power =>
    let kept := (digits.reverse.dropWhile (· = '0')).reverse
    (kept, power + ((digits.length : Int) - kept.length))

def padLeft (width : Nat) (text : String) : String :=
  String.ofList (List.replicate (width - text.length) '0') ++ text

/-- The text of the positive decimal `digits * 10 ^ power`, whose digits do not end in zero. -/
def Spelling.positive (s : Spelling) (digits : List Char) (power : Int) : String :=
  let leading := power + digits.length - 1
  if s.leastPositional ≤ leading ∧ leading ≤ s.mostPositional then
    if 0 ≤ power then
      String.ofList (digits ++ List.replicate power.toNat '0') ++ ".0"
    else if 0 ≤ leading then
      let whole := (leading + 1).toNat
      String.ofList (digits.take whole) ++ "." ++ String.ofList (digits.drop whole)
    else
      "0." ++ String.ofList (List.replicate (-leading - 1).toNat '0' ++ digits)
  else
    let fraction := digits.drop 1
    let mantissa :=
      if fraction.isEmpty then String.ofList digits
      else String.ofList (digits.take 1) ++ "." ++ String.ofList fraction
    let sign := if leading < 0 then "-" else "+"
    mantissa ++ "e" ++ sign ++ padLeft s.exponentWidth (toString leading.natAbs)

def render (s : Spelling) (x : Float) : String :=
  match Binary64.parts x with
  | .notANumber => s.notANumber
  | .infinite negative => (if negative then "-" else "") ++ s.infinity
  | .finite negative significand exponent =>
    let sign := if negative then "-" else ""
    if significand = 0 then sign ++ "0.0"
    else
      let (digits, power) := shortest significand exponent
      let (kept, power) := trimZeros (Nat.toDigits 10 digits) power
      sign ++ s.positive kept power

def text (x : Float) : String := render .message x

end StridedArray.Decimal
