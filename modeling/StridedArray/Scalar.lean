import StridedArray.Decimal
import StridedArray.Text

/-! # Scalars

A scalar is a truth value, an integer of any size, or a double. The three kinds stay apart: `1`,
`true` and `1.0` are equal numbers and different scalars. Doubles that are no number keep the bits
they carry, since copies of them do.

* `Scalar` — the type; `ofFloat` — the result of an operation on doubles;
* `text` — the spelling in messages;
* `truthy`, `whole?` — reading a scalar as a condition or as an integer;
* `sameNumber`, `less` — comparison of the numbers, across kinds and without rounding. -/

namespace StridedArray

/-- A single value as arrays, constants and arguments hold it. -/
inductive Scalar
  | bool (b : Bool)
  | int (n : Int)
  | float (x : Float)
  /-- No number, with a sign and the 52 fraction bits of a double. -/
  | nan (negative : Bool) (fraction : Nat)
  deriving DecidableEq, Inhabited

namespace Scalar

def quietBit : Nat := 0x8000000000000

def notANumber : Scalar := nan false quietBit

def ofFloat (x : Float) : Scalar := if x.isNaN then nan true quietBit else float x

def quiet (fraction : Nat) : Nat := fraction ||| quietBit

def text : Scalar → String
  | .bool b => Text.truth b
  | .int n => toString n
  | .float x => Decimal.text x
  | .nan .. => Decimal.Spelling.message.notANumber

/-- A scalar as a condition: everything but zero holds, and so does what is no number. -/
def truthy : Scalar → Bool
  | .bool b => b
  | .int n => decide (n ≠ 0)
  | .float x => !(x == 0)
  | .nan .. => true

def whole? : Scalar → Option Int
  | .bool b => some (if b then 1 else 0)
  | .int n => some n
  | .float _ => none
  | .nan .. => none

/-- Order of the numbers that two scalars stand for; `none` if one of them is no number. -/
def compare? : Scalar → Scalar → Option Ordering
  | .nan .., _ => none
  | _, .nan .. => none
  | .float x, .float y =>
    if x < y then some .lt else if y < x then some .gt else if x == y then some .eq else none
  | .float x, .bool b => (Binary64.compareInt? (if b then 1 else 0) x).map Ordering.swap
  | .float x, .int n => (Binary64.compareInt? n x).map Ordering.swap
  | .bool b, .float y => Binary64.compareInt? (if b then 1 else 0) y
  | .int n, .float y => Binary64.compareInt? n y
  | .bool a, .bool b => some (compare (if a then 1 else 0 : Int) (if b then 1 else 0))
  | .bool a, .int n => some (compare (if a then 1 else 0) n)
  | .int n, .bool b => some (compare n (if b then 1 else 0))
  | .int m, .int n => some (compare m n)

def sameNumber (a b : Scalar) : Bool := a.compare? b == some .eq

def less (a b : Scalar) : Bool := a.compare? b == some .lt

def larger (a b : Scalar) : Scalar := if a.less b then b else a

@[simp] theorem less_int (m n : Int) : less (.int m) (.int n) = decide (m < n) := by
  unfold less compare?
  rw [Bool.eq_iff_iff, beq_iff_eq, Option.some_inj, decide_eq_true_iff]
  exact Int.compare_eq_lt

@[simp] theorem truthy_int (n : Int) : truthy (.int n) = decide (n ≠ 0) := rfl

@[simp] theorem truthy_bool (b : Bool) : truthy (.bool b) = b := rfl

end Scalar

end StridedArray
