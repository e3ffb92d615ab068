import StridedArray.Failure

/-! # Arithmetic of scalars

Integers are exact and unbounded; truth values count as 0 and 1; as soon as one operand is a double
the other one is converted. Quotients round towards minus infinity.

* `add`, `subtract`, `multiply`, `floorDivide`, `floorModulo`, `negate` — the operations;
* `toInt`, `toFloat` — conversions, which fail where the value has no image; `truncate32` — one that
  does not;
* `wrap32` — two's complement; `requireWord` — what does not wrap around;
* `Element.coerce` — a scalar as an element of a kind. -/

namespace StridedArray

def wrap32 (n : Int) : Int := (n + 0x80000000) % 0x100000000 - 0x80000000

theorem wrap32_of_range {n : Int} (low : -0x80000000 ≤ n) (high : n < 0x80000000) : wrap32 n = n := by
  unfold wrap32; omega

theorem wrap32_range (n : Int) : -0x80000000 ≤ wrap32 n ∧ wrap32 n < 0x80000000 := by
  unfold wrap32; omega

def fitsSigned (bits : Nat) (n : Int) : Bool :=
  decide (-(Nat.pow 2 (bits - 1) : Int) ≤ n ∧ n < Nat.pow 2 (bits - 1))

def fitsUnsigned (bits : Nat) (n : Int) : Bool := decide (0 ≤ n ∧ n < Nat.pow 2 bits)

def requireWord (n : Int) : Except Failure Int := if fitsSigned 32 n then pure n else throw .overflow

theorem requireWord_of_range {n : Int} (low : -0x80000000 ≤ n) (high : n < 0x80000000) : requireWord n = .ok n :=
  if_pos (decide_eq_true ⟨low, high⟩)

/-- The integer of 32 bits next to a double on the side of zero; the least one if there is none. -/
def truncate32 (x : Float) : Int :=
  match Binary64.parts x with
  | .finite negative m e =>
    let n := Binary64.truncate negative m e
    if fitsSigned 32 n then n else -0x80000000
  | _ => -0x80000000

def roundSingle (x : Float) : Float := x.toFloat32.toFloat

def doubleOnlyBits : Nat := 29

def roundSingleBits (fraction : Nat) : Nat := fraction >>> doubleOnlyBits <<< doubleOnlyBits

namespace Scalar

def toFloat : Scalar → Except Failure Float
  | .bool b => pure (if b then 1 else 0)
  | .int n =>
    match Binary64.ofInt? n with
    | some x => pure x
    | none => throw .overflow
  | .float x => pure x
  | .nan .. => pure Binary64.notANumber

def toInt : Scalar → Except Failure Int
  | .bool b => pure (if b then 1 else 0)
  | .int n => pure n
  | .float x =>
    match Binary64.parts x with
    | .notANumber => throw .malformed
    | .infinite _ => throw .overflow
    | .finite negative m e => pure (Binary64.truncate negative m e)
  | .nan .. => throw .malformed

/-- The result of an operation on doubles. An operand that is no number is the result, the first of
    two. -/
def floatResult (a b : Scalar) (result : Float) : Scalar :=
  match a, b with
  | .nan negative fraction, _ => .nan negative (quiet fraction)
  | _, .nan negative fraction => .nan negative (quiet fraction)
  | _, _ => ofFloat result

def combine (onInt : Int → Int → Except Failure Int) (onFloat : Float → Float → Except Failure Float)
    (a b : Scalar) : Except Failure Scalar :=
  match a.whole?, b.whole? with
  | some m, some n => Scalar.int <$> onInt m n
  | _, _ => do
    let x ← a.toFloat
    let y ← b.toFloat
    floatResult a b <$> onFloat x y

def add : Scalar → Scalar → Except Failure Scalar :=
  combine (fun m n => pure (m + n)) (fun x y => pure (x + y))

def subtract : Scalar → Scalar → Except Failure Scalar :=
  combine (fun m n => pure (m - n)) (fun x y => pure (x - y))

def multiply : Scalar → Scalar → Except Failure Scalar :=
  combine (fun m n => pure (m * n)) (fun x y => pure (x * y))

def floorDivide : Scalar → Scalar → Except Failure Scalar :=
  combine (fun m n => if n = 0 then throw .divisionByZero else pure (m.fdiv n))
    (fun x y => if y == 0 then throw .divisionByZero else pure (Binary64.floorDivide x y))

def floorModulo : Scalar → Scalar → Except Failure Scalar :=
  combine (fun m n => if n = 0 then throw .divisionByZero else pure (m.fmod n))
    (fun x y => if y == 0 then throw .divisionByZero else pure (Binary64.floorModulo x y))

def negate : Scalar → Scalar
  | .bool b => .int (if b then -1 else 0)
  | .int n => .int (-n)
  | .float x => .float (-x)
  | .nan negative fraction => .nan (!negative) fraction

@[simp] theorem add_int (m n : Int) : add (.int m) (.int n) = .ok (.int (m + n)) := rfl

@[simp] theorem multiply_int (m n : Int) : multiply (.int m) (.int n) = .ok (.int (m * n)) := rfl

@[simp] theorem toInt_int (n : Int) : toInt (.int n) = .ok n := rfl

theorem floorDivide_int (m n : Int) (h : n ≠ 0) :
    floorDivide (.int m) (.int n) = .ok (.int (m.fdiv n)) := by
  simp [floorDivide, combine, whole?, h, pure, Except.pure, Functor.map, Except.map]

theorem floorModulo_int (m n : Int) (h : n ≠ 0) :
    floorModulo (.int m) (.int n) = .ok (.int (m.fmod n)) := by
  simp [floorModulo, combine, whole?, h, pure, Except.pure, Functor.map, Except.map]

end Scalar

namespace Element

/-- A scalar as an element of this kind: its truth, its integer part modulo `2 ^ 32`, or the nearest
    single-precision number. -/
def coerce (kind : Element) (value : Scalar) : Except Failure Scalar :=
  match kind with
  | .bool => pure (.bool value.truthy)
  | .int32 => do return .int (wrap32 (← value.toInt))
  | .float32 =>
    match value with
    | .nan negative fraction => pure (.nan negative (roundSingleBits (Scalar.quiet fraction)))
    | value => do return .float (roundSingle (← value.toFloat))

def zero : Element → Scalar
  | .bool => .bool false
  | .int32 => .int 0
  | .float32 => .float (roundSingle 0)

@[simp] theorem coerce_bool (value : Scalar) : bool.coerce value = .ok (.bool value.truthy) := rfl

@[simp] theorem coerce_int32_int (n : Int) : int32.coerce (.int n) = .ok (.int (wrap32 n)) := rfl

end Element

end StridedArray
