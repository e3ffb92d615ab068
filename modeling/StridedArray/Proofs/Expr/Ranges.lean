import StridedArray.Expr.Bounds
import StridedArray.Proofs.Expr.Values

/-! # What is known of a value beforehand

The range of an expression is found by arithmetic on intervals of integers of any size. Values of an expression
are in it as long as they are what such integers would make of them: the variables stay below the extents that
they are declared with, and no result has to be brought back to its kind.

* `Range.Contains`, `BinaryOp.bounds_contain` — intervals, operation by operation;
* `Expr.Declared`, `Expr.Unwrapped` — what is asked of variables and of operations;
* `Expr.bounds_contain` — the range of an expression. -/

namespace StridedArray

/-! ## Intervals -/

def Range.Contains (r : Range) (n : Int) : Prop := r.1 ≤ n ∧ n ≤ r.2

instance (r : Range) (n : Int) : Decidable (Range.Contains r n) := inferInstanceAs (Decidable (_ ∧ _))

def UnaryOp.integer? (m : Int) : UnaryOp → Option Int
  | neg => some (-m)
  | cast => some m
  | sin | cos => none

def BinaryOp.integer? (m n : Int) : BinaryOp → Option Int
  | add => some (m + n)
  | mul => some (m * n)
  | idiv => if n = 0 then none else some (m.fdiv n)
  | mod => if n = 0 then none else some (m.fmod n)
  | max => some (Max.max m n)
  | cmplt | cmpgt | and => none

def Element.Fits (n : Int) : Element → Prop
  | bool => n = 0 ∨ n = 1
  | int32 => Word n
  | float32 => True

namespace Range

variable {a b r : Range} {m n k : Int}

theorem Contains.negate (contains : Contains a m) : Contains (-a.2, -a.1) (-m) :=
  ⟨Int.neg_le_neg contains.2, Int.neg_le_neg contains.1⟩

theorem Contains.hull_left (contains : Contains a m) (b : Range) : Contains (min a.1 b.1, max a.2 b.2) m :=
  ⟨(min_le_left _ _).trans contains.1, contains.2.trans (le_max_left _ _)⟩

theorem Contains.hull_right (contains : Contains b m) (a : Range) : Contains (min a.1 b.1, max a.2 b.2) m :=
  ⟨(min_le_right _ _).trans contains.1, contains.2.trans (le_max_right _ _)⟩

theorem contains_of_lt {extent : Int} (low : 0 ≤ n) (high : n < extent) : Contains (0, max (extent - 1) 0) n :=
  ⟨low, (Int.le_sub_one_of_lt high).trans (le_max_left _ _)⟩

/-- An interval times a number lies between the products of its ends, in one order or the other. -/
theorem Contains.scale (contains : Contains a m) (n : Int) :
    min (a.1 * n) (a.2 * n) ≤ m * n ∧ m * n ≤ max (a.1 * n) (a.2 * n) := by
  obtain ⟨low, high⟩ := contains
  cases Int.le_total 0 n with
  | inl positive =>
    exact ⟨(min_le_left _ _).trans (Int.mul_le_mul_of_nonneg_right low positive),
      (Int.mul_le_mul_of_nonneg_right high positive).trans (le_max_right _ _)⟩
  | inr negative =>
    exact ⟨(min_le_right _ _).trans (Int.mul_le_mul_of_nonpos_right high negative),
      (Int.mul_le_mul_of_nonpos_right low negative).trans (le_max_left _ _)⟩

end Range

open Range (Contains)

/-- An operation of arithmetic whose range is known has a result on all integers of the two ranges, and this is in
    its range. -/
theorem BinaryOp.bounds_contain {op : BinaryOp} {a b r : Range} {m n : Int} (arithmetic : op.isTruth = false)
    (left : Contains a m) (right : Contains b n) (known : op.bounds? a b = some r) :
    ∃ k, op.integer? m n = some k ∧ Contains r k := by
  cases op with
  | add =>
    cases known
    exact ⟨_, rfl, Int.add_le_add left.1 right.1, Int.add_le_add left.2 right.2⟩
  | mul =>
    cases known
    -- First one factor is moved to an end of its range, then the other one.
    have outer := left.scale n
    have first := right.scale a.1
    have second := right.scale a.2
    rw [Int.mul_comm b.1, Int.mul_comm b.2, Int.mul_comm n] at first second
    refine ⟨_, rfl, ?_⟩
    unfold Contains
    dsimp only
    omega
  | max =>
    cases known
    exact ⟨_, rfl, max_le_max left.1 right.1, max_le_max left.2 right.2⟩
  | idiv =>
    obtain ⟨⟨ends, positive⟩, ⟨⟩⟩ := Option.ite_none_right_eq_some.1 known
    obtain rfl : n = b.1 := Int.le_antisymm (ends ▸ right.2) right.1
    refine ⟨m.fdiv b.1, if_neg (Int.ne_of_gt positive), ?_⟩
    have rounded := fun k => Int.fdiv_eq_ediv_of_nonneg k (Int.le_of_lt positive)
    rw [rounded, rounded, rounded]
    exact ⟨Int.ediv_le_ediv positive left.1, Int.ediv_le_ediv positive left.2⟩
  | mod =>
    obtain ⟨⟨ends, positive⟩, ⟨⟩⟩ := Option.ite_none_right_eq_some.1 known
    obtain rfl : n = b.1 := Int.le_antisymm (ends ▸ right.2) right.1
    exact ⟨m.fmod b.1, if_neg (Int.ne_of_gt positive), Int.fmod_nonneg_of_pos _ positive,
      Int.le_sub_one_of_lt (Int.fmod_lt_of_pos _ positive)⟩
  | cmplt => cases arithmetic
  | cmpgt => cases arithmetic
  | and => cases arithmetic

/-! ## Values of operations -/

namespace Scalar

variable {x y : Scalar} {m n : Int}

theorem larger_whole (left : x.whole? = some m) (right : y.whole? = some n) :
    (x.larger y).whole? = some (max m n) := by
  rw [larger, less_whole left right]
  split
  · next below => rw [right, max_eq_right (Int.le_of_lt (of_decide_eq_true below))]
  · next above => rw [left, max_eq_left (Int.not_lt.1 (of_decide_eq_false (by simpa using above)))]

theorem negate_whole (known : x.whole? = some m) : x.negate.whole? = some (-m) := by
  cases x with
  | bool b =>
    cases known
    cases b <;> rfl
  | int n =>
    cases known
    rfl
  | float x => cases known
  | nan negative fraction => cases known

theorem truthy_whole (known : x.whole? = some m) : x.truthy = decide (m ≠ 0) := by
  cases x with
  | bool b =>
    cases known
    cases b <;> rfl
  | int n =>
    cases known
    rfl
  | float x => cases known
  | nan negative fraction => cases known

end Scalar

namespace Element

variable {kind : Element} {n : Int} {x y : Scalar}

theorem Fits.coerce (fits : kind.Fits n) (integral : kind ≠ .float32) (whole : x.whole? = some n)
    (coerced : kind.coerce x = .ok y) : y.whole? = some n := by
  cases kind with
  | bool =>
    cases coerced
    rw [Scalar.whole?, Scalar.truthy_whole whole]
    rcases fits with rfl | rfl <;> rfl
  | int32 =>
    rw [Scalar.coerce_whole whole] at coerced
    cases coerced
    exact congrArg some fits.wrap32_eq
  | float32 => exact absurd rfl integral

end Element

open StridedArray.Expr (applyUnary applyBinary)

/-- An operation of arithmetic computes with integers of any size, before its result is brought to its kind. -/
theorem BinaryOp.apply_integer {op : BinaryOp} {x y z : Scalar} {m n k : Int} (left : x.whole? = some m)
    (right : y.whole? = some n) (computes : op.integer? m n = some k) (value : op.apply .int32 x y = .ok z) :
    z.whole? = some k := by
  cases op with
  | add =>
    rw [apply, if_neg (by decide), Scalar.add_whole left right] at value
    cases computes
    cases value
    rfl
  | mul =>
    rw [apply, if_neg (by decide), Scalar.multiply_whole left right] at value
    cases computes
    cases value
    rfl
  | idiv =>
    by_cases zero : n = 0
    · rw [integer?, if_pos zero] at computes
      cases computes
    · rw [integer?, if_neg zero] at computes
      rw [apply, Scalar.floorDivide_whole left right zero] at value
      cases computes
      cases value
      rfl
  | mod =>
    by_cases zero : n = 0
    · rw [integer?, if_pos zero] at computes
      cases computes
    · rw [integer?, if_neg zero] at computes
      rw [apply, Scalar.floorModulo_whole left right zero] at value
      cases computes
      cases value
      rfl
  | max =>
    cases computes
    cases value
    exact Scalar.larger_whole left right
  | cmplt => cases computes
  | cmpgt => cases computes
  | and => cases computes

/-- Operations on one operand compute with integers of any size where the kind has room for the result. -/
theorem UnaryOp.value_integer {op : UnaryOp} {kind : Element} {x y : Scalar} {m k : Int} (whole : x.whole? = some m)
    (computes : op.integer? m = some k) (fits : kind.Fits k) (integral : kind ≠ .float32)
    (value : applyUnary op kind x = .ok y) : y.whole? = some k := by
  cases op with
  | neg =>
    cases computes
    exact fits.coerce integral (Scalar.negate_whole whole) value
  | cast =>
    cases computes
    exact fits.coerce integral whole value
  | sin => cases computes
  | cos => cases computes

theorem BinaryOp.value_integer {op : BinaryOp} {kind : Element} (takes : op.Takes kind) {x y z : Scalar} {m n k : Int}
    (left : x.whole? = some m) (right : y.whole? = some n)
    (truths : kind = .bool → (∃ b, x = .bool b) ∧ ∃ b, y = .bool b) (computes : op.integer? m n = some k)
    (fits : kind.Fits k) (integral : kind ≠ .float32) (value : applyBinary op kind kind x y = .ok z) :
    z.whole? = some k := by
  cases kind with
  | bool =>
    obtain ⟨⟨b, rfl⟩, c, rfl⟩ := truths rfl
    cases left
    cases right
    cases op with
    | idiv => cases takes
    | mod => cases takes
    | cmplt => cases computes
    | cmpgt => cases computes
    | and => cases computes
    | add =>
      cases computes
      cases value
      -- Both may hold, but then there is no room for their sum.
      cases b <;> cases c <;> first | rfl | (rcases fits with fits | fits <;> cases fits)
    | mul =>
      cases computes
      cases value
      cases b <;> cases c <;> rfl
    | max =>
      cases computes
      cases value
      cases b <;> cases c <;> rfl
  | int32 =>
    rw [applyBinary, bind_eq_ok] at value
    obtain ⟨c, applied, coerced⟩ := value
    exact fits.coerce (by decide) (apply_integer left right computes applied) coerced
  | float32 => exact absurd rfl integral

namespace Expr

variable {env : Environment} {buffers : Buffers} {position : Option Int} {e : Expr} {x : Scalar}

/-! ## Ranges -/

def Declared (env : Environment) (position : Option Int) : Expr → Prop
  | special name extent _ =>
    ∀ n, (if name = reductionIndex then position else env name) = some n → 0 ≤ n ∧ n < extent
  | _ => True

/-- The kind of an operation has room for what it makes of integers of any size. -/
def Unwrapped (env : Environment) (buffers : Buffers) (position : Option Int) : Expr → Prop
  | unary op kind a => ∀ x m k, a.valueAt env buffers position = .ok x → x.whole? = some m →
    op.integer? m = some k → kind.Fits k
  | binary op kind a b => ∀ x y m n k, a.valueAt env buffers position = .ok x → x.whole? = some m →
    b.valueAt env buffers position = .ok y → y.whole? = some n → op.integer? m n = some k → kind.Fits k
  | _ => True

theorem contains_truth {op : BinaryOp} {kind : Element} {a b : Expr} (typed : Typed (binary op kind a b))
    (truth : op.isTruth = true) (value : (binary op kind a b).valueAt env buffers position = .ok x) :
    ∃ n, x.whole? = some n ∧ Contains (0, 1) n := by
  obtain ⟨-, -, -, takes, result⟩ := every_binary.1 typed
  have condition : kind = .bool := by
    rw [result]
    cases op <;> first | rfl | exact takes | cases truth
  obtain ⟨b, rfl⟩ := truth_valueAt typed condition value
  exact ⟨_, rfl, by cases b <;> decide⟩

theorem contains_constant {kind : Element} {c : Scalar} (integral : kind ≠ .float32) {r : Range}
    (known : constantBounds? kind c = some r) : ∃ n, c.whole? = some n ∧ Contains r n := by
  rw [constantBounds?, if_neg integral, Option.map_eq_some_iff] at known
  obtain ⟨n, whole, rfl⟩ := known
  exact ⟨n, whole, Int.le_refl n, Int.le_refl n⟩

theorem contains_special {name : String} {extent : Int} {d : Nat}
    (declared : Declared env position (special name extent d))
    (value : (special name extent d).valueAt env buffers position = .ok x) :
    ∃ n, x.whole? = some n ∧ Contains (0, Max.max (extent - 1) 0) n := by
  unfold valueAt at value
  cases bound : if name = reductionIndex then position else env name with
  | none =>
    rw [bound] at value
    cases value
  | some n =>
    rw [bound] at value
    cases value
    obtain ⟨low, high⟩ := declared n bound
    exact ⟨n, rfl, Range.contains_of_lt low high⟩

/-- Arithmetic on values in two ranges gives one in the range of the results. -/
theorem contains_arithmetic {op : BinaryOp} {kind : Element} {a b : Expr} (typed : Typed (binary op kind a b))
    (arithmetic : op.isTruth = false) (integral : kind ≠ .float32)
    (unwrapped : Unwrapped env buffers position (binary op kind a b)) {y z : Scalar} {ra rb r : Range}
    (left : a.valueAt env buffers position = .ok y) (first : ∃ m, y.whole? = some m ∧ Contains ra m)
    (right : b.valueAt env buffers position = .ok z) (second : ∃ n, z.whole? = some n ∧ Contains rb n)
    (known : op.bounds? ra rb = some r) (applied : applyBinary op kind a.kind y z = .ok x) :
    ∃ k, x.whole? = some k ∧ Contains r k := by
  obtain ⟨typedLeft, typedRight, same, takes, result⟩ := every_binary.1 typed
  obtain ⟨m, wholeLeft, inLeft⟩ := first
  obtain ⟨n, wholeRight, inRight⟩ := second
  obtain rfl : kind = a.kind := by
    rw [result]
    cases op <;> first | rfl | cases arithmetic
  obtain ⟨k, computes, contains⟩ := BinaryOp.bounds_contain arithmetic inLeft inRight known
  have truths : a.kind = .bool → (∃ b, y = .bool b) ∧ ∃ b, z = .bool b := fun truth =>
    ⟨truth_valueAt typedLeft truth left, truth_valueAt typedRight (same ▸ truth) right⟩
  have room := unwrapped y z m n k left wholeLeft right wholeRight computes
  exact ⟨k, BinaryOp.value_integer takes wholeLeft wholeRight truths computes room integral applied, contains⟩

/-- The values of an expression are in its range. -/
theorem bounds_contain (typed : Typed e) (integral : e.kind ≠ .float32) (declared : Every (Declared env position) e)
    (unwrapped : Every (Unwrapped env buffers position) e) {r : Range} (known : e.bounds? = some r)
    (value : e.valueAt env buffers position = .ok x) : ∃ n, x.whole? = some n ∧ Contains r n := by
  induction e generalizing r x with
  | const kind c d =>
    cases value
    exact contains_constant integral known
  | special name extent d =>
    cases known
    exact contains_special (every_special.1 declared) value
  | accessor => cases known
  | load => cases known
  | unary op kind a ih =>
    obtain ⟨typedOperand, takes⟩ := every_unary.1 typed
    obtain ⟨declaredOperand, -⟩ := every_unary.1 declared
    obtain ⟨unwrappedOperand, fits⟩ := every_unary.1 unwrapped
    simp only [valueAt, bind_eq_ok] at value
    obtain ⟨y, operand, applied⟩ := value
    cases op with
    | neg =>
      obtain ⟨a', bounded, rfl⟩ := Option.map_eq_some_iff.1 known
      obtain ⟨m, whole, contains⟩ :=
        ih typedOperand (takes.1 ▸ integral) declaredOperand unwrappedOperand bounded operand
      exact ⟨-m, UnaryOp.value_integer whole rfl (fits y m _ operand whole rfl) integral applied, contains.negate⟩
    | cast =>
      rw [bounds?] at known
      split at known
      · cases known
      · next whole =>
        obtain ⟨m, number, contains⟩ := ih typedOperand whole declaredOperand unwrappedOperand known operand
        exact ⟨m, UnaryOp.value_integer number rfl (fits y m _ operand number rfl) integral applied, contains⟩
    | sin => cases known
    | cos => cases known
  | binary op kind a b iha ihb =>
    -- A truth value is in its range whatever the operands are; only arithmetic needs their ranges.
    unfold bounds? at known
    split at known
    · next truth =>
      cases known
      exact contains_truth typed truth value
    · next arithmetic =>
      obtain ⟨typedLeft, typedRight, same, takes, result⟩ := every_binary.1 typed
      obtain ⟨declaredLeft, declaredRight, -⟩ := every_binary.1 declared
      obtain ⟨unwrappedLeft, unwrappedRight, unwrappedHere⟩ := every_binary.1 unwrapped
      have operands : a.kind = kind := by
        rw [result]
        cases op <;> first | rfl | exact absurd rfl arithmetic
      simp only [valueAt, bind_eq_ok] at value
      obtain ⟨y, left, z, right, applied⟩ := value
      split at known
      · next ra rb boundedLeft boundedRight =>
        have first := iha typedLeft (operands ▸ integral) declaredLeft unwrappedLeft boundedLeft left
        have second := ihb typedRight (same ▸ operands ▸ integral) declaredRight unwrappedRight boundedRight right
        exact contains_arithmetic typed (Bool.eq_false_iff.2 arithmetic) integral unwrappedHere left first right second
          known applied
      · cases known
  | select kind c a b ihc iha ihb =>
    obtain ⟨-, typedLeft, typedRight, -, kindLeft, kindRight⟩ := every_select.1 typed
    obtain ⟨-, declaredLeft, declaredRight, -⟩ := every_select.1 declared
    obtain ⟨-, unwrappedLeft, unwrappedRight, -⟩ := every_select.1 unwrapped
    unfold bounds? at known
    split at known
    · next rc ra rb _ boundedLeft boundedRight =>
      cases known
      simp only [valueAt, bind_eq_ok] at value
      obtain ⟨y, -, chosen⟩ := value
      split at chosen
      · obtain ⟨n, whole, contains⟩ :=
          iha typedLeft (kindLeft ▸ integral) declaredLeft unwrappedLeft boundedLeft chosen
        exact ⟨n, whole, contains.hull_left rb⟩
      · obtain ⟨n, whole, contains⟩ :=
          ihb typedRight (kindRight ▸ integral) declaredRight unwrappedRight boundedRight chosen
        exact ⟨n, whole, contains.hull_right ra⟩
    · cases known
  | reduce => cases known

end Expr

end StridedArray
