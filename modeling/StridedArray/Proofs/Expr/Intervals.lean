import StridedArray.Executor.Host
import StridedArray.Proofs.Expr.Ranges
import StridedArray.Proofs.Expr.Threading

/-! # Ranges hold whatever is evaluated

The range of an expression contains its value, wherever the variables are below their extents and nothing is brought
back into the range of integers, in whatever order operands lose the reduction index. Two nodes are an exception:
a truth value made of a number keeps the range of the number, and a disjunction has the range of a sum.

* `Expr.Exact` — no integer has to be brought back on the way;
* `Expr.Truthful` — the range of a truth value leaves room for it;
* `BinaryOp.truth_contained`, `Expr.arithmetic_contained`, `Expr.cast_contained` — values of single operations;
* `Expr.bounds_sound` — the range contains the value. -/

namespace StridedArray

open Range (Contains)
open StridedArray.Expr (applyBinary)

/-- Arithmetic on truth values is arithmetic on zero and one, but for a disjunction where both hold. -/
theorem BinaryOp.integer_fits {op : BinaryOp} {m n k : Int} (takes : op.Takes .bool) (left : Element.bool.Fits m)
    (right : Element.bool.Fits n) (computes : op.integer? m n = some k) :
    Element.bool.Fits k ∨ op = .add ∧ m = 1 ∧ n = 1 := by
  cases op with
  | add =>
    cases computes
    rcases left with rfl | rfl <;> rcases right with rfl | rfl
    · exact .inl (.inl rfl)
    · exact .inl (.inr rfl)
    · exact .inl (.inr rfl)
    · exact .inr ⟨rfl, rfl, rfl⟩
  | mul =>
    cases computes
    rcases left with rfl | rfl <;> rcases right with rfl | rfl <;> first | exact .inl (.inl rfl) | exact .inl (.inr rfl)
  | max =>
    cases computes
    rcases left with rfl | rfl <;> rcases right with rfl | rfl <;> first | exact .inl (.inl rfl) | exact .inl (.inr rfl)
  | idiv => cases takes
  | mod => cases takes
  | cmplt => cases computes
  | cmpgt => cases computes
  | and => cases computes

/-- Arithmetic on truth values stays in its range. Only a disjunction may fall below it, where both operands are known
    to hold. -/
theorem BinaryOp.truth_contained {op : BinaryOp} {p q : Bool} {x : Scalar} {a b r : Range} {m n : Int}
    (takes : op.Takes .bool) (arithmetic : op.isTruth = false) (left : (Scalar.bool p).whole? = some m)
    (inLeft : Contains a m) (right : (Scalar.bool q).whole? = some n) (inRight : Contains b n)
    (room : op = .add → ¬ (1 ≤ a.1 ∧ 1 ≤ b.1)) (known : op.bounds? a b = some r)
    (applied : applyBinary op .bool .bool (.bool p) (.bool q) = .ok x) : ∃ k, x.whole? = some k ∧ Contains r k := by
  have truth : ∀ {t : Bool} {k : Int}, (Scalar.bool t).whole? = some k → Element.bool.Fits k := by
    rintro t k ⟨⟩
    cases t
    · exact .inl rfl
    · exact .inr rfl
  obtain ⟨k, computes, contains⟩ := BinaryOp.bounds_contain arithmetic inLeft inRight known
  rcases integer_fits takes (truth left) (truth right) computes with fits | ⟨rfl, rfl, rfl⟩
  · exact ⟨k, value_integer takes left right (fun _ => ⟨⟨p, rfl⟩, q, rfl⟩) computes fits (by decide) applied, contains⟩
  · cases known
    cases p with
    | false => cases left
    | true =>
      cases applied
      have room := room rfl
      obtain ⟨lowLeft, highLeft⟩ := inLeft
      obtain ⟨lowRight, highRight⟩ := inRight
      refine ⟨1, rfl, ?_, ?_⟩ <;> dsimp only <;> omega

namespace Expr

variable {env : Environment} {buffers : Buffers} {position after : Option Int} {kind : Element} {a b c e : Expr}
  {x : Scalar} {r : Range}

/-! ## What is asked of an evaluation -/

/-- No operation on integers that a range is computed for has a result on the way that has to be brought back into the
    range of 32-bit integers. -/
def Exact (env : Environment) (buffers : Buffers) : Expr → Option Int → Prop
  | unary op kind a, position => Exact env buffers a position
    ∧ (kind = .int32 → ∀ y after m k, a.evaluateFrom env buffers position = .ok (y, after) → y.whole? = some m →
      op.integer? m = some k → Word k)
  | binary op kind a b, position => Exact env buffers a position
    ∧ ∀ y between, a.evaluateFrom env buffers position = .ok (y, between) → Exact env buffers b between
      ∧ (kind = .int32 → ∀ z after m n k, b.evaluateFrom env buffers between = .ok (z, after) →
        y.whole? = some m → z.whole? = some n → op.integer? m n = some k → Word k)
  | select _ c a b, position => Exact env buffers c position
    ∧ ∀ y between, c.evaluateFrom env buffers position = .ok (y, between) →
      (y.truthy = true → Exact env buffers a between) ∧ (y.truthy = false → Exact env buffers b between)
  | _, _ => True

/-- The range of the node leaves room for a truth value: that of a number made a truth value contains one, unless the
    number is known to be zero, and not both operands of a disjunction are known to hold. -/
def Truthful : Expr → Prop
  | unary .cast .bool a => ∀ r, a.bounds? = some r → r = (0, 0) ∨ Contains r 1
  | binary .add .bool a b => ∀ r s, a.bounds? = some r → b.bounds? = some s → ¬ (1 ≤ r.1 ∧ 1 ≤ s.1)
  | _ => True

theorem declared_after {other : Expr} (declared : Every (Declared env position) e)
    (known : other.evaluateFrom env buffers position = .ok (x, after)) : Every (Declared env after) e := by
  rcases after_evaluateFrom known with rfl | rfl
  · exact declared
  · refine declared.imp fun node below => ?_
    cases node with
    | special name extent d =>
      intro n bound
      by_cases index : name = reductionIndex
      · rw [if_pos index] at bound
        cases bound
      · exact below n (by rwa [if_neg index] at bound ⊢)
    | _ => trivial

/-! ## Values in ranges -/

theorem cast_contained {y : Scalar} {m : Int} (integral : kind ≠ .float32) (number : y.whole? = some m)
    (contains : Contains r m) (word : kind = .int32 → Word m) (room : kind = .bool → r = (0, 0) ∨ Contains r 1)
    (applied : applyUnary .cast kind y = .ok x) : ∃ n, x.whole? = some n ∧ Contains r n := by
  cases kind with
  | bool =>
    cases applied
    rw [Scalar.whole?, Scalar.truthy_whole number]
    by_cases zero : m = 0
    · subst zero
      exact ⟨0, rfl, contains⟩
    · rw [decide_eq_true zero]
      refine ⟨1, rfl, (room rfl).resolve_left ?_⟩
      rintro rfl
      exact zero (Int.le_antisymm contains.2 contains.1)
  | int32 =>
    have fits : Element.int32.Fits m := word rfl
    exact ⟨m, UnaryOp.value_integer number rfl fits integral applied, contains⟩
  | float32 => exact absurd rfl integral

theorem arithmetic_contained {op : BinaryOp} {y z : Scalar} {ra rb : Range} {m n : Int} (takes : op.Takes kind)
    (integral : kind ≠ .float32) (arithmetic : op.isTruth = false)
    (truths : kind = .bool → (∃ p, y = .bool p) ∧ ∃ q, z = .bool q) (left : y.whole? = some m) (inLeft : Contains ra m)
    (right : z.whole? = some n) (inRight : Contains rb n)
    (word : kind = .int32 → ∀ k, op.integer? m n = some k → Word k)
    (room : kind = .bool → op = .add → ¬ (1 ≤ ra.1 ∧ 1 ≤ rb.1)) (known : op.bounds? ra rb = some r)
    (applied : applyBinary op kind kind y z = .ok x) : ∃ k, x.whole? = some k ∧ Contains r k := by
  cases kind with
  | bool =>
    obtain ⟨⟨p, rfl⟩, q, rfl⟩ := truths rfl
    exact BinaryOp.truth_contained takes arithmetic left inLeft right inRight (room rfl) known applied
  | int32 =>
    obtain ⟨k, computes, contains⟩ := BinaryOp.bounds_contain arithmetic inLeft inRight known
    have fits : Element.int32.Fits k := word rfl k computes
    exact ⟨k, BinaryOp.value_integer takes left right truths computes fits integral applied, contains⟩
  | float32 => exact absurd rfl integral

/-- The range of an expression contains the value that it is evaluated to from any binding of the reduction index. -/
theorem contains_evaluateFrom (typed : Typed e) (integral : e.kind ≠ .float32)
    (declared : Every (Declared env position) e) (exactly : Exact env buffers e position) (truthful : Every Truthful e)
    (known : e.bounds? = some r) (value : e.evaluateFrom env buffers position = .ok (x, after)) :
    ∃ n, x.whole? = some n ∧ Contains r n := by
  induction e generalizing position x after r with
  | const kind c d =>
    cases value
    exact contains_constant integral known
  | special name extent d =>
    cases known
    obtain ⟨n, bound, rfl, -⟩ := evaluateFrom_special_eq_ok.1 value
    obtain ⟨low, high⟩ := every_special.1 declared n bound
    exact ⟨n, rfl, Range.contains_of_lt low high⟩
  | accessor => cases known
  | load => cases known
  | unary op kind a ih =>
    obtain ⟨typedOperand, takes⟩ := every_unary.1 typed
    obtain ⟨declaredOperand, -⟩ := every_unary.1 declared
    obtain ⟨truthfulOperand, room⟩ := every_unary.1 truthful
    obtain ⟨exactOperand, words⟩ := exactly
    obtain ⟨y, operand, applied⟩ := evaluateFrom_unary_eq_ok.1 value
    cases op with
    | neg =>
      obtain ⟨s, bounded, rfl⟩ := Option.map_eq_some_iff.1 known
      obtain ⟨m, number, contains⟩ :=
        ih typedOperand (takes.1 ▸ integral) declaredOperand exactOperand truthfulOperand bounded operand
      obtain rfl := Element.eq_int32 takes.2 integral
      have word : Element.int32.Fits (-m) := words rfl y after m (-m) operand number rfl
      exact ⟨-m, UnaryOp.value_integer number rfl word integral applied, contains.negate⟩
    | cast =>
      rw [bounds?] at known
      split at known
      · cases known
      · next whole =>
        obtain ⟨m, number, contains⟩ :=
          ih typedOperand whole declaredOperand exactOperand truthfulOperand known operand
        have word := fun same => words same y after m m operand number rfl
        refine cast_contained integral number contains word ?_ applied
        rintro rfl
        exact room _ known
    | sin => cases known
    | cos => cases known
  | binary op kind a b iha ihb =>
    obtain ⟨typedLeft, typedRight, same, takes, result⟩ := every_binary.1 typed
    obtain ⟨declaredLeft, declaredRight, -⟩ := every_binary.1 declared
    obtain ⟨truthfulLeft, truthfulRight, room⟩ := every_binary.1 truthful
    obtain ⟨exactLeft, later⟩ := exactly
    unfold bounds? at known
    split at known
    -- Comparisons and conjunctions are truth values whatever their operands are.
    · next truth =>
      cases known
      have condition : kind = .bool := by
        rw [result]
        cases op <;> first | rfl | exact takes | cases truth
      obtain ⟨p, rfl⟩ := truth_evaluateFrom typed condition value
      exact ⟨_, rfl, by cases p <;> decide⟩
    · next arithmetic =>
      have arithmetic := Bool.eq_false_iff.2 arithmetic
      obtain rfl : a.kind = kind := by
        rw [result]
        cases op <;> first | rfl | cases arithmetic
      obtain ⟨y, between, z, left, right, applied⟩ := evaluateFrom_binary_eq_ok.1 value
      obtain ⟨exactRight, words⟩ := later y between left
      split at known
      · next ra rb boundedLeft boundedRight =>
        obtain ⟨m, first, inLeft⟩ := iha typedLeft integral declaredLeft exactLeft truthfulLeft boundedLeft left
        have declaredThere := declared_after declaredRight left
        obtain ⟨n, second, inRight⟩ :=
          ihb typedRight (same ▸ integral) declaredThere exactRight truthfulRight boundedRight right
        refine arithmetic_contained takes integral arithmetic (fun truth => ?_) first inLeft second inRight
          (fun whole k computes => words whole z after m n k right first second computes) (fun truth sum => ?_) known
          applied
        · exact ⟨truth_evaluateFrom typedLeft truth left, truth_evaluateFrom typedRight (same ▸ truth) right⟩
        · subst sum
          rw [truth] at room
          exact room _ _ boundedLeft boundedRight
      · cases known
  | select kind c a b ihc iha ihb =>
    obtain ⟨-, typedLeft, typedRight, -, kindLeft, kindRight⟩ := every_select.1 typed
    obtain ⟨-, declaredLeft, declaredRight, -⟩ := every_select.1 declared
    obtain ⟨-, truthfulLeft, truthfulRight, -⟩ := every_select.1 truthful
    obtain ⟨-, later⟩ := exactly
    unfold bounds? at known
    split at known
    · next rc ra rb _ boundedLeft boundedRight =>
      cases known
      obtain ⟨y, between, first, chosen⟩ := evaluateFrom_select_eq_ok.1 value
      obtain ⟨exactLeft, exactRight⟩ := later y between first
      split at chosen
      · next holds =>
        obtain ⟨n, whole, contains⟩ := iha typedLeft (kindLeft ▸ integral) (declared_after declaredLeft first)
          (exactLeft holds) truthfulLeft boundedLeft chosen
        exact ⟨n, whole, contains.hull_left rb⟩
      · next fails =>
        obtain ⟨n, whole, contains⟩ := ihb typedRight (kindRight ▸ integral) (declared_after declaredRight first)
          (exactRight (Bool.eq_false_iff.2 fails)) truthfulRight boundedRight chosen
        exact ⟨n, whole, contains.hull_right ra⟩
    · cases known
  | reduce => cases known

/-- The range of an expression contains its value, as long as variables are below all extents that they are declared
    with, no operation leaves the 32-bit integers, and the range leaves room for the truth values that are computed. -/
theorem bounds_sound (typed : Typed e) (integral : e.kind ≠ .float32)
    (declared : Every (Declared env (env reductionIndex)) e) (exactly : Exact env buffers e (env reductionIndex))
    (truthful : Every Truthful e) (known : e.bounds? = some r) (value : e.evaluate env buffers = .ok x) :
    ∃ n, x.whole? = some n ∧ Contains r n := by
  obtain ⟨after, evaluated⟩ := evaluate_eq_ok.1 value
  exact contains_evaluateFrom typed integral declared exactly truthful known evaluated

/-- A position added to whether it is not the first one. -/
theorem bounds_sound_laterPosition :
    let position := special outputIndex 3
    let e := binary .add .int32 (unary .cast .int32 (unary .cast .bool position)) position
    e.bounds? = some (0, 4) ∧ e.evaluate (atOutput 2) (fun _ => none) = .ok (.int 3)
      ∧ ∃ n, (Scalar.int 3).whole? = some n ∧ Contains (0, 4) n := by
  intro position e
  have declared : Declared (atOutput 2) (atOutput 2 reductionIndex) position := by
    rintro n ⟨⟩
    decide
  have operand : ∀ {P : Expr → Prop}, P position → P (unary .cast .bool position) →
      P (unary .cast .int32 (unary .cast .bool position)) → P e → Every P e := fun leaf truth counted sum =>
    every_binary.2 ⟨every_unary.2 ⟨every_unary.2 ⟨every_special.2 leaf, truth⟩, counted⟩, every_special.2 leaf, sum⟩
  have exactly : Exact (atOutput 2) (fun _ => none) e (atOutput 2 reductionIndex) := by
    refine ⟨⟨⟨trivial, nofun⟩, ?_⟩, ?_⟩
    · rintro - y after m k ⟨⟩ ⟨⟩ ⟨⟩
      decide
    · rintro y between ⟨⟩
      refine ⟨trivial, ?_⟩
      rintro - z after m n k ⟨⟩ ⟨⟩ ⟨⟩ ⟨⟩
      decide
  have room : Truthful (unary .cast .bool position) := by
    rintro r ⟨⟩
    exact .inr (by decide)
  exact ⟨rfl, rfl, bounds_sound (operand trivial trivial trivial ⟨rfl, trivial, rfl⟩) nofun
    (operand declared trivial trivial trivial) exactly (operand trivial room trivial trivial) rfl rfl⟩

end Expr

end StridedArray
