import StridedArray.Proofs.Expr.Nodes
import StridedArray.Proofs.Expr.Points

/-! # Arithmetic on a position

What the constructors make of a position by adding, scaling, dividing by constants and comparing. They
drop neutral operands and carry out what is constant, and the result has the value of the arithmetic
in 32 bits all the same.

* `Scalar.add_whole` and its neighbours — operations on scalars that stand for integers;
* `Expr.Arithmetic` — expressions made of a position and constants by operations that cannot fail;
* `Expr.Computes`, `Expr.Decides` — such an expression has a number, or a truth value, wherever the
  position has a given number;
* `Expr.add_computes`, `Expr.cmplt_decides`, `Expr.choose_computes` and their neighbours — the
  constructors. -/

namespace StridedArray

/-! ## Scalars that stand for integers -/

namespace Scalar

variable {x y : Scalar} {m n : Int}

theorem add_whole (left : x.whole? = some m) (right : y.whole? = some n) :
    x.add y = .ok (.int (m + n)) := by
  simp [add, combine, left, right, pure, Except.pure]

theorem multiply_whole (left : x.whole? = some m) (right : y.whole? = some n) :
    x.multiply y = .ok (.int (m * n)) := by
  simp [multiply, combine, left, right, pure, Except.pure]

theorem floorDivide_whole (left : x.whole? = some m) (right : y.whole? = some n) (nonzero : n ≠ 0) :
    x.floorDivide y = .ok (.int (m.fdiv n)) := by
  simp [floorDivide, combine, left, right, nonzero, pure, Except.pure]

theorem floorModulo_whole (left : x.whole? = some m) (right : y.whole? = some n) (nonzero : n ≠ 0) :
    x.floorModulo y = .ok (.int (m.fmod n)) := by
  simp [floorModulo, combine, left, right, nonzero, pure, Except.pure]

theorem compare?_whole (left : x.whole? = some m) (right : y.whole? = some n) :
    x.compare? y = some (compare m n) := by
  cases x <;> cases y <;> simp_all [whole?, compare?]

theorem less_whole (left : x.whole? = some m) (right : y.whole? = some n) :
    x.less y = decide (m < n) := by
  rw [less, compare?_whole left right, Bool.eq_iff_iff, beq_iff_eq, Option.some_inj,
    decide_eq_true_iff]
  exact Int.compare_eq_lt

theorem sameNumber_whole (left : x.whole? = some m) (right : y.whole? = some n) :
    x.sameNumber y = decide (m = n) := by
  rw [sameNumber, compare?_whole left right, Bool.eq_iff_iff, beq_iff_eq, Option.some_inj,
    decide_eq_true_iff]
  exact Int.compare_eq_eq

theorem within_whole {limit : Int} (known : x.whole? = some m) :
    x.within limit = (decide (0 ≤ m) && decide (m < limit)) := by
  rw [within, less_whole known rfl, less_whole known rfl, ← decide_not]
  simp only [Int.not_lt]

theorem toInt_whole (known : x.whole? = some m) : x.toInt = .ok m := by
  cases x with
  | bool b =>
    cases known
    rfl
  | int n =>
    cases known
    rfl
  | float x => cases known
  | nan negative fraction => cases known

theorem coerce_whole (known : x.whole? = some m) :
    Element.int32.coerce x = .ok (.int (wrap32 m)) := by
  rw [Element.coerce, toInt_whole known]
  rfl

theorem larger_negativeInfinity (n : Int) :
    (float Binary64.negativeInfinity).larger (int n) = int n := by
  have infinite : Binary64.parts Binary64.negativeInfinity = .infinite true := by decide
  have below : (float Binary64.negativeInfinity).less (int n) = true := by
    rw [less, compare?, Binary64.compareInt?, infinite]
    rfl
  rw [larger, if_pos below]

theorem larger_int (m n : Int) : (int m).larger (int n) = int (max m n) := by
  unfold larger
  rw [less_int]
  by_cases below : m < n
  · simp [below, max_eq_right (Int.le_of_lt below)]
  · simp [below, max_eq_left (Int.not_lt.1 below)]

end Scalar

namespace Expr

/-! ## Expressions of a position -/

def Foldable (e : Expr) : Prop := ∀ x d, e = const .int32 x d → ∃ n, x.whole? = some n

theorem Kinded.foldable {e : Expr} (kinded : e.Kinded) : e.Foldable := by
  rintro x d rfl
  obtain ⟨n, rfl, -⟩ := kinded
  exact ⟨n, rfl⟩

theorem foldable_of_value {e : Expr} {env : Environment} {buffers : Buffers} {position : Option Int}
    {x : Scalar} {m : Int} (known : e.valueAt env buffers position = .ok x) (whole : x.whole? = some m) :
    e.Foldable := by
  rintro y d rfl
  cases known
  exact ⟨m, whole⟩

/-- Is this node a constant, an operation on two operands or a choice? -/
def isPlain : Expr → Bool
  | const .. | binary .. | select .. => true
  | _ => false

/-- Expressions made of a position and of constants by operations that cannot fail: only constants
    divide. -/
inductive Arithmetic (i : Expr) : Expr → Prop
  | position : Arithmetic i i
  | number {n : Int} (word : Word n) : Arithmetic i (const .int32 (.int n))
  | truth (b : Bool) : Arithmetic i (const .bool (.bool b))
  | operation (op : BinaryOp) {a b : Expr} (total : op ≠ .idiv ∧ op ≠ .mod) (same : a.kind = b.kind)
      (takes : op.Takes a.kind) (whole : a.kind ≠ .float32) (left : Arithmetic i a)
      (right : Arithmetic i b) : Arithmetic i (binary op (op.resultKind a.kind) a b)
  | division {op : BinaryOp} {a : Expr} {n : Int} (divides : op = .idiv ∨ op = .mod) (positive : 0 < n)
      (word : Word n) (kind : a.kind = .int32) (left : Arithmetic i a) :
      Arithmetic i (binary op .int32 a (const .int32 (.int n)))
  | choice {c a b : Expr} (kind : c.kind = .bool) (same : b.kind = a.kind) (whole : a.kind ≠ .float32)
      (condition : Arithmetic i c) (left : Arithmetic i a) (right : Arithmetic i b) :
      Arithmetic i (select a.kind c a b)

namespace Arithmetic

variable {i e : Expr}

theorem every {P : Expr → Prop} (shape : Arithmetic i e) (position : Every P i)
    (added : ∀ node : Expr, node.Kinded → node.kind ≠ .float32 → node.isPlain = true → P node) :
    Every P e := by
  induction shape with
  | position => exact position
  | number word => exact every_const.2 (added _ ⟨_, rfl, word⟩ nofun rfl)
  | truth b => exact every_const.2 (added _ ⟨b, rfl⟩ nofun rfl)
  | @operation op a b total same takes whole left right leftEvery rightEvery =>
    refine every_binary.2 ⟨leftEvery, rightEvery, added _ ⟨same, takes, rfl⟩ ?_ rfl⟩
    cases op <;> first | exact whole | exact nofun
  | @division op a n divides positive word kind left leftEvery =>
    refine every_binary.2 ⟨leftEvery, every_const.2 (added _ ⟨_, rfl, word⟩ nofun rfl),
      added _ ⟨kind, ?_, ?_⟩ nofun rfl⟩
    · rcases divides with rfl | rfl <;> exact kind
    · rcases divides with rfl | rfl <;> exact kind.symm
  | choice kind same whole condition left right conditionEvery leftEvery rightEvery =>
    exact every_select.2 ⟨conditionEvery, leftEvery, rightEvery, added _ ⟨kind, rfl, same⟩ whole rfl⟩

theorem typed (shape : Arithmetic i e) (position : Typed i) : Typed e :=
  shape.every position fun _ kinded _ _ => kinded

theorem integral (shape : Arithmetic i e) (position : Integral i) : Integral e :=
  shape.every position fun _ _ whole _ => whole

theorem flat (shape : Arithmetic i e) (position : Flat i) : Flat e :=
  shape.every position fun _ _ _ plain _ _ _ _ same => by
    subst same
    cases plain

theorem scope {inside : Bool} (shape : Arithmetic i e) (position : Scoped inside i) :
    Scoped inside e := by
  induction shape with
  | position => exact position
  | number => exact scoped_const
  | truth => exact scoped_const
  | operation _ _ _ _ _ _ _ left right => exact scoped_binary.2 ⟨left, right⟩
  | division _ _ _ _ _ left => exact scoped_binary.2 ⟨left, scoped_const⟩
  | choice _ _ _ _ _ _ condition left right => exact scoped_select.2 ⟨condition, left, right⟩

theorem foldable (shape : Arithmetic i e) (position : i.Foldable) : e.Foldable := by
  cases shape with
  | position => exact position
  | number =>
    rintro x d ⟨⟩
    exact ⟨_, rfl⟩
  | _ => exact nofun

theorem int_value (shape : Arithmetic i e) (kind : e.kind = .int32) {env : Environment}
    {buffers : Buffers} {position : Option Int} {m : Int}
    (start : i.valueAt env buffers position = .ok (.int m)) {x : Scalar}
    (known : e.valueAt env buffers position = .ok x) : ∃ n, x = .int n := by
  induction shape with
  | position =>
    rw [start] at known
    exact ⟨m, (Except.ok.inj known).symm⟩
  | number =>
    cases known
    exact ⟨_, rfl⟩
  | truth => cases kind
  | @operation op a b =>
    simp only [valueAt, bind_eq_ok, applyBinary] at known
    obtain ⟨_, -, _, -, result, -, coerced⟩ := known
    rw [show op.resultKind a.kind = .int32 from kind, if_pos rfl] at coerced
    obtain ⟨n, rfl, -⟩ := Element.holds_coerce coerced
    exact ⟨n, rfl⟩
  | division =>
    simp only [valueAt, bind_eq_ok, applyBinary, if_true] at known
    obtain ⟨_, -, _, -, result, -, coerced⟩ := known
    obtain ⟨n, rfl, -⟩ := Element.holds_coerce coerced
    exact ⟨n, rfl⟩
  | choice _ same _ _ _ _ _ left right =>
    simp only [valueAt, bind_eq_ok] at known
    obtain ⟨_, -, known⟩ := known
    split at known
    · exact left kind known
    · exact right (same.trans kind) known

end Arithmetic

/-! ## Values -/

/-- The expression has the number `n` wherever the position has the number `m`. -/
structure Computes (i : Expr) (m : Int) (e : Expr) (n : Int) : Prop where
  kind : e.kind = .int32
  shape : Arithmetic i e
  word : Word n
  value : ∀ {env : Environment} {buffers : Buffers} {position : Option Int} {x : Scalar},
    i.valueAt env buffers position = .ok x → x.whole? = some m →
      ∃ y, e.valueAt env buffers position = .ok y ∧ y.whole? = some n

/-- The expression has the truth value `b` wherever the position has the number `m`. -/
structure Decides (i : Expr) (m : Int) (e : Expr) (b : Bool) : Prop where
  kind : e.kind = .bool
  shape : Arithmetic i e
  value : ∀ {env : Environment} {buffers : Buffers} {position : Option Int} {x : Scalar},
    i.valueAt env buffers position = .ok x → x.whole? = some m →
      e.valueAt env buffers position = .ok (.bool b)

variable {i a b c : Expr} {m p q : Int}

theorem computes_position (kind : i.kind = .int32) (word : Word m) : Computes i m i m where
  kind := kind
  shape := .position
  word := word
  value known whole := ⟨_, known, whole⟩

theorem computes_int32 (n : Int) : Computes i m (int32 n) (wrap32 n) where
  kind := rfl
  shape := .number (word_wrap32 n)
  word := word_wrap32 n
  value _ _ := ⟨_, rfl, rfl⟩

theorem decides_truth (b : Bool) : Decides i m (truth b) b where
  kind := rfl
  shape := .truth b
  value _ _ := rfl

theorem Computes.congr (computes : Computes i m a p) (same : p = q) : Computes i m a q :=
  same ▸ computes

/-! ## Two operands -/

theorem cast_same {kind : Element} (same : a.kind = kind) : cast kind a = .ok a := if_pos same

theorem combine_cases (op : BinaryOp) (left : a.kind = .int32) (right : b.kind = .int32) :
    combine op a b = .ok (.binary op (op.resultKind .int32) a b) ∨
      ∃ x d y d', a = const .int32 x d ∧ b = const .int32 y d' ∧
        combine op a b = op.apply .int32 x y >>= constant (op.resultKind .int32) := by
  unfold combine
  rw [left, right, Element.promote_self]
  dsimp only
  rw [cast_same left, ok_bind, cast_same right, ok_bind]
  split
  · next kind x d kind' y d' =>
    obtain rfl : kind = .int32 := left
    obtain rfl : kind' = .int32 := right
    exact .inr ⟨x, d, y, d', rfl, rfl, rfl⟩
  · exact .inl rfl

theorem combine_computes (op : BinaryOp) (f : Int → Int → Int) (legal : Int → Prop)
    (kind : op.resultKind .int32 = .int32)
    (apply : ∀ {x y : Scalar} {p q : Int}, x.whole? = some p → y.whole? = some q → legal q →
      op.apply .int32 x y = .ok (.int (f p q)))
    (foldable : i.Foldable) (left : Computes i m a p) (right : Computes i m b q) (allowed : legal q)
    (constants : ∀ {y d}, b = const .int32 y d → ∃ k, y.whole? = some k ∧ legal k)
    (shape : Arithmetic i (binary op .int32 a b)) :
    ∃ e, combine op a b = .ok e ∧ Computes i m e (wrap32 (f p q)) := by
  rcases combine_cases op left.kind right.kind with built | ⟨x, d, y, d', rfl, rfl, folded⟩
  · rw [kind] at built
    refine ⟨_, built, rfl, shape, word_wrap32 _, fun known whole => ?_⟩
    obtain ⟨x, first, wholeLeft⟩ := left.value known whole
    obtain ⟨y, second, wholeRight⟩ := right.value known whole
    refine ⟨.int (wrap32 (f p q)), ?_, rfl⟩
    rw [valueAt, first, ok_bind, second, ok_bind, applyBinary, left.kind,
      apply wholeLeft wholeRight allowed]
    rfl
  · obtain ⟨k, wholeLeft⟩ := left.shape.foldable foldable _ _ rfl
    obtain ⟨l, wholeRight, legal⟩ := constants rfl
    rw [kind, apply wholeLeft wholeRight legal] at folded
    refine ⟨int32 (f k l), folded, rfl, .number (word_wrap32 _), word_wrap32 _, fun known whole => ?_⟩
    -- At a point where the position has its number the constants are the operands.
    obtain ⟨_, ⟨⟩, operandLeft⟩ := left.value known whole
    obtain ⟨_, ⟨⟩, operandRight⟩ := right.value known whole
    rw [wholeLeft] at operandLeft
    rw [wholeRight] at operandRight
    cases operandLeft
    cases operandRight
    exact ⟨_, rfl, rfl⟩

theorem combine_decides (op : BinaryOp) (f : Int → Int → Bool) (kind : op.resultKind .int32 = .bool)
    (apply : ∀ {x y : Scalar} {p q : Int}, x.whole? = some p → y.whole? = some q →
      op.apply .int32 x y = .ok (.bool (f p q)))
    (foldable : i.Foldable) (left : Computes i m a p) (right : Computes i m b q)
    (shape : Arithmetic i (binary op .bool a b)) :
    ∃ e, combine op a b = .ok e ∧ Decides i m e (f p q) := by
  rcases combine_cases op left.kind right.kind with built | ⟨x, d, y, d', rfl, rfl, folded⟩
  · rw [kind] at built
    refine ⟨_, built, rfl, shape, fun known whole => ?_⟩
    obtain ⟨x, first, wholeLeft⟩ := left.value known whole
    obtain ⟨y, second, wholeRight⟩ := right.value known whole
    rw [valueAt, first, ok_bind, second, ok_bind, applyBinary, left.kind, apply wholeLeft wholeRight]
    rfl
  · obtain ⟨k, wholeLeft⟩ := left.shape.foldable foldable _ _ rfl
    obtain ⟨l, wholeRight⟩ := right.shape.foldable foldable _ _ rfl
    rw [kind, apply wholeLeft wholeRight] at folded
    refine ⟨truth (f k l), folded, rfl, .truth _, fun known whole => ?_⟩
    obtain ⟨_, ⟨⟩, operandLeft⟩ := left.value known whole
    obtain ⟨_, ⟨⟩, operandRight⟩ := right.value known whole
    rw [wholeLeft] at operandLeft
    rw [wholeRight] at operandRight
    cases operandLeft
    cases operandRight
    rfl

/-- What is recognised as the constant `k` has that value wherever the position has its number. -/
theorem Computes.eq_of_isConstant {k : Int} (computes : Computes i m a p)
    (constant : a.isConstant k = true) {env : Environment} {buffers : Buffers} {position : Option Int}
    {x : Scalar} (known : i.valueAt env buffers position = .ok x) (whole : x.whole? = some m) :
    p = k := by
  cases a with
  | const kind value d =>
    obtain rfl : kind = .int32 := computes.kind
    obtain ⟨_, ⟨⟩, number⟩ := computes.value known whole
    rw [isConstant, Scalar.sameNumber_whole number rfl] at constant
    exact of_decide_eq_true constant
  | _ => cases constant

theorem combine_computes_total {op : BinaryOp} (total : op = .add ∨ op = .mul) {f : Int → Int → Int}
    (apply : ∀ {x y : Scalar} {p q : Int}, x.whole? = some p → y.whole? = some q →
      op.apply .int32 x y = .ok (.int (f p q)))
    (foldable : i.Foldable) (left : Computes i m a p) (right : Computes i m b q) :
    ∃ e, combine op a b = .ok e ∧ Computes i m e (wrap32 (f p q)) := by
  have kind : op.resultKind .int32 = .int32 := by rcases total with rfl | rfl <;> rfl
  have shape : Arithmetic i (binary op (op.resultKind a.kind) a b) := by
    refine .operation op ?_ (left.kind.trans right.kind.symm) ?_ (by rw [left.kind]; exact nofun)
      left.shape right.shape
    · rcases total with rfl | rfl <;> exact ⟨nofun, nofun⟩
    · rcases total with rfl | rfl <;> trivial
  rw [left.kind, kind] at shape
  refine combine_computes op f (fun _ => True) kind
    (fun wholeLeft wholeRight _ => apply wholeLeft wholeRight) foldable left right trivial ?_ shape
  rintro y d rfl
  obtain ⟨k, whole⟩ := right.shape.foldable foldable _ _ rfl
  exact ⟨k, whole, trivial⟩

theorem add_computes (foldable : i.Foldable) (left : Computes i m a p) (right : Computes i m b q) :
    ∃ e, add a b = .ok e ∧ Computes i m e (wrap32 (p + q)) := by
  have common : Element.promote a.kind b.kind = .int32 := by rw [left.kind, right.kind]; rfl
  unfold add
  rw [common]
  dsimp only
  -- A neutral operand is dropped: the sum is the other operand, which is a word already.
  cases zeroLeft : a.isConstant 0 with
  | true =>
    refine ⟨b, cast_same right.kind, right.kind, right.shape, word_wrap32 _, fun known whole => ?_⟩
    rw [left.eq_of_isConstant zeroLeft known whole, Int.zero_add, right.word.wrap32_eq]
    exact right.value known whole
  | false =>
    cases zeroRight : b.isConstant 0 with
    | true =>
      refine ⟨a, cast_same left.kind, left.kind, left.shape, word_wrap32 _, fun known whole => ?_⟩
      rw [right.eq_of_isConstant zeroRight known whole, Int.add_zero, left.word.wrap32_eq]
      exact left.value known whole
    | false =>
      exact combine_computes_total (.inl rfl) Scalar.add_whole foldable left right

theorem mul_computes (foldable : i.Foldable) (left : Computes i m a p) (right : Computes i m b q) :
    ∃ e, mul a b = .ok e ∧ Computes i m e (wrap32 (p * q)) := by
  have common : Element.promote a.kind b.kind = .int32 := by rw [left.kind, right.kind]; rfl
  unfold mul
  rw [common]
  dsimp only
  cases oneLeft : a.isConstant 1 with
  | true =>
    refine ⟨b, cast_same right.kind, right.kind, right.shape, word_wrap32 _, fun known whole => ?_⟩
    rw [left.eq_of_isConstant oneLeft known whole, Int.one_mul, right.word.wrap32_eq]
    exact right.value known whole
  | false =>
    cases oneRight : b.isConstant 1 with
    | true =>
      refine ⟨a, cast_same left.kind, left.kind, left.shape, word_wrap32 _, fun known whole => ?_⟩
      rw [right.eq_of_isConstant oneRight known whole, Int.mul_one, left.word.wrap32_eq]
      exact left.value known whole
    | false =>
      cases zero : a.isConstant 0 || b.isConstant 0 with
      | true =>
        refine ⟨int32 0, rfl, rfl, .number (by decide), word_wrap32 _, fun known whole => ?_⟩
        -- One of the factors vanishes, so the product does.
        have product : p * q = 0 := by
          rcases (Bool.or_eq_true _ _).mp zero with zeroLeft | zeroRight
          · rw [left.eq_of_isConstant zeroLeft known whole, Int.zero_mul]
          · rw [right.eq_of_isConstant zeroRight known whole, Int.mul_zero]
        rw [product]
        exact ⟨_, rfl, rfl⟩
      | false =>
        exact combine_computes_total (.inr rfl) Scalar.multiply_whole foldable left right

theorem lift_int (whole : a.kind = .int32) (n : Int) : a.lift (.int n) = .ok (int32 n) := by
  unfold lift
  rw [whole]
  rfl

theorem mulScalar_computes (foldable : i.Foldable) (left : Computes i m a p) (k : Int) :
    ∃ e, mulScalar a (.int k) = .ok e ∧ Computes i m e (wrap32 (p * k)) := by
  obtain ⟨e, built, computes⟩ := mul_computes foldable left (computes_int32 k)
  refine ⟨e, by rw [mulScalar, lift_int left.kind, ok_bind, built], ?_⟩
  rwa [wrap32_eq_iff.2 ((wrap32_modEq k).mul_left p)] at computes

/-! ## Quotients and remainders -/

theorem isConstant_int32 {n k : Int} (word : Word n) : (int32 n).isConstant k = decide (n = k) := by
  rw [int32, isConstant, word.wrap32_eq, Scalar.sameNumber_whole rfl rfl]

theorem Word.fdiv {n : Int} (word : Word p) (positive : 0 < n) : Word (p.fdiv n) := by
  obtain ⟨low, high⟩ := word
  rw [Int.fdiv_eq_ediv_of_nonneg _ (Int.le_of_lt positive)]
  constructor
  · exact Int.le_ediv_of_mul_le positive (by omega)
  · exact Int.ediv_lt_of_lt_mul positive (by omega)

theorem Word.fmod {n : Int} (word : Word n) (positive : 0 < n) : Word (p.fmod n) := by
  have low := Int.fmod_nonneg_of_pos p positive
  have high := Int.fmod_lt_of_pos p positive
  obtain ⟨-, top⟩ := word
  exact ⟨by omega, by omega⟩

theorem division_computes {op : BinaryOp} (divides : op = .idiv ∨ op = .mod) {f : Int → Int → Int}
    (apply : ∀ {x y : Scalar} {p q : Int}, x.whole? = some p → y.whole? = some q → q ≠ 0 →
      op.apply .int32 x y = .ok (.int (f p q)))
    (foldable : i.Foldable) (left : Computes i m a p) {n : Int} (word : Word n) (positive : 0 < n)
    (result : Word (f p n)) : ∃ e, combine op a (int32 n) = .ok e ∧ Computes i m e (f p n) := by
  have right : Computes i m (int32 n) n := (computes_int32 n).congr word.wrap32_eq
  have shape : Arithmetic i (binary op .int32 a (int32 n)) := by
    rw [int32, word.wrap32_eq]
    exact .division divides positive word left.kind left.shape
  obtain ⟨e, built, computes⟩ := combine_computes op f (· ≠ 0)
    (by rcases divides with rfl | rfl <;> rfl) apply foldable left right (by omega)
    (fun same => by
      cases same
      exact ⟨_, rfl, by rw [word.wrap32_eq]; omega⟩) shape
  exact ⟨e, built, computes.congr result.wrap32_eq⟩

theorem requireWhole_ok {operation : String} (left : a.kind = .int32) (right : b.kind = .int32) :
    requireWhole operation a b = .ok () := by
  unfold requireWhole
  rw [left, right]
  rfl

theorem idivScalar_computes (foldable : i.Foldable) (left : Computes i m a p) {n : Int} (word : Word n)
    (positive : 0 < n) : ∃ e, idivScalar a (.int n) = .ok e ∧ Computes i m e (p.fdiv n) := by
  have result := Word.fdiv left.word positive
  rw [idivScalar, lift_int left.kind, ok_bind, idiv, requireWhole_ok left.kind rfl, ok_bind,
    isConstant_int32 word]
  by_cases one : n = 1
  · subst one
    refine ⟨a, rfl, left.congr ?_⟩
    rw [Int.fdiv_one]
  · rw [decide_eq_false one]
    exact division_computes (.inl rfl) Scalar.floorDivide_whole foldable left word positive result

theorem modScalar_computes (foldable : i.Foldable) (left : Computes i m a p) {n : Int} (word : Word n)
    (positive : 0 < n) : ∃ e, modScalar a (.int n) = .ok e ∧ Computes i m e (p.fmod n) := by
  have result := Word.fmod (p := p) word positive
  rw [modScalar, lift_int left.kind, ok_bind, mod, requireWhole_ok left.kind rfl, ok_bind,
    isConstant_int32 word]
  by_cases one : n = 1
  · subst one
    refine ⟨int32 0, rfl, (computes_int32 0).congr ?_⟩
    rw [Int.fmod_one]
    rfl
  · rw [decide_eq_false one]
    exact division_computes (.inr rfl) Scalar.floorModulo_whole foldable left word positive result

/-! ## Conditions -/

theorem cmplt_decides (foldable : i.Foldable) (left : Computes i m a p) (right : Computes i m b q) :
    ∃ e, cmplt a b = .ok e ∧ Decides i m e (decide (p < q)) := by
  refine combine_decides .cmplt (fun p q => decide (p < q)) rfl
    (fun wholeLeft wholeRight => ?_) foldable left right ?_
  · rw [BinaryOp.apply, Scalar.less_whole wholeLeft wholeRight]
    rfl
  · exact .operation .cmplt ⟨nofun, nofun⟩ (left.kind.trans right.kind.symm) trivial
      (by rw [left.kind]; exact nofun) left.shape right.shape

theorem cmpgt_decides (foldable : i.Foldable) (left : Computes i m a p) (right : Computes i m b q) :
    ∃ e, cmpgt a b = .ok e ∧ Decides i m e (decide (q < p)) := by
  refine combine_decides .cmpgt (fun p q => decide (q < p)) rfl
    (fun wholeLeft wholeRight => ?_) foldable left right ?_
  · rw [BinaryOp.apply, Scalar.less_whole wholeRight wholeLeft]
    rfl
  · exact .operation .cmpgt ⟨nofun, nofun⟩ (left.kind.trans right.kind.symm) trivial
      (by rw [left.kind]; exact nofun) left.shape right.shape

theorem Decides.eq_of_const {kind : Element} {x : Scalar} {d : Nat} {holds : Bool}
    (decides : Decides i m (const kind x d) holds) {env : Environment} {buffers : Buffers}
    {position : Option Int} {y : Scalar} (known : i.valueAt env buffers position = .ok y)
    (whole : y.whole? = some m) : x = .bool holds :=
  Except.ok.inj (decides.value known whole)

theorem both_decides {left right : Bool} (first : Decides i m a left) (second : Decides i m b right) :
    ∃ e, both a b = .ok e ∧ Decides i m e (left && right) := by
  unfold both
  rw [if_neg (by simp [first.kind, second.kind])]
  -- A constant operand decides, or leaves the other one.
  split
  · next x d =>
    cases holds : x.truthy with
    | true =>
      refine ⟨b, rfl, second.kind, second.shape, fun known whole => ?_⟩
      rw [second.value known whole]
      cases first.eq_of_const known whole
      rw [show left = true from holds, Bool.true_and]
    | false =>
      refine ⟨truth false, rfl, rfl, .truth _, fun known whole => ?_⟩
      cases first.eq_of_const known whole
      rw [show left = false from holds, Bool.false_and]
      rfl
  · next x d _ =>
    cases holds : x.truthy with
    | true =>
      refine ⟨a, rfl, first.kind, first.shape, fun known whole => ?_⟩
      rw [first.value known whole]
      cases second.eq_of_const known whole
      rw [show right = true from holds, Bool.and_true]
    | false =>
      refine ⟨truth false, rfl, rfl, .truth _, fun known whole => ?_⟩
      cases second.eq_of_const known whole
      rw [show right = false from holds, Bool.and_false]
      rfl
  · have shape := Arithmetic.operation .and ⟨nofun, nofun⟩
      (first.kind.trans second.kind.symm) first.kind (by rw [first.kind]; exact nofun) first.shape
      second.shape
    rw [show BinaryOp.and.resultKind a.kind = .bool from first.kind] at shape
    refine ⟨_, rfl, rfl, shape, fun known whole => ?_⟩
    rw [valueAt, first.value known whole, ok_bind, second.value known whole, ok_bind]
    cases left <;> rfl

/-! ## Choices -/

def chosen (c a b : Expr) : Expr :=
  match c with
  | const _ x _ => if x.truthy then a else b
  | _ => select b.kind c a b

theorem choose_eq (condition : c.kind = .bool) (same : a.kind = b.kind) :
    choose c a b = .ok (chosen c a b) := by
  unfold choose chosen
  rw [if_neg (not_not.2 condition), same, Element.promote_self]
  dsimp only
  rw [cast_same same, ok_bind, cast_same rfl, ok_bind]
  cases c <;> rfl

theorem kind_chosen (same : a.kind = b.kind) : (chosen c a b).kind = b.kind := by
  unfold chosen
  split
  · split
    · exact same
    · rfl
  · rfl

theorem every_chosen {P : Expr → Prop} (condition : Every P c) (left : Every P a) (right : Every P b)
    (choice : P (select b.kind c a b)) : Every P (chosen c a b) := by
  unfold chosen
  split
  · split
    · exact left
    · exact right
  · exact every_select.2 ⟨condition, left, right, choice⟩

theorem scoped_chosen {inside : Bool} (condition : Scoped inside c) (left : Scoped inside a)
    (right : Scoped inside b) : Scoped inside (chosen c a b) := by
  unfold chosen
  split
  · split
    · exact left
    · exact right
  · exact scoped_select.2 ⟨condition, left, right⟩

theorem valueAt_chosen {env : Environment} {buffers : Buffers} {position : Option Int} {holds : Bool}
    (condition : c.valueAt env buffers position = .ok (.bool holds)) :
    (chosen c a b).valueAt env buffers position
      = if holds then a.valueAt env buffers position else b.valueAt env buffers position := by
  unfold chosen
  split
  · cases condition
    cases holds <;> rfl
  · rw [valueAt, condition]
    rfl

theorem Arithmetic.chosen (condition : Arithmetic i c) (left : Arithmetic i a) (right : Arithmetic i b)
    (truth : c.kind = .bool) (same : a.kind = b.kind) (whole : b.kind ≠ .float32) :
    Arithmetic i (Expr.chosen c a b) := by
  unfold Expr.chosen
  split
  · split
    · exact left
    · exact right
  · rw [← same] at whole ⊢
    exact .choice truth same.symm whole condition left right

theorem choose_computes {holds : Bool} (condition : Decides i m c holds) (left : Computes i m a p)
    (right : Computes i m b q) :
    ∃ e, choose c a b = .ok e ∧ Computes i m e (if holds then p else q) := by
  have same : a.kind = b.kind := left.kind.trans right.kind.symm
  have whole : b.kind ≠ .float32 := by
    rw [right.kind]
    exact nofun
  refine ⟨_, choose_eq condition.kind same, (kind_chosen same).trans right.kind,
    condition.shape.chosen left.shape right.shape condition.kind same whole, ?_, fun known number => ?_⟩
  · split
    · exact left.word
    · exact right.word
  · rw [valueAt_chosen (condition.value known number)]
    cases holds with
    | true => exact left.value known number
    | false => exact right.value known number

end Expr

end StridedArray
