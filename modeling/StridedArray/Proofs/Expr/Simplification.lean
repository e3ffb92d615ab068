import StridedArray.Proofs.Expr.Computed
import StridedArray.Proofs.Expr.Threading

/-! # Simplifying constructors mean what they build

The constructors carry out operations on constants and drop neutral operands. On numbers and truth values whatever
they build has the value that the operation has on the values of its operands, and fails where that divides by zero.
Operands are evaluated in turn: an operand finds the reduction index as the one before it has left it.

* `BinaryOp.reference`, `BinaryOp.apply_reference` — what operations make of two numbers;
* `Expr.Gives`, `Expr.Yields` — operands with their numbers, and what is built with its result;
* `combine_yields`, `add_yields` and their neighbours — the constructors one by one;
* `division_gives` — quotients and remainders by constants as operands of what is built next;
* `Construction`, `Construction.Means`, `construction_sound` — all of them. -/

namespace StridedArray

/-! ## Operations on two numbers -/

namespace BinaryOp

/-- What an operation makes of two numbers of a kind. Nothing is divided by zero. -/
def reference (kind : Element) (m n : Int) (op : BinaryOp) : Except Failure Int :=
  if (op = idiv ∨ op = mod) ∧ n = 0 then throw .divisionByZero else pure (op.outcome kind m n)

variable {op : BinaryOp} {kind : Element} {m n : Int}

theorem reference_total (total : ¬ (op = idiv ∨ op = mod)) : op.reference kind m n = .ok (op.outcome kind m n) :=
  if_neg fun fails => total fails.1

theorem reference_nonzero (nonzero : n ≠ 0) : op.reference kind m n = .ok (op.outcome kind m n) :=
  if_neg fun fails => nonzero fails.2

theorem eq_divisionByZero {f : Failure} (fails : op.reference kind m n = .error f) : f = .divisionByZero := by
  unfold reference at fails
  split at fails
  · exact (Except.error.inj fails).symm
  · cases fails

/-- The operation on elements of a kind, as a value and as a constant. -/
theorem apply_reference (takes : op.Takes kind) (whole : kind ≠ .float32) (left : kind.Fits m) (right : kind.Fits n) :
    Expr.applyBinary op (op.resultKind kind) kind (kind.number m) (kind.number n)
        = (fun k => (op.resultKind kind).number k) <$> op.reference kind m n
      ∧ (op.apply kind (kind.number m) (kind.number n) >>= Expr.constant (op.resultKind kind))
        = (fun k => Expr.const (op.resultKind kind) ((op.resultKind kind).number k)) <$> op.reference kind m n := by
  by_cases elementwise : op.Elementwise
  · obtain ⟨-, value, folded⟩ := apply_number elementwise whole left right
    rw [value, folded, reference_total (by rintro (rfl | rfl) <;> exact elementwise)]
    exact ⟨rfl, rfl⟩
  cases op with
  | idiv =>
    obtain rfl : kind = .int32 := takes
    by_cases zero : n = 0
    · subst zero
      exact ⟨rfl, rfl⟩
    · have value := Scalar.floorDivide_whole (x := .int m) (y := .int n) rfl rfl zero
      simp only [reference, zero, and_false, if_false, Expr.applyBinary, apply, Element.number, value]
      exact ⟨rfl, rfl⟩
  | mod =>
    obtain rfl : kind = .int32 := takes
    by_cases zero : n = 0
    · subst zero
      exact ⟨rfl, rfl⟩
    · have value := Scalar.floorModulo_whole (x := .int m) (y := .int n) rfl rfl zero
      simp only [reference, zero, and_false, if_false, Expr.applyBinary, apply, Element.number, value]
      exact ⟨rfl, rfl⟩
  | and =>
    obtain rfl : kind = .bool := takes
    rcases left with rfl | rfl <;> rcases right with rfl | rfl <;> exact ⟨rfl, rfl⟩
  | _ => exact absurd trivial elementwise

def build : BinaryOp → Expr → Expr → Except Failure Expr
  | add => Expr.add
  | mul => Expr.mul
  | idiv => Expr.idiv
  | mod => Expr.mod
  | max => Expr.max
  | cmplt => Expr.cmplt
  | cmpgt => Expr.cmpgt
  | and => Expr.both

def Accepts (left right : Element) : BinaryOp → Prop
  | idiv | mod => left = .int32 ∧ right = .int32
  | and => left = .bool ∧ right = .bool
  | _ => True

end BinaryOp

namespace Expr

variable {env : Environment} {buffers : Buffers} {position between after : Option Int} {kind other : Element}
  {a b c e : Expr} {m n : Int} {result : Except Failure Int}

/-! ## Operands -/

/-- An operand has a number as its value, and leaves the reduction index bound like this. -/
structure Gives (env : Environment) (buffers : Buffers) (e : Expr) (position after : Option Int) (n : Int) : Prop where
  whole : e.kind ≠ .float32
  fits : e.kind.Fits n
  value : e.evaluateFrom env buffers position = .ok (e.kind.number n, after)

theorem Gives.of_const {x : Scalar} {d : Nat} (gives : Gives env buffers (const kind x d) position after n) :
    x = kind.number n ∧ kind.Fits n ∧ after = position := by
  have value := gives.value
  rw [evaluateFrom, pure_eq_ok, Prod.mk.injEq] at value
  exact ⟨value.1, gives.fits, value.2.symm⟩

theorem Gives.of_isConstant {k : Int} (gives : Gives env buffers e position after n) (known : e.isConstant k = true) :
    n = k ∧ after = position := by
  cases e with
  | const kind x d =>
    obtain ⟨rfl, fits, rfl⟩ := gives.of_const
    have number : (kind.number n).sameNumber (.int k) = true := known
    rw [Scalar.sameNumber_whole (Element.whole?_number fits) rfl, decide_eq_true_iff] at number
    exact ⟨number, rfl⟩
  | _ => cases known

theorem gives_const (fits : kind.Fits n) (whole : kind ≠ .float32) {d : Nat} :
    Gives env buffers (const kind (kind.number n) d) position position n :=
  ⟨whole, fits, rfl⟩

theorem gives_int32 (word : Word n) : Gives env buffers (int32 n) position position n := by
  rw [int32, word.wrap32_eq]
  exact @gives_const env buffers position .int32 n word (by decide) 0

theorem Gives.word (gives : Gives env buffers a position after n) (whole : a.kind = .int32) : Word n :=
  (whole ▸ gives.fits : Element.int32.Fits n)

theorem gives_iff_of_int32 (whole : e.kind = .int32) :
    Gives env buffers e position after n ↔ Word n ∧ e.evaluateFrom env buffers position = .ok (.int n, after) := by
  constructor
  · intro gives
    have value := gives.value
    rw [whole] at value
    exact ⟨gives.word whole, value⟩
  · rintro ⟨word, value⟩
    constructor
    · rw [whole]
      decide
    · rw [whole]
      exact word
    · rw [whole]
      exact value

theorem Gives.cast (gives : Gives env buffers a position after n) (whole : kind ≠ .float32) :
    ∃ e, cast kind a = .ok e ∧ e.kind = kind ∧ Gives env buffers e position after (kind.image n) := by
  unfold Expr.cast
  by_cases same : a.kind = kind
  · rw [if_pos same]
    subst same
    rw [gives.fits.image_eq whole]
    exact ⟨a, rfl, rfl, gives⟩
  rw [if_neg same]
  have node : Gives env buffers (.unary .cast kind a) position after (kind.image n) := by
    refine ⟨whole, kind.fits_image n, evaluateFrom_unary_eq_ok.2 ⟨_, gives.value, ?_⟩⟩
    exact Element.coerce_number gives.fits whole
  cases a with
  | const given x d =>
    obtain ⟨rfl, fits, rfl⟩ := gives.of_const
    refine ⟨.const kind (kind.number (kind.image n)), ?_, rfl, gives_const (kind.fits_image n) whole⟩
    show (do return Expr.const kind (← kind.coerce (given.number n))) = _
    rw [Element.coerce_number fits whole]
    rfl
  | _ => exact ⟨_, rfl, rfl, node⟩

theorem Gives.promote (gives : Gives env buffers a position after n) (whole : other ≠ .float32) :
    ∃ e, Expr.cast (a.kind.promote other) a = .ok e ∧ e.kind = a.kind.promote other
      ∧ Gives env buffers e position after n := by
  have common := Element.promote_whole gives.whole whole
  obtain ⟨e, built, same, image⟩ := gives.cast common
  rw [(gives.fits.promote other).image_eq common] at image
  exact ⟨e, built, same, image⟩

/-- Expressions that constructors combine here: of numbers or truth values, and with no maximum over nothing or over
    more positions than 32-bit integers can count. -/
structure Numeric (e : Expr) : Prop where
  typed : Typed e
  integral : e.kind ≠ .float32
  peaked : Peaked e
  few : Countable e

def HasNumber (e : Expr) (env : Environment) (buffers : Buffers) (n : Int) : Prop :=
  ∃ x, e.evaluate env buffers = .ok x ∧ x.whole? = some n

def Follows (env : Environment) (buffers : Buffers) (a b : Expr) : Prop :=
  ∀ y between, a.evaluateFrom env buffers (env reductionIndex) = .ok (y, between) →
    ∃ value, b.evaluateFrom env buffers between = .ok value

theorem gives_of_evaluateFrom {x : Scalar} (numeric : Numeric e) (words : ∀ name n, env name = some n → Word n)
    (word : ∀ n ∈ position, Word n) (known : e.evaluateFrom env buffers position = .ok (x, after))
    (number : x.whole? = some n) : Gives env buffers e position after n := by
  have holds := holds_evaluateFrom numeric.typed numeric.integral numeric.peaked numeric.few words word known
  obtain ⟨k, rfl, fits⟩ := holds.eq_number numeric.integral
  obtain rfl : k = n := Option.some.inj ((Element.whole?_number fits).symm.trans number)
  exact ⟨numeric.integral, fits, known⟩

theorem HasNumber.gives (has : e.HasNumber env buffers n) (numeric : Numeric e)
    (words : ∀ name n, env name = some n → Word n) :
    ∃ after, Gives env buffers e (env reductionIndex) after n := by
  obtain ⟨x, known, number⟩ := has
  obtain ⟨after, value⟩ := evaluate_eq_ok.1 known
  exact ⟨after, gives_of_evaluateFrom numeric words (words _) value number⟩

theorem HasNumber.follows (has : b.HasNumber env buffers n) (numeric : Numeric b)
    (words : ∀ name n, env name = some n → Word n) (first : Gives env buffers a (env reductionIndex) between m)
    (follows : Follows env buffers a b) : ∃ after, Gives env buffers b between after n := by
  obtain ⟨x, known, number⟩ := has
  obtain ⟨_, alone⟩ := evaluate_eq_ok.1 known
  obtain ⟨⟨y, after⟩, value⟩ := follows _ _ first.value
  obtain rfl := evaluateFrom_later first.value alone value
  have word : ∀ k ∈ between, Word k := by
    rcases after_evaluateFrom first.value with rfl | rfl
    · exact words _
    · exact nofun
  exact ⟨after, gives_of_evaluateFrom numeric words word value number⟩

/-! ## Results -/

/-- What is built is of the kind and has the result as its value, or fails like it. Nothing is built only where there
    is no result because of a division by zero. -/
def Yields (env : Environment) (buffers : Buffers) (position : Option Int) (kind : Element)
    (built : Except Failure Expr) (result : Except Failure Int) : Prop :=
  (∃ e, built = .ok e ∧ e.kind = kind
    ∧ Prod.fst <$> e.evaluateFrom env buffers position = (fun n => kind.number n) <$> result)
  ∨ built = .error .divisionByZero ∧ result = .error .divisionByZero

theorem Gives.yields (gives : Gives env buffers e position after n) (same : e.kind = kind) (equal : result = .ok n) :
    Yields env buffers position kind (.ok e) result := by
  subst same equal
  exact .inl ⟨e, rfl, rfl, by rw [gives.value]; rfl⟩

theorem Yields.gives {built : Except Failure Expr} (yields : Yields env buffers position kind built (.ok n))
    (whole : kind ≠ .float32) (fits : kind.Fits n) :
    ∃ e, built = .ok e ∧ e.kind = kind ∧ ∃ after, Gives env buffers e position after n := by
  rcases yields with ⟨e, rfl, rfl, value⟩ | ⟨-, ⟨⟩⟩
  obtain ⟨⟨x, after⟩, known, rfl⟩ := map_eq_ok.1 value
  exact ⟨e, rfl, rfl, after, whole, fits, known⟩

/-- An operation, or the constant that it makes of constants. -/
theorem combine_yields {op : BinaryOp} (takes : op.Takes (a.kind.promote b.kind))
    (left : Gives env buffers a position between m) (right : Gives env buffers b between after n) :
    Yields env buffers position (op.resultKind (a.kind.promote b.kind)) (combine op a b)
      (op.reference (a.kind.promote b.kind) m n) := by
  obtain ⟨x, first, kindLeft, inCommon⟩ := left.promote right.whole
  obtain ⟨y, second, kindRight, others⟩ := right.promote left.whole
  rw [Element.promote_comm] at second kindRight
  have common := Element.promote_whole left.whole right.whole
  have fitsLeft := kindLeft ▸ inCommon.fits
  have fitsRight := kindRight ▸ others.fits
  obtain ⟨value, folded⟩ := BinaryOp.apply_reference takes common fitsLeft fitsRight
  rcases @combine_promoted a b op x y first second with ⟨k, _, _, k', _, _, rfl, rfl, made⟩ | made
  · obtain ⟨rfl, -, -⟩ := inCommon.of_const
    obtain ⟨rfl, -, -⟩ := others.of_const
    rw [show k = _ from kindLeft, show k' = _ from kindRight, folded] at made
    rw [made]
    cases outcome : op.reference (a.kind.promote b.kind) m n with
    | ok v => exact .inl ⟨_, rfl, rfl, rfl⟩
    | error f =>
      obtain rfl := BinaryOp.eq_divisionByZero outcome
      exact .inr ⟨rfl, rfl⟩
  · refine .inl ⟨_, made, rfl, ?_⟩
    rw [evaluateFrom, inCommon.value, ok_bind]
    dsimp only
    rw [others.value, ok_bind]
    dsimp only
    rw [kindLeft, kindRight, value]
    cases op.reference (a.kind.promote b.kind) m n <;> rfl

/-! ## The constructors -/

theorem neutralLeft_yields {op : BinaryOp} {k : Int} (left : Gives env buffers a position between m)
    (right : Gives env buffers b between after n) (constant : a.isConstant k = true)
    (neutral : ∀ {n}, (a.kind.promote b.kind).Fits n → op.outcome (a.kind.promote b.kind) k n = n) :
    Yields env buffers position (a.kind.promote b.kind) (Expr.cast (a.kind.promote b.kind) b)
      (.ok (op.outcome (a.kind.promote b.kind) m n)) := by
  obtain ⟨rfl, rfl⟩ := left.of_isConstant constant
  obtain ⟨e, built, same, gives⟩ := right.promote left.whole
  rw [Element.promote_comm] at built same
  rw [built]
  exact gives.yields same (congrArg Except.ok (neutral (same ▸ gives.fits)))

theorem neutralRight_yields {op : BinaryOp} {k : Int} (left : Gives env buffers a position between m)
    (right : Gives env buffers b between after n) (constant : b.isConstant k = true)
    (neutral : ∀ {m}, (a.kind.promote b.kind).Fits m → op.outcome (a.kind.promote b.kind) m k = m) :
    Yields env buffers position (a.kind.promote b.kind) (Expr.cast (a.kind.promote b.kind) a)
      (.ok (op.outcome (a.kind.promote b.kind) m n)) := by
  obtain ⟨rfl, rfl⟩ := right.of_isConstant constant
  obtain ⟨e, built, same, gives⟩ := left.promote right.whole
  rw [built]
  exact gives.yields same (congrArg Except.ok (neutral (same ▸ gives.fits)))

theorem add_yields (left : Gives env buffers a position between m) (right : Gives env buffers b between after n) :
    Yields env buffers position (a.kind.promote b.kind) (a.add b)
      (BinaryOp.add.reference (a.kind.promote b.kind) m n) := by
  have common := Element.promote_whole left.whole right.whole
  have combined := @combine_yields _ _ _ _ _ _ _ _ _ .add trivial left right
  rw [BinaryOp.reference_total (by decide)] at combined ⊢
  unfold Expr.add
  dsimp only
  by_cases zeroLeft : a.isConstant 0 = true
  · rw [if_pos zeroLeft]
    exact neutralLeft_yields left right zeroLeft fun fits => (outcome_add_zero fits common).1
  rw [if_neg zeroLeft]
  by_cases zeroRight : b.isConstant 0 = true
  · rw [if_pos zeroRight]
    exact neutralRight_yields left right zeroRight fun fits => (outcome_add_zero fits common).2
  · rwa [if_neg zeroRight]

theorem mul_yields (left : Gives env buffers a position between m) (right : Gives env buffers b between after n) :
    Yields env buffers position (a.kind.promote b.kind) (a.mul b)
      (BinaryOp.mul.reference (a.kind.promote b.kind) m n) := by
  have common := Element.promote_whole left.whole right.whole
  have combined := @combine_yields _ _ _ _ _ _ _ _ _ .mul trivial left right
  rw [BinaryOp.reference_total (by decide)] at combined ⊢
  unfold Expr.mul
  dsimp only
  by_cases oneLeft : a.isConstant 1 = true
  · rw [if_pos oneLeft]
    exact neutralLeft_yields left right oneLeft fun fits => (outcome_mul_one fits common).1
  rw [if_neg oneLeft]
  by_cases oneRight : b.isConstant 1 = true
  · rw [if_pos oneRight]
    exact neutralRight_yields left right oneRight fun fits => (outcome_mul_one fits common).2
  rw [if_neg oneRight]
  by_cases nothing : (a.kind.promote b.kind = .int32 && (a.isConstant 0 || b.isConstant 0)) = true
  -- A product with zero is zero, and nothing is evaluated for it any more.
  · rw [if_pos nothing]
    simp only [Bool.and_eq_true, decide_eq_true_eq, Bool.or_eq_true] at nothing
    obtain ⟨whole, zero⟩ := nothing
    rw [whole]
    have product : m * n = 0 := by
      rcases zero with zero | zero
      · rw [(left.of_isConstant zero).1, Int.zero_mul]
      · rw [(right.of_isConstant zero).1, Int.mul_zero]
    have none : Gives env buffers (int32 0) position position 0 := gives_int32 (by decide)
    refine none.yields rfl (congrArg Except.ok ?_)
    show wrap32 (m * n) = 0
    rw [product]
    rfl
  · rwa [if_neg nothing]

theorem idiv_yields (wholeLeft : a.kind = .int32) (wholeRight : b.kind = .int32)
    (left : Gives env buffers a position between m) (right : Gives env buffers b between after n) :
    Yields env buffers position (a.kind.promote b.kind) (a.idiv b)
      (BinaryOp.idiv.reference (a.kind.promote b.kind) m n) := by
  have common : a.kind.promote b.kind = .int32 := by
    rw [wholeLeft, wholeRight]
    rfl
  unfold Expr.idiv
  rw [requireWhole_ok wholeLeft wholeRight, ok_bind]
  by_cases one : b.isConstant 1 = true
  · rw [if_pos one]
    obtain ⟨rfl, rfl⟩ := right.of_isConstant one
    have word := left.word wholeLeft
    refine left.yields (wholeLeft.trans common.symm) (congrArg Except.ok ?_)
    show wrap32 (m.fdiv 1) = m
    rw [Int.fdiv_one, word.wrap32_eq]
  · rw [if_neg one]
    exact @combine_yields _ _ _ _ _ _ _ _ _ .idiv common left right

theorem mod_yields (wholeLeft : a.kind = .int32) (wholeRight : b.kind = .int32)
    (left : Gives env buffers a position between m) (right : Gives env buffers b between after n) :
    Yields env buffers position (a.kind.promote b.kind) (a.mod b)
      (BinaryOp.mod.reference (a.kind.promote b.kind) m n) := by
  have common : a.kind.promote b.kind = .int32 := by
    rw [wholeLeft, wholeRight]
    rfl
  unfold Expr.mod
  rw [requireWhole_ok wholeLeft wholeRight, ok_bind]
  by_cases one : b.isConstant 1 = true
  · rw [if_pos one]
    obtain ⟨rfl, rfl⟩ := right.of_isConstant one
    have none : Gives env buffers (int32 0) position position 0 := gives_int32 (by decide)
    refine none.yields common.symm (congrArg Except.ok ?_)
    show wrap32 (m.fmod 1) = 0
    rw [Int.fmod_one]
    rfl
  · rw [if_neg one]
    exact @combine_yields _ _ _ _ _ _ _ _ _ .mod common left right

/-- Of two conditions one that is constant decides, or leaves it to the other one. -/
theorem both_yields (conditionLeft : a.kind = .bool) (conditionRight : b.kind = .bool)
    (left : Gives env buffers a position between m) (right : Gives env buffers b between after n) :
    Yields env buffers position (a.kind.promote b.kind) (a.both b)
      (BinaryOp.and.reference (a.kind.promote b.kind) m n) := by
  have common : a.kind.promote b.kind = .bool := by
    rw [conditionLeft, conditionRight]
    rfl
  have truthLeft : Element.bool.Fits m := conditionLeft ▸ left.fits
  have truthRight : Element.bool.Fits n := conditionRight ▸ right.fits
  have never : Gives env buffers (truth false) position position 0 := ⟨nofun, .inl rfl, rfl⟩
  rw [common, BinaryOp.reference_total (by decide)]
  unfold Expr.both
  rw [if_neg (by simp [conditionLeft, conditionRight])]
  split
  · obtain ⟨rfl, -, rfl⟩ := left.of_const
    rw [Element.truthy_number]
    rcases truthLeft with rfl | rfl
    · exact never.yields rfl rfl
    · refine right.yields conditionRight (congrArg Except.ok ?_)
      rcases truthRight with rfl | rfl <;> rfl
  · obtain ⟨rfl, -, rfl⟩ := right.of_const
    rw [Element.truthy_number]
    rcases truthRight with rfl | rfl
    · refine never.yields rfl (congrArg Except.ok ?_)
      rcases truthLeft with rfl | rfl <;> rfl
    · refine left.yields conditionLeft (congrArg Except.ok ?_)
      rcases truthLeft with rfl | rfl <;> rfl
  · refine .inl ⟨_, rfl, rfl, ?_⟩
    rw [evaluateFrom, left.value, ok_bind]
    dsimp only
    rw [right.value, ok_bind, conditionLeft, conditionRight]
    rcases truthLeft with rfl | rfl <;> rcases truthRight with rfl | rfl <;> rfl

theorem build_yields {op : BinaryOp} (accepts : op.Accepts a.kind b.kind)
    (left : Gives env buffers a position between m) (right : Gives env buffers b between after n) :
    Yields env buffers position (op.resultKind (a.kind.promote b.kind)) (op.build a b)
      (op.reference (a.kind.promote b.kind) m n) := by
  cases op with
  | add => exact add_yields left right
  | mul => exact mul_yields left right
  | idiv => exact idiv_yields accepts.1 accepts.2 left right
  | mod => exact mod_yields accepts.1 accepts.2 left right
  | max => exact combine_yields trivial left right
  | cmplt => exact combine_yields trivial left right
  | cmpgt => exact combine_yields trivial left right
  | and => exact both_yields accepts.1 accepts.2 left right

/-- A quotient or remainder by a constant, where that is a 32-bit integer. -/
theorem division_gives {op : BinaryOp} {k : Int} (divides : op = .idiv ∨ op = .mod) (whole : a.kind = .int32)
    (gives : Gives env buffers a position after m) (divisor : Word k) (nonzero : k ≠ 0)
    (outcome : op.outcome .int32 m k = n) (result : Word n) :
    ∃ e, op.build a (int32 k) = .ok e ∧ e.kind = .int32 ∧ ∃ after, Gives env buffers e position after n := by
  have accepts : op.Accepts a.kind .int32 := by
    rw [whole]
    rcases divides with rfl | rfl <;> exact ⟨rfl, rfl⟩
  have kind : op.resultKind (a.kind.promote .int32) = .int32 := by
    rw [whole]
    rcases divides with rfl | rfl <;> rfl
  have yields := build_yields accepts gives (gives_int32 divisor)
  rw [BinaryOp.reference_nonzero nonzero] at yields
  change Yields _ _ _ (op.resultKind (a.kind.promote .int32)) _ (.ok (op.outcome (a.kind.promote .int32) m k)) at yields
  rw [kind, whole, Element.promote_self, outcome] at yields
  exact yields.gives nofun result

theorem build_refused {op : BinaryOp} (refuses : ¬ op.Accepts a.kind b.kind) :
    ∃ fault, op.build a b = .error (.kind fault) := by
  have refused : ∀ {kind : Element}, ¬ (a.kind = kind ∧ b.kind = kind) →
      (decide (a.kind ≠ kind) || decide (b.kind ≠ kind)) = true := fun other => by
    simpa using not_and_or.1 other
  cases op with
  | idiv =>
    refine ⟨.wholeOperands "idiv" a.kind b.kind, ?_⟩
    show (requireWhole "idiv" a b >>= _) = _
    rw [requireWhole, if_pos (refused refuses)]
    rfl
  | mod =>
    refine ⟨.wholeOperands "mod" a.kind b.kind, ?_⟩
    show (requireWhole "mod" a b >>= _) = _
    rw [requireWhole, if_pos (refused refuses)]
    rfl
  | and => exact ⟨_, if_pos (refused refuses)⟩
  | _ => exact absurd trivial refuses

theorem neg_yields (whole : a.kind = .int32) (operand : Gives env buffers a position after m) :
    Yields env buffers position a.kind a.neg (.ok (a.kind.image (-m))) := by
  unfold Expr.neg
  rw [whole, if_neg (by decide)]
  cases a with
  | const given x d =>
    obtain rfl : given = .int32 := whole
    obtain ⟨rfl, -, rfl⟩ := operand.of_const
    have opposite : Gives env buffers (const .int32 (.int (wrap32 (-m)))) after after (wrap32 (-m)) :=
      ⟨nofun, word_wrap32 (-m), rfl⟩
    exact opposite.yields rfl rfl
  | _ =>
    refine .inl ⟨_, rfl, rfl, ?_⟩
    rw [evaluateFrom, operand.value, ok_bind, whole]
    rfl

theorem cast_yields (operand : Gives env buffers a position after m) (whole : kind ≠ .float32) :
    Yields env buffers position kind (a.cast kind) (.ok (kind.image m)) := by
  obtain ⟨e, built, same, image⟩ := operand.cast whole
  rw [built]
  exact image.yields same rfl

/-- A constant condition decides while the choice is built, any other one when it is evaluated. -/
theorem choose_yields {t : Int} {left right : Option Int} (truth : c.kind = .bool)
    (condition : Gives env buffers c position between t) (first : Gives env buffers a between left m)
    (second : Gives env buffers b between right n) :
    Yields env buffers position (a.kind.promote b.kind) (Expr.choose c a b) (.ok (if t ≠ 0 then m else n)) := by
  obtain ⟨x, castFirst, kindFirst, inCommon⟩ := first.promote second.whole
  obtain ⟨y, castSecond, kindSecond, others⟩ := second.promote first.whole
  rw [Element.promote_comm] at castSecond kindSecond
  unfold Expr.choose
  rw [if_neg (not_not.2 truth)]
  dsimp only
  rw [castFirst, castSecond]
  cases c with
  | const given value d =>
    obtain ⟨rfl, -, rfl⟩ := condition.of_const
    show Yields _ _ _ _ (pure (if (given.number t).truthy then x else y)) _
    rw [Element.truthy_number]
    by_cases fails : t = 0
    · subst fails
      exact others.yields kindSecond rfl
    · rw [decide_eq_true fails, if_pos rfl, if_pos fails]
      exact inCommon.yields kindFirst rfl
  | _ =>
    refine .inl ⟨_, rfl, rfl, ?_⟩
    rw [evaluateFrom, condition.value, ok_bind]
    dsimp only
    rw [Element.truthy_number]
    by_cases fails : t = 0
    · subst fails
      exact congrArg (Prod.fst <$> ·) (others.value.trans (by rw [kindSecond]))
    · rw [decide_eq_true fails, if_pos rfl, if_pos fails, inCommon.value, kindFirst]
      rfl

end Expr

/-! ## All constructors -/

inductive Construction where
  | neg (a : Expr)
  | cast (kind : Element) (a : Expr)
  | binary (op : BinaryOp) (a b : Expr)
  | choose (c a b : Expr)

namespace Construction

def operands : Construction → List Expr
  | neg a | cast _ a => [a]
  | binary _ a b => [a, b]
  | choose c a b => [c, a, b]

def build : Construction → Except Failure Expr
  | neg a => a.neg
  | cast kind a => a.cast kind
  | binary op a b => op.build a b
  | choose c a b => Expr.choose c a b

def kind : Construction → Element
  | neg a => a.kind
  | cast kind _ => kind
  | binary op a b => op.resultKind (a.kind.promote b.kind)
  | choose _ a b => a.kind.promote b.kind

def Accepted : Construction → Prop
  | neg a => a.kind ≠ .bool
  | cast .. => True
  | binary op a b => op.Accepts a.kind b.kind
  | choose c _ _ => c.kind = .bool

/-- What it means: the operands have numbers, and this is the result for them. -/
inductive Means (env : Environment) (buffers : Buffers) : Construction → Except Failure Int → Prop
  | neg {a : Expr} {m : Int} (operand : a.HasNumber env buffers m) :
      Means env buffers (neg a) (.ok (a.kind.image (-m)))
  | cast {kind : Element} {a : Expr} {m : Int} (operand : a.HasNumber env buffers m) :
      Means env buffers (cast kind a) (.ok (kind.image m))
  | binary {op : BinaryOp} {a b : Expr} {m n : Int} (left : a.HasNumber env buffers m)
      (right : b.HasNumber env buffers n) :
      Means env buffers (binary op a b) (op.reference (a.kind.promote b.kind) m n)
  | choose {c a b : Expr} {t m n : Int} (condition : c.HasNumber env buffers t) (left : a.HasNumber env buffers m)
      (right : b.HasNumber env buffers n) :
      Means env buffers (choose c a b) (.ok (if t ≠ 0 then m else n))

/-- What can be evaluated can be so after the operand before it, too. It cannot where it needs the binding of the
    reduction index, which a reduction before it takes away instead of putting it back. -/
def InTurn (env : Environment) (buffers : Buffers) : Construction → Prop
  | neg _ | cast _ _ => True
  | binary _ a b => Expr.Follows env buffers a b
  | choose c a b => Expr.Follows env buffers c a ∧ Expr.Follows env buffers c b

variable {env : Environment} {buffers : Buffers} {c : Construction} {result : Except Failure Int}

theorem build_refused (refused : ¬ c.Accepted) : ∃ fault, c.build = .error (.kind fault) := by
  cases c with
  | neg a => exact ⟨_, if_pos (not_not.1 refused)⟩
  | cast kind a => exact absurd trivial refused
  | binary op a b => exact Expr.build_refused refused
  | choose c a b =>
    refine ⟨.condition, ?_⟩
    show Expr.choose c a b = _
    unfold Expr.choose
    rw [if_pos (show c.kind ≠ .bool from refused)]
    rfl

/-- Where the kinds of the operands fit, what a constructor builds has the result of the operation on its operands as
    its value, or divides by zero as the operation does; a constructor that divides by zero itself has no result to
    give. Elsewhere nothing is built. -/
theorem construction_sound (operands : ∀ e ∈ c.operands, e.Numeric) (whole : c.kind ≠ .float32)
    (words : ∀ name n, env name = some n → Word n) (inTurn : c.InTurn env buffers)
    (means : c.Means env buffers result) :
    (c.Accepted → (∃ e, c.build = .ok e ∧ e.kind = c.kind ∧ e.evaluate env buffers = c.kind.number <$> result)
        ∨ c.build = .error .divisionByZero ∧ result = .error .divisionByZero)
      ∧ (¬ c.Accepted → ∃ fault, c.build = .error (.kind fault)) := by
  refine ⟨fun accepted => ?_, build_refused⟩
  have yields : Expr.Yields env buffers (env reductionIndex) c.kind c.build result := by
    cases means with
    | @neg a m operand =>
      obtain ⟨after, gives⟩ := operand.gives (operands a (by simp [Construction.operands])) words
      exact Expr.neg_yields (Element.eq_int32 accepted whole) gives
    | @cast kind a m operand =>
      obtain ⟨after, gives⟩ := operand.gives (operands a (by simp [Construction.operands])) words
      exact Expr.cast_yields gives whole
    | @binary op a b m n left right =>
      obtain ⟨between, first⟩ := left.gives (operands a (by simp [Construction.operands])) words
      obtain ⟨after, second⟩ := right.follows (operands b (by simp [Construction.operands])) words first inTurn
      exact Expr.build_yields accepted first second
    | @choose c a b t m n condition left right =>
      obtain ⟨between, first⟩ := condition.gives (operands c (by simp [Construction.operands])) words
      obtain ⟨_, second⟩ := left.follows (operands a (by simp [Construction.operands])) words first inTurn.1
      obtain ⟨_, third⟩ := right.follows (operands b (by simp [Construction.operands])) words first inTurn.2
      exact Expr.choose_yields accepted first second third
  exact yields

/-- A position times a truth value, which is built as the position itself. -/
theorem construction_sound_truthFactor :
    let c := binary .mul (Expr.truth true) (.special outputIndex 7)
    c.Means (atOutput 6) (fun _ => none) (.ok 6)
      ∧ ((∃ e, c.build = .ok e ∧ e.kind = .int32 ∧ e.evaluate (atOutput 6) (fun _ => none) = .ok (.int 6))
        ∨ c.build = .error .divisionByZero ∧ (.ok 6 : Except Failure Int) = .error .divisionByZero) := by
  intro c
  have means : c.Means (atOutput 6) (fun _ => none) (.ok 6) := .binary ⟨.bool true, rfl, rfl⟩ ⟨.int 6, rfl, rfl⟩
  refine ⟨means, (construction_sound ?_ (show c.kind ≠ .float32 by decide) ?_ ?_ means).1 trivial⟩
  · intro e member
    simp only [c, Construction.operands, List.mem_cons, List.not_mem_nil, or_false] at member
    rcases member with rfl | rfl
    · exact ⟨Expr.typed_truth true, nofun, Expr.every_const.2 nofun, Expr.every_const.2 nofun⟩
    · exact ⟨Expr.every_special.2 trivial, nofun, Expr.every_special.2 nofun, Expr.every_special.2 nofun⟩
  · intro name n bound
    obtain ⟨-, ⟨⟩⟩ := Option.ite_none_right_eq_some.1 bound
    decide
  · rintro y between ⟨⟩
    exact ⟨_, rfl⟩

end Construction

namespace Expr

theorem evaluate_lastPosition (n : Nat) :
    (reduce .max .int32 (special reductionIndex (n + 1)) (n + 1)).evaluate env buffers = .ok (.int n) := by
  have last : (List.range (n + 1)).foldlM (fun acc (r : Nat) => do
      Reduction.max.step .int32 acc
        (← Prod.fst <$> (special reductionIndex (n + 1)).evaluateFrom env buffers (some (r : Nat))))
      (Reduction.max.start .int32) = .ok (.int n) := by
    generalize (n + 1 : Int) = extent
    induction n with
    | zero => exact congrArg Except.ok (Scalar.larger_negativeInfinity 0)
    | succ n ih =>
      rw [List.range_succ, List.foldlM_append, ih]
      refine congrArg Except.ok ?_
      rw [Scalar.larger_int, max_eq_right (by omega)]
  exact evaluate_eq_ok.2 ⟨none, evaluateFrom_reduce_eq_ok.2 ⟨rfl, _, last, rfl⟩⟩

/-- A sum before the reduction index leaves it unbound, though both have values alone. -/
theorem add_unbinds :
    let sum := reduce .add .int32 (special reductionIndex 3) 3
    let index := special reductionIndex 5
    let env : Environment := fun name => if name = reductionIndex then some 2 else none
    sum.evaluate env (fun _ => none) = .ok (.int 3) ∧ index.evaluate env (fun _ => none) = .ok (.int 2)
      ∧ BinaryOp.add.reference .int32 3 2 = .ok 5
      ∧ ∃ e, sum.add index = .ok e ∧ e.evaluate env (fun _ => none) = .error .unbound :=
  ⟨rfl, rfl, rfl, _, rfl, rfl⟩

/-- A maximum that is no 32-bit integer is left as it is where nothing is added to it. -/
theorem add_unwrapped :
    let greatest := reduce .max .int32 (special reductionIndex (0x80000000 + 1)) (0x80000000 + 1)
    greatest.add (int32 0) = .ok greatest ∧ greatest.evaluate (fun _ => none) (fun _ => none) = .ok (.int 0x80000000)
      ∧ BinaryOp.add.reference .int32 0x80000000 0 = .ok (-0x80000000) :=
  ⟨rfl, evaluate_lastPosition 0x80000000, rfl⟩

end Expr

end StridedArray
