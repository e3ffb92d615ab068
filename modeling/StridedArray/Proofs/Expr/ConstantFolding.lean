import StridedArray.Proofs.Expr.Arithmetic

/-! # Where building stops

The constructors carry out what is constant, so building an expression can fail where evaluating it could: a constant
is divided by zero. On integers this is the only way to fail, and it is known in advance from which operands are
constants. Here numbers are divided by anything, while `Arithmetic` divides by positive ones only.

* `Stops` — a construction ends with a division by zero exactly under a condition; `Stops.bind` — one after the other;
* `Expr.isFixed` — constants; `Expr.Formed` — an expression of a kind with a property of all of its nodes;
* `Expr.add_formed`, `Expr.idivScalar_stops` and their neighbours — the constructors. -/

namespace StridedArray

/-- A construction ends with a division by zero if a condition holds, and otherwise makes something with a
    property. -/
def Stops {α : Type} (stuck : Prop) (made : α → Prop) (x : Except Failure α) : Prop :=
  stuck ∧ x = .error .divisionByZero ∨ ¬ stuck ∧ ∃ a, x = .ok a ∧ made a

namespace Stops

variable {α β : Type} {s t : Prop} {P Q : α → Prop} {R : β → Prop} {x : Except Failure α}

theorem of_ok (never : ¬ s) (built : ∃ a, x = .ok a ∧ P a) : Stops s P x := .inr ⟨never, built⟩

theorem imp (stops : Stops s P x) (same : s ↔ t) (weaker : ∀ a, P a → Q a) : Stops t Q x := by
  rcases stops with ⟨stuck, failed⟩ | ⟨free, a, built, made⟩
  · exact .inl ⟨same.1 stuck, failed⟩
  · exact .inr ⟨fun stuck => free (same.2 stuck), a, built, weaker a made⟩

/-- A sequence is stuck where its first step is, or else its second one. -/
theorem bind {f : α → Except Failure β} (first : Stops s P x) (rest : ∀ a, P a → Stops t R (f a)) :
    Stops (s ∨ t) R (x >>= f) := by
  rcases first with ⟨stuck, failed⟩ | ⟨free, a, built, made⟩
  · exact .inl ⟨.inl stuck, by rw [failed]; rfl⟩
  · rw [built, ok_bind]
    exact (rest a made).imp ⟨.inr, Or.rec (absurd · free) id⟩ fun _ => id

theorem eq_error_iff (stops : Stops s P x) {f : Failure} : x = .error f ↔ s ∧ f = .divisionByZero := by
  rcases stops with ⟨stuck, rfl⟩ | ⟨free, a, rfl, -⟩
  · rw [Except.error.injEq, eq_comm, and_iff_right stuck]
  · exact ⟨nofun, fun both => absurd both.1 free⟩

theorem ok_iff (stops : Stops s P x) : (∃ a, x = .ok a) ↔ ¬ s := by
  rcases stops with ⟨stuck, rfl⟩ | ⟨free, a, rfl, -⟩
  · exact ⟨nofun, fun free => absurd stuck free⟩
  · exact ⟨fun _ => free, fun _ => ⟨a, rfl⟩⟩

theorem failsWith (stops : Stops s P x) : FailsWith (· = .divisionByZero) x :=
  fun _ failed => (stops.eq_error_iff.1 failed).2

end Stops

namespace Expr

def isFixed : Expr → Bool
  | const .. => true
  | _ => false

/-- An expression of a kind whose operands fit, and all of whose nodes have a property. -/
structure Formed (P : Expr → Prop) (kind : Element) (e : Expr) : Prop where
  kind_eq : e.kind = kind
  typed : Typed e
  nodes : Every P e

/-- Constants, operations on two operands and choices of integer kinds have a property. -/
def Plain (P : Expr → Prop) : Prop :=
  ∀ node : Expr, node.Kinded → node.kind ≠ .float32 → node.isPlain = true → P node

variable {P : Expr → Prop} {a b c e : Expr} {kind : Element}

theorem formed_int32 (plain : Plain P) (n : Int) : Formed P .int32 (int32 n) :=
  ⟨rfl, typed_int32 n, every_const.2 (plain _ ⟨_, rfl, word_wrap32 n⟩ nofun rfl)⟩

theorem formed_truth (plain : Plain P) (b : Bool) : Formed P .bool (truth b) :=
  ⟨rfl, typed_truth b, every_const.2 (plain _ ⟨b, rfl⟩ nofun rfl)⟩

theorem Formed.eq_const (formed : Formed P .int32 a) (fixed : a.isFixed = true) :
    ∃ n d, a = const .int32 (.int n) d := by
  cases a with
  | const kind value d =>
    obtain rfl : kind = .int32 := formed.kind_eq
    obtain ⟨n, rfl, -⟩ := every_const.1 formed.typed
    exact ⟨n, d, rfl⟩
  | _ => cases fixed

theorem isFixed_of_isConstant {n : Int} (constant : a.isConstant n = true) : a.isFixed = true := by
  cases a with
  | const => rfl
  | _ => cases constant

/-! ## Operations -/

theorem combine_fixed (op : BinaryOp) (x y : Scalar) (d d' : Nat) :
    combine op (const .int32 x d) (const .int32 y d') = op.apply .int32 x y >>= constant (op.resultKind .int32) := rfl

theorem combine_loose (op : BinaryOp) (left : a.kind = .int32) (right : b.kind = .int32)
    (loose : (a.isFixed && b.isFixed) = false) :
    combine op a b = .ok (.binary op (op.resultKind .int32) a b) := by
  rcases combine_cases op left right with built | ⟨x, d, y, d', rfl, rfl, -⟩
  · exact built
  · cases loose

theorem formed_binary (plain : Plain P) {op : BinaryOp} (takes : op.Takes .int32) (left : Formed P .int32 a)
    (right : Formed P .int32 b) :
    Formed P (op.resultKind .int32) (.binary op (op.resultKind .int32) a b) := by
  have kinded : Kinded (.binary op (op.resultKind .int32) a b) := by
    rw [Kinded, left.kind_eq, right.kind_eq]
    exact ⟨rfl, takes, rfl⟩
  have whole : op.resultKind .int32 ≠ .float32 := by cases op <;> decide
  exact ⟨rfl, every_binary.2 ⟨left.typed, right.typed, kinded⟩,
    every_binary.2 ⟨left.nodes, right.nodes, plain _ kinded whole rfl⟩⟩

theorem combine_formed (plain : Plain P) (op : BinaryOp) (takes : op.Takes .int32) (left : Formed P .int32 a)
    (right : Formed P .int32 b)
    (total : ∀ m n : Int, ∃ e, op.apply .int32 (.int m) (.int n) >>= constant (op.resultKind .int32) = .ok e
      ∧ Formed P (op.resultKind .int32) e ∧ e.isFixed = true) :
    ∃ e, combine op a b = .ok e ∧ Formed P (op.resultKind .int32) e ∧ e.isFixed = (a.isFixed && b.isFixed) := by
  cases fixed : a.isFixed && b.isFixed with
  | true =>
    obtain ⟨fixedLeft, fixedRight⟩ := Bool.and_eq_true_iff.1 fixed
    obtain ⟨m, d, rfl⟩ := left.eq_const fixedLeft
    obtain ⟨n, d', rfl⟩ := right.eq_const fixedRight
    rw [combine_fixed]
    exact total m n
  | false =>
    exact ⟨_, combine_loose op left.kind_eq right.kind_eq fixed, formed_binary plain takes left right, rfl⟩

theorem add_formed (plain : Plain P) (left : Formed P .int32 a) (right : Formed P .int32 b) :
    ∃ e, add a b = .ok e ∧ Formed P .int32 e ∧ e.isFixed = (a.isFixed && b.isFixed) := by
  have common : Element.promote a.kind b.kind = .int32 := by rw [left.kind_eq, right.kind_eq]; rfl
  unfold add
  rw [common]
  dsimp only
  -- A neutral operand is a constant, so the sum is one if the other operand is.
  cases zeroLeft : a.isConstant 0 with
  | true => exact ⟨b, cast_same right.kind_eq, right, by rw [isFixed_of_isConstant zeroLeft, Bool.true_and]⟩
  | false =>
    cases zeroRight : b.isConstant 0 with
    | true => exact ⟨a, cast_same left.kind_eq, left, by rw [isFixed_of_isConstant zeroRight, Bool.and_true]⟩
    | false =>
      exact combine_formed plain .add trivial left right fun m n => ⟨_, rfl, formed_int32 plain _, rfl⟩

theorem isConstant_eq (k n : Int) : (int32 k).isConstant n = decide (wrap32 k = n) := by
  rw [int32, isConstant, Scalar.sameNumber_whole rfl rfl]

theorem mulScalar_formed (plain : Plain P) (left : Formed P .int32 a) (k : Int) :
    ∃ e, mulScalar a (.int k) = .ok e ∧ Formed P .int32 e
      ∧ e.isFixed = (a.isFixed || decide (wrap32 k = 0)) := by
  have common : Element.promote a.kind (int32 k).kind = .int32 := by rw [left.kind_eq]; rfl
  rw [mulScalar, lift_int left.kind_eq, ok_bind, mul, common, isConstant_eq, isConstant_eq]
  cases oneLeft : a.isConstant 1 with
  | true =>
    refine ⟨_, (if_pos rfl).trans (cast_same rfl), formed_int32 plain k, ?_⟩
    rw [isFixed_of_isConstant oneLeft, Bool.true_or]
    rfl
  | false =>
    by_cases oneRight : wrap32 k = 1
    · refine ⟨a, ?_, left, ?_⟩
      · rw [decide_eq_true oneRight]
        exact cast_same left.kind_eq
      · rw [oneRight, decide_eq_false (by decide), Bool.or_false]
    · rw [decide_eq_false oneRight]
      cases zero : a.isConstant 0 || decide (wrap32 k = 0) with
      | true =>
        refine ⟨int32 0, rfl, formed_int32 plain 0, ?_⟩
        rcases (Bool.or_eq_true _ _).mp zero with zeroLeft | zeroRight
        · rw [isFixed_of_isConstant zeroLeft, Bool.true_or]
          rfl
        · rw [zeroRight, Bool.or_true]
          rfl
      | false =>
        obtain ⟨e, built, formed, fixed⟩ := combine_formed plain .mul trivial left (formed_int32 plain k)
          fun m n => ⟨_, rfl, formed_int32 plain _, rfl⟩
        refine ⟨e, built, formed, ?_⟩
        rw [fixed, (Bool.or_eq_false_iff.1 zero).2, Bool.or_false]
        exact Bool.and_true _

/-! ## Divisions -/

/-- A constant is divided by zero as soon as it is built, and only then is nothing built. -/
theorem division_stops (plain : Plain P) (op : BinaryOp) (takes : op.Takes .int32)
    (kind : op.resultKind .int32 = .int32) (zero : ∀ m, op.apply .int32 (.int m) (.int 0) = .error .divisionByZero)
    (divided : ∀ m n : Int, n ≠ 0 → ∃ q, op.apply .int32 (.int m) (.int n) = .ok (.int q))
    (left : Formed P .int32 a) (k : Int) :
    Stops (a.isFixed = true ∧ wrap32 k = 0) (fun e => Formed P .int32 e ∧ e.isFixed = a.isFixed)
      (combine op a (int32 k)) := by
  have operation := formed_binary plain takes left (formed_int32 plain k)
  have built := @combine_loose a (int32 k) op left.kind_eq rfl
  rw [kind] at operation built
  cases fixed : a.isFixed with
  | true =>
    obtain ⟨m, d, rfl⟩ := left.eq_const fixed
    by_cases vanishes : wrap32 k = 0
    · refine .inl ⟨⟨rfl, vanishes⟩, ?_⟩
      rw [int32, vanishes, combine_fixed, zero]
      rfl
    · obtain ⟨q, known⟩ := divided m _ vanishes
      refine .inr ⟨fun stuck => vanishes stuck.2, int32 q, ?_, formed_int32 plain q, rfl⟩
      rw [int32, combine_fixed, known, ok_bind, kind]
      rfl
  | false =>
    exact .inr ⟨fun stuck => Bool.false_ne_true stuck.1, _, built (by rw [fixed]; rfl), operation, rfl⟩

theorem idivScalar_stops (plain : Plain P) (left : Formed P .int32 a) (k : Int) :
    Stops (a.isFixed = true ∧ wrap32 k = 0) (fun e => Formed P .int32 e ∧ e.isFixed = a.isFixed)
      (idivScalar a (.int k)) := by
  rw [idivScalar, lift_int left.kind_eq, ok_bind, idiv, requireWhole_ok left.kind_eq rfl, ok_bind, isConstant_eq]
  by_cases one : wrap32 k = 1
  · rw [decide_eq_true one]
    exact .inr ⟨fun stuck => by omega, a, rfl, left, rfl⟩
  · rw [decide_eq_false one]
    exact division_stops plain .idiv rfl rfl (fun _ => rfl)
      (fun m n nonzero => ⟨_, Scalar.floorDivide_int m n nonzero⟩) left k

theorem modScalar_stops (plain : Plain P) (left : Formed P .int32 a) (k : Int) :
    Stops (a.isFixed = true ∧ wrap32 k = 0)
      (fun e => Formed P .int32 e ∧ e.isFixed = (a.isFixed || decide (wrap32 k = 1))) (modScalar a (.int k)) := by
  rw [modScalar, lift_int left.kind_eq, ok_bind, mod, requireWhole_ok left.kind_eq rfl, ok_bind, isConstant_eq]
  by_cases one : wrap32 k = 1
  · rw [decide_eq_true one]
    exact .inr ⟨fun stuck => by omega, int32 0, rfl, formed_int32 plain 0, by rw [Bool.or_true]; rfl⟩
  · rw [decide_eq_false one, Bool.or_false]
    exact division_stops plain .mod rfl rfl (fun _ => rfl)
      (fun m n nonzero => ⟨_, Scalar.floorModulo_int m n nonzero⟩) left k

/-! ## Conditions and choices -/

theorem compare_formed (plain : Plain P) (op : BinaryOp) (compares : op = .cmplt ∨ op = .cmpgt)
    (left : Formed P .int32 a) (right : Formed P .int32 b) :
    ∃ e, combine op a b = .ok e ∧ Formed P .bool e := by
  rcases compares with rfl | rfl
  · obtain ⟨e, built, formed, -⟩ := combine_formed plain .cmplt trivial left right
      fun m n => ⟨_, rfl, formed_truth plain _, rfl⟩
    exact ⟨e, built, formed⟩
  · obtain ⟨e, built, formed, -⟩ := combine_formed plain .cmpgt trivial left right
      fun m n => ⟨_, rfl, formed_truth plain _, rfl⟩
    exact ⟨e, built, formed⟩

theorem both_formed (plain : Plain P) (left : Formed P .bool a) (right : Formed P .bool b) :
    ∃ e, both a b = .ok e ∧ Formed P .bool e := by
  unfold both
  rw [if_neg (by simp [left.kind_eq, right.kind_eq])]
  split
  · refine ⟨_, rfl, ?_⟩
    split
    · exact right
    · exact formed_truth plain false
  · refine ⟨_, rfl, ?_⟩
    split
    · exact left
    · exact formed_truth plain false
  · have kinded : Kinded (.binary .and .bool a b) :=
      ⟨left.kind_eq.trans right.kind_eq.symm, left.kind_eq, left.kind_eq.symm⟩
    exact ⟨_, rfl, rfl, every_binary.2 ⟨left.typed, right.typed, kinded⟩,
      every_binary.2 ⟨left.nodes, right.nodes, plain _ kinded nofun rfl⟩⟩

theorem Formed.chosen (condition : Formed P .bool c) (left : Formed P kind a) (right : Formed P kind b)
    (choice : P (select b.kind c a b)) : Formed P kind (Expr.chosen c a b) where
  kind_eq := (kind_chosen (left.kind_eq.trans right.kind_eq.symm)).trans right.kind_eq
  typed := every_chosen condition.typed left.typed right.typed
    ⟨condition.kind_eq, left.kind_eq.trans right.kind_eq.symm, rfl⟩
  nodes := every_chosen condition.nodes left.nodes right.nodes choice

end Expr

end StridedArray
