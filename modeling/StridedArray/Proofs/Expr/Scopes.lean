import StridedArray.Proofs.Expr.Computed
import StridedArray.Proofs.Expr.Threading

/-! # The scope of the reduction index

The index of a reduction belongs to its body. Evaluation keeps one binding of it, which every reduction sets and takes
away at its end, also where a reduction around it is still going on. What is read behind it there is not bound any
more, though the same operands in another order have a value.

* `Expr.reduces`, `Expr.readsIndex` — is there a reduction, is the index of the reduction around the expression read;
  `Expr.orderly`, `Expr.Astray` — nothing reads it behind a reduction, something reads it where it is lost;
* `Expr.after_of_reduces`, `Expr.valueAt_of_readsIndex` — what keeps the binding, what does not need it;
* `Expr.fst_evaluateFrom_or_lost` — evaluation gives the value, or the binding is lost;
* `Expr.Summand.add_comm` — the value of a sum does not depend on the order of its operands;
* `Expr.evaluate_scoped` — what evaluation makes of an expression, and of a sum in either order. -/

namespace StridedArray.Expr

/-! ## Reductions and their index -/

def reduces : Expr → Bool
  | const .. | special .. => false
  | accessor _ _ _ index | load _ _ index => index.reduces
  | unary _ _ a => a.reduces
  | binary _ _ a b => a.reduces || b.reduces
  | select _ condition a b => condition.reduces || a.reduces || b.reduces
  | reduce .. => true

/-- Is the index of the reduction around the expression read? Reductions inside of it read their own. -/
def readsIndex : Expr → Bool
  | const .. | reduce .. => false
  | special name .. => name = reductionIndex
  | accessor _ _ _ index | load _ _ index => index.readsIndex
  | unary _ _ a => a.readsIndex
  | binary _ _ a b => a.readsIndex || b.readsIndex
  | select _ condition a b => condition.readsIndex || a.readsIndex || b.readsIndex

/-- Can an operand be evaluated first, and leave the reduction index to another one? -/
def leaves (a b : Expr) : Bool := !a.reduces || !b.readsIndex

def orderly : Expr → Bool
  | const .. | special .. => true
  | accessor _ _ _ index | load _ _ index => index.orderly
  | unary _ _ a => a.orderly
  | binary _ _ a b => a.orderly && b.orderly && a.leaves b
  | select _ condition a b =>
    condition.orderly && a.orderly && b.orderly && condition.leaves a && condition.leaves b
  | reduce _ _ body _ => body.orderly

variable {env : Environment} {buffers : Buffers} {position other after : Option Int} {e : Expr} {x : Scalar}

/-- Without a reduction the binding of the index stays. -/
theorem after_of_reduces (none : e.reduces = false)
    (known : e.evaluateFrom env buffers position = .ok (x, after)) : after = position := by
  induction e generalizing position x after with
  | const =>
    cases known
    rfl
  | special =>
    obtain ⟨n, -, -, same⟩ := evaluateFrom_special_eq_ok.1 known
    exact same
  | accessor slot kind layout index ih =>
    obtain ⟨place, first, -⟩ := evaluateFrom_accessor_eq_ok.1 known
    exact ih none first
  | load slot kind index ih =>
    obtain ⟨place, first, -⟩ := evaluateFrom_load_eq_ok.1 known
    exact ih none first
  | unary op kind a ih =>
    obtain ⟨y, first, -⟩ := evaluateFrom_unary_eq_ok.1 known
    exact ih none first
  | binary op kind a b iha ihb =>
    obtain ⟨left, right⟩ := Bool.or_eq_false_iff.1 none
    obtain ⟨y, between, z, first, second, -⟩ := evaluateFrom_binary_eq_ok.1 known
    exact (ihb right second).trans (iha left first)
  | select kind c a b ihc iha ihb =>
    obtain ⟨front, right⟩ := Bool.or_eq_false_iff.1 none
    obtain ⟨condition, left⟩ := Bool.or_eq_false_iff.1 front
    obtain ⟨y, between, first, chosen⟩ := evaluateFrom_select_eq_ok.1 known
    split at chosen
    · exact (iha left chosen).trans (ihc condition first)
    · exact (ihb right chosen).trans (ihc condition first)
  | reduce => cases none

theorem orderly_of_reduces (none : e.reduces = false) : e.orderly = true := by
  induction e with
  | const | special => rfl
  | accessor slot kind layout index ih => exact ih none
  | load slot kind index ih => exact ih none
  | unary op kind a ih => exact ih none
  | binary op kind a b iha ihb =>
    obtain ⟨left, right⟩ := Bool.or_eq_false_iff.1 none
    simp only [orderly, leaves, iha left, ihb right, left, Bool.not_false, Bool.true_or, Bool.and_self]
  | select kind c a b ihc iha ihb =>
    obtain ⟨front, right⟩ := Bool.or_eq_false_iff.1 none
    obtain ⟨condition, left⟩ := Bool.or_eq_false_iff.1 front
    simp only [orderly, leaves, ihc condition, iha left, ihb right, condition, Bool.not_false, Bool.true_or,
      Bool.and_self]
  | reduce => cases none

/-- What does not read the index has the same value whatever it is bound to. -/
theorem valueAt_of_readsIndex (free : e.readsIndex = false) (position other : Option Int) :
    e.valueAt env buffers position = e.valueAt env buffers other := by
  induction e with
  | const => rfl
  | special name extent d =>
    have named : name ≠ reductionIndex := of_decide_eq_false free
    simp only [valueAt, if_neg named]
  | accessor slot kind layout index ih => simp only [valueAt, ih free]
  | load slot kind index ih => simp only [valueAt, ih free]
  | unary op kind a ih => simp only [valueAt, ih free]
  | binary op kind a b iha ihb =>
    obtain ⟨left, right⟩ := Bool.or_eq_false_iff.1 free
    simp only [valueAt, iha left, ihb right]
  | select kind c a b ihc iha ihb =>
    obtain ⟨front, right⟩ := Bool.or_eq_false_iff.1 free
    obtain ⟨condition, left⟩ := Bool.or_eq_false_iff.1 front
    simp only [valueAt, ihc condition, iha left, ihb right]
  | reduce => rfl

/-! ## Lost bindings -/

/-- A result is the value, or there is none because a variable is not bound, for some reason. -/
def Agrees {α β : Type} (f : α → β) (computed : Except Failure α) (value : Except Failure β) (reason : Prop) :
    Prop :=
  f <$> computed = value ∨ computed = .error .unbound ∧ reason

theorem Agrees.imp {α β : Type} {f : α → β} {computed : Except Failure α} {value : Except Failure β} {p q : Prop}
    (agrees : Agrees f computed value p) (weaker : p → q) : Agrees f computed value q :=
  agrees.imp_right fun ⟨fails, reason⟩ => ⟨fails, weaker reason⟩

theorem Agrees.bind {α β γ δ : Type} {f : α → β} {g : γ → δ} {computed : Except Failure α}
    {value : Except Failure β} {p : Prop} {next : α → Except Failure γ} {then' : β → Except Failure δ}
    (first : Agrees f computed value p)
    (rest : ∀ a, computed = .ok a → Agrees g (next a) (then' (f a)) p) :
    Agrees g (computed >>= next) (value >>= then') p := by
  rcases first with rfl | ⟨rfl, reason⟩
  · cases computed with
    | error => exact .inl rfl
    | ok a => exact rest a rfl
  · exact .inr ⟨rfl, reason⟩

theorem agrees_foldlM {α β : Type} {xs : List α} {p : Prop} {step other : β → α → Except Failure β}
    (each : ∀ acc x, Agrees id (step acc x) (other acc x) p) (acc : β) :
    Agrees id (xs.foldlM step acc) (xs.foldlM other acc) p := by
  induction xs generalizing acc with
  | nil => exact .inl rfl
  | cons x xs ih =>
    rw [List.foldlM_cons, List.foldlM_cons]
    exact (each acc x).bind fun next _ => ih next

/-- Something may read an index whose binding is lost, where evaluation begins with another one: it is read behind a
    reduction, or was not bound from the beginning. -/
def Astray (position other : Option Int) (e : Expr) : Prop :=
  e.orderly = false ∨ other ≠ position ∧ e.readsIndex = true

namespace Astray

variable {a b c : Expr} {kind : Element} {op : BinaryOp}

theorem left (astray : a.Astray position other) : (binary op kind a b).Astray position other := by
  simp only [Astray, orderly, readsIndex, Bool.and_eq_false_iff, Bool.or_eq_true] at astray ⊢
  tauto

theorem condition (astray : c.Astray position other) : (select kind c a b).Astray position other := by
  simp only [Astray, orderly, readsIndex, Bool.and_eq_false_iff, Bool.or_eq_true] at astray ⊢
  tauto

/-- Where an operand goes astray behind another one, this one has a reduction, or the binding was lost before. -/
theorem back (astray : b.Astray position after) (first : a.evaluateFrom env buffers other = .ok (x, after)) :
    a.leaves b = false ∨ b.Astray position other := by
  rcases astray with disorder | ⟨changed, reads⟩
  · exact .inr (.inl disorder)
  · cases reduces : a.reduces with
    | true => exact .inl (by rw [leaves, reduces, reads]; rfl)
    | false =>
      obtain rfl := after_of_reduces reduces first
      exact .inr (.inr ⟨changed, reads⟩)

theorem right (astray : b.Astray position after) (first : a.evaluateFrom env buffers other = .ok (x, after)) :
    (binary op kind a b).Astray position other := by
  have before := astray.back first
  simp only [Astray, orderly, readsIndex, Bool.and_eq_false_iff, Bool.or_eq_true] at before ⊢
  tauto

theorem chosen (astray : a.Astray position after) (first : c.evaluateFrom env buffers other = .ok (x, after)) :
    (select kind c a b).Astray position other := by
  have before := astray.back first
  simp only [Astray, orderly, readsIndex, Bool.and_eq_false_iff, Bool.or_eq_true] at before ⊢
  tauto

theorem notChosen (astray : b.Astray position after) (first : c.evaluateFrom env buffers other = .ok (x, after)) :
    (select kind c a b).Astray position other := by
  have before := astray.back first
  simp only [Astray, orderly, readsIndex, Bool.and_eq_false_iff, Bool.or_eq_true] at before ⊢
  tauto

theorem body {fold : Reduction} {extent : Int} {inner : Option Int} (astray : a.Astray inner inner) :
    (reduce fold kind a extent).Astray position other :=
  .inl (astray.resolve_right fun lost => lost.1 rfl)

end Astray

theorem same_later {a : Expr} (same : other = position ∨ other = none)
    (known : a.evaluateFrom env buffers other = .ok (x, after)) : after = position ∨ after = none := by
  rcases after_evaluateFrom known with rfl | rfl
  · exact same
  · exact .inr rfl

/-- Evaluation gives the value where reductions have their index to themselves. Otherwise it may fail for an index whose
    binding is lost. -/
theorem fst_evaluateFrom_or_lost (same : other = position ∨ other = none) :
    Agrees Prod.fst (e.evaluateFrom env buffers other) (e.valueAt env buffers position) (e.Astray position other) := by
  induction e generalizing position other with
  | const => exact .inl rfl
  | special name extent d =>
    by_cases index : name = reductionIndex
    · rcases same with rfl | rfl
      · refine .inl ?_
        unfold evaluateFrom valueAt
        cases if name = reductionIndex then other else env name <;> rfl
      · cases position with
        | none =>
          refine .inl ?_
          simp only [evaluateFrom, valueAt, if_pos index]
          rfl
        -- The index has a value, and evaluation does not find it.
        | some n =>
          refine .inr ⟨?_, .inr ⟨(Option.some_ne_none n).symm, decide_eq_true index⟩⟩
          simp only [evaluateFrom, if_pos index]
          rfl
    · refine .inl ?_
      simp only [evaluateFrom, valueAt, if_neg index]
      cases env name <;> rfl
  | accessor slot kind layout index ih => exact (ih same).bind fun _ _ => .inl (fst_pair ..)
  | load slot kind index ih => exact (ih same).bind fun _ _ => .inl (fst_pair ..)
  | unary op kind a ih => exact (ih same).bind fun _ _ => .inl (fst_pair ..)
  -- The second operand begins with what the first one leaves, so the hypothesis is used at that binding.
  | binary op kind a b iha ihb =>
    refine ((iha same).imp Astray.left).bind ?_
    rintro ⟨y, between⟩ first
    exact ((ihb (same_later same first)).imp fun astray => astray.right first).bind fun _ _ => .inl (fst_pair ..)
  | select kind c a b ihc iha ihb =>
    refine ((ihc same).imp Astray.condition).bind ?_
    rintro ⟨y, between⟩ first
    have later := same_later same first
    dsimp only
    split
    · exact (iha later).imp fun astray => astray.chosen first
    · exact (ihb later).imp fun astray => astray.notChosen first
  | reduce op kind body extent ih =>
    rw [evaluateFrom_reduce, valueAt, foldBelow_eq, foldBelow_eq]
    -- Each position of the loop binds the index anew, so that only the body itself can lose it.
    refine Agrees.bind (f := id) (agrees_foldlM (fun acc r => ?_) _) fun acc _ => .inl (fst_pair ..)
    exact ((ih (.inl rfl)).imp Astray.body).bind fun _ _ => .inl (id_map _)

/-! ## The order of summands -/

/-- What can be a summand here: a number or a truth value, with no maximum over nothing. -/
structure Summand (e : Expr) : Prop where
  typed : Typed e
  integral : e.kind ≠ .float32
  peaked : Peaked e

variable {kind : Element} {a b : Expr} {y : Scalar}

theorem apply_add_comm (truths : kind = .bool → (∃ b, x = .bool b) ∧ ∃ b, y = .bool b) {m n : Int}
    (left : x.whole? = some m) (right : y.whole? = some n) :
    BinaryOp.add.apply kind x y = BinaryOp.add.apply kind y x := by
  by_cases logical : kind = .bool
  · subst logical
    obtain ⟨⟨p, rfl⟩, q, rfl⟩ := truths rfl
    cases p <;> cases q <;> rfl
  · simp only [BinaryOp.apply, if_neg logical, Scalar.add_whole left right, Scalar.add_whole right left, Int.add_comm]

theorem Summand.apply_comm (left : a.Summand) (right : b.Summand) (same : a.kind = b.kind)
    {first second : Option Int} (here : a.valueAt env buffers first = .ok x)
    (there : b.valueAt env buffers second = .ok y) :
    BinaryOp.add.apply a.kind x y = BinaryOp.add.apply a.kind y x := by
  obtain ⟨m, whole⟩ := whole_valueAt left.typed left.integral left.peaked here
  obtain ⟨n, whole'⟩ := whole_valueAt right.typed right.integral right.peaked there
  exact apply_add_comm (fun logical =>
    ⟨truth_valueAt left.typed logical here, truth_valueAt right.typed (same ▸ logical) there⟩) whole whole'

theorem Summand.eq_number {d : Nat} (summand : (const kind x d).Summand) :
    ∃ n, x = kind.number n ∧ kind.Fits n :=
  Element.Holds.eq_number (every_const.1 summand.typed) summand.integral

theorem Summand.cast (summand : a.Summand) (whole : kind ≠ .float32) :
    ∃ e, cast kind a = .ok e ∧ e.kind = kind ∧ e.Summand := by
  obtain ⟨e, built⟩ : ∃ e, Expr.cast kind a = .ok e := by
    unfold Expr.cast
    split
    · exact ⟨a, rfl⟩
    · split
      · obtain ⟨n, rfl, fits⟩ := summand.eq_number
        rw [constant, Element.coerce_number fits whole]
        exact ⟨_, rfl⟩
      · exact ⟨_, rfl⟩
  have peaked : Peaked e := by
    rcases cast_cases built with ⟨-, rfl⟩ | ⟨value, folded⟩ | rfl
    · exact summand.peaked
    · rw [constant, bind_eq_ok] at folded
      obtain ⟨_, -, made⟩ := folded
      cases made
      refine every_const.2 ?_
      rintro kind body extent ⟨⟩
    · refine every_unary.2 ⟨summand.peaked, ?_⟩
      rintro kind body extent ⟨⟩
  have same := kind_cast built
  exact ⟨e, built, same, typed_cast summand.typed built, same ▸ whole, peaked⟩

theorem Summand.cast_zero (summand : a.Summand) (whole : kind ≠ .float32) (zero : a.isConstant 0 = true)
    (built : Expr.cast kind a = .ok e) : e.valueAt env buffers position = .ok (kind.number 0) := by
  cases a with
  | const own x d =>
    obtain ⟨n, rfl, fits⟩ := summand.eq_number
    have known : (own.number n).sameNumber (.int 0) = true := zero
    rw [Scalar.sameNumber_whole (Element.whole?_number fits) rfl, decide_eq_true_iff] at known
    subst known
    unfold Expr.cast at built
    split at built
    · next same =>
      cases built
      exact congrArg (fun k : Element => Except.ok (k.number 0)) same
    · dsimp only at built
      rw [constant, Element.coerce_number fits whole] at built
      cases built
      cases kind <;> rfl
  | _ => cases zero

theorem Summand.combine_comm (left : a.Summand) (right : b.Summand) :
    ∃ s t, combine .add a b = .ok s ∧ combine .add b a = .ok t ∧
      ∀ position x, s.valueAt env buffers position = .ok x → t.valueAt env buffers position = .ok x := by
  have whole := Element.promote_whole left.integral right.integral
  obtain ⟨c, first, kindLeft, inCommon⟩ := left.cast whole
  obtain ⟨d, second, kindRight, others⟩ := right.cast whole
  have same := kindLeft.trans kindRight.symm
  unfold combine
  rw [Element.promote_comm b.kind a.kind]
  simp only [first, second, ok_bind]
  generalize a.kind.promote b.kind = kind at kindLeft kindRight
  have turned : ∀ position x, (binary .add kind c d).valueAt env buffers position = .ok x →
      (binary .add kind d c).valueAt env buffers position = .ok x := by
    intro position x value
    simp only [valueAt, bind_eq_ok] at value ⊢
    obtain ⟨y, here, z, there, applied⟩ := value
    refine ⟨z, there, y, here, ?_⟩
    rwa [applyBinary, ← same, ← inCommon.apply_comm others same here there, ← applyBinary]
  -- Two constants are added when the sum is built, everything else when it is evaluated.
  cases c with
  | const k m _ =>
    cases d with
    | const k' n _ =>
      obtain rfl : kind = k := kindLeft.symm
      obtain rfl : kind = k' := kindRight.symm
      obtain ⟨p, rfl, fits⟩ := inCommon.eq_number
      obtain ⟨q, rfl, fits'⟩ := others.eq_number
      have swap : BinaryOp.add.apply kind _ _ = BinaryOp.add.apply kind _ _ :=
        @Summand.apply_comm env buffers _ _ _ _ inCommon others rfl none none rfl rfl
      have folded := (@BinaryOp.apply_number .add kind _ _ trivial inCommon.integral fits fits').2.2
      dsimp only
      rw [← swap, folded]
      exact ⟨_, _, rfl, rfl, fun _ _ => id⟩
    | _ => exact ⟨_, _, rfl, rfl, turned⟩
  | _ => cases d <;> exact ⟨_, _, rfl, rfl, turned⟩

/-- A sum and the sum in the other order have the same values. -/
theorem Summand.add_comm (left : a.Summand) (right : b.Summand) :
    ∃ s t, a.add b = .ok s ∧ b.add a = .ok t ∧
      ∀ position x, s.valueAt env buffers position = .ok x → t.valueAt env buffers position = .ok x := by
  have whole := Element.promote_whole left.integral right.integral
  obtain ⟨c, first, -⟩ := left.cast whole
  obtain ⟨d, second, -⟩ := right.cast whole
  unfold add
  rw [Element.promote_comm b.kind a.kind]
  dsimp only
  rw [first, second]
  by_cases zeroLeft : a.isConstant 0 = true
  · by_cases zeroRight : b.isConstant 0 = true
    · rw [if_pos zeroLeft, if_pos zeroRight]
      refine ⟨d, c, rfl, rfl, fun position x value => ?_⟩
      rw [right.cast_zero whole zeroRight second] at value
      rw [left.cast_zero whole zeroLeft first, value]
    · rw [if_pos zeroLeft, if_neg zeroRight, if_pos zeroLeft]
      exact ⟨d, d, rfl, rfl, fun _ _ => id⟩
  · by_cases zeroRight : b.isConstant 0 = true
    · rw [if_neg zeroLeft, if_pos zeroRight, if_pos zeroRight]
      exact ⟨c, c, rfl, rfl, fun _ _ => id⟩
    · rw [if_neg zeroLeft, if_neg zeroRight, if_neg zeroRight, if_neg zeroLeft]
      exact left.combine_comm right

/-! ## Scopes -/

theorem evaluate_or_lost (env : Environment) (buffers : Buffers) (e : Expr) :
    e.evaluate env buffers = e.valueAt env buffers (env reductionIndex)
      ∨ e.evaluate env buffers = .error .unbound ∧ e.orderly = false := by
  rcases @fst_evaluateFrom_or_lost env buffers _ _ e (.inl rfl) with agrees | ⟨lost, reason⟩
  · exact .inl agrees
  · exact .inr ⟨by rw [evaluate, lost]; rfl, reason.resolve_right fun changed => changed.1 rfl⟩

/-- Evaluation gives every expression the value in which a reduction binds its index for its own body only, or the index
    is not bound because it is read behind another reduction. So a sum that has a value has the same one in the other
    order, or its index is lost there. -/
theorem evaluate_scoped (env : Environment) (buffers : Buffers) :
    (∀ e : Expr, e.evaluate env buffers = e.valueAt env buffers (env reductionIndex)
        ∨ e.evaluate env buffers = .error .unbound ∧ e.orderly = false)
      ∧ ∀ a b : Expr, a.Summand → b.Summand → ∃ s t, a.add b = .ok s ∧ b.add a = .ok t
        ∧ ∀ x, s.evaluate env buffers = .ok x →
          t.evaluate env buffers = .ok x ∨ t.evaluate env buffers = .error .unbound ∧ t.orderly = false := by
  refine ⟨evaluate_or_lost env buffers, fun a b left right => ?_⟩
  -- Values do not depend on the order; what evaluation makes of them does.
  obtain ⟨s, t, first, second, same⟩ := left.add_comm right
  refine ⟨s, t, first, second, fun x known => ?_⟩
  have value : s.valueAt env buffers (env reductionIndex) = .ok x := by
    rcases evaluate_or_lost env buffers s with agrees | ⟨lost, -⟩
    · exact agrees.symm.trans known
    · cases lost.symm.trans known
  exact (evaluate_or_lost env buffers t).imp_left fun agrees => agrees.trans (same _ x value)

/-- The index of a reduction and a sum over another one's index, in both orders, and the reduction around them. Its
    value is the same in both, and it is lost in one. -/
theorem evaluate_scoped_nestedSums :
    let index := special reductionIndex 3
    let sum := reduce .add .int32 (special reductionIndex 2) 2
    let s := binary .add .int32 index sum
    let t := binary .add .int32 sum index
    let env : Environment := fun name => if name = reductionIndex then some 2 else none
    index.Summand ∧ sum.Summand ∧ index.add sum = .ok s ∧ sum.add index = .ok t
      ∧ s.evaluate env (fun _ => none) = .ok (.int 3)
      ∧ (t.evaluate env (fun _ => none) = .ok (.int 3)
        ∨ t.evaluate env (fun _ => none) = .error .unbound ∧ t.orderly = false)
      ∧ (reduce .add .int32 s 3).evaluate (fun _ => none) (fun _ => none) = .ok (.int 6)
      ∧ (reduce .add .int32 t 3).evaluate (fun _ => none) (fun _ => none) = .error .unbound
      ∧ (reduce .add .int32 t 3).valueAt (fun _ => none) (fun _ => none) none = .ok (.int 6) := by
  intro index sum s t env
  have indexed : index.Summand := ⟨every_special.2 trivial, nofun, every_special.2 nofun⟩
  have summed : sum.Summand :=
    ⟨every_reduce.2 ⟨every_special.2 trivial, rfl, nofun⟩, nofun,
      every_reduce.2 ⟨every_special.2 nofun, nofun⟩⟩
  have value : s.evaluate env (fun _ => none) = .ok (.int 3) := rfl
  obtain ⟨_, _, ⟨⟩, ⟨⟩, turned⟩ := (evaluate_scoped env fun _ => none).2 index sum indexed summed
  exact ⟨indexed, summed, rfl, rfl, value, turned _ value, rfl, rfl, rfl⟩

end StridedArray.Expr
