import StridedArray.Expr.Evaluate
import StridedArray.Kernel
import StridedArray.Proofs.Expr.Nodes

/-! # The value of an expression at a point

Evaluation threads the binding of the reduction index through the operands. Where reductions are not
nested every operand finds the binding that its parent found, so that the value of an expression is
made of the values of its operands.

* `Expr.Scoped` — reductions are not nested, the reduction index stays inside of one; `Expr.scoped_of_every` — where
  neither occurs;
* `Expr.valueAt` — the value under a binding of the reduction index, operand by operand;
* `Expr.valueAt_outside` — outside of reductions that binding does not matter;
* `Expr.evaluate_eq_valueAt` — evaluation gives the value. -/

namespace StridedArray.Expr

/-! ## Scopes -/

/-- Reductions are not nested, and the reduction index stays inside of one. The expression may itself
    be inside of a reduction. -/
def Scoped (inside : Bool) (e : Expr) : Prop := checkReductions e inside = .ok ()

instance (inside : Bool) (e : Expr) : Decidable (Scoped inside e) :=
  match known : checkReductions e inside with
  | .ok () => isTrue known
  | .error _ => isFalse (by rw [Scoped, known]; exact nofun)

section Scoped

variable {inside : Bool} {kind : Element} {a b c : Expr}

@[simp] theorem scoped_const {value : Scalar} {d : Nat} : Scoped inside (const kind value d) := rfl

@[simp] theorem scoped_special {name : String} {extent : Int} {d : Nat} :
    Scoped inside (special name extent d) ↔ (name = reductionIndex → inside = true) := by
  simp [Scoped, checkReductions, pure, Except.pure]

@[simp] theorem scoped_accessor {slot : Int} {layout : Layout} :
    Scoped inside (accessor slot kind layout a) ↔ Scoped inside a := Iff.rfl

@[simp] theorem scoped_load {slot : Int} : Scoped inside (load slot kind a) ↔ Scoped inside a := Iff.rfl

@[simp] theorem scoped_unary {op : UnaryOp} : Scoped inside (unary op kind a) ↔ Scoped inside a := Iff.rfl

@[simp] theorem scoped_binary {op : BinaryOp} :
    Scoped inside (binary op kind a b) ↔ Scoped inside a ∧ Scoped inside b := by
  simp only [Scoped, checkReductions, bind_eq_ok]
  constructor
  · rintro ⟨_, left, right⟩
    exact ⟨left, right⟩
  · rintro ⟨left, right⟩
    exact ⟨(), left, right⟩

@[simp] theorem scoped_select :
    Scoped inside (select kind c a b) ↔ Scoped inside c ∧ Scoped inside a ∧ Scoped inside b := by
  simp only [Scoped, checkReductions, bind_eq_ok]
  constructor
  · rintro ⟨_, condition, _, left, right⟩
    exact ⟨condition, left, right⟩
  · rintro ⟨condition, left, right⟩
    exact ⟨(), condition, (), left, right⟩

@[simp] theorem scoped_reduce {op : Reduction} {extent : Int} :
    Scoped inside (reduce op kind a extent) ↔ inside = false ∧ Scoped true a := by
  cases inside <;> simp [Scoped, checkReductions]

/-- Where there are no reductions and no reduction index, reductions are where they may be. -/
theorem scoped_of_every {e : Expr}
    (free : Every (fun node => (∀ op kind body n, node ≠ .reduce op kind body n)
      ∧ ∀ name extent d, node = .special name extent d → name ≠ reductionIndex) e) : Scoped inside e := by
  induction e with
  | const => rfl
  | special name extent d =>
    exact scoped_special.2 fun index => absurd index ((every_special.1 free).2 _ _ _ rfl)
  | accessor slot kind layout index ih => exact ih (every_accessor.1 free).1
  | load slot kind index ih => exact ih (every_load.1 free).1
  | unary op kind a ih => exact ih (every_unary.1 free).1
  | binary op kind a b iha ihb =>
    obtain ⟨left, right, -⟩ := every_binary.1 free
    exact scoped_binary.2 ⟨iha left, ihb right⟩
  | select kind c a b ihc iha ihb =>
    obtain ⟨condition, left, right, -⟩ := every_select.1 free
    exact scoped_select.2 ⟨ihc condition, iha left, ihb right⟩
  | reduce op kind body extent ih => exact absurd rfl ((every_reduce.1 free).2.1 _ _ _ _)

end Scoped

/-! ## Values -/

/-- The value of an expression where the reduction index has a given binding. Reductions bind it for
    their bodies and for nothing else. -/
def valueAt (env : Environment) (buffers : Buffers) :
    Expr → Option Int → Except Failure Scalar
  | const _ value _, _ => pure value
  | special name _ _, position =>
    match if name = reductionIndex then position else env name with
    | some n => pure (.int n)
    | none => throw .unbound
  | accessor slot kind layout index, position => do
    readAt buffers slot kind layout (← valueAt env buffers index position)
  | load slot kind index, position => do
    loadFrom buffers slot kind (← valueAt env buffers index position)
  | unary op kind a, position => do
    applyUnary op kind (← valueAt env buffers a position)
  | binary op kind a b, position => do
    let x ← valueAt env buffers a position
    let y ← valueAt env buffers b position
    applyBinary op kind a.kind x y
  | select _ condition a b, position => do
    let c ← valueAt env buffers condition position
    if c.truthy then valueAt env buffers a position else valueAt env buffers b position
  | reduce op kind body extent, _ => do
    let acc ← foldBelow extent.toNat
      (fun acc (r : Nat) => do op.step kind acc (← valueAt env buffers body (some (r : Nat))))
      (op.start kind)
    op.finish kind acc

variable {env : Environment} {buffers : Buffers}

/-- Outside of reductions the binding of the reduction index does not matter. -/
theorem valueAt_outside {e : Expr} (scope : Scoped false e) (position other : Option Int) :
    e.valueAt env buffers position = e.valueAt env buffers other := by
  induction e with
  | const => rfl
  | special name extent d =>
    have free : name ≠ reductionIndex := by simpa using scope
    simp only [valueAt, if_neg free]
  | accessor slot kind layout index ih => simp only [valueAt, ih scope]
  | load slot kind index ih => simp only [valueAt, ih scope]
  | unary op kind a ih => simp only [valueAt, ih scope]
  | binary op kind a b iha ihb =>
    obtain ⟨left, right⟩ := scoped_binary.1 scope
    simp only [valueAt, iha left, ihb right]
  | select kind c a b ihc iha ihb =>
    obtain ⟨condition, left, right⟩ := scoped_select.1 scope
    simp only [valueAt, ihc condition, iha left, ihb right]
  -- A reduction binds its index anew, whatever it was.
  | reduce => rfl

/-- Inside of a reduction evaluation leaves its index bound: there is no other reduction to take the
    binding away. -/
theorem position_evaluateFrom {e : Expr} (scope : Scoped true e) {position after : Option Int}
    {value : Scalar} (known : e.evaluateFrom env buffers position = .ok (value, after)) :
    after = position := by
  induction e generalizing position value after with
  | const =>
    cases known
    rfl
  | special name extent d =>
    unfold evaluateFrom at known
    cases bound : if name = reductionIndex then position else env name with
    | none =>
      rw [bound] at known
      cases known
    | some n =>
      rw [bound] at known
      cases known
      rfl
  | accessor slot kind layout index ih =>
    simp only [evaluateFrom, bind_eq_ok, pure_eq_ok, Prod.exists, Prod.mk.injEq] at known
    obtain ⟨_, _, first, _, _, _, rfl⟩ := known
    exact ih scope first
  | load slot kind index ih =>
    simp only [evaluateFrom, bind_eq_ok, pure_eq_ok, Prod.exists, Prod.mk.injEq] at known
    obtain ⟨_, _, first, _, _, _, rfl⟩ := known
    exact ih scope first
  | unary op kind a ih =>
    simp only [evaluateFrom, bind_eq_ok, pure_eq_ok, Prod.exists, Prod.mk.injEq] at known
    obtain ⟨_, _, first, _, _, _, rfl⟩ := known
    exact ih scope first
  | binary op kind a b iha ihb =>
    obtain ⟨left, right⟩ := scoped_binary.1 scope
    simp only [evaluateFrom, bind_eq_ok, pure_eq_ok, Prod.exists, Prod.mk.injEq] at known
    -- The second operand is evaluated with the binding that the first one leaves.
    obtain ⟨_, _, first, _, _, second, _, _, _, rfl⟩ := known
    exact (ihb right second).trans (iha left first)
  | select kind c a b ihc iha ihb =>
    obtain ⟨condition, left, right⟩ := scoped_select.1 scope
    simp only [evaluateFrom, bind_eq_ok, Prod.exists] at known
    obtain ⟨_, between, first, known⟩ := known
    have same : between = position := ihc condition first
    subst same
    split at known
    · exact iha left known
    · exact ihb right known
  | reduce => simp at scope

/-- After one operand has been evaluated the other one has the value that it had before. -/
theorem valueAt_after {inside : Bool} {a b : Expr} (left : Scoped inside a) (right : Scoped inside b)
    {position after : Option Int} {value : Scalar}
    (known : a.evaluateFrom env buffers position = .ok (value, after)) :
    b.valueAt env buffers after = b.valueAt env buffers position := by
  -- Outside of reductions the binding may be lost but is not used, inside it is not lost.
  cases inside with
  | false => exact valueAt_outside right ..
  | true => rw [position_evaluateFrom left known]

theorem fst_pair (x : Except Failure Scalar) (after : Option Int) :
    Prod.fst <$> (do return (← x, after)) = x := by
  cases x <;> rfl

/-- A reduction takes the first part of every result of its body. -/
theorem evaluateFrom_reduce (op : Reduction) (kind : Element) (body : Expr) (extent : Int)
    (position : Option Int) :
    (reduce op kind body extent).evaluateFrom env buffers position
      = foldBelow extent.toNat
          (fun acc (r : Nat) => body.evaluateFrom env buffers (some (r : Nat)) >>=
            fun result => op.step kind acc result.1)
          (op.start kind)
        >>= fun acc => op.finish kind acc >>= fun x => pure (x, none) := rfl

theorem fst_evaluateFrom {e : Expr} {inside : Bool} (scope : Scoped inside e)
    (position : Option Int) :
    Prod.fst <$> e.evaluateFrom env buffers position = e.valueAt env buffers position := by
  induction e generalizing inside position with
  | const => rfl
  | special name extent d =>
    unfold evaluateFrom valueAt
    cases if name = reductionIndex then position else env name <;> rfl
  | accessor slot kind layout index ih =>
    rw [valueAt, ← ih scope position, evaluateFrom]
    cases index.evaluateFrom env buffers position with
    | error => rfl
    | ok => exact fst_pair ..
  | load slot kind index ih =>
    rw [valueAt, ← ih scope position, evaluateFrom]
    cases index.evaluateFrom env buffers position with
    | error => rfl
    | ok => exact fst_pair ..
  | unary op kind a ih =>
    rw [valueAt, ← ih scope position, evaluateFrom]
    cases a.evaluateFrom env buffers position with
    | error => rfl
    | ok => exact fst_pair ..
  | binary op kind a b iha ihb =>
    obtain ⟨left, right⟩ := scoped_binary.1 scope
    rw [valueAt, ← iha left position, evaluateFrom]
    cases known : a.evaluateFrom env buffers position with
    | error => rfl
    | ok result =>
      obtain ⟨x, after⟩ := result
      rw [ok_map, ok_bind, ok_bind, ← valueAt_after left right known, ← ihb right after]
      dsimp only
      cases b.evaluateFrom env buffers after with
      | error => rfl
      | ok => exact fst_pair ..
  | select kind c a b ihc iha ihb =>
    obtain ⟨condition, left, right⟩ := scoped_select.1 scope
    rw [valueAt, ← ihc condition position, evaluateFrom]
    cases known : c.evaluateFrom env buffers position with
    | error => rfl
    | ok result =>
      obtain ⟨x, after⟩ := result
      rw [ok_map, ok_bind, ok_bind, ← valueAt_after condition left known,
        ← valueAt_after condition right known]
      dsimp only
      split
      · exact iha left after
      · exact ihb right after
  | reduce op kind body extent ih =>
    obtain ⟨-, within⟩ := scoped_reduce.1 scope
    -- Step by step the loop over the body is the one over its values.
    have same : (fun acc (r : Nat) => body.evaluateFrom env buffers (some (r : Nat)) >>=
          fun result => op.step kind acc result.1)
        = (fun acc (r : Nat) => do op.step kind acc (← body.valueAt env buffers (some (r : Nat)))) := by
      funext acc r
      rw [← ih within]
      cases body.evaluateFrom env buffers (some (r : Nat)) with
      | error => rfl
      | ok => rfl
    rw [evaluateFrom_reduce, same, valueAt]
    cases foldBelow extent.toNat (fun acc (r : Nat) => do
        op.step kind acc (← body.valueAt env buffers (some (r : Nat)))) (op.start kind) with
    | error => rfl
    | ok => exact fst_pair ..

/-- The value of an expression is its value at any point. -/
theorem evaluate_eq_valueAt {e : Expr} (scope : Scoped false e) (position : Option Int) :
    e.evaluate env buffers = e.valueAt env buffers position := by
  rw [evaluate, fst_evaluateFrom scope, valueAt_outside scope]

end StridedArray.Expr
