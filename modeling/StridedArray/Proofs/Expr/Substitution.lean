import StridedArray.Proofs.Expr.Scopes

/-! # Substitution is evaluation with another binding

An expression in place of a variable is evaluated wherever the variable is read, also in reductions and behind them.
If it has no reductions itself and does not read their index, it has the same value everywhere and leaves the binding
of the index as it is, so that the variable could have been bound to that value.

* `substitute_accessor` and its neighbours — the nodes above a variable; `kind_substitute` — their kinds stay;
* `evaluateFrom_of_free` — an expression that has the same value everywhere;
* `evaluateFrom_substitute` — evaluation after substitution; `substitute_of_absent` — nothing to be replaced;
* `evaluate_substituteShared` — both, for expressions whose operands are shared. -/

namespace StridedArray.Expr

variable {env : Environment} {buffers : Buffers} {position : Option Int} {name : String} {a b c e : Expr}
  {kind : Element} {n : Int}

/-! ## Node by node -/

theorem substitute_special {other : String} {extent : Int} {d : Nat} :
    (special other extent d).substitute name b = if other = name then b else special other extent d := rfl

@[simp] theorem substitute_accessor {slot : Int} {layout : Layout} :
    (accessor slot kind layout a).substitute name b = accessor slot kind layout (a.substitute name b) := rfl

@[simp] theorem substitute_load {slot : Int} :
    (load slot kind a).substitute name b = load slot kind (a.substitute name b) := rfl

@[simp] theorem substitute_unary {op : UnaryOp} :
    (unary op kind a).substitute name b = unary op kind (a.substitute name b) := rfl

@[simp] theorem substitute_binary {op : BinaryOp} {e : Expr} :
    (binary op kind a e).substitute name b = binary op kind (a.substitute name b) (e.substitute name b) := rfl

@[simp] theorem substitute_select {e : Expr} :
    (select kind c a e).substitute name b
      = select kind (c.substitute name b) (a.substitute name b) (e.substitute name b) := rfl

@[simp] theorem substitute_reduce {op : Reduction} {extent : Int} :
    (reduce op kind a extent).substitute name b = reduce op kind (a.substitute name b) extent := rfl

/-- An integer in place of a variable changes no kinds. -/
theorem kind_substitute (whole : b.kind = .int32) : (e.substitute name b).kind = e.kind := by
  cases e with
  | special other extent d =>
    rw [substitute_special]
    split
    · exact whole
    · rfl
  | _ => rfl

/-! ## The same value everywhere -/

theorem peaked_of_reduces (none : e.reduces = false) : Peaked e := by
  induction e with
  | const => exact every_const.2 nofun
  | special => exact every_special.2 nofun
  | accessor slot kind layout index ih => exact every_accessor.2 ⟨ih none, nofun⟩
  | load slot kind index ih => exact every_load.2 ⟨ih none, nofun⟩
  | unary op kind a ih => exact every_unary.2 ⟨ih none, nofun⟩
  | binary op kind a b iha ihb =>
    obtain ⟨left, right⟩ := Bool.or_eq_false_iff.1 none
    exact every_binary.2 ⟨iha left, ihb right, nofun⟩
  | select kind c a b ihc iha ihb =>
    obtain ⟨front, right⟩ := Bool.or_eq_false_iff.1 none
    obtain ⟨condition, left⟩ := Bool.or_eq_false_iff.1 front
    exact every_select.2 ⟨ihc condition, iha left, ihb right, nofun⟩
  | reduce => cases none

/-- An expression without reductions and their index has the same value everywhere, and leaves the binding of the index
    as it is. -/
theorem evaluateFrom_of_free {x : Scalar} (none : b.reduces = false) (free : b.readsIndex = false)
    (known : b.evaluate env buffers = .ok x) (position : Option Int) :
    b.evaluateFrom env buffers position = .ok (x, position) := by
  -- No binding is taken away, so the value is the one that does not depend on the binding.
  have orderly := orderly_of_reduces none
  have value : ∀ position, Prod.fst <$> b.evaluateFrom env buffers position = b.valueAt env buffers position := by
    intro position
    refine (fst_evaluateFrom_or_lost (.inl rfl)).resolve_right ?_
    rintro ⟨-, reason | ⟨changed, -⟩⟩
    · exact absurd (orderly.symm.trans reason) nofun
    · exact changed rfl
  have here : Prod.fst <$> b.evaluateFrom env buffers position = .ok x := by
    rw [value, valueAt_of_readsIndex free position (env reductionIndex), ← value]
    exact known
  obtain ⟨⟨_, after⟩, evaluated, rfl⟩ := map_eq_ok.1 here
  obtain rfl := after_of_reduces none evaluated
  exact evaluated

/-! ## Substitution -/

/-- A substituted expression is evaluated as if the variable were bound to the value that is in its place, with the same
    value or failure and the same binding of the reduction index behind it. -/
theorem evaluateFrom_substitute (outer : name ≠ reductionIndex) (whole : b.kind = .int32)
    (same : ∀ position, b.evaluateFrom env buffers position = .ok (.int n, position)) :
    (e.substitute name b).evaluateFrom env buffers position
      = e.evaluateFrom (Function.update env name (some n)) buffers position := by
  induction e generalizing position with
  | const => rfl
  | special other extent d =>
    rw [substitute_special]
    by_cases here : other = name
    · subst here
      simp only [if_pos, same, evaluateFrom, if_neg outer, Function.update_self]
      rfl
    · simp only [if_neg here, evaluateFrom, Function.update_of_ne here]
  | accessor slot kind layout index ih => simp only [substitute_accessor, evaluateFrom, ih]
  | load slot kind index ih => simp only [substitute_load, evaluateFrom, ih]
  | unary op kind a ih => simp only [substitute_unary, evaluateFrom, ih]
  | binary op kind a e iha ihe => simp only [substitute_binary, evaluateFrom, iha, ihe, kind_substitute whole]
  | select kind c a e ihc iha ihe => simp only [substitute_select, evaluateFrom, ihc, iha, ihe]
  -- The bodies agree whatever the index is bound to, so all steps of the loop do.
  | reduce op kind body extent ih => simp only [substitute_reduce, evaluateFrom, ih]

/-- Where no variable has the name nothing is replaced. -/
theorem substitute_of_absent (absent : Every (fun node => ∀ extent d, node ≠ special name extent d) e) :
    e.substitute name b = e := by
  induction e with
  | const => rfl
  | special other extent d =>
    refine if_neg fun here => every_special.1 absent extent d ?_
    rw [here]
  | accessor slot kind layout index ih => rw [substitute_accessor, ih (every_accessor.1 absent).1]
  | load slot kind index ih => rw [substitute_load, ih (every_load.1 absent).1]
  | unary op kind a ih => rw [substitute_unary, ih (every_unary.1 absent).1]
  | binary op kind a e iha ihe =>
    obtain ⟨left, right, -⟩ := every_binary.1 absent
    rw [substitute_binary, iha left, ihe right]
  | select kind c a e ihc iha ihe =>
    obtain ⟨condition, left, right, -⟩ := every_select.1 absent
    rw [substitute_select, ihc condition, iha left, ihe right]
  | reduce op kind body extent ih => rw [substitute_reduce, ih (every_reduce.1 absent).1]

/-- An integer expression without reductions and their index, in place of a variable: an expression is evaluated as it
    would be with the variable bound to the value, with the same value or failure, and stays as it is if it does not
    mention the variable. The expression may mention the variable that it replaces. -/
theorem evaluate_substituteShared {x : Scalar} (outer : name ≠ reductionIndex) (typed : Typed b)
    (whole : b.kind = .int32) (none : b.reduces = false) (free : b.readsIndex = false)
    (known : b.evaluate env buffers = .ok x) :
    ∃ n, x = .int n ∧ ∀ e : Expr,
      (e.substituteShared name b).evaluate env buffers = e.evaluate (Function.update env name (some n)) buffers
        ∧ (Every (fun node => ∀ extent d, node ≠ special name extent d) e → e.substituteShared name b = e) := by
  have same := evaluateFrom_of_free none free known
  have value : b.valueAt env buffers (env reductionIndex) = .ok x :=
    ((evaluate_or_lost env buffers b).resolve_right fun lost => nomatch known.symm.trans lost.1).symm.trans known
  obtain ⟨n, rfl⟩ := number_valueAt typed whole (peaked_of_reduces none) value
  refine ⟨n, rfl, fun e => ?_⟩
  rw [substituteShared_eq]
  refine ⟨?_, substitute_of_absent⟩
  rw [evaluate, evaluate, evaluateFrom_substitute outer whole same, Function.update_of_ne outer.symm]

/-- The position after a variable in place of the variable, in a sum over a table that is read at places that stand in
    another table. -/
theorem evaluate_substituteShared_nextPosition :
    let next := binary .add .int32 (outputPosition 4) (int32 1)
    let place := accessor 1 .int32 (.rowMajor [2]) (reductionPosition 2)
    let found := accessor 0 .int32 (.rowMajor [4]) (binary .add .int32 (outputPosition 4) place)
    let e := reduce .add .int32 (binary .add .int32 found (reductionPosition 2)) 2
    let buffers : Buffers := fun slot =>
      if slot = 0 then some #[.int 10, .int 20, .int 30, .int 40] else some #[.int 0, .int 1]
    next.evaluate (fun name => if name = outputIndex then some 1 else none) buffers = .ok (.int 2)
      ∧ (e.substituteShared outputIndex next).evaluate (fun name => if name = outputIndex then some 1 else none) buffers
        = .ok (.int 71)
      ∧ place.substituteShared outputIndex next = place := by
  intro next place found e buffers
  have known : next.evaluate (fun name => if name = outputIndex then some 1 else none) buffers = .ok (.int 2) := rfl
  have typed : Typed next :=
    every_binary.2 ⟨every_special.2 trivial, typed_int32 1, rfl, trivial, rfl⟩
  obtain ⟨n, ⟨⟩, law⟩ := evaluate_substituteShared (show outputIndex ≠ reductionIndex by decide) typed rfl rfl rfl known
  refine ⟨known, (law e).1.trans rfl, (law place).2 (every_accessor.2 ⟨every_special.2 ?_, nofun⟩)⟩
  intro extent d same
  injection same with names
  exact absurd names (by decide)

end StridedArray.Expr
