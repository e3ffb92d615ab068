import StridedArray.Proofs.Expr.Values

/-! # Evaluation in turn

An operand is evaluated with the binding of the reduction index that the operand before it leaves, and a reduction
leaves none. So operands depend on what is evaluated before them, unless reductions and their index are where they
should be. These are the facts that hold of every expression all the same.

* `evaluateFrom_unary_eq_ok` and its neighbours — how the nodes of an expression are evaluated;
* `after_evaluateFrom` — the binding of the reduction index stays or is lost; `evaluateFrom_later` — what still has a
  value has the same one;
* `truth_evaluateFrom`, `holds_evaluateFrom` — values are of their kinds. -/

namespace StridedArray.Expr

variable {env : Environment} {buffers : Buffers} {position after : Option Int} {kind : Element} {a b c e : Expr}
  {x : Scalar}

/-! ## Node by node -/

theorem evaluateFrom_special_eq_ok {name : String} {extent : Int} {d : Nat} :
    (special name extent d).evaluateFrom env buffers position = .ok (x, after)
      ↔ ∃ n, (if name = reductionIndex then position else env name) = some n ∧ x = .int n ∧ after = position := by
  unfold evaluateFrom
  cases if name = reductionIndex then position else env name with
  | none =>
    constructor
    · rintro ⟨⟩
    · rintro ⟨n, ⟨⟩, -⟩
  | some n =>
    simp only [pure_eq_ok, Prod.mk.injEq, Option.some_inj, exists_eq_left']
    exact and_congr eq_comm eq_comm

theorem evaluateFrom_accessor_eq_ok {slot : Int} {layout : Layout} :
    (accessor slot kind layout a).evaluateFrom env buffers position = .ok (x, after)
      ↔ ∃ place, a.evaluateFrom env buffers position = .ok (place, after)
        ∧ readAt buffers slot kind layout place = .ok x := by
  simp only [evaluateFrom, bind_eq_ok, pure_eq_ok, Prod.exists, Prod.mk.injEq]
  constructor
  · rintro ⟨place, _, first, _, read, rfl, rfl⟩
    exact ⟨place, first, read⟩
  · rintro ⟨place, first, read⟩
    exact ⟨place, after, first, x, read, rfl, rfl⟩

theorem evaluateFrom_load_eq_ok {slot : Int} :
    (load slot kind a).evaluateFrom env buffers position = .ok (x, after)
      ↔ ∃ place, a.evaluateFrom env buffers position = .ok (place, after)
        ∧ loadFrom buffers slot kind place = .ok x := by
  simp only [evaluateFrom, bind_eq_ok, pure_eq_ok, Prod.exists, Prod.mk.injEq]
  constructor
  · rintro ⟨place, _, first, _, read, rfl, rfl⟩
    exact ⟨place, first, read⟩
  · rintro ⟨place, first, read⟩
    exact ⟨place, after, first, x, read, rfl, rfl⟩

theorem evaluateFrom_unary_eq_ok {op : UnaryOp} :
    (unary op kind a).evaluateFrom env buffers position = .ok (x, after)
      ↔ ∃ y, a.evaluateFrom env buffers position = .ok (y, after) ∧ applyUnary op kind y = .ok x := by
  simp only [evaluateFrom, bind_eq_ok, pure_eq_ok, Prod.exists, Prod.mk.injEq]
  constructor
  · rintro ⟨y, _, first, _, applied, rfl, rfl⟩
    exact ⟨y, first, applied⟩
  · rintro ⟨y, first, applied⟩
    exact ⟨y, after, first, x, applied, rfl, rfl⟩

theorem evaluateFrom_binary_eq_ok {op : BinaryOp} :
    (binary op kind a b).evaluateFrom env buffers position = .ok (x, after)
      ↔ ∃ y between z, a.evaluateFrom env buffers position = .ok (y, between)
        ∧ b.evaluateFrom env buffers between = .ok (z, after) ∧ applyBinary op kind a.kind y z = .ok x := by
  simp only [evaluateFrom, bind_eq_ok, pure_eq_ok, Prod.exists, Prod.mk.injEq]
  constructor
  · rintro ⟨y, between, first, z, _, second, _, applied, rfl, rfl⟩
    exact ⟨y, between, z, first, second, applied⟩
  · rintro ⟨y, between, z, first, second, applied⟩
    exact ⟨y, between, first, z, after, second, x, applied, rfl, rfl⟩

theorem evaluateFrom_select_eq_ok :
    (select kind c a b).evaluateFrom env buffers position = .ok (x, after)
      ↔ ∃ y between, c.evaluateFrom env buffers position = .ok (y, between)
        ∧ (if y.truthy then a else b).evaluateFrom env buffers between = .ok (x, after) := by
  simp only [evaluateFrom, bind_eq_ok, Prod.exists]
  refine exists_congr fun y => exists_congr fun between => and_congr_right fun _ => ?_
  cases y.truthy <;> rfl

theorem evaluateFrom_reduce_eq_ok {op : Reduction} {extent : Int} :
    (reduce op kind a extent).evaluateFrom env buffers position = .ok (x, after)
      ↔ after = none ∧ ∃ acc, (List.range extent.toNat).foldlM
        (fun acc (r : Nat) => do op.step kind acc (← Prod.fst <$> a.evaluateFrom env buffers (some (r : Nat))))
        (op.start kind) = .ok acc ∧ op.finish kind acc = .ok x := by
  have same : (fun acc (r : Nat) => a.evaluateFrom env buffers (some (r : Nat)) >>=
        fun result => op.step kind acc result.1)
      = (fun acc (r : Nat) => do op.step kind acc (← Prod.fst <$> a.evaluateFrom env buffers (some (r : Nat)))) := by
    funext acc r
    cases a.evaluateFrom env buffers (some (r : Nat)) <;> rfl
  rw [evaluateFrom_reduce, same, foldBelow_eq]
  simp only [bind_eq_ok, pure_eq_ok, Prod.mk.injEq]
  constructor
  · rintro ⟨acc, loop, _, last, rfl, rfl⟩
    exact ⟨rfl, acc, loop, last⟩
  · rintro ⟨rfl, acc, loop, last⟩
    exact ⟨acc, loop, x, last, rfl, rfl⟩

theorem evaluate_eq_ok : e.evaluate env buffers = .ok x
    ↔ ∃ after, e.evaluateFrom env buffers (env reductionIndex) = .ok (x, after) := by
  rw [evaluate, map_eq_ok]
  constructor
  · rintro ⟨⟨_, after⟩, known, rfl⟩
    exact ⟨after, known⟩
  · rintro ⟨after, known⟩
    exact ⟨(x, after), known, rfl⟩

/-! ## Bindings and values -/

/-- The binding of the reduction index stays as it is, or a reduction has taken it away. -/
theorem after_evaluateFrom (known : e.evaluateFrom env buffers position = .ok (x, after)) :
    after = position ∨ after = none := by
  -- What one operand leaves the next one may take away.
  have later : ∀ {first second third : Option Int}, second = first ∨ second = none → third = second ∨ third = none →
      third = first ∨ third = none := by
    rintro _ _ _ (rfl | rfl) (rfl | rfl) <;> simp
  induction e generalizing position x after with
  | const =>
    cases known
    exact .inl rfl
  | special =>
    obtain ⟨n, -, -, rfl⟩ := evaluateFrom_special_eq_ok.1 known
    exact .inl rfl
  | accessor slot kind layout index ih =>
    obtain ⟨place, first, -⟩ := evaluateFrom_accessor_eq_ok.1 known
    exact ih first
  | load slot kind index ih =>
    obtain ⟨place, first, -⟩ := evaluateFrom_load_eq_ok.1 known
    exact ih first
  | unary op kind a ih =>
    obtain ⟨y, first, -⟩ := evaluateFrom_unary_eq_ok.1 known
    exact ih first
  | binary op kind a b iha ihb =>
    obtain ⟨y, between, z, first, second, -⟩ := evaluateFrom_binary_eq_ok.1 known
    exact later (iha first) (ihb second)
  | select kind c a b ihc iha ihb =>
    obtain ⟨y, between, first, second⟩ := evaluateFrom_select_eq_ok.1 known
    split at second
    · exact later (ihc first) (iha second)
    · exact later (ihc first) (ihb second)
  | reduce op kind body extent ih => exact .inr (evaluateFrom_reduce_eq_ok.1 known).1

/-- What can be evaluated where the reduction index is not bound has the same value where it is. -/
theorem evaluateFrom_of_none (known : e.evaluateFrom env buffers none = .ok (x, after)) :
    ∃ left, e.evaluateFrom env buffers position = .ok (x, left) := by
  -- An operand after another one finds the same binding, or none as it did before.
  have later : ∀ {b : Expr} {y : Scalar} {first second : Option Int}, first = position ∨ first = none →
      (∃ left, b.evaluateFrom env buffers position = .ok (y, left)) →
      b.evaluateFrom env buffers none = .ok (y, second) → ∃ left, b.evaluateFrom env buffers first = .ok (y, left) := by
    rintro b y first second (rfl | rfl) here without
    · exact here
    · exact ⟨second, without⟩
  have lost : ∀ {b : Expr} {y : Scalar} {second : Option Int},
      b.evaluateFrom env buffers none = .ok (y, second) → second = none :=
    fun known => (after_evaluateFrom known).elim id id
  induction e generalizing x after with
  | const =>
    cases known
    exact ⟨position, rfl⟩
  | special name extent d =>
    obtain ⟨n, bound, rfl, -⟩ := evaluateFrom_special_eq_ok.1 known
    by_cases index : name = reductionIndex
    · rw [if_pos index] at bound
      cases bound
    · rw [if_neg index] at bound
      exact ⟨position, evaluateFrom_special_eq_ok.2 ⟨n, (if_neg index).trans bound, rfl, rfl⟩⟩
  | accessor slot kind layout index ih =>
    obtain ⟨place, first, read⟩ := evaluateFrom_accessor_eq_ok.1 known
    obtain ⟨left, here⟩ := ih first
    exact ⟨left, evaluateFrom_accessor_eq_ok.2 ⟨place, here, read⟩⟩
  | load slot kind index ih =>
    obtain ⟨place, first, read⟩ := evaluateFrom_load_eq_ok.1 known
    obtain ⟨left, here⟩ := ih first
    exact ⟨left, evaluateFrom_load_eq_ok.2 ⟨place, here, read⟩⟩
  | unary op kind a ih =>
    obtain ⟨y, first, applied⟩ := evaluateFrom_unary_eq_ok.1 known
    obtain ⟨left, here⟩ := ih first
    exact ⟨left, evaluateFrom_unary_eq_ok.2 ⟨y, here, applied⟩⟩
  | binary op kind a b iha ihb =>
    obtain ⟨y, between, z, first, second, applied⟩ := evaluateFrom_binary_eq_ok.1 known
    obtain rfl := lost first
    obtain ⟨middle, here⟩ := iha first
    obtain ⟨left, there⟩ := later (after_evaluateFrom here) (ihb second) second
    exact ⟨left, evaluateFrom_binary_eq_ok.2 ⟨y, middle, z, here, there, applied⟩⟩
  | select kind c a b ihc iha ihb =>
    obtain ⟨y, between, first, chosen⟩ := evaluateFrom_select_eq_ok.1 known
    obtain rfl := lost first
    obtain ⟨middle, here⟩ := ihc first
    have branch : ∃ left, (if y.truthy then a else b).evaluateFrom env buffers position = .ok (x, left) := by
      split at chosen
      · next holds =>
        rw [if_pos holds]
        exact iha chosen
      · next fails =>
        rw [if_neg fails]
        exact ihb chosen
    obtain ⟨left, there⟩ := later (after_evaluateFrom here) branch chosen
    exact ⟨left, evaluateFrom_select_eq_ok.2 ⟨y, middle, here, there⟩⟩
  | reduce op kind body extent ih =>
    obtain ⟨rfl, fold⟩ := evaluateFrom_reduce_eq_ok.1 known
    exact ⟨none, evaluateFrom_reduce_eq_ok.2 ⟨rfl, fold⟩⟩

/-- An operand has the same value after another one as alone, if it has a value there. -/
theorem evaluateFrom_later {y z : Scalar} {between left : Option Int}
    (first : a.evaluateFrom env buffers position = .ok (x, between))
    (alone : b.evaluateFrom env buffers position = .ok (y, left))
    (later : b.evaluateFrom env buffers between = .ok (z, after)) : z = y := by
  rcases after_evaluateFrom first with rfl | rfl
  · exact congrArg Prod.fst (Except.ok.inj (later.symm.trans alone))
  · obtain ⟨_, same⟩ := @evaluateFrom_of_none env buffers position _ _ _ later
    exact congrArg Prod.fst (Except.ok.inj (same.symm.trans alone))

/-- The values of conditions are truth values. -/
theorem truth_evaluateFrom (typed : Typed e) (condition : e.kind = .bool)
    (known : e.evaluateFrom env buffers position = .ok (x, after)) : ∃ b, x = .bool b := by
  induction e generalizing position x after with
  | const kind value d =>
    cases known
    obtain rfl : kind = .bool := condition
    exact every_const.1 typed
  | special => cases condition
  | accessor slot kind layout index ih =>
    obtain rfl : kind = .bool := condition
    obtain ⟨place, -, read⟩ := evaluateFrom_accessor_eq_ok.1 known
    exact holds_readAt read
  | load slot kind index ih =>
    obtain rfl : kind = .bool := condition
    obtain ⟨place, -, read⟩ := evaluateFrom_load_eq_ok.1 known
    exact holds_loadFrom read
  | unary op kind a ih =>
    obtain rfl : kind = .bool := condition
    obtain ⟨y, -, applied⟩ := evaluateFrom_unary_eq_ok.1 known
    obtain ⟨-, takes⟩ := every_unary.1 typed
    cases op with
    | neg => exact absurd rfl takes.2
    | sin => cases takes.2
    | cos => cases takes.2
    | cast => exact ⟨_, (Except.ok.inj applied).symm⟩
  | binary op kind a b iha ihb =>
    obtain rfl : kind = .bool := condition
    obtain ⟨typedLeft, typedRight, same, takes, result⟩ := every_binary.1 typed
    obtain ⟨y, between, z, left, right, applied⟩ := evaluateFrom_binary_eq_ok.1 known
    exact truth_applyBinary takes
      (fun truth => ⟨iha typedLeft truth left, ihb typedRight (same ▸ truth) right⟩) result.symm applied
  | select kind c a b ihc iha ihb =>
    obtain rfl : kind = .bool := condition
    obtain ⟨-, typedLeft, typedRight, -, kindLeft, kindRight⟩ := every_select.1 typed
    obtain ⟨y, between, -, chosen⟩ := evaluateFrom_select_eq_ok.1 known
    split at chosen
    · exact iha typedLeft kindLeft chosen
    · exact ihb typedRight kindRight chosen
  | reduce op kind body extent ih => exact absurd condition (every_reduce.1 typed).2.2

/-- No maximum is taken over more positions than 32-bit integers can count. -/
abbrev Countable (e : Expr) : Prop :=
  Every (fun node => ∀ kind body extent, node = .reduce .max kind body extent → extent ≤ 0x80000000) e

/-- Values are of their kinds where variables are 32-bit integers. -/
theorem holds_evaluateFrom (typed : Typed e) (integral : e.kind ≠ .float32) (peaked : Peaked e) (few : Countable e)
    (words : ∀ name n, env name = some n → Word n) (word : ∀ n ∈ position, Word n)
    (known : e.evaluateFrom env buffers position = .ok (x, after)) : e.kind.Holds x := by
  -- The binding of the reduction index changes on the way, so the claim is for all that are 32-bit integers.
  induction e generalizing position x after with
  | const kind value d =>
    cases known
    exact every_const.1 typed
  | special name extent d =>
    obtain ⟨n, bound, rfl, -⟩ := evaluateFrom_special_eq_ok.1 known
    refine ⟨n, rfl, ?_⟩
    split at bound
    · exact word n bound
    · exact words name n bound
  | accessor slot kind layout index ih =>
    obtain ⟨place, -, read⟩ := evaluateFrom_accessor_eq_ok.1 known
    exact holds_readAt read
  | load slot kind index ih =>
    obtain ⟨place, -, read⟩ := evaluateFrom_load_eq_ok.1 known
    exact holds_loadFrom read
  | unary op kind a ih =>
    obtain ⟨y, -, applied⟩ := evaluateFrom_unary_eq_ok.1 known
    obtain ⟨-, takes⟩ := every_unary.1 typed
    cases op with
    | neg => exact Element.holds_coerce applied
    | cast => exact Element.holds_coerce applied
    | sin => exact absurd takes.2 integral
    | cos => exact absurd takes.2 integral
  | binary op kind a b iha ihb =>
    cases kind with
    | bool => exact truth_evaluateFrom typed rfl known
    | int32 =>
      obtain ⟨y, between, z, -, -, applied⟩ := evaluateFrom_binary_eq_ok.1 known
      rw [applyBinary, bind_eq_ok] at applied
      obtain ⟨_, -, coerced⟩ := applied
      exact Element.holds_coerce coerced
    | float32 => exact absurd rfl integral
  | select kind c a b ihc iha ihb =>
    obtain ⟨-, typedLeft, typedRight, -, kindLeft, kindRight⟩ := every_select.1 typed
    obtain ⟨-, peakedLeft, peakedRight, -⟩ := every_select.1 peaked
    obtain ⟨-, fewLeft, fewRight, -⟩ := every_select.1 few
    obtain ⟨y, between, first, chosen⟩ := evaluateFrom_select_eq_ok.1 known
    have still : ∀ n ∈ between, Word n := by
      rcases after_evaluateFrom first with rfl | rfl
      · exact word
      · rintro n ⟨⟩
    split at chosen
    · have value := iha typedLeft (kindLeft ▸ integral) peakedLeft fewLeft still chosen
      rwa [kindLeft] at value
    · have value := ihb typedRight (kindRight ▸ integral) peakedRight fewRight still chosen
      rwa [kindRight] at value
  | reduce op kind body extent ih =>
    obtain ⟨typedBody, kindBody, counts⟩ := every_reduce.1 typed
    obtain ⟨peakedBody, several⟩ := every_reduce.1 peaked
    obtain ⟨fewBody, bounded⟩ := every_reduce.1 few
    obtain rfl := Element.eq_int32 counts integral
    obtain ⟨-, acc, loop, last⟩ := evaluateFrom_reduce_eq_ok.1 known
    -- A sum is wrapped at the end; a maximum is one of the values of the body, which has to be counted for that.
    cases op with
    | add => exact Element.holds_coerce last
    | max =>
      cases last
      have least := several _ _ _ rfl
      have most := bounded _ _ _ rfl
      have positions : List.range extent.toNat ≠ [] := by
        rw [Ne, List.range_eq_nil]
        omega
      refine number_foldlM (fun r member y value => ?_) (.inr ⟨rfl, positions⟩) loop
      obtain ⟨⟨_, left⟩, evaluated, rfl⟩ := map_eq_ok.1 value
      have below := List.mem_range.1 member
      have here : ∀ n ∈ some (r : Int), Word n := by
        rintro n ⟨⟩
        constructor <;> omega
      have holds := ih typedBody (kindBody ▸ integral) peakedBody fewBody here evaluated
      rwa [kindBody] at holds

end StridedArray.Expr
