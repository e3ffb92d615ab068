import StridedArray.Proofs.Expr.Arithmetic

/-! # Values are of their kinds

Conditions have truth values and expressions of the integer kind have integers, whatever the buffers hold.

* `Expr.holds_readAt`, `Expr.holds_loadFrom` — what is read is of the kind that it is read as;
* `Expr.truth_valueAt` — truth values;
* `Expr.Peaked`, `Expr.number_valueAt` — integers, if no maximum is over nothing. -/

namespace StridedArray.Expr

variable {env : Environment} {buffers : Buffers} {position : Option Int} {e : Expr} {x : Scalar}

/-! ## Reads -/

theorem holds_readAt {slot : Int} {kind : Element} {layout : Layout} {place : Scalar}
    (read : readAt buffers slot kind layout place = .ok x) : kind.Holds x := by
  unfold readAt at read
  simp only [throw_bind, refuse_eq_ok] at read
  obtain ⟨-, read⟩ := read
  split at read
  · obtain ⟨address, -, read⟩ := bind_eq_ok.1 read
    cases address with
    | none =>
      cases read
      exact Element.holds_zero kind
    | some offset =>
      obtain ⟨_, -, coerced⟩ := bind_eq_ok.1 read
      exact Element.holds_coerce coerced
  · cases read

theorem holds_loadFrom {slot : Int} {kind : Element} {place : Scalar}
    (read : loadFrom buffers slot kind place = .ok x) : kind.Holds x := by
  unfold loadFrom at read
  split at read
  · split at read
    · cases read
    · obtain ⟨_, -, coerced⟩ := bind_eq_ok.1 read
      exact Element.holds_coerce coerced
  · cases read

/-! ## Truth values -/

theorem truth_applyBinary {op : BinaryOp} {kind : Element} {y z : Scalar} (takes : op.Takes kind)
    (truths : kind = .bool → (∃ b, x = .bool b) ∧ ∃ b, y = .bool b) (result : op.resultKind kind = .bool)
    (value : applyBinary op .bool kind x y = .ok z) : ∃ b, z = .bool b := by
  obtain ⟨c, applied, same⟩ : ∃ c, op.apply kind x y = .ok c ∧ c = z := by simpa [applyBinary] using value
  subst same
  by_cases compares : op = .cmplt ∨ op = .cmpgt
  · rcases compares with rfl | rfl <;> exact ⟨_, (Except.ok.inj applied).symm⟩
  · obtain rfl : kind = .bool := by
      rw [← result]
      cases op <;> first | rfl | exact absurd (.inl rfl) compares | exact absurd (.inr rfl) compares
    obtain ⟨⟨a, rfl⟩, b, rfl⟩ := truths rfl
    cases op with
    | idiv => cases takes
    | mod => cases takes
    | _ => cases a <;> cases b <;> exact ⟨_, (Except.ok.inj applied).symm⟩

/-- The values of conditions are truth values. -/
theorem truth_valueAt (typed : Typed e) (condition : e.kind = .bool)
    (value : e.valueAt env buffers position = .ok x) : ∃ b, x = .bool b := by
  induction e generalizing x with
  | const kind value d =>
    cases value
    obtain rfl : kind = .bool := condition
    exact every_const.1 typed
  | special => cases condition
  | accessor slot kind layout index ih =>
    obtain rfl : kind = .bool := condition
    simp only [valueAt, bind_eq_ok] at value
    obtain ⟨_, -, read⟩ := value
    exact holds_readAt read
  | load slot kind index ih =>
    obtain rfl : kind = .bool := condition
    simp only [valueAt, bind_eq_ok] at value
    obtain ⟨_, -, read⟩ := value
    exact holds_loadFrom read
  | unary op kind a ih =>
    obtain rfl : kind = .bool := condition
    simp only [valueAt, bind_eq_ok] at value
    obtain ⟨y, -, applied⟩ := value
    obtain ⟨-, takes⟩ := every_unary.1 typed
    cases op with
    | neg => exact absurd rfl takes.2
    | sin => cases takes.2
    | cos => cases takes.2
    | cast => exact ⟨_, (Except.ok.inj applied).symm⟩
  | binary op kind a b iha ihb =>
    obtain rfl : kind = .bool := condition
    obtain ⟨typedLeft, typedRight, same, takes, result⟩ := every_binary.1 typed
    simp only [valueAt, bind_eq_ok] at value
    obtain ⟨y, left, z, right, applied⟩ := value
    exact truth_applyBinary takes
      (fun truth => ⟨iha typedLeft truth left, ihb typedRight (same ▸ truth) right⟩) result.symm applied
  | select kind c a b ihc iha ihb =>
    obtain rfl : kind = .bool := condition
    obtain ⟨-, typedLeft, typedRight, -, kindLeft, kindRight⟩ := every_select.1 typed
    simp only [valueAt, bind_eq_ok] at value
    obtain ⟨y, -, chosen⟩ := value
    split at chosen
    · exact iha typedLeft kindLeft chosen
    · exact ihb typedRight kindRight chosen
  | reduce op kind body extent ih => exact absurd condition (every_reduce.1 typed).2.2

/-! ## Integers -/

/-- No maximum is taken over nothing, which would be minus infinity. -/
abbrev Peaked (e : Expr) : Prop :=
  Every (fun node => ∀ kind body extent, node = .reduce .max kind body extent → 1 ≤ extent) e

theorem number_foldlM {P : Int → Prop} {rs : List Nat} {f : Nat → Except Failure Scalar}
    (numbers : ∀ r ∈ rs, ∀ x, f r = .ok x → ∃ n, x = .int n ∧ P n) {acc : Scalar}
    (begun : (∃ n, acc = .int n ∧ P n) ∨ acc = .float Binary64.negativeInfinity ∧ rs ≠ [])
    (done : rs.foldlM (fun acc r => do Reduction.max.step .int32 acc (← f r)) acc = .ok x) :
    ∃ n, x = .int n ∧ P n := by
  induction rs generalizing acc with
  | nil =>
    cases done
    exact begun.resolve_right fun none => none.2 rfl
  | cons r rs inductionHypothesis =>
    simp only [List.foldlM_cons, bind_eq_ok] at done
    obtain ⟨next, ⟨y, known, step⟩, rest⟩ := done
    obtain ⟨here, others⟩ := List.forall_mem_cons.1 numbers
    obtain ⟨n, rfl, good⟩ := here y known
    cases step
    refine inductionHypothesis others (.inl ?_) rest
    rcases begun with ⟨m, rfl, before⟩ | ⟨rfl, -⟩
    · unfold Scalar.larger
      split
      · exact ⟨n, rfl, good⟩
      · exact ⟨m, rfl, before⟩
    · exact ⟨n, Scalar.larger_negativeInfinity n, good⟩

/-- Expressions of the integer kind have integers as values. -/
theorem number_valueAt (typed : Typed e) (whole : e.kind = .int32) (peaked : Peaked e)
    (value : e.valueAt env buffers position = .ok x) : ∃ n, x = .int n := by
  have words : ∀ {x}, Element.int32.Holds x → ∃ n, x = .int n := fun ⟨n, same, _⟩ => ⟨n, same⟩
  induction e generalizing x position with
  | const kind value d =>
    cases value
    obtain rfl : kind = .int32 := whole
    exact words (every_const.1 typed)
  | special name extent d =>
    unfold valueAt at value
    split at value
    · cases value
      exact ⟨_, rfl⟩
    · cases value
  | accessor slot kind layout index ih =>
    obtain rfl : kind = .int32 := whole
    simp only [valueAt, bind_eq_ok] at value
    obtain ⟨_, -, read⟩ := value
    exact words (holds_readAt read)
  | load slot kind index ih =>
    obtain rfl : kind = .int32 := whole
    simp only [valueAt, bind_eq_ok] at value
    obtain ⟨_, -, read⟩ := value
    exact words (holds_loadFrom read)
  | unary op kind a ih =>
    obtain rfl : kind = .int32 := whole
    simp only [valueAt, bind_eq_ok] at value
    obtain ⟨y, -, applied⟩ := value
    obtain ⟨-, takes⟩ := every_unary.1 typed
    cases op with
    | neg => exact words (Element.holds_coerce applied)
    | cast => exact words (Element.holds_coerce applied)
    | sin => cases takes.2
    | cos => cases takes.2
  | binary op kind a b iha ihb =>
    obtain rfl : kind = .int32 := whole
    simp only [valueAt, applyBinary, bind_eq_ok] at value
    obtain ⟨y, -, z, -, c, -, coerced⟩ := value
    exact words (Element.holds_coerce coerced)
  | select kind c a b ihc iha ihb =>
    obtain rfl : kind = .int32 := whole
    obtain ⟨-, typedLeft, typedRight, -, kindLeft, kindRight⟩ := every_select.1 typed
    obtain ⟨-, peakedLeft, peakedRight, -⟩ := every_select.1 peaked
    simp only [valueAt, bind_eq_ok] at value
    obtain ⟨y, -, chosen⟩ := value
    split at chosen
    · exact iha typedLeft kindLeft peakedLeft chosen
    · exact ihb typedRight kindRight peakedRight chosen
  | reduce op kind body extent ih =>
    obtain rfl : kind = .int32 := whole
    obtain ⟨typedBody, kindBody, -⟩ := every_reduce.1 typed
    obtain ⟨peakedBody, several⟩ := every_reduce.1 peaked
    simp only [valueAt, foldBelow_eq, bind_eq_ok] at value
    obtain ⟨acc, loop, last⟩ := value
    cases op with
    | add => exact words (Element.holds_coerce last)
    | max =>
      cases last
      -- What a maximum begins with is no integer, so there has to be a position.
      have positions : List.range extent.toNat ≠ [] := by
        have := several _ _ _ rfl
        rw [Ne, List.range_eq_nil]
        omega
      have numbers : ∀ r ∈ List.range extent.toNat, ∀ x, body.valueAt env buffers (some (r : Nat)) = .ok x →
          ∃ n, x = .int n ∧ True := fun r _ y known => by
        obtain ⟨n, same⟩ := ih typedBody kindBody peakedBody known
        exact ⟨n, same, trivial⟩
      obtain ⟨n, same, -⟩ := number_foldlM numbers (.inr ⟨rfl, positions⟩) loop
      exact ⟨n, same⟩

theorem whole_valueAt (typed : Typed e) (integral : e.kind ≠ .float32) (peaked : Peaked e)
    (value : e.valueAt env buffers position = .ok x) : ∃ n, x.whole? = some n := by
  cases kind : e.kind with
  | bool =>
    obtain ⟨b, rfl⟩ := truth_valueAt typed kind value
    exact ⟨_, rfl⟩
  | int32 =>
    obtain ⟨n, rfl⟩ := number_valueAt typed kind peaked value
    exact ⟨n, rfl⟩
  | float32 => exact absurd kind integral

end StridedArray.Expr
