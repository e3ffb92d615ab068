import StridedArray.Proofs.Expr.Simplification
import StridedArray.Proofs.Layout.Symbolic

/-! # Row-major positions

A number is taken apart into a multi-index, a multi-index is put together along the strides, and expressions for a
multi-index are built of an expression for a number. Each of them goes through the axes from the last one to the first
and leaves out what an axis does not need, so that axes of extent 1 must not disturb what is carried along: the next
stride, what is left of the number, the number of positions that are spanned.

* `Expr.divisible_gives`, `evaluate_unravelExpr` — the expressions for a multi-index, for every expression of a number,
  reductions and their index included;
* `unravel_bijective` — numbers, multi-indices and expressions agree. -/

namespace StridedArray

open Shape (Inside Positive dot product rowMajorStrides unravel)

/-! ## Numbers of expressions -/

namespace Expr

/-- Quotients and remainders by positive constants have their numbers wherever evaluation begins, whatever binding of
    the reduction index it leaves: constants do not need it. -/
theorem divisible_gives (env : Environment) (buffers : Buffers) (position : Option Int) :
    Divisible fun e n => e.kind = .int32 ∧ ∃ after, Gives env buffers e position after n where
  zero := ⟨rfl, position, gives_int32 (by decide)⟩
  quotient := by
    rintro e n k ⟨whole, after, gives⟩ divisor positive
    have result := Word.fdiv (gives.word whole) positive
    rw [idivScalar, lift_int whole, ok_bind]
    exact division_gives (.inl rfl) whole gives divisor (by omega) result.wrap32_eq result
  remainder := by
    rintro e n k ⟨whole, after, gives⟩ divisor positive
    have result := Word.fmod (p := n) divisor positive
    rw [modScalar, lift_int whole, ok_bind]
    exact division_gives (.inr rfl) whole gives divisor (by omega) result.wrap32_eq result

end Expr

/-! ## Positions and multi-indices -/

/-- Whatever an expression of a position is made of, the expressions for the multi-index have its entries as their
    values. -/
theorem evaluate_unravelExpr {shape : List Int} (positive : Positive shape) (small : product shape < 0x80000000)
    {e : Expr} (whole : e.kind = .int32) {env : Environment} {buffers : Buffers} {p : Int}
    (known : e.evaluate env buffers = .ok (.int p)) (low : 0 ≤ p) (high : p < product shape) :
    ∃ index, unravelExpr shape e = .ok index
      ∧ index.mapM (fun i => i.evaluate env buffers) = .ok ((unravel p shape).map .int) := by
  obtain ⟨after, value⟩ := Expr.evaluate_eq_ok.1 known
  have word : Word p := ⟨by omega, by omega⟩
  have gives := (Expr.gives_iff_of_int32 whole).2 ⟨word, value⟩
  -- Each index is evaluated on its own, from the binding that the position itself was evaluated from.
  obtain ⟨index, ns, built, indices, right⟩ := unravelExpr_divisible
    (Expr.divisible_gives env buffers (env reductionIndex)) ⟨whole, after, gives⟩ positive small
  obtain rfl := right low high
  refine ⟨index, built, mapM_eq_ok.2 (List.forall₂_map_right_iff.2 (indices.imp ?_))⟩
  rintro i n ⟨kind, left, number⟩
  obtain ⟨-, value⟩ := (Expr.gives_iff_of_int32 kind).1 number
  exact Expr.evaluate_eq_ok.2 ⟨left, value⟩

/-- Row-major order is a bijection between the numbers below the size of a shape and its multi-indices: numbers are
    taken apart into multi-indices inside of the shape, these are put together along the strides, and either undoes the
    other. Where the size is counted in 32 bits, the expressions for a multi-index have its entries as their values
    wherever an expression has the number as its own. -/
theorem unravel_bijective {shape : List Int} (positive : Positive shape) :
    (∀ p, 0 ≤ p → p < product shape →
        Inside (unravel p shape) shape ∧ dot (unravel p shape) (rowMajorStrides shape) = p)
      ∧ (∀ index, Inside index shape →
          (0 ≤ dot index (rowMajorStrides shape) ∧ dot index (rowMajorStrides shape) < product shape)
            ∧ unravel (dot index (rowMajorStrides shape)) shape = index)
      ∧ (product shape < 0x80000000 → ∀ (e : Expr) (env : Environment) (buffers : Buffers) (p : Int),
          e.kind = .int32 → e.evaluate env buffers = .ok (.int p) → 0 ≤ p → p < product shape →
          ∃ index, unravelExpr shape e = .ok index
            ∧ index.mapM (fun i => i.evaluate env buffers) = .ok ((unravel p shape).map .int)) := by
  refine ⟨fun p low high => ?_, fun index inside => ?_, fun small e env buffers p whole known low high => ?_⟩
  · exact ⟨Shape.inside_unravel positive p, Shape.ravel_unravel positive low high⟩
  · exact ⟨inside.ravel_bounds, inside.unravel_ravel⟩
  · exact evaluate_unravelExpr positive small whole known low high

/-- A sum that leaves the reduction index unbound and the position in the output: three and two. -/
def sumAndPosition : Expr :=
  .binary .add .int32 (.reduce .add .int32 (.special reductionIndex 3) 3) (.special outputIndex 6)

/-- The last one of two rows of three, with axes of extent 1 in front of the rows, between them and behind. -/
theorem unravel_bijective_unitAxes :
    (Positive [1, 2, 1, 3, 1] ∧ (0 : Int) ≤ 5 ∧ 5 < product [1, 2, 1, 3, 1] ∧ Inside [0, 1, 0, 2, 0] [1, 2, 1, 3, 1]
      ∧ product [1, 2, 1, 3, 1] < 0x80000000 ∧ sumAndPosition.kind = .int32
      ∧ sumAndPosition.evaluate (atOutput 2) (fun _ => none) = .ok (.int 5))
    ∧ (Inside (unravel 5 [1, 2, 1, 3, 1]) [1, 2, 1, 3, 1]
        ∧ dot (unravel 5 [1, 2, 1, 3, 1]) (rowMajorStrides [1, 2, 1, 3, 1]) = 5)
      ∧ unravel (dot [0, 1, 0, 2, 0] (rowMajorStrides [1, 2, 1, 3, 1])) [1, 2, 1, 3, 1] = [0, 1, 0, 2, 0]
      ∧ ∃ index, unravelExpr [1, 2, 1, 3, 1] sumAndPosition = .ok index
        ∧ index.mapM (fun i => i.evaluate (atOutput 2) (fun _ => none))
          = .ok ((unravel 5 [1, 2, 1, 3, 1]).map .int) := by
  have positive : Positive [1, 2, 1, 3, 1] := by decide
  have inside : Inside [0, 1, 0, 2, 0] [1, 2, 1, 3, 1] := by decide
  have value : sumAndPosition.evaluate (atOutput 2) (fun _ => none) = .ok (.int 5) := rfl
  obtain ⟨numbers, indices, expressions⟩ := unravel_bijective positive
  exact ⟨⟨positive, by decide, by decide, inside, by decide, rfl, value⟩, numbers 5 (by decide) (by decide),
    (indices _ inside).2, expressions (by decide) _ _ _ 5 rfl value (by decide) (by decide)⟩

/-- Beyond that size divisors wrap around, and remainders by them are of no use. -/
example : (unravelExpr [1, 0x80000000] (Expr.outputPosition 2) >>= fun index =>
      index.mapM fun i => i.evaluate (atOutput 1) (fun _ => none)) = .ok [.int 0, .int (-0x7fffffff)] := rfl

end StridedArray
