import Mathlib.Algebra.BigOperators.ModEq
import StridedArray.Executor.Host
import StridedArray.Proofs.Datum
import StridedArray.Proofs.Kernel.Plan
import StridedArray.Proofs.Layout.Anchored
import StridedArray.Proofs.Words
import StridedArray.Tensor.Reduction

/-! # Sums of products of two arrays

The kernel that multiplies two arrays of integers and sums along their last axis.

* `readAt_ok` — a read through a layout;
* `rowIndex`, `productSum` — the expression; `rowPosition_eq`, `rowPosition_ok` — it is what is built;
* `evaluate_productSum` — its value, modulo `2 ^ 32`;
* `plan_productSum` — it is accepted. -/

namespace StridedArray

open Shape (Inside Positive product ravel unravel)

/-! ## Reading -/

theorem Scalar.within_int {n limit : Int} (low : 0 ≤ n) (high : n < limit) :
    (Scalar.int n).within limit = true := by
  simp [Scalar.within, low, high]

theorem elementAt_ok {buffers : Buffers} {slot : Int} {bytes : Bytes}
    (buffer : buffers slot = some (Element.int32.decode bytes)) {offset : Int} (low : 0 ≤ offset)
    (high : offset < (bytes.size / 4 : Nat)) :
    elementAt buffers slot (.int offset) = .ok (.int (intAt bytes offset)) := by
  have size : (Element.int32.decode bytes).size = bytes.size / 4 := by
    simp [Element.decode, Element.itemSize]
  have place : Shape.place? (bytes.size / 4) offset = some offset.toNat := by
    unfold Shape.place?
    simp only [if_neg (show ¬ offset < 0 by omega)]
    exact if_pos ⟨low, high⟩
  have element := @getElem?_decode bytes offset.toNat (by omega)
  rw [Int.toNat_of_nonneg low] at element
  unfold elementAt
  simp only [buffer, Scalar.whole?, size, place, element]
  rfl

/-- A read through a layout gives what the layout shows. -/
theorem readAt_ok {buffers : Buffers} {slot : Int} {bytes : Bytes}
    (buffer : buffers slot = some (Element.int32.decode bytes)) {l : Layout}
    (anchored : l.Anchored (bytes.size / 4 : Nat)) {index : List Int} (inside : Inside index l.shape) :
    Expr.readAt buffers slot .int32 l (.int (ravel index l.shape))
      = .ok (.int (l.entry (intAt bytes) index)) := by
  obtain ⟨least, greatest⟩ : 0 ≤ ravel index l.shape ∧ ravel index l.shape < l.size :=
    inside.ravel_bounds
  have flat : l.addressFlat (ravel index l.shape) = .ok (l.offsetOf? index) := by
    unfold Layout.addressFlat
    rw [if_pos ⟨least, greatest⟩, inside.unravel_ravel, Layout.address_eq inside]
  unfold Expr.readAt Layout.entry
  simp only [Scalar.within_int least greatest, Scalar.whole?, flat, ok_bind, Bool.not_true,
    Bool.false_eq_true, if_false]
  cases known : l.offsetOf? index with
  | none => rfl
  | some offset =>
    obtain ⟨low, high⟩ := anchored.shown index offset inside known
    simp only [elementAt_ok buffer low high, ok_bind, Element.coerce_int32_int, wrap32_intAt]

/-! ## The expression -/

namespace Expr

def rowIndex (rows length : Int) : Expr :=
  if length = 0 then reductionPosition length
  else .binary .add .int32
    (if length = 1 then outputPosition rows
      else .binary .mul .int32 (outputPosition rows) (.const .int32 (.int length)))
    (reductionPosition length)

@[simp] theorem kind_rowIndex (rows length : Int) : (rowIndex rows length).kind = .int32 := by
  unfold rowIndex
  split <;> rfl

theorem read_rowIndex (rows length : Int) {slot : Int} (x : Layout) (natural : 0 ≤ slot) :
    read slot .int32 x (rowIndex rows length) = .ok (.accessor slot .int32 x (rowIndex rows length)) := by
  unfold read
  rw [if_neg (not_not.2 (kind_rowIndex rows length)), if_neg (by omega)]
  rfl

/-- The sum over the last axis of the products of two arrays. -/
def productSum (rows length : Int) (x y : Layout) : Expr :=
  .reduce .add .int32
    (.binary .mul .int32 (.accessor 0 .int32 x (rowIndex rows length))
      (.accessor 1 .int32 y (rowIndex rows length))) length

/-- The position in a row, where the length of the rows in front may have been brought into range. -/
def strideIndex (rows width length : Int) : Expr :=
  if width = 0 then reductionPosition length
  else .binary .add .int32
    (if width = 1 then outputPosition rows
      else .binary .mul .int32 (outputPosition rows) (.const .int32 (.int width)))
    (reductionPosition length)

@[simp] theorem kind_strideIndex (rows width length : Int) : (strideIndex rows width length).kind = .int32 := by
  unfold strideIndex
  split <;> rfl

/-- The position in a row is built of the length that fits. -/
theorem rowPosition_eq (rows length : Int) :
    rowPosition rows length = .ok (strideIndex rows (wrap32 length) length) := by
  unfold rowPosition mulScalar
  rw [show (outputPosition rows).lift (.int length) = .ok (.const .int32 (.int (wrap32 length))) from rfl, ok_bind]
  generalize wrap32 length = width
  by_cases nothing : width = 0
  · subst nothing
    rfl
  have scaled : (outputPosition rows).mul (.const .int32 (.int width))
      = .ok (if width = 1 then outputPosition rows
        else .binary .mul .int32 (outputPosition rows) (.const .int32 (.int width))) := by
    unfold mul isConstant outputPosition
    simp only [Datum.sameNumber_int]
    by_cases one : width = 1
    · subst one
      rfl
    · simp only [one, decide_false, nothing, Bool.or_self, Bool.and_false,
        Bool.false_eq_true, if_false]
      rfl
  rw [scaled, ok_bind, strideIndex, if_neg nothing]
  by_cases one : width = 1 <;> simp only [one, if_true, if_false] <;> rfl

theorem rowPosition_ok {rows length : Int} (low : 0 ≤ length) (high : length < 0x80000000) :
    rowPosition rows length = .ok (rowIndex rows length) := by
  rw [rowPosition_eq, wrap32_of_range (by omega) high]
  rfl

/-! ## Its value -/

section Values

variable {buffers : Buffers} {rows length : Int} {position step : Nat}

theorem evaluateFrom_rowIndex (bound : position * length + step < 0x80000000) (low : 0 < length) :
    (rowIndex rows length).evaluateFrom (atOutput position) buffers (some step)
      = .ok (.int (position * length + step), some (step : Int)) := by
  have fits : 0 ≤ (position : Int) * length := Int.mul_nonneg (by omega) (by omega)
  have product : wrap32 ((position : Int) * length) = position * length :=
    wrap32_of_range (by omega) (by omega)
  have sum : wrap32 ((position : Int) * length + step) = position * length + step :=
    wrap32_of_range (by omega) bound
  rw [rowIndex, if_neg (ne_of_gt low)]
  by_cases one : length = 1
  · subst one
    rw [Int.mul_one] at sum ⊢
    simp only [if_true]
    show (do
      let c ← Element.int32.coerce (.int ((position : Int) + step))
      return (c, some (step : Int))) = _
    rw [Element.coerce_int32_int, sum]
    rfl
  · simp only [one, if_false]
    show (do
      let a ← Element.int32.coerce (.int ((position : Int) * length))
      let c ← BinaryOp.add.apply .int32 a (.int (step : Int)) >>= Element.int32.coerce
      return (c, some (step : Int))) = _
    rw [Element.coerce_int32_int, product, ok_bind]
    show (do
      let c ← Element.int32.coerce (.int ((position : Int) * length + step))
      return (c, some (step : Int))) = _
    rw [Element.coerce_int32_int, sum]
    rfl

theorem foldlM_sum {f : Scalar → Nat → Except Failure Scalar} {v : Nat → Int} (count : Nat)
    (each : ∀ acc k, k < count → f (.int acc) k = .ok (.int (acc + v k))) :
    (List.range count).foldlM f (.int 0) = .ok (.int (∑ k ∈ Finset.range count, v k)) := by
  induction count with
  | zero => rfl
  | succ count inductionHypothesis =>
    have front := inductionHypothesis fun acc k bound => each acc k (by omega)
    rw [List.range_succ, List.foldlM_append, front, ok_bind, List.foldlM_cons,
      each _ _ (Nat.lt_succ_self count), Finset.sum_range_succ]
    rfl

theorem evaluateFrom_row {slot : Int} {x : Layout} {bytes : Bytes} {shape : List Int}
    (buffer : buffers slot = some (Element.int32.decode bytes))
    (anchored : x.Anchored (bytes.size / 4 : Nat)) (lined : x.shape = shape ++ [length])
    (small : product shape * length < 0x80000000)
    {index : List Int} (inside : Inside index shape) (place : ravel index shape = position)
    (bound : step < length) :
    (accessor slot .int32 x (rowIndex rows length)).evaluateFrom (atOutput position) buffers (some step)
      = .ok (.int (x.entry (intAt bytes) (index ++ [(step : Int)])), some (step : Int)) := by
  have whole : Inside (index ++ [(step : Int)]) x.shape := by
    rw [lined]
    exact inside.append (Shape.inside_cons.2 ⟨⟨by omega, bound⟩, Shape.inside_nil⟩)
  have flat : ravel (index ++ [(step : Int)]) x.shape = position * length + step := by
    rw [lined, Shape.ravel_append inside.length_eq, place]
    simp
  have size : product x.shape = product shape * length := by
    rw [lined, Shape.product_append]
    simp
  have last := whole.ravel_bounds
  have read := readAt_ok buffer anchored whole
  rw [flat] at read last
  have position := @evaluateFrom_rowIndex buffers rows length position step (by omega) (by omega)
  simp only [evaluateFrom, position, ok_bind, read]
  rfl

/-- The sum of products is exact until it is brought back into range. -/
theorem evaluate_productSum {x y : Layout} {left right : Bytes} {shape : List Int}
    (first : buffers 0 = some (Element.int32.decode left))
    (second : buffers 1 = some (Element.int32.decode right))
    (anchoredLeft : x.Anchored (left.size / 4 : Nat)) (anchoredRight : y.Anchored (right.size / 4 : Nat))
    (shapeLeft : x.shape = shape ++ [length]) (shapeRight : y.shape = shape ++ [length])
    (small : product shape * length < 0x80000000) {index : List Int}
    (inside : Inside index shape) (place : ravel index shape = position) :
    (productSum rows length x y).evaluate (atOutput position) buffers
      = .ok (.int (wrap32 (∑ k ∈ Finset.range length.toNat,
        x.entry (intAt left) (index ++ [(k : Int)]) * y.entry (intAt right) (index ++ [(k : Int)])))) := by
  -- Every product is wrapped on its own, which does not matter to the sum modulo `2 ^ 32`.
  have products : (∑ k ∈ Finset.range length.toNat, wrap32
      (x.entry (intAt left) (index ++ [(k : Int)]) * y.entry (intAt right) (index ++ [(k : Int)])))
      ≡ ∑ k ∈ Finset.range length.toNat,
        x.entry (intAt left) (index ++ [(k : Int)]) * y.entry (intAt right) (index ++ [(k : Int)])
      [ZMOD 0x100000000] := Int.ModEq.sum fun k _ => wrap32_modEq _
  have body : ∀ k < length.toNat,
      (binary .mul .int32 (accessor 0 .int32 x (rowIndex rows length))
        (accessor 1 .int32 y (rowIndex rows length))).evaluateFrom (atOutput position) buffers (some (k : Int))
      = .ok (.int (wrap32 (x.entry (intAt left) (index ++ [(k : Int)])
          * y.entry (intAt right) (index ++ [(k : Int)]))), some (k : Int)) := by
    intro k bound
    have below : (k : Int) < length := by omega
    have factor := @evaluateFrom_row buffers rows length position k 0 x left shape first anchoredLeft
      shapeLeft small index inside place below
    have other := @evaluateFrom_row buffers rows length position k 1 y right shape second anchoredRight
      shapeRight small index inside place below
    rw [evaluateFrom, factor, ok_bind]
    dsimp only
    rw [other, ok_bind]
    rfl
  have zero : Reduction.start .int32 .add = .int 0 := rfl
  rw [← wrap32_eq_iff.2 products, evaluate, productSum, evaluateFrom, foldBelow_eq, zero,
    @foldlM_sum _ (fun k => wrap32 (x.entry (intAt left) (index ++ [(k : Int)])
      * y.entry (intAt right) (index ++ [(k : Int)]))) length.toNat]
  · rfl
  · intro acc k bound
    rw [body k bound]
    rfl

end Values

/-! ## Its kernel -/

theorem bounds?_rowIndex {rows length : Int} (someRows : 0 < rows) (someLength : 0 < length) :
    (rowIndex rows length).bounds? = some (0, rows * length - 1) := by
  have output : (outputPosition rows).bounds? = some (0, rows - 1) := by
    show some ((0 : Int), Max.max (rows - 1) 0) = _
    rw [max_eq_left (by omega)]
  have reduction : (reductionPosition length).bounds? = some (0, length - 1) := by
    show some ((0 : Int), Max.max (length - 1) 0) = _
    rw [max_eq_left (by omega)]
  have scaled : (if length = 1 then outputPosition rows
      else .binary .mul .int32 (outputPosition rows) (.const .int32 (.int length))).bounds?
        = some (0, (rows - 1) * length) := by
    by_cases one : length = 1
    · rw [if_pos one, output, one, Int.mul_one]
    · have least : 0 ≤ (rows - 1) * length := Int.mul_nonneg (by omega) (by omega)
      rw [if_neg one]
      simp only [bounds?, BinaryOp.isTruth, Bool.false_eq_true, if_false, output, BinaryOp.bounds?,
        constantBounds?, reduceCtorEq, Scalar.whole?, Option.map_some, Int.zero_mul, min_self, max_self,
        min_eq_left least, max_eq_right least]
  have last : (rows - 1) * length + (length - 1) = rows * length - 1 := by ring
  rw [rowIndex, if_neg (ne_of_gt someLength)]
  simp only [bounds?, BinaryOp.isTruth, Bool.false_eq_true, if_false, scaled, reduction,
    BinaryOp.bounds?, Int.zero_add, last]

theorem mem_productSum {rows length : Int} {x y : Layout} {node : Expr}
    (member : node ∈ (productSum rows length x y).postorder) :
    node = outputPosition rows ∨ node = reductionPosition length
      ∨ node = .accessor 0 .int32 x (rowIndex rows length)
      ∨ node = .accessor 1 .int32 y (rowIndex rows length)
      ∨ node.isRead = false ∧ ∀ name extent d, node ≠ .special name extent d := by
  unfold productSum rowIndex at *
  by_cases nothing : length = 0
  · simp only [nothing, if_true] at member ⊢
    simp [postorder, reductionPosition] at member ⊢
    grind [isRead]
  simp only [if_neg nothing] at member ⊢
  by_cases one : length = 1
  · simp only [one, if_true] at member ⊢
    simp [postorder, outputPosition, reductionPosition] at member ⊢
    grind [isRead]
  · simp only [one, if_false] at member ⊢
    simp [postorder, outputPosition, reductionPosition] at member ⊢
    grind [isRead]

theorem checkReach_ok {slot : Int} {x : Layout} {index : Expr} {count : Nat} {evaluated : Bool}
    (offsets : ∀ range, x.offsetRange? = some range → ¬ (range.1 < 0 ∨ (count : Int) ≤ range.2))
    (positions : evaluated = true → ∀ range, index.bounds? = some range →
      ¬ (range.1 < 0 ∨ x.size ≤ range.2)) :
    checkReach slot x index count evaluated = .ok () := by
  unfold checkReach
  rw [boundsShared_eq]
  cases known : x.offsetRange? with
  | none =>
    cases evaluated with
    | false => rfl
    | true =>
      cases bounded : index.bounds? with
      | none => rfl
      | some range => exact if_neg (positions rfl range bounded)
  | some announced =>
    dsimp only
    rw [if_neg (offsets announced known)]
    cases evaluated with
    | false => rfl
    | true =>
      cases bounded : index.bounds? with
      | none => rfl
      | some range => exact if_neg (positions rfl range bounded)

/-- A read through a layout inside of the buffer, at positions that the layout has, if there are any. -/
theorem checkRead_ok {slot : Int} {x : Layout} {index : Expr} {bytes : Nat} (words : bytes % 4 = 0)
    (anchored : x.Anchored (bytes / 4 : Nat)) {evaluated : Bool}
    (positions : evaluated = true → ∀ {low high : Int}, index.bounds? = some (low, high) →
      0 ≤ low ∧ high < x.size) :
    checkRead (.accessor slot .int32 x index) bytes evaluated = .ok () := by
  have offsets : ∀ range, x.offsetRange? = some range → ¬ (range.1 < 0 ∨ ((bytes / 4 : Nat) : Int) ≤ range.2) := by
    intro range known
    have := anchored.offsetRange?_bounds known
    omega
  have inside : evaluated = true → ∀ range, index.bounds? = some range → ¬ (range.1 < 0 ∨ x.size ≤ range.2) := by
    intro busy range known
    have := positions busy known
    omega
  have whole : ¬ bytes % Element.int32.itemSize ≠ 0 := fun partly => partly words
  unfold checkRead
  dsimp only
  rw [if_neg (show ¬ bytes % (accessor slot .int32 x index).kind.itemSize ≠ 0 from whole)]
  exact checkReach_ok offsets inside

/-- Only the two indices are variables, with the extents of rows and length. -/
theorem special_productSum {rows length : Int} {x y : Layout} {name : String} {extent : Int} {d : Nat}
    (member : special name extent d ∈ (productSum rows length x y).postorder) :
    name = outputIndex ∧ extent = rows ∨ name = reductionIndex ∧ extent = length := by
  rcases mem_productSum member with same | same | same | same | ⟨_, other⟩
  · cases same
    exact .inl ⟨rfl, rfl⟩
  · cases same
    exact .inr ⟨rfl, rfl⟩
  · cases same
  · cases same
  · exact absurd rfl (other name extent d)

theorem idle_productSum {rows length : Int} (x y : Layout) (nothing : rows = 0 ∨ length = 0) :
    (productSum rows length x y).idle = true := by
  have names : outputIndex ≠ reductionIndex := by decide
  by_cases none : length = 0
  · subst none
    refine @idle_of_zero _ reductionIndex 0 (by simp [productSum, rowIndex, postorder, reductionPosition])
      fun k d' member => ?_
    rcases special_productSum member with ⟨same, _⟩ | ⟨_, same⟩
    · exact absurd same.symm names
    · exact same
  · obtain rfl := nothing.resolve_right none
    refine @idle_of_zero _ outputIndex 0 ?_ fun k d' member => ?_
    · rw [productSum, rowIndex, if_neg none]
      by_cases one : length = 1 <;> simp [one, postorder, outputPosition]
    · rcases special_productSum member with ⟨_, same⟩ | ⟨same, _⟩
      · exact same
      · exact absurd same names

/-- The kernel of a sum of products is accepted. There may be no rows, and none of them needs a step. -/
theorem plan_productSum {x y : Layout} {rows length : Int} {left right output : Nat}
    (leftWords : left % 4 = 0) (rightWords : right % 4 = 0)
    (anchoredLeft : x.Anchored (left / 4 : Nat)) (anchoredRight : y.Anchored (right / 4 : Nat))
    (naturalRows : 0 ≤ rows) (naturalLength : 0 ≤ length) (sizeLeft : x.size = rows * length)
    (sizeRight : y.size = rows * length) (fits : (output : Int) = rows * 4) :
    ∃ kinds, Kernel.plan [productSum rows length x y] [left, right] [output]
        = .ok ⟨[productSum rows length x y], rows, kinds⟩
      ∧ kinds.lookup 0 = some .int32 ∧ kinds.lookup 1 = some .int32 := by
  have reductions : checkReductions (productSum rows length x y) false = .ok () := by
    unfold productSum rowIndex
    by_cases none : length = 0
    · simp only [none, if_true]
      rfl
    · rw [if_neg none]
      by_cases one : length = 1 <;> simp only [one, if_true, if_false] <;> rfl
  -- Positions only matter if there are some.
  have positions : (!(productSum rows length x y).idle) = true → ∀ {low high : Int},
      (rowIndex rows length).bounds? = some (low, high) → 0 ≤ low ∧ high < rows * length := by
    intro busy low high known
    have some : 0 < rows ∧ 0 < length := by
      by_contra none
      rw [idle_productSum x y (by omega)] at busy
      cases busy
    rw [bounds?_rowIndex some.1 some.2] at known
    cases known
    omega
  have first : ReadableIf (!(productSum rows length x y).idle) [left, right] (fun _ => .int32)
      (.accessor 0 .int32 x (rowIndex rows length)) 0 :=
    ⟨rfl, by simp, rfl, left, rfl,
      checkRead_ok leftWords anchoredLeft fun busy => by rw [sizeLeft]; exact positions busy⟩
  have second : ReadableIf (!(productSum rows length x y).idle) [left, right] (fun _ => .int32)
      (.accessor 1 .int32 y (rowIndex rows length)) 1 :=
    ⟨rfl, by simp, rfl, right, rfl,
      checkRead_ok rightWords anchoredRight fun busy => by rw [sizeRight]; exact positions busy⟩
  have readLeft : .accessor 0 .int32 x (rowIndex rows length) ∈ (productSum rows length x y).postorder := by
    simp [productSum, postorder]
  have readRight : .accessor 1 .int32 y (rowIndex rows length) ∈ (productSum rows length x y).postorder := by
    simp [productSum, postorder]
  have count : ((output / (productSum rows length x y).kind.itemSize : Nat) : Int) = rows := by
    show ((output / 4 : Nat) : Int) = rows
    omega
  obtain ⟨kinds, planned, noted⟩ := @plan_readable (productSum rows length x y) [left, right] output rows
    (fun _ => .int32) reductions
    (fun member => by
      rcases special_productSum member with ⟨rfl, rfl⟩ | ⟨rfl, -⟩
      · exact .inl rfl
      · exact .inr rfl)
    (.inr count)
    (by
      intro node member isRead
      rcases mem_productSum member with rfl | rfl | rfl | rfl | ⟨other, _⟩
      · cases isRead
      · cases isRead
      · exact ⟨0, first⟩
      · exact ⟨1, second⟩
      · rw [other] at isRead
        cases isRead)
    (le_of_eq fits.symm)
  exact ⟨kinds, planned, noted _ readLeft rfl 0 rfl, noted _ readRight rfl 1 rfl⟩

end Expr

end StridedArray
