import StridedArray.Proofs.Expr.Computed
import StridedArray.Tensor.Reduction

/-! # Folds of rows

The kernel that folds every row of an array of numbers. The length of a row is multiplied in 32 bits, which matters
for rows that are longer where there are none of them.

* `rowFold`, `expr_rowFold` — the expression that is built;
* `Reduction.Folds` — the sum modulo `2 ^ 32`, or the greatest number; `foldlM_max` — how the latter is found;
* `valueAt_rowFold` — the value for a row;
* `accepted_rowFold` — the kernel is accepted, unless the length of a row vanishes and leaves no trace of the
  output; `plan_unbounded` — then it is refused. -/

namespace StridedArray

open Shape (Inside product ravel unravel)

/-- A number is what a reduction makes of numbers: their sum modulo `2 ^ 32`, or the greatest of them. -/
def Reduction.Folds {α : Type} (s : Finset α) (x : α → Int) (v : Int) : Reduction → Prop
  | add => v = wrap32 (∑ k ∈ s, x k)
  | max => (∃ k ∈ s, x k = v) ∧ ∀ k ∈ s, x k ≤ v

namespace Reduction

variable {α β : Type} {s : Finset α} {v : Int} {op : Reduction}

theorem Folds.congr {x y : α → Int} (folds : op.Folds s x v) (same : ∀ k ∈ s, x k = y k) : op.Folds s y v := by
  cases op with
  | add => exact folds.trans (congrArg wrap32 (Finset.sum_congr rfl same))
  | max =>
    obtain ⟨⟨k, member, attained⟩, least⟩ := folds
    exact ⟨⟨k, member, (same k member).symm.trans attained⟩, fun j inside => same j inside ▸ least j inside⟩

theorem Folds.image [DecidableEq β] {f : α → β} {x : β → Int} (folds : op.Folds s (fun k => x (f k)) v)
    (injective : Set.InjOn f s) : op.Folds (s.image f) x v := by
  cases op with
  | add =>
    show v = wrap32 _
    rw [Finset.sum_image injective]
    exact folds
  | max =>
    obtain ⟨⟨k, member, attained⟩, least⟩ := folds
    exact ⟨⟨f k, Finset.mem_image_of_mem f member, attained⟩, Finset.forall_mem_image.2 least⟩

end Reduction

namespace Expr

/-! ## The expression -/

def rowElement (kind : Element) (l : Layout) (index : Expr) : Expr :=
  if kind = .bool then .unary .cast .int32 (.accessor 0 kind l index) else .accessor 0 kind l index

def rowFold (op : Reduction) (kind : Element) (l : Layout) (rows count : Int) : Expr :=
  .reduce op .int32 (rowElement kind l (strideIndex rows (wrap32 count) count)) count

variable {op : Reduction} {kind : Element} {l : Layout} {rows count : Int} {index : Expr}

/-- This is what is built for a planned reduction. -/
theorem expr_rowFold (p : ReductionPlan) (whole : kind ≠ .float32) :
    p.expr op kind = .ok (rowFold op kind p.rows (product p.shape) p.count) := by
  have read : Expr.read 0 kind p.rows (strideIndex (product p.shape) (wrap32 p.count) p.count)
      = .ok (.accessor 0 kind p.rows (strideIndex (product p.shape) (wrap32 p.count) p.count)) := by
    unfold Expr.read
    rw [if_neg (not_not.2 (kind_strideIndex ..)), if_neg (by decide)]
    rfl
  unfold ReductionPlan.expr
  rw [rowPosition_eq, ok_bind, read, ok_bind]
  cases kind <;> first | rfl | exact absurd rfl whole

/-! ## Values -/

/-- The greatest of some numbers is found one by one. -/
theorem foldlM_max {f : Scalar → Nat → Except Failure Scalar} {x : Nat → Int} (count : Nat)
    (each : ∀ acc k, k < count + 1 → f acc k = .ok (acc.larger (.int (x k)))) :
    ∃ v, (List.range (count + 1)).foldlM f (Reduction.start .int32 .max) = .ok (.int v)
      ∧ Reduction.Folds (Finset.range (count + 1)) x v .max := by
  induction count with
  | zero =>
    refine ⟨x 0, ?_, ⟨0, by simp, rfl⟩, fun k member => ?_⟩
    · rw [List.range_one, List.foldlM_cons, each _ 0 (by decide), ok_bind, Reduction.start,
        Scalar.larger_negativeInfinity]
      rfl
    · obtain rfl : k = 0 := by simpa using member
      exact Int.le_refl _
  | succ count inductionHypothesis =>
    obtain ⟨v, front, ⟨k, member, attained⟩, least⟩ := inductionHypothesis fun acc k bound => each acc k (by omega)
    refine ⟨Max.max v (x (count + 1)), ?_, ?_, ?_⟩
    · rw [List.range_succ, List.foldlM_append, front, ok_bind, List.foldlM_cons, each _ _ (Nat.lt_succ_self _), ok_bind,
        Scalar.larger_int]
      rfl
    · rcases max_choice v (x (count + 1)) with first | last
      · exact ⟨k, Finset.range_mono (Nat.le_succ _) member, attained.trans first.symm⟩
      · exact ⟨count + 1, Finset.self_mem_range_succ _, last.symm⟩
    · intro j inside
      rw [Finset.range_add_one, Finset.mem_insert] at inside
      rcases inside with rfl | before
      · exact le_max_right ..
      · exact (least j before).trans (le_max_left ..)

section Values

variable {buffers : Buffers} {bytes : Bytes} {shape : List Int} {position step : Nat}

theorem valueAt_rowIndex (bound : position * count + step < 0x80000000) (low : 0 < count) :
    (rowIndex rows count).valueAt (atOutput position) buffers (some step) = .ok (.int (position * count + step)) := by
  have scope : Scoped true (rowIndex rows count) := by
    unfold rowIndex reductionPosition outputPosition
    rw [if_neg (ne_of_gt low)]
    split <;> simp
  rw [← fst_evaluateFrom scope, evaluateFrom_rowIndex bound low]
  rfl

theorem valueAt_rowElement (whole : kind ≠ .float32) (buffer : buffers 0 = some (kind.decode bytes))
    (contained : l.Contained (bytes.size / kind.itemSize : Nat)) (lined : l.shape = shape ++ [count])
    (small : product shape * count < 0x80000000) (bound : (position : Int) < product shape) (within : step < count) :
    (rowElement kind l (rowIndex rows count)).valueAt (atOutput position) buffers (some step)
      = .ok (.int (l.entry (kind.numberAt bytes) (unravel position shape ++ [(step : Int)]))) := by
  have natural : ∀ s ∈ shape, 0 ≤ s := fun s member => contained.natural s (lined ▸ List.mem_append_left _ member)
  have inside := Shape.inside_unravel (Shape.positive_of_product_pos natural (by omega)) (position : Int)
  have all : Inside (unravel position shape ++ [(step : Int)]) l.shape := by
    rw [lined]
    exact inside.append (Shape.inside_cons.2 ⟨⟨by omega, within⟩, Shape.inside_nil⟩)
  have flat : ravel (unravel position shape ++ [(step : Int)]) l.shape = position * count + step := by
    rw [lined, Shape.ravel_append inside.length_eq,
      Shape.ravel_unravel (Shape.positive_of_product_pos natural (by omega)) (by omega) bound]
    simp
  have last := all.ravel_bounds
  rw [flat, lined, Shape.product_append, show product [count] = count by simp] at last
  have read := readAt_number whole buffer all fun offset => contained.shown _ offset all
  rw [flat] at read
  have place := @valueAt_rowIndex rows count buffers position step (by omega) (by omega)
  have element : (accessor 0 kind l (rowIndex rows count)).valueAt (atOutput position) buffers (some (step : Int))
      = .ok (kind.number (l.entry (kind.numberAt bytes) (unravel position shape ++ [(step : Int)]))) := by
    rw [valueAt, place, ok_bind, read]
  have fits := fits_entry whole bytes l (unravel position shape ++ [(step : Int)])
  unfold rowElement
  cases kind with
  | bool =>
    have counted := Element.coerce_number fits (show Element.int32 ≠ .float32 by decide)
    rw [(show Element.int32.Fits _ from fits.promote .int32).image_eq (by decide)] at counted
    rw [if_pos rfl, valueAt, element, ok_bind]
    exact counted
  | int32 =>
    rw [if_neg (by decide)]
    exact element
  | float32 => exact absurd rfl whole

/-- The fold of a row. Nothing has a sum, but no greatest element. -/
theorem valueAt_rowFold (whole : kind ≠ .float32) (buffer : buffers 0 = some (kind.decode bytes))
    (contained : l.Contained (bytes.size / kind.itemSize : Nat)) (lined : l.shape = shape ++ [count])
    (small : product shape * count < 0x80000000) (some : op = .max → count ≠ 0)
    (bound : (position : Int) < product shape) :
    ∃ v, (rowFold op kind l rows count).valueAt (atOutput position) buffers none = .ok (.int v) ∧ Word v
      ∧ op.Folds (Finset.range count.toNat)
        (fun step => l.entry (kind.numberAt bytes) (unravel position shape ++ [(step : Int)])) v := by
  let x (step : Nat) : Int := l.entry (kind.numberAt bytes) (unravel position shape ++ [(step : Int)])
  have natural : 0 ≤ count := contained.natural count (by simp [lined])
  have fits : count < 0x80000000 := by nlinarith
  have element : ∀ step < count.toNat, (rowElement kind l (rowIndex rows count)).valueAt (atOutput position) buffers
      (Option.some (step : Int)) = .ok (.int (x step)) := fun step within =>
    valueAt_rowElement whole buffer contained lined small bound (by omega)
  let next (acc : Scalar) (r : Nat) : Except Failure Scalar := do
    op.step .int32 acc (← (rowElement kind l (rowIndex rows count)).valueAt (atOutput position) buffers
      (Option.some (r : Int)))
  have folds : (rowFold op kind l rows count).valueAt (atOutput position) buffers none
      = (List.range count.toNat).foldlM next (op.start .int32) >>= op.finish .int32 := by
    rw [rowFold, valueAt, foldBelow_eq, wrap32_of_range (by omega) fits]
    rfl
  rw [folds]
  cases op with
  | add =>
    have sums : (List.range count.toNat).foldlM next (.int 0) = .ok (.int (∑ k ∈ Finset.range count.toNat, x k)) :=
      foldlM_sum _ fun acc k within => by
        simp only [next, element k within, ok_bind]
        rfl
    refine ⟨wrap32 (∑ k ∈ Finset.range count.toNat, x k), ?_, word_wrap32 _, rfl⟩
    rw [show Reduction.start .int32 .add = .int 0 from rfl, sums, ok_bind]
    exact Element.coerce_int32_int _
  | max =>
    -- The first position replaces what a maximum begins with; from there on it is one of integers.
    have positive := some rfl
    obtain ⟨last, succ⟩ : ∃ n, count.toNat = n + 1 := ⟨count.toNat - 1, by omega⟩
    rw [succ] at element ⊢
    obtain ⟨v, greatest, ⟨k, member, attained⟩, least⟩ := @foldlM_max next x last fun acc k within => by
      simp only [next, element k within, ok_bind]
      rfl
    refine ⟨v, by rw [greatest]; rfl, ?_, ⟨k, member, attained⟩, least⟩
    have word : (kind.promote .int32).Fits (x k) := (fits_entry whole bytes l _).promote .int32
    rw [Element.promote_int32 whole] at word
    exact attained ▸ word

end Values

/-! ## The kernel -/

/-- A node of a fold of rows: one of the two indices, the read at the position in a row, or an operation. -/
def InRow (kind : Element) (l : Layout) (rows width count : Int) : Expr → Prop
  | special name extent _ => name = outputIndex ∧ extent = rows ∧ width ≠ 0 ∨ name = reductionIndex ∧ extent = count
  | accessor slot given layout index =>
    slot = 0 ∧ given = kind ∧ layout = l ∧ index = strideIndex rows width count
  | load .. => False
  | _ => True

theorem every_rowFold (op : Reduction) (kind : Element) (l : Layout) (rows count : Int) :
    Every (InRow kind l rows (wrap32 count) count) (rowFold op kind l rows count) := by
  have index : Every (InRow kind l rows (wrap32 count) count) (strideIndex rows (wrap32 count) count) := by
    unfold strideIndex outputPosition reductionPosition
    generalize wrap32 count = width
    by_cases nothing : width = 0
    · rw [if_pos nothing]
      exact every_special.2 (.inr ⟨rfl, rfl⟩)
    · rw [if_neg nothing]
      refine every_binary.2 ⟨?_, every_special.2 (.inr ⟨rfl, rfl⟩), trivial⟩
      split
      · exact every_special.2 (.inl ⟨rfl, rfl, nothing⟩)
      · exact every_binary.2 ⟨every_special.2 (.inl ⟨rfl, rfl, nothing⟩), every_const.2 trivial, trivial⟩
  have read : Every (InRow kind l rows (wrap32 count) count)
      (accessor 0 kind l (strideIndex rows (wrap32 count) count)) := every_accessor.2 ⟨index, rfl, rfl, rfl, rfl⟩
  refine every_reduce.2 ⟨?_, trivial⟩
  unfold rowElement
  split
  · exact every_unary.2 ⟨read, trivial⟩
  · exact read

theorem mem_rowFold (op : Reduction) (kind : Element) (l : Layout) (rows count : Int) {node : Expr}
    (member : node ∈ (accessor 0 kind l (strideIndex rows (wrap32 count) count)).postorder) :
    node ∈ (rowFold op kind l rows count).postorder := by
  unfold rowFold rowElement
  split
  · exact List.mem_append_left _ (List.mem_append_left _ member)
  · exact List.mem_append_left _ member

theorem scoped_rowFold (op : Reduction) (kind : Element) (l : Layout) (rows count : Int) :
    Scoped false (rowFold op kind l rows count) := by
  have names : outputIndex ≠ reductionIndex := by decide
  unfold rowFold rowElement strideIndex outputPosition reductionPosition
  refine scoped_reduce.2 ⟨rfl, ?_⟩
  split <;> split <;> try split
  all_goals simp

/-- Without steps nothing is evaluated, and without rows nothing if the output leaves a trace. -/
theorem idle_rowFold (op : Reduction) (kind : Element) (l : Layout) (nothing : count = 0 ∨ rows = 0 ∧ wrap32 count ≠ 0) :
    (rowFold op kind l rows count).idle = true := by
  have names : outputIndex ≠ reductionIndex := by decide
  have every := every_rowFold op kind l rows count
  rcases nothing with rfl | ⟨rfl, traced⟩
  · refine @idle_of_zero _ reductionIndex 0 (mem_rowFold op kind l rows 0 ?_) fun k d member => ?_
    · simp [postorder, strideIndex, reductionPosition, show wrap32 0 = 0 from rfl]
    · rcases every _ member with ⟨same, -⟩ | ⟨-, same⟩
      · exact absurd same.symm names
      · exact same
  · refine @idle_of_zero _ outputIndex 0 (mem_rowFold op kind l 0 count ?_) fun k d member => ?_
    · unfold strideIndex outputPosition
      rw [if_neg traced]
      split <;> simp [postorder]
    · rcases every _ member with ⟨-, same, -⟩ | ⟨same, -⟩
      · exact same
      · exact absurd same names

/-- A fold of rows is accepted, unless there are no rows and the length vanishes when it is brought into range. -/
theorem accepted_rowFold (op : Reduction) {input : Input} (elements : input.bytes.size % input.kind.itemSize = 0)
    (contained : l.Contained (input.bytes.size / input.kind.itemSize : Nat)) (naturalRows : 0 ≤ rows)
    (naturalCount : 0 ≤ count) (size : l.size = rows * count) (small : rows * count < 0x80000000)
    (traced : ¬ (rows = 0 ∧ count ≠ 0 ∧ wrap32 count = 0)) :
    (rowFold op input.kind l rows count).Accepted [input] rows where
  scope := scoped_rowFold ..
  bound := by
    intro name extent d member
    rcases every_rowFold op input.kind l rows count _ member with ⟨rfl, rfl, -⟩ | ⟨rfl, -⟩
    · exact .inl rfl
    · exact .inr rfl
  reads := by
    intro node member isRead
    have here := every_rowFold op input.kind l rows count node member
    cases node with
    | accessor slot kind layout index =>
      obtain ⟨rfl, rfl, rfl, rfl⟩ := here
      refine ⟨0, input, rfl, rfl, rfl, ?_⟩
      have whole : ¬ input.bytes.size % input.kind.itemSize ≠ 0 := fun partly => partly elements
      unfold checkRead
      dsimp only
      rw [if_neg (show ¬ input.bytes.size % (accessor 0 input.kind layout _).kind.itemSize ≠ 0 from whole)]
      refine checkReach_ok (fun range announced => ?_) fun busy range bounded => ?_
      · have := contained.announced range.1 range.2 announced
        show ¬ (range.1 < 0 ∨ ((input.bytes.size / input.kind.itemSize : Nat) : Int) ≤ range.2)
        omega
      · -- Positions are only looked at if neither index is over nothing.
        have some : 0 < rows ∧ 0 < count := by
          by_contra none
          rw [idle_rowFold op input.kind layout (by omega)] at busy
          cases busy
        have fits : count < 0x80000000 := by nlinarith
        rw [wrap32_of_range (by omega) fits] at bounded
        obtain rfl := Option.some.inj ((bounds?_rowIndex some.1 some.2).symm.trans bounded)
        show ¬ ((0 : Int) < 0 ∨ layout.size ≤ rows * count - 1)
        omega
    | load => exact here.elim
    | _ => cases isRead

theorem reads_rowFold (op : Reduction) (kind : Element) (l : Layout) (rows count : Int) :
    ∃ rest, (rowFold op kind l rows count).reads = accessor 0 kind l (strideIndex rows (wrap32 count) count) :: rest := by
  let e := rowFold op kind l rows count
  let read := accessor 0 kind l (strideIndex rows (wrap32 count) count)
  have single : ∀ node ∈ e.reads, node = read := by
    intro node member
    obtain ⟨inside, isRead⟩ := mem_reads.1 member
    have here := every_rowFold op kind l rows count node inside
    cases node with
    | accessor slot kind layout place =>
      obtain ⟨rfl, rfl, rfl, rfl⟩ := here
      rfl
    | load => exact here.elim
    | _ => cases isRead
  have occurs : read ∈ e.reads := mem_reads.2 ⟨mem_rowFold op _ _ _ _ (self_mem_postorder _), rfl⟩
  show ∃ rest, e.reads = read :: rest
  cases known : e.reads with
  | nil =>
    rw [known] at occurs
    cases occurs
  | cons node rest => exact ⟨rest, by rw [single node (by rw [known]; exact List.mem_cons_self ..)]⟩

/-- The positions along a row do not lie in a layout without elements. -/
theorem checkReach_row {buffer : Nat} (contained : l.Contained buffer) (empty : l.size = 0) (positive : 0 < count) :
    checkReach 0 l (reductionPosition count) buffer true = .error (.execution (.positions 0 0 (count - 1) 0)) := by
  have bounds : (reductionPosition count).boundsShared = some (0, count - 1) := by
    rw [boundsShared_eq]
    show some ((0 : Int), Max.max (count - 1) 0) = _
    rw [max_eq_left (by omega)]
  have leaves : (0 : Int) < 0 ∨ l.size ≤ count - 1 := by omega
  unfold checkReach
  rw [bounds]
  cases known : l.offsetRange? with
  | none =>
    dsimp only
    rw [if_pos rfl, if_pos leaves, empty]
    rfl
  | some range =>
    have := contained.announced range.1 range.2 known
    dsimp only
    rw [if_neg (by omega), if_pos rfl, if_pos leaves, empty]
    rfl

theorem planRead_row {size : Nat} (elements : size % kind.itemSize = 0)
    (contained : l.Contained (size / kind.itemSize : Nat)) (empty : l.size = 0) (positive : 0 < count) :
    planRead [size] true [] (accessor 0 kind l (reductionPosition count))
      = .error (.execution (.positions 0 0 (count - 1) 0)) := by
  have whole : ¬ size % (accessor 0 kind l (reductionPosition count)).kind.itemSize ≠ 0 := fun partly => partly elements
  have checked : checkRead (accessor 0 kind l (reductionPosition count)) size true
      = .error (.execution (.positions 0 0 (count - 1) 0)) := by
    unfold checkRead
    dsimp only
    rw [if_neg whole]
    exact checkReach_row contained empty positive
  show (do
    checkRead (accessor 0 kind l (reductionPosition count)) size true
    return [((0 : Int), kind)]) = _
  rw [checked]
  rfl

/-- Where there are no rows and the length vanishes, the positions of a row are taken to be read, though there are
    none. -/
theorem plan_unbounded (op : Reduction) {input : Input} (elements : input.bytes.size % input.kind.itemSize = 0)
    (contained : l.Contained (input.bytes.size / input.kind.itemSize : Nat)) (empty : l.size = 0)
    (positive : 0 < count) (vanishes : wrap32 count = 0) (output : Nat) :
    Kernel.plan [rowFold op input.kind l rows count] [input.bytes.size] [output]
      = .error (.execution (.positions 0 0 (count - 1) 0)) := by
  let e := rowFold op input.kind l rows count
  have index : strideIndex rows (wrap32 count) count = reductionPosition count := if_pos vanishes
  have every : Every (InRow input.kind l rows (wrap32 count) count) e :=
    every_rowFold op input.kind l rows count
  obtain ⟨rest, reads⟩ := reads_rowFold op input.kind l rows count
  rw [index] at reads
  -- The output leaves no trace in the index, so that nothing tells that there are no rows.
  have busy : e.idle = false := by
    rw [idle, List.any_eq_false]
    intro entry member none
    obtain ⟨d, inside⟩ := (specials_spec e).1 entry member
    rcases every _ inside with ⟨-, -, traced⟩ | ⟨-, same⟩
    · exact traced vanishes
    · rw [decide_eq_true_iff] at none
      omega
  obtain ⟨noted, sized, -⟩ := @foldlM_planSpecial rows e.specials
    (fun entry member => by
      obtain ⟨d, inside⟩ := (specials_spec e).1 entry member
      rcases every _ inside with ⟨-, -, traced⟩ | ⟨same, -⟩
      · exact absurd vanishes traced
      · exact .inr same) none (.inl rfl)
  have reductions : checkReductions e false = .ok () := scoped_rowFold ..
  have planned : planExpr [input.bytes.size] (none, []) e = .error (.execution (.positions 0 0 (count - 1) 0)) := by
    unfold planExpr
    simp only [reductions, ok_bind, sized]
    show (e.reads.foldlM (planRead [input.bytes.size] (!e.idle)) [] >>= fun kinds => pure (noted, kinds)) = _
    rw [show e.reads = _ from reads, List.foldlM_cons, busy, Bool.not_false,
      planRead_row elements contained empty positive]
    rfl
  unfold Kernel.plan
  rw [List.foldlM_cons, planned]
  rfl

end Expr

end StridedArray
