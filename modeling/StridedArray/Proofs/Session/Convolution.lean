import StridedArray.Proofs.Convolution.Operands
import StridedArray.Proofs.Convolution.Settled
import StridedArray.Proofs.Session.Arrays

/-! # Running convolutions

* `convolutionExpr_ok` — the expression of a convolution is a sum of products;
* `runs_sumOfProducts` — running it makes a fresh array;
* `runs_runConvolution` — its elements are the sums of the convolution modulo `2 ^ 32`. -/

namespace StridedArray

open Layout (rowMajor)
open Shape (Inside Positive product)

theorem Loose.product_ints (ns : List Int) :
    Loose.product (.list (Datum.ints ns)) = .ok (.int (Shape.product ns)) := by
  show Loose.plainOr (Datum.ints ns) _ _ = _
  unfold Loose.plainOr
  rw [Datum.plainInts?_ints]
  rfl

theorem Layout.requestShape_ints {shape : List Int} (natural : ∀ s ∈ shape, 0 ≤ s) :
    Layout.requestShape (.list (Datum.ints shape)) = .ok (rowMajor shape) := by
  have extents : (Datum.list (Datum.ints shape)).extents = .ok shape := by
    show (Datum.ints shape).mapM _ = _
    rw [mapM_eq_ok, Datum.ints, List.forall₂_map_left_iff, List.forall₂_same]
    intro extent member
    have accepted : ¬ extent < 0 := by
      have := natural extent member
      omega
    simp [accepted, Datum.isInt, Datum.sameNumber_int, pure, Except.pure]
  unfold Layout.requestShape
  rw [extents, ok_bind, Layout.ofShape_eq_ok.2 ⟨natural, rfl⟩]

section Expression

variable {l f u v : Layout} {p : LooseConvParams} {output : List Int} {length : Int}

theorem convolutionExpr_ok
    (layouts : convolutionLayouts l f p (Datum.ints output) = .ok (u, v, length))
    (low : 0 ≤ length) (high : length < 0x80000000) :
    convolutionExpr l f .int32 .int32 p (Datum.ints output)
      = .ok (Expr.productSum (product output) length u v) := by
  unfold convolutionExpr
  rw [layouts, ok_bind, Loose.product_ints]
  show (Expr.rowPosition (product output) length >>= _) = _
  rw [Expr.rowPosition_ok low high, ok_bind, Expr.read_rowIndex _ _ u le_rfl, ok_bind,
    Expr.read_rowIndex _ _ v Int.one_nonneg]
  rfl

end Expression

namespace Session

variable {s : Session} {owner : Nat} {lhs rhs : Tensor} {left right : Bytes} {l f u v : Layout}
  {p : LooseConvParams} {output : List Int} {length : Int}

/-- Running a sum of products makes a fresh array. There may be no elements, and none of them needs a product. -/
theorem runs_sumOfProducts [Room] (first : s.Backs owner lhs left) (second : s.Backs owner rhs right)
    (layouts : convolutionLayouts l f p (Datum.ints output) = .ok (u, v, length))
    (anchoredLeft : u.Anchored (left.size / 4 : Nat)) (anchoredRight : v.Anchored (right.size / 4 : Nat))
    (shapeLeft : u.shape = output ++ [length]) (shapeRight : v.shape = output ++ [length])
    (extents : ∀ n ∈ output, 0 ≤ n) (naturalLength : 0 ≤ length) (fewRows : product output < 0x80000000)
    (fewSteps : length < 0x80000000) (small : product output * length < 0x80000000) :
    ∃ s', Runs (runConvolution lhs l rhs f p (Datum.ints output)) s ⟨s.tensors.size⟩ s'
      ∧ s.Extends s'
      ∧ s'.Fresh owner ⟨s.tensors.size⟩ output fun index =>
        wrap32 (∑ k ∈ Finset.range length.toNat,
          u.entry (intAt left) (index ++ [(k : Int)]) * v.entry (intAt right) (index ++ [(k : Int)])) := by
  have count := Shape.product_nonneg extents
  obtain ⟨x, has, m, _, leftSlot⟩ := first.stored
  obtain ⟨y, hasRight, n, _, rightSlot⟩ := second.stored
  rw [first.owner] at has
  rw [second.owner] at hasRight
  obtain rfl := has.unique hasRight
  let zeros : Bytes := Array.replicate (product output * 4).toNat 0
  have zerosSize : zeros.size = (product output * 4).toNat := Array.size_replicate
  let sums := productSums u v left right length output
  have sumsSize : (bytesOf sums).size = (product output * 4).toNat := by
    rw [size_bytesOf, length_productSums]
    omega
  let handle : Handle := ⟨owner, x.table.slots.size⟩
  have allocated : Runs (allocate owner (product output * 4) none) s handle
      (s.withHost owner ⟨(x.table.allocate (product output * 4).toNat zeros).2⟩) :=
    runs_allocate has (by omega) (holds_few .int32 fewRows)
  have executed : Runs (onExecutor owner fun x => x.execute [Expr.productSum (product output) length u v]
      [.handle lhs.handle, .handle rhs.handle] [.handle handle])
      (s.withHost owner ⟨(x.table.allocate (product output * 4).toNat zeros).2⟩) ()
      (s.withHost owner ⟨(x.table.allocate (bytesOf sums).size (bytesOf sums)).2⟩) := by
    let after : Host := ⟨(x.table.allocate zeros.size zeros).2⟩
    have leftFound : after.table.lookup lhs.handle = .ok ⟨left.size, m, left⟩ :=
      Table.lookup_ok (first.owner.trans has.owner.symm) (Table.slot?_allocate _ _ leftSlot)
    have rightFound : after.table.lookup rhs.handle = .ok ⟨right.size, n, right⟩ :=
      Table.lookup_ok (second.owner.trans has.owner.symm) (Table.slot?_allocate _ _ rightSlot)
    have outputFound : after.table.lookup handle = .ok ⟨zeros.size, 1, zeros⟩ :=
      Table.lookup_ok has.owner.symm (Table.slot?_allocate_last ..)
    have here : (s.withHost owner after).HasHost owner after := has.withHost has.owner
    -- Overwriting the new slot is the same as allocating it with the sums in it.
    have written : after.table.put handle.slot (some ⟨zeros.size, 1, bytesOf sums⟩)
        = (x.table.allocate (bytesOf sums).size (bytesOf sums)).2 := by
      rw [sumsSize, ← zerosSize]
      exact Table.put_allocate ..
    have work : Runs (onExecutor owner fun x => x.execute [Expr.productSum (product output) length u v]
        [.handle lhs.handle, .handle rhs.handle] [.handle handle]) (s.withHost owner after) ()
        ((s.withHost owner after).withHost owner
          ⟨after.table.put handle.slot (some ⟨zeros.size, 1, bytesOf sums⟩)⟩) :=
      here.runs (execute_productSum leftFound rightFound outputFound extents naturalLength
        first.words second.words anchoredLeft anchoredRight shapeLeft shapeRight small (by omega))
    rw [withHost_withHost, written] at work
    rwa [← zerosSize]
  refine ⟨s.withArray owner x (bytesOf sums) (rowMajor output), ?_, has.extends_withArray .., ?_⟩
  · unfold runConvolution
    rw [if_neg (by simp [Tensor.owner, first.owner, second.owner])]
    rw [first.kind, second.kind]
    refine (runs_ofResult (convolutionExpr_ok layouts naturalLength fewSteps)).bind ?_
    refine (runs_ofResult (Loose.product_ints output)).bind ?_
    refine (runs_ofResult (Datum.multiply_int ..)).bind ?_
    refine (runs_ofResult (Datum.whole_int _)).bind ?_
    rw [show lhs.owner = owner from first.owner]
    refine allocated.bind ?_
    refine (Runs.tryCatch ((runs_requireLive first.live).bind
      ((runs_requireLive second.live).bind executed))).bind ?_
    exact (runs_ofResult (Layout.requestShape_ints extents)).bind (runs_adopt ..)
  · refine has.fresh_withArray (by omega) fun index inside => ?_
    exact intAt_productSums u v left right length inside

/-- A convolution of two arrays that are seen through some layouts makes a fresh array of its sums. The
    extents are those of the axes. -/
theorem runs_runConvolution [Room] {b c co : Int} {xs ks outs : List Int} {x w : List Int → Int}
    {axes : List ConvAxis} (first : s.Seen owner lhs left l (b :: c :: xs) x)
    (second : s.Seen owner rhs right f (co :: c :: ks) w) (fits : ∀ a ∈ axes, a.Fits)
    (inputExtents : axes.map ConvAxis.input = xs) (kernelExtents : axes.map ConvAxis.kernel = ks)
    (outputExtents : axes.map ConvAxis.output = outs)
    (prepared : Loose.prepareConvolution l f p = prepareConvolution l f (ConvParams.ofAxes axes))
    (small : product (b :: co :: outs) * (c * product ks) < 0x80000000) :
    ∃ s', Runs (runConvolution lhs l rhs f p (Datum.ints (b :: co :: outs))) s ⟨s.tensors.size⟩ s'
      ∧ s.Extends s'
      ∧ s'.Fresh owner ⟨s.tensors.size⟩ (b :: co :: outs) fun index =>
        wrap32 ((ConvParams.ofAxes axes).sumAt xs c ks x w index) := by
  subst inputExtents kernelExtents outputExtents
  obtain ⟨u, v, layouts, lined⟩ := first.laid.clear.convolutionLayouts first.extents second.laid.clear
    second.extents fits prepared
  have filters := (Shape.positive_cons.1 second.positive).2
  obtain ⟨_, leftShows⟩ := lined.left
  obtain ⟨_, rightShows⟩ := lined.right
  have outputs := ConvAxis.positive_outputs fits first.positive second.positive
  have rows := outputs.product_pos
  have steps : 0 < c * product (axes.map ConvAxis.kernel) := filters.product_pos
  obtain ⟨s', runs, later, fresh⟩ := runs_sumOfProducts first.backs second.backs layouts
    (first.laid.shows leftShows).anchored (second.laid.shows rightShows).anchored leftShows.shape_eq
    rightShows.shape_eq (fun n member => (outputs n member).le) steps.le (by nlinarith) (by nlinarith) small
  refine ⟨s', runs, later, fresh.congr fun index inside => ?_⟩
  -- The one sum over the last axis is the sum over channels and steps, and this only looks at elements.
  rw [lined.sum_eq filters _ _ inside, ConvParams.sumAt_congr fits first.entries second.entries inside]

end Session

/-! ## Convolutions of arrays -/

theorem ConvOptions.check_roomy {o : ConvOptions} {p : LooseConvParams} {output : List Datum}
    {b c co d : Int} {xs ks : List Int}
    (accepted : o.check (Datum.ints (b :: c :: xs)) (Datum.ints (co :: d :: ks)) = .ok (p, output)) :
    c = d ∧ ∃ axes : List ConvAxis, p.StandsFor (ConvParams.ofAxes axes)
      ∧ xs = axes.map ConvAxis.input ∧ ks = axes.map ConvAxis.kernel ∧ (∀ a ∈ axes, a.Roomy)
      ∧ output = Datum.ints (b :: co :: axes.map ConvAxis.output) := by
  simp only [ConvOptions.check, bind_eq_ok, pure_eq_ok, Prod.mk.injEq] at accepted
  obtain ⟨_, _, out, checked, rfl, rfl⟩ := accepted
  obtain ⟨q, outs, stands, strict, rfl⟩ := LooseConvParams.exists_standsFor checked
  obtain ⟨channels, axes, rfl, inputExtents, kernelExtents, each, rfl⟩ := ConvParams.check_eq_ok.1 strict
  exact ⟨channels, axes, stands, inputExtents, kernelExtents, fun a member => (each a member).1, rfl⟩

theorem ConvOptions.check_ok {o : ConvOptions} {p : LooseConvParams} {output : List Datum}
    {b c co d : Int} {xs ks : List Int} (inputs : Positive xs)
    (accepted : o.check (Datum.ints (b :: c :: xs)) (Datum.ints (co :: d :: ks)) = .ok (p, output)) :
    c = d ∧ ∃ axes : List ConvAxis, p.StandsFor (ConvParams.ofAxes axes)
      ∧ xs = axes.map ConvAxis.input ∧ ks = axes.map ConvAxis.kernel ∧ (∀ a ∈ axes, a.Fits)
      ∧ output = Datum.ints (b :: co :: axes.map ConvAxis.output) := by
  obtain ⟨channels, axes, stands, rfl, kernelExtents, roomy, outputs⟩ := ConvOptions.check_roomy accepted
  exact ⟨channels, axes, stands, rfl, kernelExtents,
    fun a member => (roomy a member).fits (inputs _ (List.mem_map_of_mem member)), outputs⟩

namespace Session

section Convolve

variable {s : Session} {owner : Nat} {lhs rhs : TensorRef} {b c co : Int} {x w : List Int → Int}
  {o : ConvOptions} {p : LooseConvParams}

theorem runs_convolve [Room] {axes : List ConvAxis} (left : s.Holds owner lhs (b :: c :: axes.map ConvAxis.input) x)
    (right : s.Holds owner rhs (co :: c :: axes.map ConvAxis.kernel) w)
    (stands : p.StandsFor (ConvParams.ofAxes axes)) (fits : ∀ a ∈ axes, a.Fits)
    (accepted : o.check (Datum.ints (b :: c :: axes.map ConvAxis.input))
        (Datum.ints (co :: c :: axes.map ConvAxis.kernel))
      = .ok (p, Datum.ints (b :: co :: axes.map ConvAxis.output)))
    (small : product (b :: co :: axes.map ConvAxis.output) * (c * product (axes.map ConvAxis.kernel))
      < 0x80000000) :
    ∃ s', Runs (convolve lhs rhs o) s ⟨s.tensors.size⟩ s' ∧ s.Extends s'
      ∧ s'.Fresh owner ⟨s.tensors.size⟩ (b :: co :: axes.map ConvAxis.output) fun index =>
        wrap32 ((ConvParams.ofAxes axes).sumAt (axes.map ConvAxis.input) c (axes.map ConvAxis.kernel)
          x w index) := by
  obtain ⟨t, bytes, known, seen⟩ := left.seen
  obtain ⟨u, others, found, filter⟩ := right.seen
  obtain ⟨s', runs, later, fresh⟩ := runs_runConvolution seen filter fits rfl rfl rfl
    (stands.prepareConvolution ..) small
  refine ⟨s', ?_, later, fresh⟩
  refine (runs_find known).bind ((runs_find found).bind ?_)
  refine Runs.bind (runs_ofResult (a := (p, Datum.ints (b :: co :: axes.map ConvAxis.output))) ?_) runs
  unfold Tensor.shape
  rw [seen.extents, filter.extents, accepted]

/-- A convolution of two fresh arrays, whatever the number of axes and the parameters that are accepted:
    it has the shape that the check of the parameters gives, and its elements are the sums of products
    modulo `2 ^ 32`. -/
theorem convolve_fresh [Room] {xs ks : List Int} {output : List Datum}
    (left : s.Fresh owner lhs (b :: c :: xs) x) (right : s.Fresh owner rhs (co :: c :: ks) w)
    (inputs : Positive (b :: c :: xs)) (filters : Positive (co :: c :: ks))
    (accepted : o.check (Datum.ints (b :: c :: xs)) (Datum.ints (co :: c :: ks)) = .ok (p, output)) :
    ∃ q outs, p.settle = .ok q ∧ output = Datum.ints outs
      ∧ (product outs * c * product ks < 0x80000000 →
        ∃ r s', Runs (convolve lhs rhs o) s r s' ∧ s.Extends s'
          ∧ s'.Fresh owner r outs fun index => wrap32 (q.sumAt xs c ks x w index)) := by
  have spatial := (Shape.positive_cons.1 (Shape.positive_cons.1 inputs).2).2
  obtain ⟨_, axes, stands, rfl, rfl, fits, rfl⟩ := ConvOptions.check_ok spatial accepted
  refine ⟨_, _, stands.settle, rfl, fun small => ?_⟩
  rw [Int.mul_assoc] at small
  obtain ⟨s', runs, later, fresh⟩ := runs_convolve (left.holds inputs) (right.holds filters) stands fits
    accepted small
  exact ⟨_, s', runs, later, fresh⟩

/-- Every second window over an input with gaps, for a filter with gaps and some padding behind. -/
def spacedOptions : ConvOptions where
  strides := .list [.int 2]
  padding := .list [.list [.int 0, .int 1]]
  inputDilation := .list [.int 2]
  filterDilation := .list [.int 2]

/-- The input `1 0 2 0 3 0` under windows `10 0 20`. -/
theorem convolve_fresh_spaced :
    ∃ s r s', s.Fresh 0 ⟨0⟩ [1, 1, 3] (uploaded [1, 1, 3] [1, 2, 3])
      ∧ s.Fresh 0 ⟨1⟩ [1, 1, 2] (uploaded [1, 1, 2] [10, 20])
      ∧ Runs (convolve ⟨0⟩ ⟨1⟩ spacedOptions) s r s'
      ∧ s'.Fresh 0 r [1, 1, 2] (uploaded [1, 1, 2] [50, 80]) := by
  obtain ⟨s, _, _, fresh⟩ := @runs_uploads onHost 0 _ [([1, 1, 3], [1, 2, 3]), ([1, 1, 2], [10, 20])]
    (.fresh 0) hasHost_onHost (by decide)
  have left : s.Fresh 0 ⟨0⟩ _ _ := fresh (k := 0) rfl
  have right : s.Fresh 0 ⟨1⟩ _ _ := fresh (k := 1) rfl
  obtain ⟨p, accepted⟩ : ∃ p, spacedOptions.check (Datum.ints [1, 1, 3]) (Datum.ints [1, 1, 2])
      = .ok (p, Datum.ints [1, 1, 2]) ∧ p.settle = .ok ⟨[2], [(0, 1)], [2], [2]⟩ := ⟨_, rfl, rfl⟩
  obtain ⟨q, outs, settled, shape, succeeds⟩ := convolve_fresh left right (by decide) (by decide) accepted.1
  have output : outs = [1, 1, 2] := (Datum.ints_injective shape).symm
  have params : q = ⟨[2], [(0, 1)], [2], [2]⟩ := Except.ok.inj (settled.symm.trans accepted.2)
  subst output params
  obtain ⟨r, s', runs, _, result⟩ := succeeds (by decide)
  have sums : ∀ index ∈ Shape.box [1, 1, 2], wrap32 (ConvParams.sumAt ⟨[2], [(0, 1)], [2], [2]⟩ [3] 1 [2]
      (uploaded [1, 1, 3] [1, 2, 3]) (uploaded [1, 1, 2] [10, 20]) index)
      = uploaded [1, 1, 2] [50, 80] index := by decide
  exact ⟨s, r, s', left, right, runs, result.congr fun index inside => sums index (Shape.mem_box.2 inside)⟩

end Convolve

end Session

end StridedArray
