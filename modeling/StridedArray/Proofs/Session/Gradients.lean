import StridedArray.Proofs.Convolution.Transposed
import StridedArray.Proofs.Session.Convolution

/-! # Gradients of convolutions

* `Seen.swapFront`, `Seen.flippedFilter` — the operands;
* `runs_inputGradient`, `runs_filterGradient` — the transposed convolutions succeed, with the shape of
  the operand that they are the gradient of;
* `inputGradient_adjoint`, `filterGradient_adjoint` — they are the adjoints of the convolution. -/

namespace StridedArray

open Layout (rowMajor)
open Shape (Inside Positive product box)

namespace Session

variable {s : Session} {owner : Nat}

/-! ## Operands with their axes exchanged -/

section Operands

variable {t : Tensor} {bytes : Bytes} {l : Layout} {a d : Int} {rest : List Int} {x : List Int → Int}

theorem Seen.swapFront (seen : s.Seen owner t bytes l (a :: d :: rest) x) :
    ∃ swapped, l.swapFront = .ok swapped
      ∧ s.Seen owner t bytes swapped (d :: a :: rest) (exchanged x) := by
  obtain ⟨swapped, _, swap, shows, _, entries⟩ := seen.laid.clear.swapFront seen.extents
  refine ⟨swapped, swap, seen.backs, seen.laid.shows shows, shows.shape_eq, fun index inside => ?_⟩
  rw [entries _ inside]
  exact exchanged_congr seen.entries index inside

/-- Windows can be turned where nothing is hidden, since a view that is flipped keeps its ranges only
    then. -/
theorem Seen.flippedFilter (seen : s.Seen owner t bytes l (a :: d :: rest) x)
    (whole : l.top.ranges = View.fullMask l.shape) :
    ∃ kernel, Session.flippedFilter l = .ok kernel
      ∧ s.Seen owner t bytes kernel (d :: a :: rest) (turned rest x) := by
  obtain ⟨kernel, _, flipped, shows, entries⟩ := seen.laid.clear.flippedFilter seen.extents whole
  refine ⟨kernel, flipped, seen.backs, seen.laid.shows shows, shows.shape_eq, fun index inside => ?_⟩
  rw [entries _ inside]
  exact turned_congr seen.entries index inside

end Operands

/-! ## Running the transposed convolutions -/

variable {lhs rhs cot : TensorRef} {b c co : Int} {axes : List ConvAxis} {x w g : List Int → Int}
  {o : ConvOptions} {p : LooseConvParams}

theorem checkCotangent_ok {input filter : List Datum} {output : List Int}
    (accepted : o.check input filter = .ok (p, Datum.ints output)) :
    o.checkCotangent input filter output = .ok p := by
  unfold ConvOptions.checkCotangent
  rw [accepted, ok_bind]
  dsimp only
  rw [Datum.sameAll_ints]
  rfl

theorem outputShape_ok {q : LooseConvParams} {xs ks outs : List Int}
    (stands : q.StandsFor (ConvParams.ofAxes axes)) (roomy : ∀ a ∈ axes, a.Roomy)
    (inputExtents : axes.map ConvAxis.input = xs) (kernelExtents : axes.map ConvAxis.kernel = ks)
    (outputExtents : axes.map ConvAxis.output = outs) (b c co d : Int) :
    q.outputShape (.list (Datum.ints (b :: c :: xs))) (.list (Datum.ints (co :: d :: ks)))
      = .ok (Datum.ints (b :: co :: outs)) := by
  subst inputExtents kernelExtents outputExtents
  rw [stands.outputShape, ConvParams.outputShape_ofAxes roomy, ok_map]

section Prepared

variable {t u : Tensor} {q : LooseConvParams}

/-- The gradient of the input, once everything that it needs is there. -/
theorem inputGradient_prepared [Room] {kernel : Layout} {input : List Datum}
    (known : s.tensors[cot.number]? = some t) (found : s.tensors[rhs.number]? = some u)
    (agrees : o.checkCotangent input (Datum.ints u.shape) t.shape = .ok p)
    (transposed : p.transposeInput (.list input) (.list (Datum.ints u.shape)) = .ok q)
    (flipped : flippedFilter u.layout = .ok kernel) :
    (inputGradient cot rhs (.list input) o).run.run s
      = (ExceptT.run do
          let output ← ofResult
            (q.outputShape (.list (Datum.ints t.shape)) (.list (Datum.ints kernel.shape)))
          if !Datum.sameAll output input then throw .unmet
          runConvolution t t.layout u kernel q output).run s := by
  unfold inputGradient
  rw [(runs_ofResult (Datum.items_list _)).bind_run, (runs_find known).bind_run, (runs_find found).bind_run,
    (runs_ofResult agrees).bind_run, (runs_ofResult transposed).bind_run, (runs_ofResult flipped).bind_run]

variable {r : TensorRef} {computed s' : Session}

/-- The shape that comes out is the one that was asked for, so that the check between them passes. -/
theorem runs_inputGradient_of [Room] {kernel : Layout} {xs : List Int} (known : s.tensors[cot.number]? = some t)
    (found : s.tensors[rhs.number]? = some u)
    (agrees : o.checkCotangent (Datum.ints xs) (Datum.ints u.shape) t.shape = .ok p)
    (transposed : p.transposeInput (.list (Datum.ints xs)) (.list (Datum.ints u.shape)) = .ok q)
    (flipped : flippedFilter u.layout = .ok kernel)
    (output : q.outputShape (.list (Datum.ints t.shape)) (.list (Datum.ints kernel.shape)) = .ok (Datum.ints xs))
    (runs : Runs (runConvolution t t.layout u kernel q (Datum.ints xs)) s r s') :
    Runs (inputGradient cot rhs (.list (Datum.ints xs)) o) s r s' := by
  unfold Runs
  rw [inputGradient_prepared known found agrees transposed flipped, (runs_ofResult output).bind_run,
    Datum.sameAll_ints]
  exact runs

theorem runs_filterGradient_of [Room] {swapped windows : Layout} {out : TensorRef} {ks : List Int}
    (known : s.tensors[lhs.number]? = some t) (found : s.tensors[cot.number]? = some u)
    (agrees : o.checkCotangent (Datum.ints t.shape) (Datum.ints (co :: c :: ks)) u.shape = .ok p)
    (transposed : p.transposeFilter (.list (Datum.ints t.shape)) (.list (Datum.ints (co :: c :: ks))) = .ok q)
    (swap : t.layout.swapFront = .ok swapped) (swapCotangent : u.layout.swapFront = .ok windows)
    (output : q.outputShape (.list (Datum.ints swapped.shape)) (.list (Datum.ints windows.shape))
      = .ok (Datum.ints (c :: co :: ks)))
    (runs : Runs (runConvolution t swapped u windows q (Datum.ints (c :: co :: ks))) s out computed)
    (replaces : Runs (do
        let gradient ← moved out Layout.swapFront
        dispose out
        return gradient) computed r s') :
    Runs (filterGradient lhs cot (.list (Datum.ints (co :: c :: ks))) o) s r s' := by
  have swappedFilter : swappedFront (Datum.ints (co :: c :: ks)) = Datum.ints (c :: co :: ks) := rfl
  unfold filterGradient
  refine (runs_ofResult (Datum.items_list _)).bind ((runs_find known).bind ((runs_find found).bind
    ((runs_ofResult agrees).bind ((runs_ofResult transposed).bind ((runs_ofResult swap).bind
      ((runs_ofResult swapCotangent).bind ((runs_ofResult output).bind ?_)))))))
  rw [swappedFilter, Datum.sameAll_ints]
  exact runs.bind replaces

/-- A view takes the place of an array of integers that was computed last. -/
theorem runs_replaceComputed {bytes : Bytes} {l : Layout} {f : Layout → Except Failure Layout}
    (later : s.Extends computed) (result : computed.tensors[s.tensors.size]? = some t)
    (backs : computed.Backs owner t bytes) (layout : f t.layout = .ok l) :
    ∃ s', Runs (do
        let v ← moved ⟨s.tensors.size⟩ f
        dispose ⟨s.tensors.size⟩
        return v) computed ⟨computed.tensors.size⟩ s'
      ∧ s.Extends s'
      ∧ s'.tensors[computed.tensors.size]? = some ⟨t.handle, l, .int32, false⟩
      ∧ s'.Backs owner ⟨t.handle, l, .int32, false⟩ bytes := by
  obtain ⟨s', replaces, still, last, stored⟩ := runs_replaceLast later result backs.live backs.stored layout
  rw [backs.kind] at last
  exact ⟨s', replaces, still, last, rfl, rfl, backs.owner, backs.words, stored⟩

end Prepared

theorem runs_inputGradient [Room] (cotangent : s.Holds owner cot (b :: co :: axes.map ConvAxis.output) g)
    (filter : s.Fresh owner rhs (co :: c :: axes.map ConvAxis.kernel) w)
    (positive : Positive (co :: c :: axes.map ConvAxis.kernel))
    (stands : p.StandsFor (ConvParams.ofAxes axes)) (fits : ∀ a ∈ axes, a.Fits)
    (accepted : o.check (Datum.ints (b :: c :: axes.map ConvAxis.input))
        (Datum.ints (co :: c :: axes.map ConvAxis.kernel))
      = .ok (p, Datum.ints (b :: co :: axes.map ConvAxis.output)))
    (small : product (b :: c :: axes.map ConvAxis.input) * (co * product (axes.map ConvAxis.kernel))
      < 0x80000000) :
    ∃ s', Runs (inputGradient cot rhs (.list (Datum.ints (b :: c :: axes.map ConvAxis.input))) o) s
        ⟨s.tensors.size⟩ s'
      ∧ s.Extends s'
      ∧ s'.Fresh owner ⟨s.tensors.size⟩ (b :: c :: axes.map ConvAxis.input) fun index =>
        wrap32 ((ConvParams.ofAxes (axes.map ConvAxis.forInput)).sumAt (axes.map ConvAxis.output) co
          (axes.map ConvAxis.kernel) g (turned (axes.map ConvAxis.kernel) w) index) := by
  have fitsInput := ConvAxis.forall_fits_forInput fits
  obtain ⟨t, bytes, known, seen⟩ := cotangent.seen
  obtain ⟨u, others, found, whole, filterSeen⟩ := filter.seen positive
  obtain ⟨kernel, flipped, turnedSeen⟩ := filterSeen.flippedFilter (by rw [whole]; rfl)
  obtain ⟨q, transposed, standsTransposed⟩ := stands.transposeInput
    (ConvParams.transposeInput_ofAxes (ConvAxis.forall_roomy fits) b c co c)
  obtain ⟨s', runs, later, fresh⟩ := runs_runConvolution seen turnedSeen fitsInput
    (ConvAxis.map_input_forInput axes) (ConvAxis.map_kernel_forInput axes)
    (ConvAxis.map_output_forInput fits) (standsTransposed.prepareConvolution ..) small
  have output := outputShape_ok standsTransposed (ConvAxis.forall_roomy fitsInput)
    (ConvAxis.map_input_forInput axes) (ConvAxis.map_kernel_forInput axes) (ConvAxis.map_output_forInput fits)
    b co c co
  have shape : t.shape = b :: co :: axes.map ConvAxis.output := seen.extents
  have filterShape : u.shape = co :: c :: axes.map ConvAxis.kernel := filterSeen.extents
  refine ⟨s', runs_inputGradient_of (p := p) known found ?_ ?_ flipped ?_ runs, later, fresh⟩
  · rw [shape, filterShape, checkCotangent_ok accepted]
  · rw [filterShape, transposed]
  · rw [shape, turnedSeen.extents, output]

/-- The gradient of the filter. The array that it is computed in is given back. -/
theorem runs_filterGradient [Room] (input : s.Holds owner lhs (b :: c :: axes.map ConvAxis.input) x)
    (cotangent : s.Holds owner cot (b :: co :: axes.map ConvAxis.output) g)
    (stands : p.StandsFor (ConvParams.ofAxes axes)) (fits : ∀ a ∈ axes, a.Fits)
    (accepted : o.check (Datum.ints (b :: c :: axes.map ConvAxis.input))
        (Datum.ints (co :: c :: axes.map ConvAxis.kernel))
      = .ok (p, Datum.ints (b :: co :: axes.map ConvAxis.output)))
    (small : product (c :: co :: axes.map ConvAxis.kernel) * (b * product (axes.map ConvAxis.output))
      < 0x80000000) :
    ∃ r s', Runs (filterGradient lhs cot (.list (Datum.ints (co :: c :: axes.map ConvAxis.kernel))) o) s
        r s'
      ∧ s.Extends s'
      ∧ s'.Holds owner r (co :: c :: axes.map ConvAxis.kernel) (exchanged fun index =>
        wrap32 ((ConvParams.ofAxes (axes.map ConvAxis.forFilter)).sumAt (axes.map ConvAxis.input) b
          (axes.map ConvAxis.output) (exchanged x) (exchanged g) index)) := by
  have fitsFilter := ConvAxis.forall_fits_forFilter fits
  obtain ⟨t, bytes, known, seen⟩ := input.seen
  obtain ⟨u, others, found, cotangentSeen⟩ := cotangent.seen
  obtain ⟨swapped, swap, swappedSeen⟩ := seen.swapFront
  obtain ⟨windows, swapCotangent, windowsSeen⟩ := cotangentSeen.swapFront
  obtain ⟨q, transposed, standsTransposed⟩ := stands.transposeFilter
    (ConvParams.transposeFilter_ofAxes (ConvAxis.forall_roomy fits) b c co c)
  obtain ⟨computed, runs, later, fresh⟩ := runs_runConvolution swappedSeen windowsSeen fitsFilter
    (ConvAxis.map_input_forFilter axes) (ConvAxis.map_kernel_forFilter axes)
    (ConvAxis.map_output_forFilter (ConvAxis.forall_roomy fits)) (standsTransposed.prepareConvolution ..) small
  have positive : Positive (c :: co :: axes.map ConvAxis.kernel) := by
    have inputs := seen.positive
    have outputs := cotangentSeen.positive
    simp only [Shape.positive_cons] at inputs outputs ⊢
    exact ⟨inputs.2.1, outputs.2.1, List.forall_mem_map.2 fun a member => (fits a member).kernel⟩
  have output := outputShape_ok standsTransposed (ConvAxis.forall_roomy fitsFilter)
    (ConvAxis.map_input_forFilter axes) (ConvAxis.map_kernel_forFilter axes)
    (ConvAxis.map_output_forFilter (ConvAxis.forall_roomy fits)) c b co b
  have shape : t.shape = b :: c :: axes.map ConvAxis.input := seen.extents
  have cotangentShape : u.shape = b :: co :: axes.map ConvAxis.output := cotangentSeen.extents
  -- A view of what was computed puts its axes back and takes its place.
  obtain ⟨v, held, result, computedSeen⟩ := (fresh.holds positive).seen
  obtain ⟨gradient, back, gradientSeen⟩ := computedSeen.swapFront
  obtain ⟨s', replaces, laterStill, last, backs⟩ := runs_replaceComputed later result computedSeen.backs back
  refine ⟨_, s', runs_filterGradient_of (p := p) known found ?_ ?_ swap swapCotangent ?_ runs replaces, laterStill,
    ⟨_, held, last, backs, gradientSeen.laid, gradientSeen.extents, gradientSeen.entries⟩⟩
  · rw [shape, cotangentShape, checkCotangent_ok accepted]
  · rw [shape, transposed]
  · rw [swappedSeen.extents, windowsSeen.extents, output]

/-! ## Adjoints -/

/-- Sums of products only depend on the images of the factors modulo `2 ^ 32`. -/
theorem sum_wrap32_mul (indices : Finset (List Int)) (f g : List Int → Int) :
    ∑ index ∈ indices, wrap32 (f index) * g index
      ≡ ∑ index ∈ indices, f index * g index [ZMOD 0x100000000] :=
  Int.ModEq.sum fun index _ => (wrap32_modEq (f index)).mul_right (g index)

/-- The gradient with respect to the input is the adjoint of the convolution in its input, modulo
    `2 ^ 32`. It can be computed in any later session. -/
theorem inputGradient_adjoint [Room] {xs ks : List Int} {output : List Datum}
    (left : s.Fresh owner lhs (b :: c :: xs) x) (right : s.Fresh owner rhs (co :: c :: ks) w)
    (inputs : Positive (b :: c :: xs)) (filters : Positive (co :: c :: ks))
    (accepted : o.check (Datum.ints (b :: c :: xs)) (Datum.ints (co :: c :: ks)) = .ok (p, output)) :
    ∃ outs, output = Datum.ints outs ∧ ∀ cot g, s.Fresh owner cot outs g →
      product outs * c * product ks < 0x80000000 →
      product (b :: c :: xs) * co * product ks < 0x80000000 →
      ∃ y dx : List Int → Int,
        (∃ r s', Runs (convolve lhs rhs o) s r s' ∧ s.Extends s' ∧ s'.Fresh owner r outs y)
          ∧ (∀ t, s.Extends t →
            ∃ r t', Runs (inputGradient cot rhs (.list (Datum.ints (b :: c :: xs))) o) t r t'
              ∧ t.Extends t' ∧ t'.Fresh owner r (b :: c :: xs) dx)
          ∧ ∑ index ∈ box outs, y index * g index
            ≡ ∑ index ∈ box (b :: c :: xs), x index * dx index [ZMOD 0x100000000] := by
  have spatial := (Shape.positive_cons.1 (Shape.positive_cons.1 inputs).2).2
  obtain ⟨_, axes, stands, rfl, rfl, fits, rfl⟩ := ConvOptions.check_ok spatial accepted
  refine ⟨_, rfl, fun cot g cotangent small smallGradient => ?_⟩
  rw [Int.mul_assoc] at small smallGradient
  have outputs := ConvAxis.positive_outputs fits inputs filters
  obtain ⟨s', runs, later, result⟩ := runs_convolve (left.holds inputs) (right.holds filters) stands fits
    accepted small
  refine ⟨_, fun index => wrap32 ((ConvParams.ofAxes (axes.map ConvAxis.forInput)).sumAt
      (axes.map ConvAxis.output) co (axes.map ConvAxis.kernel) g (turned (axes.map ConvAxis.kernel) w) index),
    ⟨_, s', runs, later, result⟩, fun t laterStill => ?_, ?_⟩
  · obtain ⟨t', runsGradient, kept, gradient⟩ := runs_inputGradient
      ((cotangent.later laterStill).holds outputs) (right.later laterStill) filters stands fits accepted
      smallGradient
    exact ⟨_, t', runsGradient, kept, gradient⟩
  · refine (sum_wrap32_mul ..).trans ?_
    rw [ConvParams.sum_sumAt_forInput fits]
    simp only [Int.mul_comm (x _)]
    exact (sum_wrap32_mul ..).symm

/-- The gradient of an input with gaps, for a cotangent of two elements. -/
theorem inputGradient_adjoint_spaced :
    ∃ s r s' v t y dx, Runs (convolve ⟨0⟩ ⟨1⟩ spacedOptions) s r s' ∧ s'.Fresh 0 r [1, 1, 2] y
      ∧ Runs (inputGradient ⟨2⟩ ⟨1⟩ (.list (Datum.ints [1, 1, 3])) spacedOptions) s' v t
      ∧ t.Fresh 0 v [1, 1, 3] dx
      ∧ ∑ index ∈ box [1, 1, 2], y index * uploaded [1, 1, 2] [5, 7] index
        ≡ ∑ index ∈ box [1, 1, 3], uploaded [1, 1, 3] [1, 2, 3] index * dx index
          [ZMOD 0x100000000] := by
  obtain ⟨s, _, _, fresh⟩ := @runs_uploads onHost 0 _
    [([1, 1, 3], [1, 2, 3]), ([1, 1, 2], [10, 20]), ([1, 1, 2], [5, 7])] (.fresh 0) hasHost_onHost
    (by decide)
  have accepted : ∃ p, spacedOptions.check (Datum.ints [1, 1, 3]) (Datum.ints [1, 1, 2])
      = .ok (p, Datum.ints [1, 1, 2]) := ⟨_, rfl⟩
  obtain ⟨p, accepted⟩ := accepted
  obtain ⟨outs, shape, adjoint⟩ := inputGradient_adjoint (fresh (k := 0) rfl) (fresh (k := 1) rfl)
    (by decide) (by decide) accepted
  obtain rfl := Datum.ints_injective shape
  obtain ⟨y, dx, ⟨r, s', runs, later, result⟩, gradients, sums⟩ := adjoint _ _ (fresh (k := 2) rfl)
    (by decide) (by decide)
  obtain ⟨v, t, runsGradient, _, gradient⟩ := gradients s' later
  exact ⟨s, r, s', v, t, y, dx, runs, result, runsGradient, gradient, sums⟩

/-- The gradient with respect to the filter is the adjoint of the convolution in its filter, modulo
    `2 ^ 32`. It can be computed in any later session. -/
theorem filterGradient_adjoint [Room] {xs ks : List Int} {output : List Datum}
    (left : s.Fresh owner lhs (b :: c :: xs) x) (right : s.Fresh owner rhs (co :: c :: ks) w)
    (inputs : Positive (b :: c :: xs)) (filters : Positive (co :: c :: ks))
    (accepted : o.check (Datum.ints (b :: c :: xs)) (Datum.ints (co :: c :: ks)) = .ok (p, output)) :
    ∃ outs, output = Datum.ints outs ∧ ∀ cot g, s.Fresh owner cot outs g →
      product outs * c * product ks < 0x80000000 →
      product (co :: c :: ks) * b * product (outs.drop 2) < 0x80000000 →
      ∃ y dw : List Int → Int,
        (∃ r s', Runs (convolve lhs rhs o) s r s' ∧ s.Extends s' ∧ s'.Fresh owner r outs y)
          ∧ (∀ t, s.Extends t →
            ∃ r t', Runs (filterGradient lhs cot (.list (Datum.ints (co :: c :: ks))) o) t r t'
              ∧ t.Extends t' ∧ t'.Holds owner r (co :: c :: ks) dw)
          ∧ ∑ index ∈ box outs, y index * g index
            ≡ ∑ index ∈ box (co :: c :: ks), w index * dw index [ZMOD 0x100000000] := by
  have spatial := (Shape.positive_cons.1 (Shape.positive_cons.1 inputs).2).2
  obtain ⟨_, axes, stands, rfl, rfl, fits, rfl⟩ := ConvOptions.check_ok spatial accepted
  refine ⟨_, rfl, fun cot g cotangent small smallGradient => ?_⟩
  rw [Int.mul_assoc] at small
  have outputs := ConvAxis.positive_outputs fits inputs filters
  obtain ⟨s', runs, later, result⟩ := runs_convolve (left.holds inputs) (right.holds filters) stands fits
    accepted small
  refine ⟨_, exchanged fun index => wrap32 ((ConvParams.ofAxes (axes.map ConvAxis.forFilter)).sumAt
      (axes.map ConvAxis.input) b (axes.map ConvAxis.output) (exchanged x) (exchanged g) index),
    ⟨_, s', runs, later, result⟩, fun t laterStill => ?_, ?_⟩
  · rw [Int.mul_assoc] at smallGradient
    have size : product (c :: co :: axes.map ConvAxis.kernel)
        = product (co :: c :: axes.map ConvAxis.kernel) := by
      simp only [Shape.product_cons]
      ring
    obtain ⟨r, t', runsGradient, kept, gradient⟩ := runs_filterGradient
      ((left.later laterStill).holds inputs) ((cotangent.later laterStill).holds outputs) stands fits
      accepted (by rwa [size])
    exact ⟨r, t', runsGradient, kept, gradient⟩
  · -- Elements that are wrapped do not change a sum modulo `2 ^ 32`, on either side.
    refine (sum_wrap32_mul ..).trans ?_
    rw [ConvParams.sum_sumAt_forFilter]
    simp only [Int.mul_comm (w _)]
    have images : ∀ f : List Int → Int, (exchanged fun index => wrap32 (f index))
        = fun index => wrap32 (exchanged f index) := by
      intro f
      funext index
      unfold exchanged
      split
      · rfl
      · rfl
    rw [images]
    exact (sum_wrap32_mul ..).symm

/-- The gradient of a filter with gaps, for a cotangent of two elements. -/
theorem filterGradient_adjoint_spaced :
    ∃ s r s' v t y dw, Runs (convolve ⟨0⟩ ⟨1⟩ spacedOptions) s r s' ∧ s'.Fresh 0 r [1, 1, 2] y
      ∧ Runs (filterGradient ⟨0⟩ ⟨2⟩ (.list (Datum.ints [1, 1, 2])) spacedOptions) s' v t
      ∧ t.Holds 0 v [1, 1, 2] dw
      ∧ ∑ index ∈ box [1, 1, 2], y index * uploaded [1, 1, 2] [5, 7] index
        ≡ ∑ index ∈ box [1, 1, 2], uploaded [1, 1, 2] [10, 20] index * dw index
          [ZMOD 0x100000000] := by
  obtain ⟨s, _, _, fresh⟩ := @runs_uploads onHost 0 _
    [([1, 1, 3], [1, 2, 3]), ([1, 1, 2], [10, 20]), ([1, 1, 2], [5, 7])] (.fresh 0) hasHost_onHost
    (by decide)
  have accepted : ∃ p, spacedOptions.check (Datum.ints [1, 1, 3]) (Datum.ints [1, 1, 2])
      = .ok (p, Datum.ints [1, 1, 2]) := ⟨_, rfl⟩
  obtain ⟨p, accepted⟩ := accepted
  obtain ⟨outs, shape, adjoint⟩ := filterGradient_adjoint (fresh (k := 0) rfl) (fresh (k := 1) rfl)
    (by decide) (by decide) accepted
  obtain rfl := Datum.ints_injective shape
  obtain ⟨y, dw, ⟨r, s', runs, later, result⟩, gradients, sums⟩ := adjoint _ _ (fresh (k := 2) rfl)
    (by decide) (by decide)
  obtain ⟨v, t, runsGradient, _, gradient⟩ := gradients s' later
  exact ⟨s, r, s', v, t, y, dw, runs, result, runsGradient, gradient, sums⟩

end Session

end StridedArray
