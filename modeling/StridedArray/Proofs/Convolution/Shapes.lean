import StridedArray.Proofs.Convolution.Operands
import StridedArray.Proofs.Convolution.Settled
import StridedArray.Proofs.Layout.Anchored
import StridedArray.Proofs.Layout.Shapes

/-! # Shapes of the operands of a convolution

The shape of a result is worked out from extents alone. Wherever that succeeds, the operands can be moved, and
they come out in that shape. Axes may be empty here, as long as there is room for a window.

* `Sound.windows_shape` — windows of the dilated and padded input;
* `Sound.joinInput_shape`, `Sound.joinFilter_shape` — channels and windows joined;
* `Sound.prepare_shapes`, `Sound.convolutionLayouts_shapes` — both operands; `Anchored.convolutionLayouts` — they
  stay inside of their buffers;
* `shapes_of_outputShape` — the shape that is worked out is the one that the operands are brought to. -/

namespace StridedArray

open Shape (product)
open View (pick)

namespace Layout

variable {l f : Layout} {b c co : Int} {axes : List ConvAxis}

/-- Windows of the dilated and padded input. -/
theorem Sound.windows_shape (sound : l.Sound) (known : l.shape = b :: c :: axes.map ConvAxis.input)
    (roomy : ∀ a ∈ axes, a.Roomy) :
    ∃ dilated padded, l.dilate (axes.map ConvAxis.inputDilation) = .ok dilated
      ∧ dilated.padOrCut (axes.map fun a => (a.low, a.high)) = .ok padded
      ∧ Gives (padded.pool (axes.map ConvAxis.kernel) (axes.map ConvAxis.stride)
          (axes.map ConvAxis.filterDilation))
        (b :: c :: axes.map ConvAxis.output ++ axes.map ConvAxis.kernel) := by
  have gaps := @Sound.gives_dilate l b c sound (axes.map fun a => (a.input, a.inputDilation))
  simp only [List.map_map, Function.comp_def, List.forall_mem_map] at gaps
  obtain ⟨dilated, dilatedOk, dilatedSound, dilatedShape⟩ :=
    gaps known fun a member => (roomy a member).inputDilation
  have padding := @Sound.gives_padOrCut dilated b c dilatedSound
    (axes.map fun a => (dilatedExtent a.input a.inputDilation, (a.low, a.high)))
  simp only [List.map_map, Function.comp_def, List.forall_mem_map] at padding
  obtain ⟨padded, paddedOk, paddedSound, paddedShape⟩ :=
    padding dilatedShape fun a member => (roomy a member).sliding.input.le
  have windows := @Sound.gives_pool padded paddedSound [b, c] (axes.map ConvAxis.sliding)
  simp only [List.map_map, Function.comp_def, List.forall_mem_map] at windows
  exact ⟨dilated, padded, dilatedOk, paddedOk, windows paddedShape fun a member => (roomy a member).sliding⟩

section Joined

variable {outs kernels : List Int}

/-- The windows of all channels joined to one axis. -/
theorem Sound.joinInput_shape (sound : l.Sound) (known : l.shape = b :: c :: outs ++ kernels) :
    ∃ moved, l.moveAxis 1 ((outs.length : Int) + 1) = .ok moved
      ∧ Gives (moved.reshape (b :: 1 :: outs ++ [c * product kernels]))
        (b :: 1 :: outs ++ [c * product kernels]) := by
  have rank : l.rank = 2 + outs.length + kernels.length := by
    simp only [Layout.rank, known, List.cons_append, List.length_cons, List.length_append]
    omega
  obtain ⟨moved, ok, movedSound, movedShape⟩ := sound.gives_permute
    (moveOrder l.rank 1 (outs.length + 1)) (perm_moveOrder (by omega) (by omega))
  have bounds : 1 < l.shape.length ∧ outs.length + 1 < l.shape.length := by
    rw [Layout.rank] at rank
    omega
  rw [Layout.rank, pick_moveOrder bounds.1 bounds.2, known, relocate_channels] at movedShape
  have extents := movedSound.extents
  rw [movedShape] at extents
  simp only [List.forall_mem_append, List.forall_mem_cons] at extents
  obtain ⟨⟨batch, positions⟩, channels, steps⟩ := extents
  refine ⟨moved, (moveAxis_eq rank).trans ok, movedSound.gives_reshape _ ?_ ?_⟩
  · simp only [List.forall_mem_append, List.forall_mem_cons, List.not_mem_nil, false_implies, implies_true,
      and_true]
    exact ⟨⟨batch, Int.one_nonneg, positions⟩, Int.mul_nonneg channels (Shape.product_nonneg steps)⟩
  · rw [movedShape]
    simp [Shape.product_append]

/-- The windows of all channels of a filter joined to one axis. -/
theorem Sound.joinFilter_shape (sound : f.Sound) (known : f.shape = co :: c :: kernels) (n : Nat) :
    Gives (f.reshape (co :: List.replicate n 1 ++ [c * product kernels]))
      (co :: List.replicate n 1 ++ [c * product kernels]) := by
  have extents := sound.extents
  rw [known, List.forall_mem_cons, List.forall_mem_cons] at extents
  obtain ⟨outputs, channels, steps⟩ := extents
  apply sound.gives_reshape
  · simp only [List.forall_mem_append, List.forall_mem_cons, List.not_mem_nil, false_implies, implies_true,
      and_true]
    refine ⟨⟨outputs, fun s member => ?_⟩, Int.mul_nonneg channels (Shape.product_nonneg steps)⟩
    rw [List.eq_of_mem_replicate member]
    exact Int.one_nonneg
  · rw [known]
    simp [Shape.product_append]

end Joined

/-- Both operands with channels and windows joined. -/
theorem Sound.prepare_shapes (sound : l.Sound) (known : l.shape = b :: c :: axes.map ConvAxis.input)
    (filter : f.Sound) (filterShape : f.shape = co :: c :: axes.map ConvAxis.kernel)
    (roomy : ∀ a ∈ axes, a.Roomy) :
    ∃ x y, prepareConvolution l f (ConvParams.ofAxes axes) = .ok (x, y)
      ∧ x.Sound ∧ x.shape = b :: 1 :: axes.map ConvAxis.output ++ [c * product (axes.map ConvAxis.kernel)]
      ∧ y.Sound ∧ y.shape = co :: List.replicate axes.length 1 ++ [c * product (axes.map ConvAxis.kernel)] := by
  obtain ⟨dilated, padded, dilatedOk, paddedOk, windows, windowsOk, windowsSound, windowsShape⟩ :=
    sound.windows_shape known roomy
  obtain ⟨moved, movedOk, x, xOk, xSound, xShape⟩ := windowsSound.joinInput_shape windowsShape
  obtain ⟨y, yOk, ySound, yShape⟩ := filter.joinFilter_shape filterShape axes.length
  rw [List.length_map] at movedOk
  exact ⟨x, y, prepareConvolution_ok (by simp [Layout.rank, known]) filterShape dilatedOk paddedOk windowsOk
    windowsShape movedOk xOk yOk, xSound, xShape, ySound, yShape⟩

theorem Sound.broadcast_shapes {x y : Layout} {outs : List Int} {len : Int} (xSound : x.Sound) (ySound : y.Sound)
    (xShape : x.shape = b :: 1 :: outs ++ [len]) (yShape : y.shape = co :: List.replicate outs.length 1 ++ [len]) :
    (∀ n ∈ b :: co :: outs ++ [len], 0 ≤ n) ∧ Gives (x.expand (b :: co :: outs ++ [len])) (b :: co :: outs ++ [len])
      ∧ ∃ wide, y.reshape (1 :: y.shape) = .ok wide
        ∧ Gives (wide.expand (b :: co :: outs ++ [len])) (b :: co :: outs ++ [len]) := by
  have left := xSound.extents
  have right := ySound.extents
  rw [xShape] at left
  rw [yShape] at right
  simp only [List.cons_append, List.forall_mem_cons] at left right
  have extents : ∀ n ∈ b :: co :: outs ++ [len], 0 ≤ n := by
    simp only [List.cons_append, List.forall_mem_cons]
    exact ⟨left.1, right.1, left.2.2⟩
  refine ⟨extents, xSound.gives_expand _ extents ?_, ?_⟩
  · rw [xShape]
    exact .cons (.inl rfl) (.cons (.inr rfl) (List.forall₂_same.2 fun s _ => .inl rfl))
  · obtain ⟨wide, wideOk, wideSound, wideShape⟩ := ySound.gives_reshape (1 :: y.shape)
      (List.forall_mem_cons.2 ⟨Int.one_nonneg, ySound.extents⟩) (by simp)
    refine ⟨wide, wideOk, wideSound.gives_expand _ extents ?_⟩
    rw [wideShape, yShape]
    refine .cons (.inr rfl) (.cons (.inl rfl) (List.rel_append ?_ (.cons (.inl rfl) .nil)))
    rw [List.forall₂_iff_zip]
    refine ⟨by simp, fun member => .inr ?_⟩
    exact List.eq_of_mem_replicate (List.of_mem_zip member).1

/-- Both operands in the shape of the result. -/
theorem Sound.convolutionLayouts_shapes (sound : l.Sound) (known : l.shape = b :: c :: axes.map ConvAxis.input)
    (filter : f.Sound) (filterShape : f.shape = co :: c :: axes.map ConvAxis.kernel)
    (roomy : ∀ a ∈ axes, a.Roomy) {p : LooseConvParams} (stands : p.StandsFor (ConvParams.ofAxes axes)) :
    ∃ u v, convolutionLayouts l f p (Datum.ints (b :: co :: axes.map ConvAxis.output))
        = .ok (u, v, c * product (axes.map ConvAxis.kernel))
      ∧ u.shape = b :: co :: axes.map ConvAxis.output ++ [c * product (axes.map ConvAxis.kernel)]
      ∧ v.shape = b :: co :: axes.map ConvAxis.output ++ [c * product (axes.map ConvAxis.kernel)] := by
  obtain ⟨x, y, prepared, xSound, xShape, ySound, yShape⟩ :=
    sound.prepare_shapes known filter filterShape roomy
  obtain ⟨-, ⟨u, uOk, -, uShape⟩, wide, wideOk, v, vOk, -, vShape⟩ :=
    xSound.broadcast_shapes ySound xShape (by rw [yShape, List.length_map])
  exact ⟨u, v, convolutionLayouts_ok ((stands.prepareConvolution ..).trans prepared)
    (by rw [xShape, List.getLast?_concat]) uOk wideOk vOk, uShape, vShape⟩

/-! ## Operands inside of their buffers -/

section Buffers

variable {left right : Int}

/-- Windows show nothing else of a buffer than the input, as long as what is padded can be told from it. -/
theorem Anchored.prepareConvolution {x y : Layout} (anchored : l.Anchored left) (filter : f.Anchored right)
    (known : l.shape = b :: c :: axes.map ConvAxis.input) (roomy : ∀ a ∈ axes, a.Roomy)
    (distinct : ∀ a ∈ axes, a.Distinct)
    (prepared : prepareConvolution l f (ConvParams.ofAxes axes) = .ok (x, y)) :
    x.Anchored left ∧ y.Anchored right := by
  unfold StridedArray.prepareConvolution joinWindows at prepared
  simp only [bind_eq_ok] at prepared
  obtain ⟨dilated, first, padded, second, windows, third, _, _, _, _, moved, fourth, _, fifth, _, _, _, _, _, sixth,
    ⟨⟩⟩ := prepared
  have gaps := @Sound.gives_dilate l b c anchored.sound (axes.map fun a => (a.input, a.inputDilation))
  simp only [List.map_map, Function.comp_def, List.forall_mem_map] at gaps
  obtain ⟨_, dilatedOk, _, dilatedShape⟩ := gaps known fun a member => (roomy a member).inputDilation
  cases first.symm.trans dilatedOk
  have padding := @Anchored.padOrCut dilated padded left (anchored.dilate first) b c
    (axes.map fun a => (dilatedExtent a.input a.inputDilation, (a.low, a.high)))
  simp only [List.map_map, Function.comp_def, List.forall_mem_map] at padding
  have natural := anchored.sound.extents
  rw [known, List.forall_mem_cons, List.forall_mem_cons, List.forall_mem_map] at natural
  have wide := padding dilatedShape (fun a member =>
    (distinct a member).behind (roomy a member) (natural.2.2 a member)) second
  exact ⟨((wide.pool third).moveAxis fourth).reshape fifth, filter.reshape sixth⟩

/-- Both operands in the shape of the result, inside of their buffers. -/
theorem Anchored.convolutionLayouts (anchored : l.Anchored left)
    (known : l.shape = b :: c :: axes.map ConvAxis.input) (filter : f.Anchored right)
    (filterShape : f.shape = co :: c :: axes.map ConvAxis.kernel)
    (roomy : ∀ a ∈ axes, a.Roomy) (distinct : ∀ a ∈ axes, a.Distinct) {p : LooseConvParams}
    (stands : p.StandsFor (ConvParams.ofAxes axes)) :
    ∃ u v, convolutionLayouts l f p (Datum.ints (b :: co :: axes.map ConvAxis.output))
        = .ok (u, v, c * product (axes.map ConvAxis.kernel))
      ∧ (∀ n ∈ b :: co :: axes.map ConvAxis.output ++ [c * product (axes.map ConvAxis.kernel)], 0 ≤ n)
      ∧ u.Anchored left
      ∧ u.shape = b :: co :: axes.map ConvAxis.output ++ [c * product (axes.map ConvAxis.kernel)]
      ∧ v.Anchored right
      ∧ v.shape = b :: co :: axes.map ConvAxis.output ++ [c * product (axes.map ConvAxis.kernel)] := by
  obtain ⟨x, y, prepared, -, xShape, -, yShape⟩ :=
    anchored.sound.prepare_shapes known filter.sound filterShape roomy
  obtain ⟨xAnchored, yAnchored⟩ := anchored.prepareConvolution filter known roomy distinct prepared
  obtain ⟨extents, ⟨u, uOk, -, uShape⟩, wide, wideOk, v, vOk, -, vShape⟩ :=
    xAnchored.sound.broadcast_shapes yAnchored.sound xShape (by rw [yShape, List.length_map])
  exact ⟨u, v, convolutionLayouts_ok ((stands.prepareConvolution ..).trans prepared)
    (by rw [xShape, List.getLast?_concat]) uOk wideOk vOk, extents, xAnchored.expand extents uOk, uShape,
    (yAnchored.reshape wideOk).expand extents vOk, vShape⟩

end Buffers

end Layout

/-! ## Shapes that are worked out -/

/-- One stride, one pair of padding and two dilations for each of `n` axes. Padding may be negative. -/
structure ConvParams.Regular (p : ConvParams) (n : Nat) : Prop where
  strides : p.strides.length = n ∧ ∀ s ∈ p.strides, 1 ≤ s
  padding : p.padding.length = n
  inputDilation : p.inputDilation.length = n ∧ ∀ d ∈ p.inputDilation, 1 ≤ d
  filterDilation : p.filterDilation.length = n ∧ ∀ d ∈ p.filterDilation, 1 ≤ d

/-- If a shape can be worked out for regular parameters, it is that of axes with room for a window. -/
theorem ConvParams.Regular.exists_roomy {p : ConvParams} {b c co d : Int} {xs ks out : List Int}
    (regular : p.Regular xs.length) (ranks : ks.length = xs.length) (kernels : ∀ k ∈ ks, 1 ≤ k)
    (predicted : p.outputShape (b :: c :: xs) (co :: d :: ks) = .ok out) :
    ∃ axes : List ConvAxis, p = ofAxes axes ∧ xs = axes.map ConvAxis.input ∧ ks = axes.map ConvAxis.kernel
      ∧ (∀ a ∈ axes, a.Roomy) ∧ out = b :: co :: axes.map ConvAxis.output := by
  obtain ⟨axes, rfl, rfl, rfl⟩ := ConvParams.exists_axes (p := p) rfl ranks regular.strides.1 regular.padding
    regular.inputDilation.1 regular.filterDilation.1
  have proper : ∀ a ∈ axes, a.Proper := fun a member =>
    { kernel := kernels _ (List.mem_map_of_mem member)
      stride := regular.strides.2 _ (List.mem_map_of_mem member)
      inputDilation := regular.inputDilation.2 _ (List.mem_map_of_mem member)
      filterDilation := regular.filterDilation.2 _ (List.mem_map_of_mem member) }
  obtain ⟨starts, rfl⟩ := (outputShape_ofAxes_iff fun a member => (proper a member).stride).1 predicted
  exact ⟨axes, rfl, rfl, rfl, fun a member => ⟨proper a member, starts a member⟩, rfl⟩

/-- Whenever a shape of the result can be worked out, all movements of whole arrays of these extents succeed,
    and both operands are brought to that shape, with the products to be summed behind it. -/
theorem shapes_of_outputShape {p : LooseConvParams} {q : ConvParams} (stands : p.StandsFor q)
    {b c co : Int} {xs ks : List Int} {output : List Datum} (regular : q.Regular xs.length)
    (ranks : ks.length = xs.length) (inputs : ∀ s ∈ b :: c :: xs, 0 ≤ s) (outputs : 0 ≤ co)
    (kernels : ∀ k ∈ ks, 1 ≤ k)
    (predicted : p.outputShape (.list (Datum.ints (b :: c :: xs))) (.list (Datum.ints (co :: c :: ks)))
      = .ok output) :
    ∃ outs l f x y u v, output = Datum.ints (b :: co :: outs) ∧ outs.length = xs.length
      ∧ Layout.ofShape (b :: c :: xs) = .ok l ∧ Layout.ofShape (co :: c :: ks) = .ok f
      ∧ Loose.prepareConvolution l f p = .ok (x, y)
      ∧ x.shape = b :: 1 :: outs ++ [c * product ks]
      ∧ y.shape = co :: List.replicate xs.length 1 ++ [c * product ks]
      ∧ convolutionLayouts l f p output = .ok (u, v, c * product ks)
      ∧ u.shape = b :: co :: outs ++ [c * product ks] ∧ v.shape = b :: co :: outs ++ [c * product ks] := by
  rw [stands.outputShape, map_eq_ok] at predicted
  obtain ⟨out, predicted, rfl⟩ := predicted
  obtain ⟨axes, rfl, rfl, rfl, roomy, rfl⟩ := regular.exists_roomy ranks kernels predicted
  have natural : ∀ s ∈ co :: c :: axes.map ConvAxis.kernel, 0 ≤ s := by
    simp only [List.forall_mem_cons] at inputs ⊢
    exact ⟨outputs, inputs.2.1, fun k member => Int.le_of_lt (kernels k member)⟩
  have left := Layout.ofShape_eq_ok.2 ⟨inputs, rfl⟩
  have right := Layout.ofShape_eq_ok.2 ⟨natural, rfl⟩
  obtain ⟨x, y, prepared, -, xShape, -, yShape⟩ :=
    (Layout.sound_ofShape left).prepare_shapes rfl (Layout.sound_ofShape right) rfl roomy
  obtain ⟨u, v, layouts, uShape, vShape⟩ :=
    (Layout.sound_ofShape left).convolutionLayouts_shapes rfl (Layout.sound_ofShape right) rfl roomy stands
  refine ⟨axes.map ConvAxis.output, _, _, x, y, u, v, rfl, by simp, left, right,
    (stands.prepareConvolution ..).trans prepared, xShape, ?_, layouts, uShape, vShape⟩
  rw [yShape, List.length_map]

/-- No images at all, with one empty axis that only has padding and one that is cut on both sides. -/
theorem shapes_of_outputShape_empty :
    ∃ l f x y u v, Layout.ofShape [0, 2, 0, 5] = .ok l ∧ Layout.ofShape [3, 2, 2, 2] = .ok f
      ∧ Loose.prepareConvolution l f (.ofParams ⟨[4, 1], [(2, 1), (-1, -1)], [3, 1], [1, 2]⟩) = .ok (x, y)
      ∧ x.shape = [0, 1, 1, 1, 8] ∧ y.shape = [3, 1, 1, 8]
      ∧ convolutionLayouts l f (.ofParams ⟨[4, 1], [(2, 1), (-1, -1)], [3, 1], [1, 2]⟩)
        (Datum.ints [0, 3, 1, 1]) = .ok (u, v, 8)
      ∧ u.shape = [0, 3, 1, 1, 8] ∧ v.shape = [0, 3, 1, 1, 8] := by
  obtain ⟨outs, l, f, x, y, u, v, output, -, left, right, prepared, xShape, yShape, layouts, uShape, vShape⟩ :=
    @shapes_of_outputShape _ _ (LooseConvParams.standsFor_ofParams ⟨[4, 1], [(2, 1), (-1, -1)], [3, 1], [1, 2]⟩)
      0 2 3 [0, 5] [2, 2] (Datum.ints [0, 3, 1, 1]) ⟨by decide, by decide, by decide, by decide⟩ (by decide)
      (by decide) (by decide) (by decide) rfl
  obtain rfl : [1, 1] = outs := by simpa using Datum.ints_injective output
  exact ⟨l, f, x, y, u, v, left, right, prepared, xShape, yShape, layouts, uShape, vShape⟩

end StridedArray
