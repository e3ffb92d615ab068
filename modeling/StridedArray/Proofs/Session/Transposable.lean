import StridedArray.Proofs.Convolution.Shapes
import StridedArray.Proofs.Session.Gradients

/-! # Which convolutions can be transposed

The parameters of both gradients can be worked out for every convolution that is accepted. For the filter they
always give its shape back. For the input they do so unless one of its axes is empty: then there is no room for
the filter on that axis, and the gradient fails.

* `ConvParams.outputShape_forInput_empty` — the axis that is reported;
* `Placed` — an array of integers of a shape, which may have no elements;
* `runs_inputGradient_placed`, `runs_filterGradient_placed` — both gradients are computed;
* `inputGradient_empty` — the gradient of an input with an empty axis fails;
* `inputGradient_lowers`, `filterGradient_lowers` — what becomes of the operands, whatever they hold;
* `convolution_transposes` — what is worked out and computed for any convolution that is accepted. -/

namespace StridedArray

open Layout (rowMajor)
open Shape (Positive product)

/-! ## Empty axes -/

def FirstEmpty (xs : List Int) (axis : Nat) : Prop := xs[axis]? = some 0 ∧ Positive (xs.take axis)

/-- There is one position less on the axis than a kernel with that dilation needs. -/
def noRoom (kernel dilation : Int) (axis : Nat) : Failure :=
  .convolution (.kernelTooLarge (.int (windowReach kernel dilation)) (.int (windowReach kernel dilation - 1)) axis)

/-- On an empty axis there is no room for the filter. -/
theorem ConvParams.outputShape_forInput_empty {before rest : List ConvAxis} {a : ConvAxis}
    (fits : ∀ other ∈ before, other.Fits) (proper : a.Proper) (empty : a.input = 0) (b c co d : Int) :
    (ofAxes ((before ++ a :: rest).map ConvAxis.forInput)).outputShape
        (b :: co :: (before ++ a :: rest).map ConvAxis.output)
        (d :: c :: (before ++ a :: rest).map ConvAxis.kernel)
      = .error (noRoom a.kernel a.filterDilation before.length) := by
  have forInput := ConvAxis.forall_fits_forInput fits
  have full := ConvAxis.full_forInput empty proper.inputDilation
  have room := a.forInput.starts_eq
  rw [full] at room
  have refused := @outputShape_of_full (before.map ConvAxis.forInput) (rest.map ConvAxis.forInput) a.forInput
    (fun other member => (forInput other member).stride) (fun other member => (forInput other member).starts)
    full.le b co d c
  rw [← List.map_cons, ← List.map_append, ConvAxis.map_input_forInput, ConvAxis.map_kernel_forInput,
    List.length_map] at refused
  rw [refused]
  have missing : dilatedExtent a.forInput.input a.forInput.inputDilation + a.forInput.low + a.forInput.high
      = windowReach a.kernel a.filterDilation - 1 := by
    have same : windowReach a.forInput.kernel a.forInput.filterDilation = windowReach a.kernel a.filterDilation :=
      rfl
    omega
  rw [missing]
  rfl

theorem ConvAxis.forall_fits_or_empty {axes : List ConvAxis} (roomy : ∀ a ∈ axes, a.Roomy)
    (natural : ∀ n ∈ axes.map ConvAxis.input, 0 ≤ n) :
    (∀ a ∈ axes, a.Fits) ∨ ∃ before a rest, axes = before ++ a :: rest ∧ (∀ other ∈ before, other.Fits)
      ∧ a.input = 0 := by
  obtain each | ⟨before, a, rest, rfl, earlier, empty⟩ := ConvParams.forall_or_first (fun a => 0 < a.input) axes
  · exact .inl fun a member => (roomy a member).fits (each a member)
  · refine .inr ⟨before, a, rest, rfl, fun other member =>
      (roomy other (List.mem_append_left _ member)).fits (earlier other member), ?_⟩
    have := natural a.input (List.mem_map_of_mem (List.mem_append_right _ (List.mem_cons_self ..)))
    omega

namespace Session

variable {s : Session} {owner : Nat} {r lhs rhs cot : TensorRef} {shape : List Int} {b c co : Int}

/-! ## Arrays that may be empty -/

/-- An array of integers of a shape. Nothing is said about its elements, and there may be none. -/
def Placed (s : Session) (owner : Nat) (r : TensorRef) (shape : List Int) : Prop :=
  ∃ t bytes, s.tensors[r.number]? = some t ∧ s.Backs owner t bytes
    ∧ t.layout.Anchored (bytes.size / 4 : Nat) ∧ t.layout.shape = shape

theorem Fresh.anchored {x : List Int → Int} (fresh : s.Fresh owner r shape x) (extents : ∀ n ∈ shape, 0 ≤ n) :
    ∃ t bytes, s.tensors[r.number]? = some t ∧ t.layout = rowMajor shape ∧ s.Backs owner t bytes
      ∧ t.layout.Anchored (bytes.size / 4 : Nat) := by
  obtain ⟨t, bytes, known, backs, whole, size, -⟩ := fresh
  refine ⟨t, bytes, known, whole, backs, ?_⟩
  have count : ((bytes.size / 4 : Nat) : Int) = product shape := by omega
  rw [whole, count]
  exact Layout.anchored_rowMajor extents

/-- So few elements, and so few products for each of them, that all can be counted in 32 bits. -/
def FewProducts (rows length : Int) : Prop :=
  rows < 0x80000000 ∧ length < 0x80000000 ∧ rows * length < 0x80000000

/-- A convolution of two arrays that are seen through some layouts makes a fresh array. -/
theorem runs_runConvolution_anchored [Room] {t u : Tensor} {left right : Bytes} {l f : Layout} {axes : List ConvAxis}
    {q : LooseConvParams} {xs ks outs : List Int} (first : s.Backs owner t left) (second : s.Backs owner u right)
    (anchored : l.Anchored (left.size / 4 : Nat)) (filter : f.Anchored (right.size / 4 : Nat))
    (known : l.shape = b :: c :: xs) (filterShape : f.shape = co :: c :: ks)
    (stands : q.StandsFor (ConvParams.ofAxes axes)) (roomy : ∀ a ∈ axes, a.Roomy)
    (distinct : ∀ a ∈ axes, a.Distinct) (inputExtents : axes.map ConvAxis.input = xs)
    (kernelExtents : axes.map ConvAxis.kernel = ks) (outputExtents : axes.map ConvAxis.output = outs)
    (few : FewProducts (product (b :: co :: outs)) (c * product ks)) :
    ∃ s' y, Runs (runConvolution t l u f q (Datum.ints (b :: co :: outs))) s ⟨s.tensors.size⟩ s'
      ∧ s.Extends s' ∧ s'.Fresh owner ⟨s.tensors.size⟩ (b :: co :: outs) y := by
  subst inputExtents kernelExtents outputExtents
  obtain ⟨x, y, layouts, extents, xAnchored, xShape, yAnchored, yShape⟩ :=
    anchored.convolutionLayouts known filter filterShape roomy distinct stands
  obtain ⟨outputs, length⟩ := List.forall_mem_append.1 extents
  obtain ⟨rows, steps, small⟩ := few
  obtain ⟨s', runs, later, fresh⟩ := runs_sumOfProducts first second layouts xAnchored yAnchored xShape yShape
    outputs (length _ (List.mem_singleton_self _)) rows steps small
  exact ⟨s', _, runs, later, fresh⟩

/-! ## Gradients -/

section Gradients

variable {axes : List ConvAxis} {o : ConvOptions} {p : LooseConvParams} {w : List Int → Int}

/-- The gradient of an input without empty axes is computed. -/
theorem runs_inputGradient_placed [Room] (cotangent : s.Placed owner cot (b :: co :: axes.map ConvAxis.output))
    (filter : s.Fresh owner rhs (co :: c :: axes.map ConvAxis.kernel) w)
    (natural : ∀ n ∈ co :: c :: axes.map ConvAxis.kernel, 0 ≤ n)
    (stands : p.StandsFor (ConvParams.ofAxes axes)) (fits : ∀ a ∈ axes, a.Fits)
    (accepted : o.check (Datum.ints (b :: c :: axes.map ConvAxis.input))
        (Datum.ints (co :: c :: axes.map ConvAxis.kernel))
      = .ok (p, Datum.ints (b :: co :: axes.map ConvAxis.output)))
    (few : FewProducts (product (b :: c :: axes.map ConvAxis.input)) (co * product (axes.map ConvAxis.kernel))) :
    ∃ r s' dx, Runs (inputGradient cot rhs (.list (Datum.ints (b :: c :: axes.map ConvAxis.input))) o) s r s'
      ∧ s.Extends s' ∧ s'.Fresh owner r (b :: c :: axes.map ConvAxis.input) dx := by
  have fitsInput := ConvAxis.forall_fits_forInput fits
  obtain ⟨t, bytes, known, backs, anchored, shape⟩ := cotangent
  obtain ⟨u, others, found, whole, filterBacks, filterAnchored⟩ := filter.anchored natural
  have filterShape : u.layout.shape = co :: c :: axes.map ConvAxis.kernel := by rw [whole]; rfl
  obtain ⟨kernel, flipped, turned, turnedShape⟩ := filterAnchored.flippedFilter filterShape (by rw [whole]; rfl)
  obtain ⟨q, transposed, standsTransposed⟩ := stands.transposeInput
    (ConvParams.transposeInput_ofAxes (ConvAxis.forall_roomy fits) b c co c)
  obtain ⟨s', dx, runs, later, fresh⟩ := runs_runConvolution_anchored backs filterBacks anchored turned shape
    turnedShape standsTransposed (ConvAxis.forall_roomy fitsInput)
    (fun a member => (fitsInput a member).distinct) (ConvAxis.map_input_forInput axes)
    (ConvAxis.map_kernel_forInput axes) (ConvAxis.map_output_forInput fits) few
  have output := outputShape_ok standsTransposed (ConvAxis.forall_roomy fitsInput)
    (ConvAxis.map_input_forInput axes) (ConvAxis.map_kernel_forInput axes) (ConvAxis.map_output_forInput fits)
    b co c co
  refine ⟨_, s', dx, runs_inputGradient_of (p := p) known found ?_ ?_ flipped ?_ runs, later, fresh⟩
  · rw [Tensor.shape, Tensor.shape, shape, filterShape, checkCotangent_ok accepted]
  · rw [Tensor.shape, filterShape, transposed]
  · rw [Tensor.shape, shape, turnedShape, output]

/-- The gradient of the filter is computed, also for an input with empty axes. -/
theorem runs_filterGradient_placed [Room] (input : s.Placed owner lhs (b :: c :: axes.map ConvAxis.input))
    (cotangent : s.Placed owner cot (b :: co :: axes.map ConvAxis.output))
    (natural : ∀ n ∈ c :: co :: axes.map ConvAxis.kernel, 0 ≤ n)
    (stands : p.StandsFor (ConvParams.ofAxes axes)) (roomy : ∀ a ∈ axes, a.Roomy)
    (distinct : ∀ a ∈ axes.map ConvAxis.forFilter, a.Distinct)
    (accepted : o.check (Datum.ints (b :: c :: axes.map ConvAxis.input))
        (Datum.ints (co :: c :: axes.map ConvAxis.kernel))
      = .ok (p, Datum.ints (b :: co :: axes.map ConvAxis.output)))
    (few : FewProducts (product (c :: co :: axes.map ConvAxis.kernel)) (b * product (axes.map ConvAxis.output))) :
    ∃ r s', Runs (filterGradient lhs cot (.list (Datum.ints (co :: c :: axes.map ConvAxis.kernel))) o) s r s'
      ∧ s.Extends s' ∧ s'.Placed owner r (co :: c :: axes.map ConvAxis.kernel) := by
  have roomyFilter := ConvAxis.forall_roomy_forFilter roomy
  obtain ⟨t, bytes, known, backs, anchored, shape⟩ := input
  obtain ⟨u, others, found, cotangentBacks, cotangentAnchored, cotangentShape⟩ := cotangent
  obtain ⟨swapped, swap, swappedAnchored, swappedShape⟩ := anchored.swapFront shape
  obtain ⟨windows, swapCotangent, windowsAnchored, windowsShape⟩ := cotangentAnchored.swapFront cotangentShape
  obtain ⟨q, transposed, standsTransposed⟩ := stands.transposeFilter
    (ConvParams.transposeFilter_ofAxes roomy b c co c)
  obtain ⟨computed, y, runs, later, fresh⟩ := runs_runConvolution_anchored backs cotangentBacks swappedAnchored
    windowsAnchored swappedShape windowsShape standsTransposed roomyFilter distinct
    (ConvAxis.map_input_forFilter axes) (ConvAxis.map_kernel_forFilter axes)
    (ConvAxis.map_output_forFilter roomy) few
  have output := outputShape_ok standsTransposed roomyFilter (ConvAxis.map_input_forFilter axes)
    (ConvAxis.map_kernel_forFilter axes) (ConvAxis.map_output_forFilter roomy) c b co b
  obtain ⟨v, held, result, whole, computedBacks, computedAnchored⟩ := fresh.anchored natural
  obtain ⟨gradient, back, gradientAnchored, gradientShape⟩ := computedAnchored.swapFront (by rw [whole]; rfl)
  obtain ⟨s', replaces, laterStill, last, gradientBacks⟩ := runs_replaceComputed later result computedBacks back
  refine ⟨_, s', runs_filterGradient_of (p := p) known found ?_ ?_ swap swapCotangent ?_ runs replaces, laterStill,
    ⟨_, held, last, gradientBacks, gradientAnchored, gradientShape⟩⟩
  · rw [Tensor.shape, Tensor.shape, shape, cotangentShape, checkCotangent_ok accepted]
  · rw [Tensor.shape, shape, transposed]
  · rw [swappedShape, windowsShape, output]

/-- The gradient of an input with an empty axis fails, and the session stays as it was. It does not matter what
    the arrays hold. -/
theorem inputGradient_empty [Room] {t u : Tensor} {before rest : List ConvAxis} {a : ConvAxis}
    (known : s.tensors[cot.number]? = some t) (found : s.tensors[rhs.number]? = some u)
    (split : axes = before ++ a :: rest) (fits : ∀ other ∈ before, other.Fits) (empty : a.input = 0)
    (shape : t.shape = b :: co :: axes.map ConvAxis.output)
    (filterShape : u.shape = co :: c :: axes.map ConvAxis.kernel) (sound : u.layout.Sound)
    (stands : p.StandsFor (ConvParams.ofAxes axes)) (roomy : ∀ a ∈ axes, a.Roomy)
    (accepted : o.check (Datum.ints (b :: c :: axes.map ConvAxis.input))
        (Datum.ints (co :: c :: axes.map ConvAxis.kernel))
      = .ok (p, Datum.ints (b :: co :: axes.map ConvAxis.output))) :
    (inputGradient cot rhs (.list (Datum.ints (b :: c :: axes.map ConvAxis.input))) o).run.run s
      = (.error (noRoom a.kernel a.filterDilation before.length), s) := by
  obtain ⟨q, transposed, standsTransposed⟩ := stands.transposeInput
    (ConvParams.transposeInput_ofAxes roomy b c co c)
  obtain ⟨_, kernel, _, _, flipped, -, kernelShape⟩ := sound.flippedFilter filterShape
  have agrees : o.checkCotangent (Datum.ints (b :: c :: axes.map ConvAxis.input)) (Datum.ints u.shape) t.shape
      = .ok p := by
    rw [shape, filterShape, checkCotangent_ok accepted]
  rw [← filterShape] at transposed
  rw [inputGradient_prepared known found agrees transposed flipped, shape, kernelShape,
    standsTransposed.outputShape]
  subst split
  rw [ConvParams.outputShape_forInput_empty fits (roomy a (by simp)).toProper empty]
  rfl

end Gradients

/-! ## Any convolution -/

section Transposed

variable (q : LooseConvParams) (o : ConvOptions) (b c co : Int) (xs ks outs : List Int)

/-- A cotangent and a filter of these shapes, of whatever elements, are brought to the shape of the input, with the
    products to be summed behind it. -/
def InputGradientLowers : Prop :=
  ∀ {l f : Layout}, l.Sound → f.Sound → l.shape = b :: co :: outs → f.shape = co :: c :: ks →
    ∃ kernel u v, flippedFilter f = .ok kernel
      ∧ convolutionLayouts l kernel q (Datum.ints (b :: c :: xs)) = .ok (u, v, co * product ks)
      ∧ u.shape = b :: c :: xs ++ [co * product ks] ∧ v.shape = b :: c :: xs ++ [co * product ks]

/-- An input and a cotangent of these shapes, of whatever elements, are brought to the shape of the filter with its
    first two axes exchanged, with the products to be summed behind it. -/
def FilterGradientLowers : Prop :=
  ∀ {l g : Layout}, l.Sound → g.Sound → l.shape = b :: c :: xs → g.shape = b :: co :: outs →
    ∃ swapped windows u v, l.swapFront = .ok swapped ∧ g.swapFront = .ok windows
      ∧ convolutionLayouts swapped windows q (Datum.ints (c :: co :: ks)) = .ok (u, v, b * product outs)
      ∧ u.shape = c :: co :: ks ++ [b * product outs] ∧ v.shape = c :: co :: ks ++ [b * product outs]

/-- The gradient of the input is computed for any operands of these shapes. -/
def InputGradientRuns [Room] : Prop :=
  ∀ {s : Session} {owner : Nat} {cot rhs : TensorRef} {w : List Int → Int},
    s.Placed owner cot (b :: co :: outs) → s.Fresh owner rhs (co :: c :: ks) w →
    FewProducts (product (b :: c :: xs)) (co * product ks) →
    ∃ r s' dx, Runs (inputGradient cot rhs (.list (Datum.ints (b :: c :: xs))) o) s r s' ∧ s.Extends s'
      ∧ s'.Fresh owner r (b :: c :: xs) dx

/-- The gradient of the input fails for any operands of these shapes, whatever their elements. -/
def InputGradientFails [Room] (f : Failure) : Prop :=
  ∀ {s : Session} {cot rhs : TensorRef} {t u : Tensor}, s.tensors[cot.number]? = some t →
    s.tensors[rhs.number]? = some u → t.shape = b :: co :: outs → u.shape = co :: c :: ks → u.layout.Sound →
    (inputGradient cot rhs (.list (Datum.ints (b :: c :: xs))) o).run.run s = (.error f, s)

/-- The gradient of the filter is computed for any operands of these shapes. -/
def FilterGradientRuns [Room] : Prop :=
  ∀ {s : Session} {owner : Nat} {lhs cot : TensorRef}, s.Placed owner lhs (b :: c :: xs) →
    s.Placed owner cot (b :: co :: outs) → FewProducts (product (c :: co :: ks)) (b * product outs) →
    ∃ r s', Runs (filterGradient lhs cot (.list (Datum.ints (co :: c :: ks))) o) s r s' ∧ s.Extends s'
      ∧ s'.Placed owner r (co :: c :: ks)

end Transposed

section Layouts

variable {axes : List ConvAxis} {q : LooseConvParams}

theorem inputGradient_lowers (stands : q.StandsFor (ConvParams.ofAxes (axes.map ConvAxis.forInput)))
    (fits : ∀ a ∈ axes, a.Fits) :
    InputGradientLowers q b c co (axes.map ConvAxis.input) (axes.map ConvAxis.kernel)
      (axes.map ConvAxis.output) := by
  intro l f sound filterSound known filterShape
  obtain ⟨_, kernel, _, _, flipped, kernelSound, kernelShape⟩ := filterSound.flippedFilter filterShape
  rw [← ConvAxis.map_input_forInput] at known
  rw [← ConvAxis.map_kernel_forInput] at kernelShape
  obtain ⟨u, v, layouts, shapes⟩ := sound.convolutionLayouts_shapes known kernelSound kernelShape
    (ConvAxis.forall_roomy (ConvAxis.forall_fits_forInput fits)) stands
  rw [ConvAxis.map_output_forInput fits, ConvAxis.map_kernel_forInput] at layouts shapes
  exact ⟨kernel, u, v, flipped, layouts, shapes⟩

theorem filterGradient_lowers (stands : q.StandsFor (ConvParams.ofAxes (axes.map ConvAxis.forFilter)))
    (roomy : ∀ a ∈ axes, a.Roomy) :
    FilterGradientLowers q b c co (axes.map ConvAxis.input) (axes.map ConvAxis.kernel)
      (axes.map ConvAxis.output) := by
  intro l g sound cotangentSound known cotangentShape
  obtain ⟨swapped, swap, swappedSound, swappedShape, -⟩ := sound.swapFront known
  obtain ⟨windows, swapCotangent, windowsSound, windowsShape, -⟩ := cotangentSound.swapFront cotangentShape
  rw [← ConvAxis.map_input_forFilter] at swappedShape
  rw [← ConvAxis.map_kernel_forFilter] at windowsShape
  obtain ⟨u, v, layouts, shapes⟩ := swappedSound.convolutionLayouts_shapes swappedShape windowsSound windowsShape
    (ConvAxis.forall_roomy_forFilter roomy) stands
  rw [ConvAxis.map_output_forFilter roomy, ConvAxis.map_kernel_forFilter] at layouts shapes
  exact ⟨swapped, windows, u, v, swap, swapCotangent, layouts, shapes⟩

end Layouts

/-- Whatever convolution is accepted, the parameters of both gradients can be worked out. Those for the filter give
    its shape back, the operands are brought to it, and the gradient is computed unless an empty axis gets just one
    position of padding in front. Those for the input do so if no axis is empty; else there is no room for the
    filter on the first empty axis, and the gradient fails. -/
theorem convolution_transposes [Room] {xs ks : List Int} {o : ConvOptions} {p : LooseConvParams} {output : List Datum}
    (inputs : ∀ n ∈ b :: c :: xs, 0 ≤ n) (outputs : 0 ≤ co)
    (accepted : o.check (Datum.ints (b :: c :: xs)) (Datum.ints (co :: c :: ks)) = .ok (p, output)) :
    ∃ outs settled forInput forFilter gradient, output = Datum.ints (b :: co :: outs) ∧ p.settle = .ok settled
      ∧ p.transposeFilter (.list (Datum.ints (b :: c :: xs))) (.list (Datum.ints (co :: c :: ks))) = .ok forFilter
      ∧ forFilter.settle = .ok gradient
      ∧ forFilter.outputShape (.list (Datum.ints (c :: b :: xs))) (.list (Datum.ints (co :: b :: outs)))
        = .ok (Datum.ints (c :: co :: ks))
      ∧ FilterGradientLowers forFilter b c co xs ks outs
      ∧ ((0, 1, 0) ∉ xs.zip gradient.padding → FilterGradientRuns o b c co xs ks outs)
      ∧ p.transposeInput (.list (Datum.ints (b :: c :: xs))) (.list (Datum.ints (co :: c :: ks))) = .ok forInput
      ∧ (Positive xs
          ∧ forInput.outputShape (.list (Datum.ints (b :: co :: outs))) (.list (Datum.ints (c :: co :: ks)))
            = .ok (Datum.ints (b :: c :: xs))
          ∧ InputGradientLowers forInput b c co xs ks outs
          ∧ InputGradientRuns o b c co xs ks outs
        ∨ ∃ axis k d, FirstEmpty xs axis ∧ ks[axis]? = some k ∧ settled.filterDilation[axis]? = some d
          ∧ forInput.outputShape (.list (Datum.ints (b :: co :: outs))) (.list (Datum.ints (c :: co :: ks)))
            = .error (noRoom k d axis)
          ∧ InputGradientFails o b c co xs ks outs (noRoom k d axis)) := by
  obtain ⟨-, axes, stands, rfl, rfl, roomy, rfl⟩ := ConvOptions.check_roomy accepted
  obtain ⟨batch, channels, spatial⟩ : 0 ≤ b ∧ 0 ≤ c ∧ ∀ n ∈ axes.map ConvAxis.input, 0 ≤ n := by
    simpa only [List.forall_mem_cons] using inputs
  have kernels : ∀ n ∈ axes.map ConvAxis.kernel, 0 ≤ n :=
    List.forall_mem_map.2 fun a member => (roomy a member).kernel.le
  obtain ⟨forFilter, transposedFilter, standsFilter⟩ := stands.transposeFilter
    (ConvParams.transposeFilter_ofAxes roomy b c co c)
  obtain ⟨forInput, transposedInput, standsInput⟩ := stands.transposeInput
    (ConvParams.transposeInput_ofAxes roomy b c co c)
  refine ⟨_, _, forInput, forFilter, _, rfl, stands.settle, transposedFilter, standsFilter.settle, ?_,
    filterGradient_lowers standsFilter roomy, ?_, transposedInput, ?_⟩
  · exact outputShape_ok standsFilter (ConvAxis.forall_roomy_forFilter roomy) (ConvAxis.map_input_forFilter axes)
      (ConvAxis.map_kernel_forFilter axes) (ConvAxis.map_output_forFilter roomy) c b co b
  · intro single s owner lhs cot input cotangent few
    refine runs_filterGradient_placed input cotangent ?_ stands roomy ?_ accepted few
    · exact List.forall_mem_cons.2 ⟨channels, List.forall_mem_cons.2 ⟨outputs, kernels⟩⟩
    · -- The padding of a transposed axis stands beside the extent of the input that it belongs to.
      intro a member same
      apply single
      rw [← same, ← ConvAxis.map_input_forFilter axes]
      show _ ∈ ((axes.map ConvAxis.forFilter).map ConvAxis.input).zip
        ((axes.map ConvAxis.forFilter).map fun a => (a.low, a.high))
      rw [List.zip_map']
      exact List.mem_map_of_mem member
  · obtain fits | ⟨before, a, rest, split, fits, empty⟩ := ConvAxis.forall_fits_or_empty roomy spatial
    · refine .inl ⟨List.forall_mem_map.2 fun a member => (fits a member).input, ?_,
        inputGradient_lowers standsInput fits, ?_⟩
      · exact outputShape_ok standsInput (ConvAxis.forall_roomy (ConvAxis.forall_fits_forInput fits))
          (ConvAxis.map_input_forInput axes) (ConvAxis.map_kernel_forInput axes)
          (ConvAxis.map_output_forInput fits) b co c co
      · intro s owner cot rhs w cotangent filter few
        refine runs_inputGradient_placed cotangent filter ?_ stands fits accepted few
        exact List.forall_mem_cons.2 ⟨outputs, List.forall_mem_cons.2 ⟨channels, kernels⟩⟩
    · refine .inr ⟨before.length, a.kernel, a.filterDilation, ⟨?_, ?_⟩, ?_, ?_, ?_, ?_⟩
      · simp [split, empty]
      · rw [split, List.map_append, List.take_left' (by simp)]
        exact List.forall_mem_map.2 fun other member => (fits other member).input
      · simp [split]
      · simp [split, ConvParams.ofAxes]
      · rw [standsInput.outputShape, split,
          ConvParams.outputShape_forInput_empty fits (roomy a (by simp [split])).toProper empty]
        rfl
      · -- The arrays are only looked at for their shapes, so that nothing is asked of them.
        intro s cot rhs t u known found shape filterShape sound
        exact inputGradient_empty known found split fits empty shape filterShape sound stands roomy accepted

/-- Nothing at all under a window of three, with two positions of padding on both sides. -/
theorem convolution_transposes_empty :
    ∃ s p, s.Fresh 0 ⟨0⟩ [1, 1, 2] (uploaded [1, 1, 2] [5, 7])
      ∧ s.Fresh 0 ⟨1⟩ [1, 1, 3] (uploaded [1, 1, 3] [1, 2, 3])
      ∧ ConvOptions.check { padding := .list [Loose.ofPair (2, 2)] } (Datum.ints [1, 1, 0]) (Datum.ints [1, 1, 3])
        = .ok (p, Datum.ints [1, 1, 2])
      ∧ (inputGradient ⟨0⟩ ⟨1⟩ (.list (Datum.ints [1, 1, 0])) { padding := .list [Loose.ofPair (2, 2)] }).run.run s
        = (.error (noRoom 3 1 0), s) := by
  obtain ⟨s, _, _, fresh⟩ := @runs_uploads onHost 0 _ [([1, 1, 2], [5, 7]), ([1, 1, 3], [1, 2, 3])]
    (.fresh 0) hasHost_onHost (by decide)
  have cotangent : s.Fresh 0 ⟨0⟩ _ _ := fresh (k := 0) rfl
  have filter : s.Fresh 0 ⟨1⟩ _ _ := fresh (k := 1) rfl
  obtain ⟨p, accepted, known⟩ : ∃ p, ConvOptions.check { padding := .list [Loose.ofPair (2, 2)] }
      (Datum.ints [1, 1, 0]) (Datum.ints [1, 1, 3]) = .ok (p, Datum.ints [1, 1, 2])
      ∧ p.settle = .ok ⟨[1], [(2, 2)], [1], [1]⟩ := ⟨_, rfl, rfl⟩
  obtain ⟨outs, settled, _, _, _, output, isSettled, -, -, -, -, -, -, ⟨wrong, -⟩ |
    ⟨axis, k, d, ⟨isEmpty, -⟩, isKernel, isDilation, -, fails⟩⟩ :=
      convolution_transposes (by decide) (by decide) accepted
  · exact absurd (wrong 0 (List.mem_singleton_self 0)) (by decide)
  obtain rfl : [2] = outs := by simpa using Datum.ints_injective output
  cases isSettled.symm.trans known
  obtain rfl : axis = 0 := by
    have := (List.getElem?_eq_some_iff.1 isEmpty).1
    simpa using this
  cases isKernel
  cases isDilation
  obtain ⟨t, _, found, whole, -⟩ := cotangent.seen (by decide)
  obtain ⟨u, _, foundFilter, filterWhole, -⟩ := filter.seen (by decide)
  refine ⟨s, p, cotangent, filter, accepted, fails found foundFilter (congrArg Layout.shape whole)
    (congrArg Layout.shape filterWhole) ?_⟩
  rw [filterWhole]
  exact Layout.sound_rowMajor (by decide)

end Session

end StridedArray
