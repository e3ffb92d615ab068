import StridedArray.Convolution.Params
import StridedArray.Proofs.Layout.Pooling

/-! # The axes of a convolution

The parameters of a convolution and the shapes of its operands, axis by axis.

* `ConvAxis` — extents and parameters of one spatial axis; `ConvAxis.Proper` — its parameters are in
  range; `ConvAxis.Roomy`, `ConvAxis.Fits` — at least one window fits; `ConvAxis.Distinct` — padding can be told
  from elements;
* `ConvParams.ofAxes` — the parameters of several axes, with the shape of the result;
* `check_eq_ok` — parameters that are accepted are those of axes with room;
* `ConvAxis.forInput`, `ConvAxis.forFilter` — the axes of the transposed convolutions. -/

namespace StridedArray

open Shape (Positive product)

structure ConvAxis where
  input : Int
  kernel : Int
  stride : Int
  low : Int
  high : Int
  inputDilation : Int
  filterDilation : Int

namespace ConvAxis

/-- The windows along an axis, which slide over the dilated and padded input. -/
def sliding (a : ConvAxis) : Sliding :=
  { input := dilatedExtent a.input a.inputDilation + a.low + a.high
    kernel := a.kernel
    stride := a.stride
    dilation := a.filterDilation }

def output (a : ConvAxis) : Int := a.sliding.windows

/-- The parameters of an axis are in range. Nothing is said about its input and its padding. -/
structure Proper (a : ConvAxis) : Prop where
  kernel : 0 < a.kernel
  stride : 0 < a.stride
  inputDilation : 0 < a.inputDilation
  filterDilation : 0 < a.filterDilation

theorem starts_eq (a : ConvAxis) : a.sliding.starts
    = dilatedExtent a.input a.inputDilation + a.low + a.high - windowReach a.kernel a.filterDilation + 1 := by
  simp only [windowReach, Sliding.starts, sliding]
  ring

/-- There is room for at least one window. The input may be empty, padding may be negative. -/
structure Roomy (a : ConvAxis) : Prop extends a.Proper where
  starts : 0 < a.sliding.starts

/-- There is room for at least one window, and the input is not empty. Padding may be negative. -/
structure Fits (a : ConvAxis) : Prop where
  input : 0 < a.input
  kernel : 0 < a.kernel
  stride : 0 < a.stride
  inputDilation : 0 < a.inputDilation
  filterDilation : 0 < a.filterDilation
  starts : 0 < a.sliding.starts

theorem Roomy.fits {a : ConvAxis} (roomy : a.Roomy) (input : 0 < a.input) : a.Fits :=
  ⟨input, roomy.kernel, roomy.stride, roomy.inputDilation, roomy.filterDilation, roomy.starts⟩

theorem Fits.roomy {a : ConvAxis} (fits : a.Fits) : a.Roomy where
  kernel := fits.kernel
  stride := fits.stride
  inputDilation := fits.inputDilation
  filterDilation := fits.filterDilation
  starts := fits.starts

theorem Roomy.sliding {a : ConvAxis} (roomy : a.Roomy) : a.sliding.Fits :=
  ⟨roomy.kernel, roomy.stride, roomy.filterDilation, roomy.starts⟩

theorem Roomy.output_pos {a : ConvAxis} (roomy : a.Roomy) : 0 < a.output := roomy.sliding.windows_pos

theorem Fits.sliding {a : ConvAxis} (fits : a.Fits) : a.sliding.Fits := fits.roomy.sliding

theorem Fits.output_pos {a : ConvAxis} (fits : a.Fits) : 0 < a.output := fits.roomy.output_pos

theorem forall_roomy {axes : List ConvAxis} (fits : ∀ a ∈ axes, a.Fits) : ∀ a ∈ axes, a.Roomy :=
  fun a member => (fits a member).roomy

/-- The axis is not an empty one with a single position in front, which reshaping takes for an element. -/
def Distinct (a : ConvAxis) : Prop := (a.input, a.low, a.high) ≠ (0, 1, 0)

theorem Fits.distinct {a : ConvAxis} (fits : a.Fits) : a.Distinct :=
  fun same => fits.input.ne' (congrArg Prod.fst same)

theorem Distinct.behind {a : ConvAxis} (distinct : a.Distinct) (roomy : a.Roomy) (natural : 0 ≤ a.input) :
    dilatedExtent a.input a.inputDilation = 0 → a.low = 1 → 0 < a.high := by
  intro nothing single
  have empty : a.input = 0 := by
    by_contra other
    have := Layout.dilatedExtent_pos (lt_of_le_of_ne natural (Ne.symm other))
      (Int.add_one_le_of_lt roomy.inputDilation)
    omega
  have room : 0 < dilatedExtent a.input a.inputDilation + a.low + a.high := roomy.sliding.input
  have more : a.high ≠ 0 := fun none => distinct (by rw [empty, single, none])
  omega

theorem positive_outputs {axes : List ConvAxis} (fits : ∀ a ∈ axes, a.Fits) {b c co d : Int}
    {xs ks : List Int} (inputs : Positive (b :: c :: xs)) (filters : Positive (co :: d :: ks)) :
    Positive (b :: co :: axes.map output) :=
  Shape.positive_cons.2 ⟨(Shape.positive_cons.1 inputs).1, Shape.positive_cons.2
    ⟨(Shape.positive_cons.1 filters).1, List.forall_mem_map.2 fun a member => (fits a member).output_pos⟩⟩

end ConvAxis

theorem axisEntry_eq_ok {α : Type} {xs : List α} {axis : Nat} {x : α} :
    axisEntry xs axis = .ok x ↔ xs[axis]? = some x := by
  unfold axisEntry
  cases xs[axis]? <;> simp

namespace ConvParams

def ofAxes (axes : List ConvAxis) : ConvParams :=
  { strides := axes.map ConvAxis.stride
    padding := axes.map fun a => (a.low, a.high)
    inputDilation := axes.map ConvAxis.inputDilation
    filterDilation := axes.map ConvAxis.filterDilation }

theorem axisEntry_map {α : Type} (f : ConvAxis → α) (before : List ConvAxis) (a : ConvAxis)
    (rest : List ConvAxis) : axisEntry ((before ++ a :: rest).map f) before.length = .ok (f a) := by
  rw [axisEntry_eq_ok]
  simp

theorem outputExtents_ofAxes {before rest : List ConvAxis} (strides : ∀ a ∈ rest, 0 < a.stride)
    {outs : List Int} :
    (ofAxes (before ++ rest)).outputExtents before.length (rest.map ConvAxis.input)
        (rest.map ConvAxis.kernel) = .ok outs
      ↔ (∀ a ∈ rest, 0 < a.sliding.starts) ∧ outs = rest.map ConvAxis.output := by
  induction rest generalizing before outs with
  | nil =>
    simp only [List.map_nil, outputExtents, pure_eq_ok, List.not_mem_nil, false_implies,
      implies_true, true_and]
    exact eq_comm
  | cons a rest inductionHypothesis =>
    have stride := strides a (List.mem_cons_self ..)
    have tail := @inductionHypothesis (before ++ [a])
      fun other member => strides other (List.mem_cons_of_mem _ member)
    rw [List.append_assoc, List.singleton_append, List.length_append, List.length_singleton] at tail
    have extent := a.starts_eq
    simp only [List.map_cons, outputExtents, ofAxes, axisEntry_map, ok_bind, throw_bind, refuse_eq_ok,
      bind_eq_ok, pure_eq_ok, ← extent]
    rw [Sliding.ceilDivide_eq stride]
    simp only [ofAxes] at tail
    simp only [tail, List.forall_mem_cons]
    constructor
    · rintro ⟨large, _, ⟨⟩, _, ⟨others, rfl⟩, rfl⟩
      exact ⟨⟨by omega, others⟩, rfl⟩
    · rintro ⟨⟨first, others⟩, rfl⟩
      exact ⟨by omega, _, rfl, _, ⟨others, rfl⟩, rfl⟩

theorem outputShape_ofAxes_iff {axes : List ConvAxis} (strides : ∀ a ∈ axes, 0 < a.stride) {b c co d : Int}
    {out : List Int} :
    (ofAxes axes).outputShape (b :: c :: axes.map ConvAxis.input)
        (co :: d :: axes.map ConvAxis.kernel) = .ok out
      ↔ (∀ a ∈ axes, 0 < a.sliding.starts) ∧ out = b :: co :: axes.map ConvAxis.output := by
  have extents := fun outs => @outputExtents_ofAxes [] axes strides outs
  simp only [List.nil_append, List.length_nil] at extents
  simp only [outputShape, bind_eq_ok, axisEntry_eq_ok, List.getElem?_cons_zero, Option.some.injEq,
    exists_eq_left', List.drop_succ_cons, List.drop_zero, extents, pure_eq_ok]
  constructor
  · rintro ⟨_, ⟨starts, rfl⟩, rfl⟩
    exact ⟨starts, rfl⟩
  · rintro ⟨starts, rfl⟩
    exact ⟨_, ⟨starts, rfl⟩, rfl⟩

theorem outputShape_ofAxes {axes : List ConvAxis} (roomy : ∀ a ∈ axes, a.Roomy) (b c co d : Int) :
    (ofAxes axes).outputShape (b :: c :: axes.map ConvAxis.input)
        (co :: d :: axes.map ConvAxis.kernel)
      = .ok (b :: co :: axes.map ConvAxis.output) :=
  (outputShape_ofAxes_iff fun a member => (roomy a member).stride).2
    ⟨fun a member => (roomy a member).starts, rfl⟩

theorem outputExtents_of_full {before roomy rest : List ConvAxis} {a : ConvAxis}
    (strides : ∀ other ∈ roomy, 0 < other.stride) (room : ∀ other ∈ roomy, 0 < other.sliding.starts)
    (full : a.sliding.starts ≤ 0) :
    (ofAxes (before ++ (roomy ++ a :: rest))).outputExtents before.length
        ((roomy ++ a :: rest).map ConvAxis.input) ((roomy ++ a :: rest).map ConvAxis.kernel)
      = .error (.convolution (.kernelTooLarge (.int (windowReach a.kernel a.filterDilation))
          (.int (dilatedExtent a.input a.inputDilation + a.low + a.high))
          (before.length + roomy.length))) := by
  induction roomy generalizing before with
  | nil =>
    have large : dilatedExtent a.input a.inputDilation + a.low + a.high
        < windowReach a.kernel a.filterDilation := by
      have := a.starts_eq
      omega
    simp only [List.nil_append, List.map_cons, outputExtents, ofAxes, axisEntry_map, ok_bind, throw_bind,
      if_pos large, List.length_nil, Nat.add_zero]
    rfl
  | cons other roomy inductionHypothesis =>
    have fits : ¬ dilatedExtent other.input other.inputDilation + other.low + other.high
        < windowReach other.kernel other.filterDilation := by
      have := other.starts_eq
      have := room other (List.mem_cons_self ..)
      omega
    have tail := @inductionHypothesis (before ++ [other])
      (fun later member => strides later (List.mem_cons_of_mem _ member))
      fun later member => room later (List.mem_cons_of_mem _ member)
    rw [List.append_assoc, List.singleton_append, List.length_append, List.length_singleton] at tail
    simp only [ofAxes] at tail
    simp only [List.cons_append, List.map_cons, outputExtents, ofAxes, axisEntry_map, ok_bind, throw_bind,
      if_neg fits, Sliding.ceilDivide_eq (strides other (List.mem_cons_self ..)), tail,
      List.length_cons]
    rw [Nat.add_assoc, Nat.add_comm 1]
    rfl

/-- Either all items have a property or there is a first one that does not. -/
theorem forall_or_first {α : Type} (P : α → Prop) (xs : List α) :
    (∀ x ∈ xs, P x) ∨ ∃ before x rest, xs = before ++ x :: rest ∧ (∀ y ∈ before, P y) ∧ ¬ P x := by
  induction xs with
  | nil => exact .inl nofun
  | cons x xs inductionHypothesis =>
    by_cases holds : P x
    · obtain each | ⟨before, y, rest, rfl, earlier, fails⟩ := inductionHypothesis
      · exact .inl (List.forall_mem_cons.2 ⟨holds, each⟩)
      · exact .inr ⟨x :: before, y, rest, rfl, List.forall_mem_cons.2 ⟨holds, earlier⟩, fails⟩
    · exact .inr ⟨[], x, xs, rfl, nofun, holds⟩

theorem outputShape_of_full {roomy rest : List ConvAxis} {a : ConvAxis}
    (strides : ∀ other ∈ roomy, 0 < other.stride) (room : ∀ other ∈ roomy, 0 < other.sliding.starts)
    (full : a.sliding.starts ≤ 0) (b c co d : Int) :
    (ofAxes (roomy ++ a :: rest)).outputShape (b :: c :: (roomy ++ a :: rest).map ConvAxis.input)
        (co :: d :: (roomy ++ a :: rest).map ConvAxis.kernel)
      = .error (.convolution (.kernelTooLarge (.int (windowReach a.kernel a.filterDilation))
          (.int (dilatedExtent a.input a.inputDilation + a.low + a.high)) roomy.length)) := by
  have extents := @outputExtents_of_full [] roomy rest a strides room full
  simp only [List.nil_append, List.length_nil, Nat.zero_add] at extents
  simp only [outputShape, axisEntry, List.getElem?_cons_zero, List.drop_succ_cons, List.drop_zero, extents]
  rfl

/-! ## Accepted parameters -/

theorem exists_axes {p : ConvParams} {inputs kernels : List Int} {n : Nat}
    (inputCount : inputs.length = n) (kernelCount : kernels.length = n)
    (strides : p.strides.length = n) (padding : p.padding.length = n)
    (inputDilation : p.inputDilation.length = n) (filterDilation : p.filterDilation.length = n) :
    ∃ axes : List ConvAxis, p = ofAxes axes ∧ inputs = axes.map ConvAxis.input
      ∧ kernels = axes.map ConvAxis.kernel := by
  obtain ⟨ss, pads, ds, es⟩ := p
  dsimp only at strides padding inputDilation filterDilation
  induction n generalizing inputs kernels ss pads ds es with
  | zero =>
    rw [List.length_eq_zero_iff] at *
    subst inputCount kernelCount strides padding inputDilation filterDilation
    exact ⟨[], rfl, rfl, rfl⟩
  | succ n inductionHypothesis =>
    obtain ⟨x, inputs, rfl⟩ := List.exists_cons_of_length_eq_add_one inputCount
    obtain ⟨k, kernels, rfl⟩ := List.exists_cons_of_length_eq_add_one kernelCount
    obtain ⟨s, ss, rfl⟩ := List.exists_cons_of_length_eq_add_one strides
    obtain ⟨w, pads, rfl⟩ := List.exists_cons_of_length_eq_add_one padding
    obtain ⟨d, ds, rfl⟩ := List.exists_cons_of_length_eq_add_one inputDilation
    obtain ⟨e, es, rfl⟩ := List.exists_cons_of_length_eq_add_one filterDilation
    simp only [List.length_cons, Nat.add_right_cancel_iff] at *
    obtain ⟨axes, params, rfl, rfl⟩ := inductionHypothesis inputCount kernelCount ss pads ds es
      strides padding inputDilation filterDilation
    refine ⟨⟨x, k, s, w.1, w.2, d, e⟩ :: axes, ?_, rfl, rfl⟩
    simp only [ofAxes, ConvParams.mk.injEq, List.map_cons, List.cons.injEq, true_and] at params ⊢
    exact params

theorem requireEntries_eq_ok {name : String} {given expected : Nat} {u : Unit} :
    requireEntries name given expected = .ok u ↔ given = expected := by
  unfold requireEntries
  simp

theorem forM_eq_ok {ε α : Type} {f : α → Except ε Unit} {xs : List α} {u : Unit} :
    xs.forM f = .ok u ↔ ∀ x ∈ xs, f x = .ok () := by
  induction xs with
  | nil => simp [List.forM]
  | cons x xs inductionHypothesis =>
    simp only [List.forM, bind_eq_ok, inductionHypothesis, List.forall_mem_cons]
    constructor
    · rintro ⟨⟨⟩, first, rest⟩
      exact ⟨first, rest⟩
    · rintro ⟨first, rest⟩
      exact ⟨(), first, rest⟩

theorem axisEntry_kernel (before : List ConvAxis) (a : ConvAxis) (rest : List ConvAxis) (co d : Int) :
    axisEntry (co :: d :: (before ++ a :: rest).map ConvAxis.kernel) (before.length + 2)
      = .ok a.kernel := by
  rw [axisEntry_eq_ok]
  simp

theorem checkAxis_ofAxes {before rest : List ConvAxis} {a : ConvAxis} {co d : Int} {u : Unit} :
    (ofAxes (before ++ a :: rest)).checkAxis
        (co :: d :: (before ++ a :: rest).map ConvAxis.kernel) before.length = .ok u
      ↔ a.Proper ∧ 0 ≤ a.low ∧ 0 ≤ a.high := by
  simp only [checkAxis, ofAxes, axisEntry_map, axisEntry_kernel, ok_bind, throw_bind, refuse_eq_ok,
    pure_eq_ok, and_true]
  constructor
  · rintro ⟨stride, padding, inputDilation, filterDilation, kernel⟩
    exact ⟨⟨by omega, by omega, by omega, by omega⟩, by omega⟩
  · rintro ⟨⟨kernel, stride, inputDilation, filterDilation⟩, padding⟩
    omega

theorem exists_split {α : Type} {xs : List α} {number : Nat} (bound : number < xs.length) :
    ∃ before x rest, xs = before ++ x :: rest ∧ before.length = number :=
  ⟨xs.take number, xs[number], xs.drop (number + 1),
    by rw [← List.drop_eq_getElem_cons bound, List.take_append_drop], by simp [bound.le]⟩

theorem forM_checkAxis {axes : List ConvAxis} {co d : Int} {u : Unit} :
    (List.range axes.length).forM ((ofAxes axes).checkAxis (co :: d :: axes.map ConvAxis.kernel)) = .ok u
      ↔ ∀ a ∈ axes, a.Proper ∧ 0 ≤ a.low ∧ 0 ≤ a.high := by
  rw [forM_eq_ok]
  constructor
  · intro checked a member
    obtain ⟨before, rest, rfl⟩ := List.append_of_mem member
    exact checkAxis_ofAxes.1 (checked before.length (by simp))
  · intro each axis bound
    obtain ⟨before, a, rest, rfl, rfl⟩ := exists_split (List.mem_range.1 bound)
    exact checkAxis_ofAxes.2 (each a (by simp))

/-- The parameters of axes are accepted if all of them have room and padding that is not negative. -/
theorem check_ofAxes {axes : List ConvAxis} {b c co d : Int} {out : List Int} :
    (ofAxes axes).check (b :: c :: axes.map ConvAxis.input) (co :: d :: axes.map ConvAxis.kernel)
        = .ok out
      ↔ c = d ∧ (∀ a ∈ axes, a.Roomy ∧ 0 ≤ a.low ∧ 0 ≤ a.high)
        ∧ out = b :: co :: axes.map ConvAxis.output := by
  have count : (ofAxes axes).strides.length = axes.length ∧ (ofAxes axes).padding.length = axes.length
      ∧ (ofAxes axes).inputDilation.length = axes.length
      ∧ (ofAxes axes).filterDilation.length = axes.length := by
    simp [ofAxes]
  have rank : ¬ axes.length + 1 + 1 < 2 ∧ axes.length + 1 + 1 - 2 = axes.length := by omega
  simp only [check, throw_bind, refuse_eq_ok, bind_eq_ok, requireEntries_eq_ok, axisEntry_eq_ok,
    List.length_cons, List.length_map, List.getElem?_cons_succ, List.getElem?_cons_zero,
    Option.some.injEq, not_not, count, exists_const, true_and, exists_eq_left', rank, not_false_eq_true,
    forM_checkAxis]
  constructor
  · rintro ⟨channels, each, shape⟩
    obtain ⟨starts, rfl⟩ := (outputShape_ofAxes_iff fun a member => (each a member).1.stride).1 shape
    exact ⟨channels, fun a member => ⟨⟨(each a member).1, starts a member⟩, (each a member).2⟩, rfl⟩
  · rintro ⟨channels, each, rfl⟩
    exact ⟨channels, fun a member => ⟨(each a member).1.toProper, (each a member).2⟩,
      (outputShape_ofAxes_iff fun a member => (each a member).1.stride).2
        ⟨fun a member => (each a member).1.starts, rfl⟩⟩

/-- Accepted parameters are those of axes with room, with padding that is not negative. -/
theorem check_eq_ok {p : ConvParams} {b c co d : Int} {inputs kernels out : List Int} :
    p.check (b :: c :: inputs) (co :: d :: kernels) = .ok out
      ↔ c = d ∧ ∃ axes : List ConvAxis, p = ofAxes axes ∧ inputs = axes.map ConvAxis.input
        ∧ kernels = axes.map ConvAxis.kernel ∧ (∀ a ∈ axes, a.Roomy ∧ 0 ≤ a.low ∧ 0 ≤ a.high)
        ∧ out = b :: co :: axes.map ConvAxis.output := by
  constructor
  · intro accepted
    have counts := accepted
    simp only [check, throw_bind, refuse_eq_ok, bind_eq_ok, requireEntries_eq_ok,
      List.length_cons, not_not] at counts
    obtain ⟨ranks, _, _, strides, _, padding, _, inputDilation, _, filterDilation, _⟩ := counts
    obtain ⟨axes, rfl, rfl, rfl⟩ := @exists_axes p inputs kernels inputs.length rfl (by omega)
      (by omega) (by omega) (by omega) (by omega)
    obtain ⟨channels, each, rfl⟩ := check_ofAxes.1 accepted
    exact ⟨channels, axes, rfl, rfl, rfl, each, rfl⟩
  · rintro ⟨channels, axes, rfl, rfl, rfl, each, rfl⟩
    exact check_ofAxes.2 ⟨channels, each, rfl⟩

end ConvParams

/-! ## Transposed convolutions -/

namespace ConvAxis

/-- There is one window for every multiple of a number up to a last one. -/
theorem ceiling_multiples {n d : Int} (positive : 0 < d) :
    Sliding.ceiling ((n - 1) * d + 1) d = n := by
  obtain ⟨low, high⟩ := Sliding.ceiling_bounds positive (a := (n - 1) * d + 1)
  have enough : n ≤ Sliding.ceiling ((n - 1) * d + 1) d := by
    by_contra few
    nlinarith
  have notMore : Sliding.ceiling ((n - 1) * d + 1) d ≤ n := by
    by_contra many
    nlinarith
  omega

def padding (a : ConvAxis) (f : ConvParams.AxisPadding) : Int × Int :=
  f a.input a.kernel a.output a.low a.stride a.inputDilation a.filterDilation

def forInput (a : ConvAxis) : ConvAxis where
  input := a.output
  kernel := a.kernel
  stride := a.inputDilation
  low := (a.padding ConvParams.inputGradientPadding).1
  high := (a.padding ConvParams.inputGradientPadding).2
  inputDilation := a.stride
  filterDilation := a.filterDilation

def forFilter (a : ConvAxis) : ConvAxis where
  input := a.input
  kernel := a.output
  stride := a.filterDilation
  low := (a.padding ConvParams.filterGradientPadding).1
  high := (a.padding ConvParams.filterGradientPadding).2
  inputDilation := a.inputDilation
  filterDilation := a.stride

variable {a : ConvAxis}

/-- The window starts once at every position of the dilated input. -/
theorem starts_forInput (a : ConvAxis) :
    a.forInput.sliding.starts = dilatedExtent a.input a.inputDilation := by
  simp only [Sliding.starts, sliding, forInput, padding, ConvParams.inputGradientPadding, windowReach]
  ring

/-- The window starts once at every position of the dilated kernel. -/
theorem starts_forFilter (roomy : a.Roomy) :
    a.forFilter.sliding.starts = dilatedExtent a.kernel a.filterDilation := by
  have reach := Layout.dilatedExtent_eq roomy.output_pos (Int.add_one_le_of_lt roomy.stride)
  have kernel := Layout.dilatedExtent_eq roomy.kernel (Int.add_one_le_of_lt roomy.filterDilation)
  simp only [Sliding.starts, sliding, forFilter, padding, ConvParams.filterGradientPadding,
    windowReach, reach, kernel]
  ring

theorem Fits.forInput (fits : a.Fits) : a.forInput.Fits where
  input := fits.output_pos
  kernel := fits.kernel
  stride := fits.inputDilation
  inputDilation := fits.stride
  filterDilation := fits.filterDilation
  starts := by
    rw [starts_forInput]
    exact Layout.dilatedExtent_pos fits.input (Int.add_one_le_of_lt fits.inputDilation)

/-- Nothing is asked of the input for the gradient of the filter. -/
theorem Roomy.forFilter (roomy : a.Roomy) : a.forFilter.Roomy where
  kernel := roomy.output_pos
  stride := roomy.filterDilation
  inputDilation := roomy.inputDilation
  filterDilation := roomy.stride
  starts := by
    rw [starts_forFilter roomy]
    exact Layout.dilatedExtent_pos roomy.kernel (Int.add_one_le_of_lt roomy.filterDilation)

theorem Fits.forFilter (fits : a.Fits) : a.forFilter.Fits := fits.roomy.forFilter.fits fits.input

theorem full_forInput (empty : a.input = 0) (dilation : 0 < a.inputDilation) :
    a.forInput.sliding.starts = 0 := by
  rw [starts_forInput, empty, dilatedExtent]
  omega

theorem Fits.output_forInput (fits : a.Fits) : a.forInput.output = a.input := by
  show Sliding.ceiling a.forInput.sliding.starts a.inputDilation = _
  rw [starts_forInput, Layout.dilatedExtent_eq fits.input (Int.add_one_le_of_lt fits.inputDilation)]
  exact ceiling_multiples fits.inputDilation

theorem Roomy.output_forFilter (roomy : a.Roomy) : a.forFilter.output = a.kernel := by
  show Sliding.ceiling a.forFilter.sliding.starts a.filterDilation = _
  rw [starts_forFilter roomy,
    Layout.dilatedExtent_eq roomy.kernel (Int.add_one_le_of_lt roomy.filterDilation)]
  exact ceiling_multiples roomy.filterDilation

section Lists

variable (axes : List ConvAxis)

@[simp] theorem map_input_forInput : (axes.map forInput).map input = axes.map output := List.map_map ..

@[simp] theorem map_kernel_forInput : (axes.map forInput).map kernel = axes.map kernel := List.map_map ..

@[simp] theorem map_inputDilation_forInput :
    (axes.map forInput).map inputDilation = axes.map stride := List.map_map ..

@[simp] theorem map_input_forFilter : (axes.map forFilter).map input = axes.map input := List.map_map ..

@[simp] theorem map_kernel_forFilter : (axes.map forFilter).map kernel = axes.map output := List.map_map ..

variable {axes}

theorem map_output_forFilter (roomy : ∀ a ∈ axes, a.Roomy) :
    (axes.map forFilter).map output = axes.map kernel := by
  rw [List.map_map]
  exact List.map_congr_left fun a member => (roomy a member).output_forFilter

theorem forall_roomy_forFilter (roomy : ∀ a ∈ axes, a.Roomy) : ∀ a ∈ axes.map forFilter, a.Roomy :=
  List.forall_mem_map.2 fun a member => (roomy a member).forFilter

variable (fits : ∀ a ∈ axes, a.Fits)

include fits

theorem map_output_forInput : (axes.map forInput).map output = axes.map input := by
  rw [List.map_map]
  exact List.map_congr_left fun a member => (fits a member).output_forInput

theorem forall_fits_forInput : ∀ a ∈ axes.map forInput, a.Fits :=
  List.forall_mem_map.2 fun a member => (fits a member).forInput

theorem forall_fits_forFilter : ∀ a ∈ axes.map forFilter, a.Fits :=
  List.forall_mem_map.2 fun a member => (fits a member).forFilter

end Lists

end ConvAxis

namespace ConvParams

theorem transposedPadding_ofAxes (f : AxisPadding) (before rest : List ConvAxis) :
    (ofAxes (before ++ rest)).transposedPadding f before.length (rest.map ConvAxis.input)
        (rest.map ConvAxis.kernel) (rest.map ConvAxis.output)
      = .ok (rest.map fun a => a.padding f) := by
  induction rest generalizing before with
  | nil => rfl
  | cons a rest inductionHypothesis =>
    have tail := inductionHypothesis (before ++ [a])
    rw [List.append_assoc, List.singleton_append, List.length_append, List.length_singleton] at tail
    simp only [ofAxes] at tail
    simp only [List.map_cons, transposedPadding, ofAxes, axisEntry_map, ok_bind, tail]
    rfl

variable {axes : List ConvAxis}

theorem transposeInput_ofAxes (roomy : ∀ a ∈ axes, a.Roomy) (b c co d : Int) :
    (ofAxes axes).transposeInput (b :: c :: axes.map ConvAxis.input)
        (co :: d :: axes.map ConvAxis.kernel)
      = .ok (ofAxes (axes.map ConvAxis.forInput)) := by
  have padding := transposedPadding_ofAxes inputGradientPadding [] axes
  rw [transposeInput, outputShape_ofAxes roomy, ok_bind]
  show (transposedPadding (ofAxes ([] ++ axes)) _ ([] : List ConvAxis).length _ _ _ >>= _) = _
  simp only [List.drop_succ_cons, List.drop_zero, padding, ok_bind]
  simp [ofAxes, Function.comp_def, ConvAxis.forInput]

theorem transposeFilter_ofAxes (roomy : ∀ a ∈ axes, a.Roomy) (b c co d : Int) :
    (ofAxes axes).transposeFilter (b :: c :: axes.map ConvAxis.input)
        (co :: d :: axes.map ConvAxis.kernel)
      = .ok (ofAxes (axes.map ConvAxis.forFilter)) := by
  have padding := transposedPadding_ofAxes filterGradientPadding [] axes
  rw [transposeFilter, outputShape_ofAxes roomy, ok_bind]
  show (transposedPadding (ofAxes ([] ++ axes)) _ ([] : List ConvAxis).length _ _ _ >>= _) = _
  simp only [List.drop_succ_cons, List.drop_zero, padding, ok_bind]
  simp [ofAxes, Function.comp_def, ConvAxis.forFilter]

end ConvParams

end StridedArray
