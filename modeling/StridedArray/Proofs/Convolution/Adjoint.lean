import StridedArray.Proofs.Convolution.Taps

/-! # Adjoints of a convolution

A convolution is linear in each of its operands, and the convolutions with transposed parameters are the
adjoints of these maps.

* `turned`, `exchanged` — a filter with its windows backwards and an operand with its first two axes
  exchanged;
* `tap_forInput`, `tap_forFilter` — positions under transposed parameters;
* `sum_sumAt_forInput`, `sum_sumAt_forFilter` — the adjoints. -/

namespace StridedArray

open Shape (Inside Positive below box)

def exchanged (x : List Int → Int) : List Int → Int
  | a :: b :: rest => x (b :: a :: rest)
  | _ => 0

theorem exchanged_congr {x y : List Int → Int} {a b : Int} {rest : List Int}
    (same : ∀ index, Inside index (a :: b :: rest) → x index = y index) :
    ∀ index, Inside index (b :: a :: rest) → exchanged x index = exchanged y index := by
  intro index inside
  obtain ⟨j, _, rfl, first, tail⟩ := Shape.inside_cons_right.1 inside
  obtain ⟨i, index, rfl, second, others⟩ := Shape.inside_cons_right.1 tail
  exact same _ (Shape.inside_cons.2 ⟨second, Shape.inside_cons.2 ⟨first, others⟩⟩)

/-- A filter with its first two axes exchanged and its windows backwards. -/
def turned (window : List Int) (w : List Int → Int) : List Int → Int
  | c :: out :: step => w (out :: c :: Shape.reversed window step)
  | _ => 0

theorem turned_congr {x y : List Int → Int} {a b : Int} {window : List Int}
    (same : ∀ index, Inside index (a :: b :: window) → x index = y index) :
    ∀ index, Inside index (b :: a :: window) → turned window x index = turned window y index := by
  intro index inside
  obtain ⟨j, _, rfl, first, tail⟩ := Shape.inside_cons_right.1 inside
  obtain ⟨i, step, rfl, second, others⟩ := Shape.inside_cons_right.1 tail
  exact same _ (Shape.inside_cons.2 ⟨second, Shape.inside_cons.2 ⟨first, others.reversed⟩⟩)

namespace ConvParams

variable {axes : List ConvAxis}

theorem length_of_mem_box {f : ConvAxis → Int} {index : List Int} (member : index ∈ box (axes.map f)) :
    index.length = axes.length := by
  rw [(Shape.mem_box.1 member).length_eq, List.length_map]

/-- A step of a window is at a point of the input just when the step backwards is at a point of the
    result, seen from the input. -/
theorem tap_forInput {start step index : List Int} (starts : Inside start (axes.map ConvAxis.output))
    (steps : Inside step (axes.map ConvAxis.kernel)) (inside : Inside index (axes.map ConvAxis.input)) :
    (ofAxes (axes.map ConvAxis.forInput)).tap index (Shape.reversed (axes.map ConvAxis.kernel) step)
        = spread start (axes.map ConvAxis.stride)
      ↔ (ofAxes axes).tap start step = spread index (axes.map ConvAxis.inputDilation) := by
  induction axes generalizing start step index with
  | nil => simp [tap, spread, ofAxes]
  | cons a axes inductionHypothesis =>
    obtain ⟨o, start, rfl, _, starts⟩ := Shape.inside_cons_right.1 starts
    obtain ⟨t, step, rfl, _, steps⟩ := Shape.inside_cons_right.1 steps
    obtain ⟨i, index, rfl, _, inside⟩ := Shape.inside_cons_right.1 inside
    have others := inductionHypothesis starts steps inside
    have first : i * a.inputDilation + (a.kernel - 1 - t) * a.filterDilation - a.forInput.low
        = o * a.stride ↔ o * a.stride + t * a.filterDilation - a.low = i * a.inputDilation := by
      have low : a.forInput.low = (a.kernel - 1) * a.filterDilation - a.low := by
        simp only [ConvAxis.forInput, ConvAxis.padding, inputGradientPadding, windowReach]
        ring
      rw [low]
      constructor <;> intro same <;> linarith
    unfold tap spread Shape.reversed ofAxes at others ⊢
    simp only [List.map_cons, List.zipWith_cons_cons, View.behind_cons, List.cons.injEq] at others ⊢
    rw [others]
    exact and_congr_left fun _ => first

/-- Steps of windows and starts of windows change places. -/
theorem tap_forFilter {start step : List Int} (starts : Inside start (axes.map ConvAxis.output))
    (steps : Inside step (axes.map ConvAxis.kernel)) :
    (ofAxes (axes.map ConvAxis.forFilter)).tap step start = (ofAxes axes).tap start step := by
  induction axes generalizing start step with
  | nil => simp [tap, ofAxes]
  | cons a axes inductionHypothesis =>
    obtain ⟨o, start, rfl, _, starts⟩ := Shape.inside_cons_right.1 starts
    obtain ⟨t, step, rfl, _, steps⟩ := Shape.inside_cons_right.1 steps
    have others := inductionHypothesis starts steps
    unfold tap ofAxes at others ⊢
    simp only [List.map_cons, List.zipWith_cons_cons, View.behind_cons] at others ⊢
    rw [others]
    congr 1
    simp only [ConvAxis.forFilter, ConvAxis.padding, filterGradientPadding]
    ring

/-! ## Orders of summation -/

section Orders

variable {I M S J T N : Type} (is : Finset I) (ms : Finset M) (ss : Finset S) (js : Finset J)
  (ts : Finset T) (ns : Finset N)

theorem sum_order_filter (f : I → M → S → J → T → Int) :
    ∑ i ∈ is, ∑ m ∈ ms, ∑ s ∈ ss, ∑ j ∈ js, ∑ t ∈ ts, f i m s j t
      = ∑ m ∈ ms, ∑ j ∈ js, ∑ t ∈ ts, ∑ i ∈ is, ∑ s ∈ ss, f i m s j t := by
  rw [Finset.sum_comm]
  refine Finset.sum_congr rfl fun m _ => ?_
  have inner : ∀ i, ∑ s ∈ ss, ∑ j ∈ js, ∑ t ∈ ts, f i m s j t
      = ∑ j ∈ js, ∑ t ∈ ts, ∑ s ∈ ss, f i m s j t := by
    intro i
    rw [Finset.sum_comm]
    exact Finset.sum_congr rfl fun j _ => Finset.sum_comm
  rw [Finset.sum_congr rfl fun i _ => inner i, Finset.sum_comm]
  exact Finset.sum_congr rfl fun j _ => Finset.sum_comm

theorem sum_order_input (f : M → S → J → T → N → Int) :
    ∑ m ∈ ms, ∑ s ∈ ss, ∑ j ∈ js, ∑ t ∈ ts, ∑ n ∈ ns, f m s j t n
      = ∑ j ∈ js, ∑ n ∈ ns, ∑ m ∈ ms, ∑ t ∈ ts, ∑ s ∈ ss, f m s j t n := by
  have inner : ∀ m, ∑ s ∈ ss, ∑ j ∈ js, ∑ t ∈ ts, ∑ n ∈ ns, f m s j t n
      = ∑ j ∈ js, ∑ n ∈ ns, ∑ t ∈ ts, ∑ s ∈ ss, f m s j t n := by
    intro m
    rw [Finset.sum_comm]
    refine Finset.sum_congr rfl fun j _ => ?_
    calc ∑ s ∈ ss, ∑ t ∈ ts, ∑ n ∈ ns, f m s j t n
      _ = ∑ s ∈ ss, ∑ n ∈ ns, ∑ t ∈ ts, f m s j t n :=
        Finset.sum_congr rfl fun s _ => Finset.sum_comm
      _ = ∑ n ∈ ns, ∑ s ∈ ss, ∑ t ∈ ts, f m s j t n := Finset.sum_comm
      _ = ∑ n ∈ ns, ∑ t ∈ ts, ∑ s ∈ ss, f m s j t n :=
        Finset.sum_congr rfl fun n _ => Finset.sum_comm
  rw [Finset.sum_congr rfl fun m _ => inner m, Finset.sum_comm]
  exact Finset.sum_congr rfl fun j _ => Finset.sum_comm

end Orders

/-! ## Adjoints -/

section Adjoints

variable {b c co : Int} {x w g : List Int → Int}

theorem sum_sumAt (p : ConvParams) (extents window outs : List Int) :
    ∑ index ∈ box (b :: co :: outs), p.sumAt extents c window x w index * g index
      = ∑ i ∈ below b, ∑ m ∈ below co, ∑ start ∈ box outs, ∑ j ∈ below c,
        ∑ step ∈ box window, dilatedEntry x extents p.inputDilation [i, j] (p.tap start step)
          * w (m :: j :: step) * g (i :: m :: start) := by
  simp only [Shape.sum_box_cons, sumAt, Finset.sum_mul]

/-- The gradient of the filter is the adjoint in the filter. -/
theorem sum_sumAt_forFilter (axes : List ConvAxis) :
    ∑ index ∈ box (b :: co :: axes.map ConvAxis.output),
        (ofAxes axes).sumAt (axes.map ConvAxis.input) c (axes.map ConvAxis.kernel) x w index * g index
      = ∑ index ∈ box (co :: c :: axes.map ConvAxis.kernel), w index
        * exchanged ((ofAxes (axes.map ConvAxis.forFilter)).sumAt (axes.map ConvAxis.input) b
          (axes.map ConvAxis.output) (exchanged x) (exchanged g)) index := by
  rw [sum_sumAt, sum_order_filter]
  simp only [Shape.sum_box_cons, exchanged, sumAt, Finset.mul_sum]
  refine Finset.sum_congr rfl fun m _ => Finset.sum_congr rfl fun j _ =>
    Finset.sum_congr rfl fun step window => Finset.sum_congr rfl fun i _ =>
    Finset.sum_congr rfl fun start row => ?_
  have dilation : (ofAxes (axes.map ConvAxis.forFilter)).inputDilation = (ofAxes axes).inputDilation := by
    simp [ofAxes, Function.comp_def, ConvAxis.forFilter]
  rw [tap_forFilter (Shape.mem_box.1 row) (Shape.mem_box.1 window), dilation]
  unfold dilatedEntry
  simp only [List.cons_append, List.nil_append, exchanged]
  ring

/-- The gradient of the input is the adjoint in the input. -/
theorem sum_sumAt_forInput (fits : ∀ a ∈ axes, a.Fits) :
    ∑ index ∈ box (b :: co :: axes.map ConvAxis.output),
        (ofAxes axes).sumAt (axes.map ConvAxis.input) c (axes.map ConvAxis.kernel) x w index * g index
      = ∑ index ∈ box (b :: c :: axes.map ConvAxis.input), x index
        * (ofAxes (axes.map ConvAxis.forInput)).sumAt (axes.map ConvAxis.output) co
          (axes.map ConvAxis.kernel) g (turned (axes.map ConvAxis.kernel) w) index := by
  let term : Int → Int → List Int → Int → List Int → List Int → Int := fun i m start j step n =>
    if (ofAxes axes).tap start step = spread n (axes.map ConvAxis.inputDilation)
    then x (i :: j :: n) * w (m :: j :: step) * g (i :: m :: start) else 0
  -- Each product is the sum over all elements of the input, of which one at most is met.
  have forward : ∀ i m j, ∀ start ∈ box (axes.map ConvAxis.output), ∀ step ∈ box (axes.map ConvAxis.kernel),
      dilatedEntry x (axes.map ConvAxis.input) (ofAxes axes).inputDilation [i, j]
          ((ofAxes axes).tap start step) * w (m :: j :: step) * g (i :: m :: start)
        = ∑ n ∈ box (axes.map ConvAxis.input), term i m start j step n := by
    intro i m j start row step window
    rw [entry_eq_sum fits (length_of_mem_box row) (length_of_mem_box window), Finset.sum_mul,
      Finset.sum_mul]
    refine Finset.sum_congr rfl fun n _ => ?_
    simp only [ite_mul, zero_mul]
    rfl
  -- The same products are met from the other side.
  have backward : ∀ i m j, ∀ n ∈ box (axes.map ConvAxis.input), ∀ step ∈ box (axes.map ConvAxis.kernel),
      x (i :: j :: n) * (dilatedEntry g (axes.map ConvAxis.output)
          (ofAxes (axes.map ConvAxis.forInput)).inputDilation [i, m]
          ((ofAxes (axes.map ConvAxis.forInput)).tap n (Shape.reversed (axes.map ConvAxis.kernel) step))
        * w (m :: j :: step))
        = ∑ start ∈ box (axes.map ConvAxis.output), term i m start j step n := by
    intro i m j n point step window
    have turnedWindow := (Shape.mem_box.1 window).reversed
    have count := length_of_mem_box (Shape.mem_box.2 turnedWindow)
    have entry := @entry_eq_sum (axes.map ConvAxis.forInput) g (ConvAxis.forall_fits_forInput fits) n
      (Shape.reversed (axes.map ConvAxis.kernel) step) (by simpa using length_of_mem_box point)
      (by simpa using count) [i, m]
    rw [ConvAxis.map_input_forInput, ConvAxis.map_inputDilation_forInput] at entry
    rw [entry, Finset.sum_mul, Finset.mul_sum]
    refine Finset.sum_congr rfl fun start row => ?_
    have points := tap_forInput (Shape.mem_box.1 row) (Shape.mem_box.1 window) (Shape.mem_box.1 point)
    dsimp only [term]
    simp only [points, ite_mul, mul_ite, zero_mul, mul_zero]
    congr 1
    simp only [List.cons_append, List.nil_append]
    ring
  rw [sum_sumAt]
  simp only [Shape.sum_box_cons]
  refine Finset.sum_congr rfl fun i _ => ?_
  have expanded : ∑ m ∈ below co, ∑ start ∈ box (axes.map ConvAxis.output),
      ∑ j ∈ below c, ∑ step ∈ box (axes.map ConvAxis.kernel),
        dilatedEntry x (axes.map ConvAxis.input) (ofAxes axes).inputDilation [i, j]
          ((ofAxes axes).tap start step) * w (m :: j :: step) * g (i :: m :: start)
      = ∑ m ∈ below co, ∑ start ∈ box (axes.map ConvAxis.output), ∑ j ∈ below c,
        ∑ step ∈ box (axes.map ConvAxis.kernel), ∑ n ∈ box (axes.map ConvAxis.input),
          term i m start j step n :=
    Finset.sum_congr rfl fun m _ => Finset.sum_congr rfl fun start row =>
      Finset.sum_congr rfl fun j _ => Finset.sum_congr rfl fun step window =>
        forward i m j start row step window
  rw [expanded, sum_order_input]
  refine Finset.sum_congr rfl fun j _ => Finset.sum_congr rfl fun n point => ?_
  simp only [sumAt, Finset.mul_sum]
  refine Finset.sum_congr rfl fun m _ => ?_
  refine Eq.trans ?_ (Shape.sum_box_reversed (axes.map ConvAxis.kernel) _)
  refine Finset.sum_congr rfl fun step window => ?_
  rw [← backward i m j n point step window, turned, (Shape.mem_box.1 window).reversed_reversed]

end Adjoints

end ConvParams

end StridedArray
