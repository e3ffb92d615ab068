import StridedArray.Proofs.Convolution.Axes

/-! # Sums of products

What a convolution is meant to compute, on functions of multi-indices: each element of the result is the
sum, over channels and the steps of a window, of products of the dilated and padded input with the
filter.

* `OnPoint`, `dilatedEntry` — the dilated input, which is zero in gaps and in padding;
* `ConvParams.tap`, `ConvParams.sumAt` — the position of a step of a window, and the sum;
* `exists_spots` — starts and steps of windows beside the axes that they belong to;
* `dilatedEntry_eq_sum` — the dilated input as a sum over all elements of the input;
* `ConvParams.sumAt_congr` — a sum only depends on the elements of its operands. -/

namespace StridedArray

open Shape (Inside Positive below box)

def OnPoint (extents dilation position : List Int) : Prop :=
  ∀ a ∈ position.zip (extents.zip dilation), 0 ≤ a.1 ∧ a.1 ≤ (a.2.1 - 1) * a.2.2 ∧ a.2.2 ∣ a.1

instance (extents dilation position : List Int) : Decidable (OnPoint extents dilation position) :=
  inferInstanceAs (Decidable (∀ a ∈ position.zip (extents.zip dilation), _))

/-- The input at a position after dilation: the element at the quotient, or zero. -/
def dilatedEntry (x : List Int → Int) (extents dilation front position : List Int) : Int :=
  if OnPoint extents dilation position then x (front ++ position.zipWith (· / ·) dilation) else 0

namespace ConvParams

/-- The position in the dilated input that a step of a window is at. Padding in front of the input has
    negative positions. -/
def tap (p : ConvParams) (start step : List Int) : List Int :=
  View.behind ((start.zipWith (· * ·) p.strides).zipWith (· + ·)
    (step.zipWith (· * ·) p.filterDilation)) p.padding

/-- The sum of products at a multi-index of the result, for an input with the given spatial extents and
    channels, and a filter with the given window. -/
def sumAt (p : ConvParams) (extents : List Int) (channels : Int) (window : List Int)
    (x w : List Int → Int) : List Int → Int
  | batch :: out :: start =>
    ∑ c ∈ below channels, ∑ step ∈ box window,
      dilatedEntry x extents p.inputDilation [batch, c] (p.tap start step) * w (out :: c :: step)
  | _ => 0

end ConvParams

/-! ## Axis by axis -/

/-- The start of a window and a step in it, beside the axis that they belong to. -/
abbrev Spot := ConvAxis × Int × Int

namespace Spot

def tap (s : Spot) : Int := s.2.1 * s.1.stride + s.2.2 * s.1.filterDilation - s.1.low

end Spot

/-- Starts and steps of windows beside the axes that they belong to. -/
theorem exists_spots {α : Type} {axes : List α} {f g : α → Int} {start step : List Int}
    (starts : Inside start (axes.map f)) (steps : Inside step (axes.map g)) :
    ∃ spots : List (α × Int × Int), spots.map Prod.fst = axes ∧ (spots.map fun s => s.2.1) = start
      ∧ (spots.map fun s => s.2.2) = step ∧ (∀ s ∈ spots, 0 ≤ s.2.1 ∧ s.2.1 < f s.1)
      ∧ ∀ s ∈ spots, 0 ≤ s.2.2 ∧ s.2.2 < g s.1 := by
  induction axes generalizing start step with
  | nil =>
    rw [List.map_nil, Shape.inside_nil_right] at starts steps
    subst starts steps
    exact ⟨[], rfl, rfl, rfl, by simp, by simp⟩
  | cons a axes inductionHypothesis =>
    obtain ⟨o, start, rfl, first, starts⟩ := Shape.inside_cons_right.1 starts
    obtain ⟨t, step, rfl, second, steps⟩ := Shape.inside_cons_right.1 steps
    obtain ⟨spots, rfl, rfl, rfl, firsts, seconds⟩ := inductionHypothesis starts steps
    exact ⟨(a, o, t) :: spots, rfl, rfl, rfl, List.forall_mem_cons.2 ⟨first, firsts⟩,
      List.forall_mem_cons.2 ⟨second, seconds⟩⟩

theorem ConvParams.tap_ofAxes (spots : List Spot) :
    (ofAxes (spots.map Prod.fst)).tap (spots.map fun s => s.2.1) (spots.map fun s => s.2.2)
      = spots.map Spot.tap := by
  induction spots with
  | nil => rfl
  | cons s spots inductionHypothesis =>
    simp only [tap, ofAxes, List.map_cons, List.zipWith_cons_cons, View.behind_cons]
      at inductionHypothesis ⊢
    rw [inductionHypothesis]
    rfl

theorem onPoint_map {α : Type} (axes : List α) (extent dilation position : α → Int) :
    OnPoint (axes.map extent) (axes.map dilation) (axes.map position)
      ↔ ∀ x ∈ axes, 0 ≤ position x ∧ position x ≤ (extent x - 1) * dilation x
        ∧ dilation x ∣ position x := by
  unfold OnPoint
  rw [List.zip_map', List.zip_map']
  exact List.forall_mem_map

/-! ## The dilated input as a sum -/

def spread (index dilation : List Int) : List Int := index.zipWith (· * ·) dilation

theorem onPoint_cons {extent dilation position : Int} {extents dilations positions : List Int} :
    OnPoint (extent :: extents) (dilation :: dilations) (position :: positions)
      ↔ (0 ≤ position ∧ position ≤ (extent - 1) * dilation ∧ dilation ∣ position)
        ∧ OnPoint extents dilations positions := by
  unfold OnPoint
  rw [List.zip_cons_cons, List.zip_cons_cons, List.forall_mem_cons]

theorem eq_mul_iff {extent dilation position i : Int} (natural : 0 < dilation)
    (bounds : 0 ≤ i ∧ i < extent) :
    position = i * dilation ↔ (0 ≤ position ∧ position ≤ (extent - 1) * dilation
      ∧ dilation ∣ position) ∧ position / dilation = i := by
  constructor
  · rintro rfl
    exact ⟨⟨Int.mul_nonneg bounds.1 (le_of_lt natural),
      Int.mul_le_mul_of_nonneg_right (by omega) (le_of_lt natural), Int.dvd_mul_left ..⟩,
      Int.mul_ediv_cancel _ (by omega)⟩
  · rintro ⟨⟨_, _, divides⟩, rfl⟩
    exact (Int.ediv_mul_cancel divides).symm

section Points

variable {extents dilation position : List Int}

theorem eq_spread_iff (natural : ∀ d ∈ dilation, 0 < d) (lengths : dilation.length = extents.length)
    (rank : position.length = extents.length) {index : List Int} (inside : Inside index extents) :
    position = spread index dilation
      ↔ OnPoint extents dilation position ∧ position.zipWith (· / ·) dilation = index := by
  induction extents generalizing dilation position index with
  | nil =>
    rw [Shape.inside_nil_right.1 inside, List.length_eq_zero_iff.1 rank]
    simp [spread, OnPoint]
  | cons extent extents inductionHypothesis =>
    obtain ⟨i, index, rfl, bounds, inside⟩ := Shape.inside_cons_right.1 inside
    obtain ⟨d, dilation, rfl⟩ := List.exists_cons_of_length_eq_add_one lengths
    obtain ⟨p, position, rfl⟩ := List.exists_cons_of_length_eq_add_one rank
    have others := inductionHypothesis (fun e member => natural e (List.mem_cons_of_mem _ member))
      (by simpa using lengths) (by simpa using rank) inside
    have first := @eq_mul_iff _ _ p _ (natural d (List.mem_cons_self ..)) bounds
    unfold spread at others ⊢
    rw [List.zipWith_cons_cons, List.zipWith_cons_cons, List.cons.injEq, List.cons.injEq, onPoint_cons,
      others, first]
    tauto

theorem OnPoint.inside (onPoint : OnPoint extents dilation position)
    (natural : ∀ d ∈ dilation, 0 < d) (lengths : dilation.length = extents.length)
    (rank : position.length = extents.length) :
    Inside (position.zipWith (· / ·) dilation) extents := by
  induction extents generalizing dilation position with
  | nil =>
    rw [List.length_eq_zero_iff.1 rank]
    exact Shape.inside_nil
  | cons extent extents inductionHypothesis =>
    obtain ⟨d, dilation, rfl⟩ := List.exists_cons_of_length_eq_add_one lengths
    obtain ⟨p, position, rfl⟩ := List.exists_cons_of_length_eq_add_one rank
    obtain ⟨⟨low, high, _⟩, others⟩ := onPoint_cons.1 onPoint
    have positive : 0 < d := natural d (List.mem_cons_self ..)
    have last : p / d < extent := by
      have := Int.ediv_le_ediv positive high
      rw [Int.mul_ediv_cancel _ (by omega)] at this
      omega
    exact Shape.inside_cons.2 ⟨⟨Int.ediv_nonneg low (le_of_lt positive), last⟩,
      inductionHypothesis others (fun e member => natural e (List.mem_cons_of_mem _ member))
        (by simpa using lengths) (by simpa using rank)⟩

/-- The dilated input is the sum of all elements of the input that are at a position. -/
theorem dilatedEntry_eq_sum (natural : ∀ d ∈ dilation, 0 < d)
    (lengths : dilation.length = extents.length) (rank : position.length = extents.length)
    (x : List Int → Int) (front : List Int) :
    dilatedEntry x extents dilation front position
      = ∑ index ∈ box extents, if position = spread index dilation then x (front ++ index) else 0 := by
  have one : ∀ index ∈ box extents,
      (if position = spread index dilation then x (front ++ index) else 0)
        = if index = position.zipWith (· / ·) dilation then dilatedEntry x extents dilation front position
          else 0 := by
    intro index member
    have points := eq_spread_iff natural lengths rank (Shape.mem_box.1 member)
    by_cases same : position.zipWith (· / ·) dilation = index
    · simp [points, same, dilatedEntry]
    · rw [if_neg fun found => same (points.1 found).2, if_neg fun found => same found.symm]
  rw [Finset.sum_congr rfl one, Finset.sum_ite_eq']
  by_cases onPoint : OnPoint extents dilation position
  · rw [if_pos (Shape.mem_box.2 (onPoint.inside natural lengths rank))]
  · rw [dilatedEntry, if_neg onPoint, ite_self]

end Points

/-! ## Sums of equal operands -/

section Operands

variable {axes : List ConvAxis} {b c co : Int} {x x' w w' : List Int → Int}

theorem ConvParams.length_tap {start step : List Int} (starts : start.length = axes.length)
    (steps : step.length = axes.length) : ((ofAxes axes).tap start step).length = axes.length := by
  simp [tap, View.behind, ofAxes, starts, steps]

theorem ConvParams.inputDilation_pos (fits : ∀ a ∈ axes, a.Fits) :
    ∀ d ∈ (ofAxes axes).inputDilation, 0 < d := by
  intro d member
  obtain ⟨a, inner, rfl⟩ := List.mem_map.1 member
  exact (fits a inner).inputDilation

theorem ConvParams.entry_eq_sum (fits : ∀ a ∈ axes, a.Fits) {start step : List Int}
    (starts : start.length = axes.length) (steps : step.length = axes.length) (front : List Int) :
    dilatedEntry x (axes.map ConvAxis.input) (ofAxes axes).inputDilation front ((ofAxes axes).tap start step)
      = ∑ index ∈ box (axes.map ConvAxis.input),
        if (ofAxes axes).tap start step = spread index (axes.map ConvAxis.inputDilation)
        then x (front ++ index) else 0 :=
  dilatedEntry_eq_sum (inputDilation_pos fits) (by simp [ofAxes])
    (by rw [length_tap starts steps, List.length_map]) x front

theorem dilatedEntry_congr {extents dilation position front : List Int}
    (natural : ∀ d ∈ dilation, 0 < d) (lengths : dilation.length = extents.length)
    (rank : position.length = extents.length)
    (same : ∀ index, Inside index extents → x (front ++ index) = x' (front ++ index)) :
    dilatedEntry x extents dilation front position = dilatedEntry x' extents dilation front position := by
  unfold dilatedEntry
  split
  · next onPoint => exact same _ (onPoint.inside natural lengths rank)
  · rfl

/-- A sum only depends on the elements of its operands. -/
theorem ConvParams.sumAt_congr (fits : ∀ a ∈ axes, a.Fits)
    (inputs : ∀ index, Inside index (b :: c :: axes.map ConvAxis.input) → x index = x' index)
    (filters : ∀ index, Inside index (co :: c :: axes.map ConvAxis.kernel) → w index = w' index)
    {index : List Int} (inside : Inside index (b :: co :: axes.map ConvAxis.output)) :
    (ofAxes axes).sumAt (axes.map ConvAxis.input) c (axes.map ConvAxis.kernel) x w index
      = (ofAxes axes).sumAt (axes.map ConvAxis.input) c (axes.map ConvAxis.kernel) x' w' index := by
  obtain ⟨i, _, rfl, batch, rest⟩ := Shape.inside_cons_right.1 inside
  obtain ⟨m, start, rfl, output, starts⟩ := Shape.inside_cons_right.1 rest
  refine Finset.sum_congr rfl fun j channel => Finset.sum_congr rfl fun step window => ?_
  have channels := Shape.mem_below.1 channel
  have steps := Shape.mem_box.1 window
  rw [filters (m :: j :: step) (Shape.inside_cons.2 ⟨output, Shape.inside_cons.2 ⟨channels, steps⟩⟩)]
  congr 1
  refine dilatedEntry_congr (inputDilation_pos fits) (by simp [ofAxes]) ?_ fun inner below => ?_
  · have startCount := starts.length_eq
    have stepCount := steps.length_eq
    rw [List.length_map] at startCount stepCount ⊢
    exact length_tap startCount stepCount
  · exact inputs (i :: j :: inner)
      (Shape.inside_cons.2 ⟨batch, Shape.inside_cons.2 ⟨channels, below⟩⟩)

end Operands

end StridedArray
