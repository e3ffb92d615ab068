import Mathlib.Data.Rat.Floor
import StridedArray.Proofs.Convolution.Settled

/-! # Padding that keeps the extents

* `ceiling_le`, `ceiling_eq_ceil` — the quotient rounded up;
* `ConvAxis.keptTotal`, `ConvAxis.keeping` — the padding of one axis, and the axis with it;
* `keeping_output` — the result has as many positions as there are strides in the input;
  `output_lt_of_less` — it has fewer with less padding;
* `samePadding_least` — both for all axes. -/

namespace StridedArray

namespace Sliding

theorem ceiling_le {a b n : Int} (positive : 0 < b) (covered : a ≤ n * b) : ceiling a b ≤ n := by
  have needed := (ceiling_bounds positive (a := a)).2
  have below : ceiling a b - 1 < n := lt_of_mul_lt_mul_right (needed.trans_le covered) positive.le
  omega

theorem ceiling_eq_ceil {a b : Int} (positive : 0 < b) : ceiling a b = ⌈(a : ℚ) / b⌉ := by
  obtain ⟨covered, needed⟩ := ceiling_bounds positive (a := a)
  have divisor : (0 : ℚ) < b := Int.cast_pos.2 positive
  refine (Int.ceil_eq_iff.2 ⟨?_, ?_⟩).symm
  · rw [lt_div_iff₀ divisor]
    exact_mod_cast needed
  · rw [div_le_iff₀ divisor]
    exact_mod_cast covered

end Sliding

namespace ConvAxis

def padded (a : ConvAxis) (pad : Int × Int) : ConvAxis := { a with low := pad.1, high := pad.2 }

/-- The number of strides in the dilated input, the last one possibly cut short. -/
def keptExtent (a : ConvAxis) : Int := Sliding.ceiling (dilatedExtent a.input a.inputDilation) a.stride

/-- The padding of both ends together that makes room for one window per stride. -/
def keptTotal (a : ConvAxis) : Int :=
  max ((a.keptExtent - 1) * a.stride + windowReach a.kernel a.filterDilation
    - dilatedExtent a.input a.inputDilation) 0

/-- The padding that keeps the extent: half of it on each end, the odd position behind. -/
def keptPadding (a : ConvAxis) : Int × Int := (a.keptTotal / 2, a.keptTotal - a.keptTotal / 2)

def keeping (a : ConvAxis) : ConvAxis := a.padded a.keptPadding

variable {a : ConvAxis}

theorem starts_padded (a : ConvAxis) (pad : Int × Int) :
    (a.padded pad).sliding.starts = dilatedExtent a.input a.inputDilation + (pad.1 + pad.2)
      - windowReach a.kernel a.filterDilation + 1 := by
  rw [starts_eq]
  show dilatedExtent a.input a.inputDilation + pad.1 + pad.2 - windowReach a.kernel a.filterDilation + 1 = _
  ring

theorem Proper.reach_pos (proper : a.Proper) : 0 < windowReach a.kernel a.filterDilation := by
  have gaps : 0 ≤ (a.kernel - 1) * a.filterDilation :=
    Int.mul_nonneg (by have := proper.kernel; omega) proper.filterDilation.le
  show 0 < (a.kernel - 1) * a.filterDilation + 1
  omega

theorem keptPadding_halves (a : ConvAxis) : 0 ≤ a.keptPadding.1 ∧ 0 ≤ a.keptPadding.2
    ∧ (a.keptPadding.2 - a.keptPadding.1 = 0 ∨ a.keptPadding.2 - a.keptPadding.1 = 1) := by
  have nonneg : 0 ≤ a.keptTotal := le_max_right _ _
  show 0 ≤ a.keptTotal / 2 ∧ 0 ≤ a.keptTotal - a.keptTotal / 2
    ∧ (a.keptTotal - a.keptTotal / 2 - a.keptTotal / 2 = 0
      ∨ a.keptTotal - a.keptTotal / 2 - a.keptTotal / 2 = 1)
  omega

theorem keptPadding_sum (a : ConvAxis) : a.keptPadding.1 + a.keptPadding.2 = a.keptTotal := by
  show a.keptTotal / 2 + (a.keptTotal - a.keptTotal / 2) = _
  omega

/-- There is room for one window per stride, whether padding is needed for it or not. -/
theorem Proper.keeping_output (proper : a.Proper) (input : 0 < a.input) :
    0 < a.keeping.sliding.starts ∧ a.keeping.output = a.keptExtent := by
  have size := Layout.dilatedExtent_pos input (Int.add_one_le_of_lt proper.inputDilation)
  have reach := proper.reach_pos
  have stride := proper.stride
  obtain ⟨covered, needed⟩ := Sliding.ceiling_bounds stride (a := dilatedExtent a.input a.inputDilation)
  have some : 0 < a.keptExtent := Sliding.ceiling_pos stride size
  have starts : a.keeping.sliding.starts = dilatedExtent a.input a.inputDilation + a.keptTotal
      - windowReach a.kernel a.filterDilation + 1 := by
    rw [← keptPadding_sum]
    exact starts_padded a _
  have last : 0 ≤ (a.keptExtent - 1) * a.stride := Int.mul_nonneg (by omega) stride.le
  have next : a.keptExtent * a.stride = (a.keptExtent - 1) * a.stride + a.stride := by ring
  -- The total is clamped where the reach is shorter than what the last stride leaves over; the starts
  -- then run over the end of the last window, but not over the end of the input.
  have within : (a.keptExtent - 1) * a.stride < a.keeping.sliding.starts
      ∧ a.keeping.sliding.starts ≤ a.keptExtent * a.stride := by
    have bound : dilatedExtent a.input a.inputDilation ≤ a.keptExtent * a.stride := covered
    rw [starts, keptTotal]
    omega
  exact ⟨by omega, (Sliding.ceiling_eq_iff stride).2 within⟩

/-- With less padding in total there are fewer windows. -/
theorem Proper.output_lt_of_less (proper : a.Proper) {pad : Int × Int} (nonneg : 0 ≤ pad.1 + pad.2)
    (less : pad.1 + pad.2 < a.keptTotal) : (a.padded pad).output < a.keptExtent := by
  have starts := starts_padded a pad
  have few : (a.padded pad).sliding.starts ≤ (a.keptExtent - 1) * a.stride := by
    rw [keptTotal] at less
    omega
  have bound : (a.padded pad).output ≤ a.keptExtent - 1 := Sliding.ceiling_le proper.stride few
  omega

theorem Proper.keptExtent_eq (proper : a.Proper) (input : 0 < a.input) :
    a.keptExtent = ⌈(((a.input - 1) * a.inputDilation + 1 : Int) : ℚ) / a.stride⌉ := by
  unfold keptExtent
  rw [Layout.dilatedExtent_eq input (Int.add_one_le_of_lt proper.inputDilation),
    Sliding.ceiling_eq_ceil proper.stride]

end ConvAxis

/-! ## All axes -/

theorem samePadding_ofAxes {before rest : List ConvAxis} (proper : ∀ a ∈ rest, a.Proper) :
    samePadding ((before ++ rest).map ConvAxis.stride) ((before ++ rest).map ConvAxis.inputDilation)
        ((before ++ rest).map ConvAxis.filterDilation) before.length (rest.map ConvAxis.input)
        (rest.map ConvAxis.kernel)
      = .ok (rest.map ConvAxis.keptPadding) := by
  induction rest generalizing before with
  | nil => rfl
  | cons a rest inductionHypothesis =>
    have tail := @inductionHypothesis (before ++ [a])
      fun other member => proper other (List.mem_cons_of_mem _ member)
    rw [List.append_assoc, List.singleton_append, List.length_append, List.length_singleton] at tail
    have half : a.keptTotal.fdiv 2 = a.keptTotal / 2 := Int.fdiv_eq_ediv_of_nonneg _ (by omega)
    simp only [List.map_cons, samePadding, ConvParams.axisEntry_map, ok_bind, tail,
      Sliding.ceilDivide_eq (proper a (List.mem_cons_self ..)).stride]
    simp only [← ConvAxis.keptExtent.eq_def, ← ConvAxis.keptTotal.eq_def, half]
    rfl

/-- What does not depend on padding is the same with other padding. -/
theorem ConvAxis.map_padded (f : ConvAxis → Int) (same : ∀ a pad, f (padded a pad) = f a)
    {axes : List ConvAxis} {pads : List (Int × Int)} (count : pads.length = axes.length) :
    (List.zipWith padded axes pads).map f = axes.map f := by
  induction axes generalizing pads with
  | nil => rfl
  | cons a axes inductionHypothesis =>
    obtain ⟨pad, pads, rfl⟩ := List.exists_cons_of_length_eq_add_one count
    rw [List.zipWith_cons_cons, List.map_cons, List.map_cons, same,
      inductionHypothesis (Nat.succ.inj count)]

theorem ConvParams.ofAxes_padded {axes : List ConvAxis} {pads : List (Int × Int)}
    (count : pads.length = axes.length) :
    { ofAxes axes with padding := pads } = ofAxes (List.zipWith ConvAxis.padded axes pads) := by
  have padding : (List.zipWith ConvAxis.padded axes pads).map (fun a => (a.low, a.high)) = pads := by
    rw [List.map_zipWith, ← List.map_uncurry_zip_eq_zipWith]
    exact List.map_snd_zip count.le
  unfold ofAxes
  rw [padding, ConvAxis.map_padded _ (fun _ _ => rfl) count, ConvAxis.map_padded _ (fun _ _ => rfl) count,
    ConvAxis.map_padded _ (fun _ _ => rfl) count]

theorem outputShape_padded {axes : List ConvAxis} (proper : ∀ a ∈ axes, a.Proper)
    {pads : List (Int × Int)} (count : pads.length = axes.length) {b c co d : Int} {out : List Datum} :
    (LooseConvParams.ofParams { ConvParams.ofAxes axes with padding := pads }).outputShape
        (.list (Datum.ints (b :: c :: axes.map ConvAxis.input)))
        (.list (Datum.ints (co :: d :: axes.map ConvAxis.kernel))) = .ok out
      ↔ (∀ a ∈ List.zipWith ConvAxis.padded axes pads, 0 < a.sliding.starts)
        ∧ out = Datum.ints (b :: co :: (List.zipWith ConvAxis.padded axes pads).map ConvAxis.output) := by
  have strides : ∀ a ∈ List.zipWith ConvAxis.padded axes pads, 0 < a.stride := by
    have each := List.forall_mem_map.2 fun a member => (proper a member).stride
    rw [← ConvAxis.map_padded _ (fun _ _ => rfl) count] at each
    exact List.forall_mem_map.1 each
  rw [(LooseConvParams.standsFor_ofParams _).outputShape, map_eq_ok, ConvParams.ofAxes_padded count]
  have shape := fun out => @ConvParams.outputShape_ofAxes_iff _ strides b c co d out
  rw [ConvAxis.map_padded _ (fun _ _ => rfl) count, ConvAxis.map_padded _ (fun _ _ => rfl) count] at shape
  simp only [shape]
  constructor
  · rintro ⟨_, ⟨starts, rfl⟩, rfl⟩
    exact ⟨starts, rfl⟩
  · rintro ⟨starts, rfl⟩
    exact ⟨_, ⟨starts, rfl⟩, rfl⟩

namespace Loose

/-- Padding by name keeps the extents, and no less padding does: whatever the other axes are given, an axis
    with a smaller total has another extent. The padding that the axes themselves come with is not looked
    at. -/
theorem samePadding_least {axes : List ConvAxis} (proper : ∀ a ∈ axes, 0 < a.input ∧ a.Proper)
    (b c co d : Int) :
    ∃ pads : List (Int × Int), pads.length = axes.length
      ∧ Loose.samePadding (.list (Datum.ints (b :: c :: axes.map ConvAxis.input)))
          (.list (Datum.ints (co :: d :: axes.map ConvAxis.kernel)))
          (.list (Datum.ints (axes.map ConvAxis.stride)))
          (.list (Datum.ints (axes.map ConvAxis.inputDilation)))
          (.list (Datum.ints (axes.map ConvAxis.filterDilation)))
        = .ok (pads.map Loose.ofPair)
      ∧ (∀ pad ∈ pads, 0 ≤ pad.1 ∧ 0 ≤ pad.2 ∧ (pad.2 - pad.1 = 0 ∨ pad.2 - pad.1 = 1))
      ∧ (LooseConvParams.ofParams { ConvParams.ofAxes axes with padding := pads }).outputShape
          (.list (Datum.ints (b :: c :: axes.map ConvAxis.input)))
          (.list (Datum.ints (co :: d :: axes.map ConvAxis.kernel)))
        = .ok (Datum.ints (b :: co :: axes.map fun a =>
            ⌈(((a.input - 1) * a.inputDilation + 1 : Int) : ℚ) / a.stride⌉))
      ∧ ∀ (others : List (Int × Int)) (out : List Datum), others.length = axes.length →
        (LooseConvParams.ofParams { ConvParams.ofAxes axes with padding := others }).outputShape
            (.list (Datum.ints (b :: c :: axes.map ConvAxis.input)))
            (.list (Datum.ints (co :: d :: axes.map ConvAxis.kernel))) = .ok out →
        ∀ (axis : Nat) (a : ConvAxis) (pad other : Int × Int), axes[axis]? = some a →
          pads[axis]? = some pad → others[axis]? = some other → 0 ≤ other.1 + other.2 →
          other.1 + other.2 < pad.1 + pad.2 →
          out[axis + 2]?
            ≠ some (.int ⌈(((a.input - 1) * a.inputDilation + 1 : Int) : ℚ) / a.stride⌉) := by
  have ranges : ∀ a ∈ axes, a.Proper := fun a member => (proper a member).2
  have kept : List.zipWith ConvAxis.padded axes (axes.map ConvAxis.keptPadding)
      = axes.map ConvAxis.keeping := by
    rw [List.zipWith_map_right, List.zipWith_self]
    rfl
  have extents : (axes.map ConvAxis.keeping).map ConvAxis.output = axes.map fun a =>
      ⌈(((a.input - 1) * a.inputDilation + 1 : Int) : ℚ) / a.stride⌉ := by
    rw [List.map_map]
    refine List.map_congr_left fun a member => ?_
    obtain ⟨input, inRange⟩ := proper a member
    exact (inRange.keeping_output input).2.trans (inRange.keptExtent_eq input)
  refine ⟨axes.map ConvAxis.keptPadding, List.length_map .., ?_, ?_, ?_, ?_⟩
  · have plain := @samePadding_ofAxes [] axes ranges
    simp only [List.nil_append, List.length_nil] at plain
    simp only [Loose.samePadding, Loose.plain?, Datum.items_list, ok_bind, LooseConvParams.drop_ints,
      List.drop_succ_cons, List.drop_zero, Datum.plainInts?_ints, plain]
    rfl
  · intro pad member
    obtain ⟨a, -, rfl⟩ := List.mem_map.1 member
    exact a.keptPadding_halves
  · rw [← extents, ← kept]
    refine (outputShape_padded ranges (List.length_map ..)).2 ⟨?_, rfl⟩
    rw [kept, List.forall_mem_map]
    exact fun a member => ((ranges a member).keeping_output (proper a member).1).1
  · rintro others out count shape axis a pad other atAxis padAt otherAt nonneg less sameExtent
    obtain ⟨-, rfl⟩ := (outputShape_padded ranges count).1 shape
    obtain ⟨input, inRange⟩ := proper a (List.mem_of_getElem? atAxis)
    rw [List.getElem?_map, atAxis] at padAt
    cases padAt
    rw [ConvAxis.keptPadding_sum] at less
    -- With any less padding the last window does not fit any more.
    have fewer := inRange.output_lt_of_less nonneg less
    rw [← inRange.keptExtent_eq input] at sameExtent
    simp only [Datum.ints, List.map_cons, List.getElem?_cons_succ, List.getElem?_map,
      List.getElem?_zipWith, atAxis, otherAt, Option.map_some, Option.some.injEq, Datum.int,
      Datum.scalar.injEq, Scalar.int.injEq] at sameExtent
    omega

/-- An axis that needs three positions of padding, beside one whose windows are shorter than its strides. -/
theorem samePadding_least_gaps :
    Loose.samePadding (.list (Datum.ints [1, 3, 6, 9])) (.list (Datum.ints [4, 3, 3, 2]))
        (.list (Datum.ints [2, 5])) (.list (Datum.ints [1, 1])) (.list (Datum.ints [2, 1]))
      = .ok ([(1, 2), (0, 0)].map Loose.ofPair)
    ∧ (LooseConvParams.ofParams ⟨[2, 5], [(1, 2), (0, 0)], [1, 1], [2, 1]⟩).outputShape
          (.list (Datum.ints [1, 3, 6, 9])) (.list (Datum.ints [4, 3, 3, 2]))
        = .ok (Datum.ints [1, 4, 3, 2])
    ∧ ∀ out, (LooseConvParams.ofParams ⟨[2, 5], [(1, 1), (0, 0)], [1, 1], [2, 1]⟩).outputShape
          (.list (Datum.ints [1, 3, 6, 9])) (.list (Datum.ints [4, 3, 3, 2])) = .ok out →
        out[2]? ≠ some (.int 3) := by
  have each : ∀ a ∈ [(⟨6, 3, 2, 0, 0, 1, 2⟩ : ConvAxis), ⟨9, 2, 5, 0, 0, 1, 1⟩],
      0 < a.input ∧ a.Proper := by
    simp only [List.forall_mem_cons, List.not_mem_nil, false_implies, implies_true, and_true]
    exact ⟨⟨by decide, ⟨by decide, by decide, by decide, by decide⟩⟩,
      by decide, ⟨by decide, by decide, by decide, by decide⟩⟩
  obtain ⟨pads, -, padding, -, shape, least⟩ := samePadding_least each 1 3 4 3
  have pairs : Function.Injective Loose.ofPair := by
    rintro ⟨_, _⟩ ⟨_, _⟩ same
    simpa [Loose.ofPair, Datum.int] using same
  obtain rfl : pads = [(1, 2), (0, 0)] :=
    List.map_injective_iff.2 pairs (Except.ok.inj (padding.symm.trans rfl))
  have half : ⌈(((6 - 1) * 1 + 1 : Int) : ℚ) / (2 : Int)⌉ = 3 := by norm_num
  have fifth : ⌈(((9 - 1) * 1 + 1 : Int) : ℚ) / (5 : Int)⌉ = 2 := by
    rw [Int.ceil_eq_iff]
    norm_num
  refine ⟨padding, ?_, fun out known => ?_⟩
  · simpa only [ConvParams.ofAxes, List.map_cons, List.map_nil, half, fifth] using shape
  · have smaller := least [(1, 1), (0, 0)] out rfl known 0 _ _ _ rfl rfl rfl (by decide) (by decide)
    simpa only [half] using smaller

end Loose

end StridedArray
