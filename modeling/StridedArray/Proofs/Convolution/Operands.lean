import StridedArray.Proofs.Convolution.Taps
import StridedArray.Tensor.Convolution

/-! # The operands of a convolution

Both operands are brought to the shape of the result with one more axis for the reduction. What they show
there is followed back to where it came from.

* `Clear.dilatePad` — a position between gaps came from an element, or from nowhere;
* `Clear.windows` — a step of a window came from the tap, or from nowhere;
* `Clear.joinInput`, `Clear.joinFilter` — channels and windows joined;
* `prepareConvolution_ok`, `convolutionLayouts_ok` — all movements of the operands;
* `Clear.broadcastInput`, `Clear.broadcastFilter` — along the axes that an operand does not have. -/

namespace StridedArray

open Shape (Inside Positive SamePlace product ravel unravel)
open View (behind pick unpick collapse collapse_append collapse_ones)

/-- The element of the input that a position of the dilated input came from; none in gaps and padding. -/
def pointBelow (extents dilation front position : List Int) : Option (List Int) :=
  if OnPoint extents dilation position then some (front ++ position.zipWith (· / ·) dilation) else none

theorem dilatedEntry_eq (x : List Int → Int) (extents dilation front position : List Int) :
    ((pointBelow extents dilation front position).map x).getD 0
      = dilatedEntry x extents dilation front position := by
  unfold pointBelow dilatedEntry
  split <;> rfl

namespace Layout

variable {l f : Layout} {b c co : Int} {axes : List ConvAxis}

/-! ## Gaps and padding -/

theorem pad_dilate_origin {i j : Int} (inside : Inside [i, j] [b, c]) {α : Type} {xs : List α}
    {extent dilation position low high : α → Int} (bounds : ∀ x ∈ xs, 0 < extent x ∧ 1 ≤ dilation x) :
    ((if Inside (behind (i :: j :: xs.map position) ((0, 0) :: (0, 0) :: xs.map fun x => (low x, high x)))
          (b :: c :: xs.map fun x => dilatedExtent (extent x) (dilation x))
        then some (behind (i :: j :: xs.map position) ((0, 0) :: (0, 0) :: xs.map fun x => (low x, high x)))
        else none).bind (undilated (xs.map dilation)))
      = pointBelow (xs.map extent) (xs.map dilation) [i, j] (xs.map fun x => position x - low x) := by
  have counted : behind (i :: j :: xs.map position) ((0, 0) :: (0, 0) :: xs.map fun x => (low x, high x))
      = i :: j :: xs.map fun x => position x - low x := by
    simp only [View.behind_cons, Int.sub_zero]
    rw [behind, List.zipWith_map, List.zipWith_self]
  -- A position is in the padding if it is outside of the dilated axes, and in a gap if it is no multiple.
  have within : Inside (i :: j :: xs.map fun x => position x - low x)
      (b :: c :: xs.map fun x => dilatedExtent (extent x) (dilation x))
      ↔ ∀ x ∈ xs, 0 ≤ position x - low x ∧ position x - low x ≤ (extent x - 1) * dilation x := by
    simp only [Shape.inside_cons, Shape.inside_nil, and_true] at inside ⊢
    rw [and_iff_right inside.1, and_iff_right inside.2, Inside, List.forall₂_map_left_iff,
      List.forall₂_map_right_iff, List.forall₂_same]
    refine forall₂_congr fun x member => ?_
    obtain ⟨positive, natural⟩ := bounds x member
    rw [dilatedExtent_eq positive natural]
    omega
  have whole : (((xs.map fun x => position x - low x).zip (xs.map dilation)).all fun a => a.1 % a.2 = 0) = true
      ↔ ∀ x ∈ xs, dilation x ∣ position x - low x := by
    rw [List.zip_map', List.all_map, List.all_eq_true]
    refine forall₂_congr fun x _ => ?_
    rw [Function.comp_apply, decide_eq_true_eq, Int.dvd_iff_emod_eq_zero]
  rw [counted, pointBelow]
  by_cases onPoint : OnPoint (xs.map extent) (xs.map dilation) (xs.map fun x => position x - low x)
  · have each := (onPoint_map xs _ _ _).1 onPoint
    rw [if_pos onPoint, if_pos (within.2 fun x member => ⟨(each x member).1, (each x member).2.1⟩),
      Option.bind_some, undilated, if_pos (whole.2 fun x member => (each x member).2.2)]
    rfl
  · rw [if_neg onPoint]
    split
    · next covered =>
      rw [Option.bind_some, undilated, if_neg]
      intro multiples
      apply onPoint
      rw [onPoint_map]
      intro x member
      obtain ⟨low, high⟩ := within.1 covered x member
      exact ⟨low, high, whole.1 multiples x member⟩
    · rfl

/-- Dilating and padding: every multi-index came from the one divided by the dilation once the padding is taken
    off, or from nowhere. -/
theorem Clear.dilatePad (clear : l.Clear) {α : Type} {xs : List α} {extent dilation low high : α → Int}
    (shape : l.shape = b :: c :: xs.map extent) (natural : ∀ x ∈ xs, 1 ≤ dilation x)
    (fits : ∀ x ∈ xs, 0 < dilatedExtent (extent x) (dilation x) + low x + high x) :
    ∃ dilated r, l.dilate (xs.map dilation) = .ok dilated
      ∧ dilated.padOrCut (xs.map fun x => (low x, high x)) = .ok r
      ∧ Shows r l (b :: c :: xs.map fun x => dilatedExtent (extent x) (dilation x) + low x + high x)
        fun index => pointBelow (xs.map extent) (xs.map dilation) (index.take 2)
          (behind (index.drop 2) (xs.map fun x => (low x, high x))) := by
  have extents : View.padded (xs.map fun x => dilatedExtent (extent x) (dilation x))
      (xs.map fun x => (low x, high x))
      = xs.map fun x => dilatedExtent (extent x) (dilation x) + low x + high x := by
    rw [View.padded, List.zipWith_map, List.zipWith_self]
  obtain ⟨dilated, dilatedOk, first⟩ := @Clear.dilate l clear _ _ _ (xs.map dilation) shape (by simp) (by
    rintro _ member
    obtain ⟨x, inner, rfl⟩ := List.mem_map.1 member
    exact natural x inner)
  rw [List.zipWith_map, List.zipWith_self] at first
  obtain ⟨r, ok, second⟩ := @Clear.padOrCut dilated first.clear _ _ _ (xs.map fun x => (low x, high x))
    first.shape_eq (by simp) (by
      rw [extents]
      exact Shape.positive_map fits)
  rw [extents] at second
  refine ⟨dilated, r, dilatedOk, ok, (first.trans second).congr fun index inside => ?_⟩
  have positive := clear.positive
  rw [shape, Shape.positive_cons, Shape.positive_cons] at positive
  obtain ⟨i, _, rfl, batch, rest⟩ := Shape.inside_cons_right.1 inside
  obtain ⟨j, position, rfl, channel, rest⟩ := Shape.inside_cons_right.1 rest
  obtain ⟨spots, rfl, rfl, -⟩ := rest.aligned
  rw [first.shape_eq]
  have back := @pad_dilate_origin b c i j
    (Shape.inside_cons.2 ⟨batch, Shape.inside_cons.2 ⟨channel, Shape.inside_nil⟩⟩) (α × Int) spots
    (fun p => extent p.1) (fun p => dilation p.1) (fun p => p.2) (fun p => low p.1) (fun p => high p.1)
    fun p member => ⟨positive.2.2 _ (List.mem_map_of_mem (List.mem_map_of_mem member)),
      natural _ (List.mem_map_of_mem member)⟩
  simp only [List.map_map, Function.comp_def, List.take_succ_cons, List.take_zero, List.drop_succ_cons,
    List.drop_zero] at back ⊢
  rw [back, behind, List.zipWith_map, List.zipWith_self]

/-! ## Windows -/

/-- Windows of the dilated and padded input. -/
theorem Clear.windows (clear : l.Clear) (shape : l.shape = b :: c :: axes.map ConvAxis.input)
    (fits : ∀ a ∈ axes, a.Fits) :
    ∃ dilated padded r origin, l.dilate (axes.map ConvAxis.inputDilation) = .ok dilated
      ∧ dilated.padOrCut (axes.map fun a => (a.low, a.high)) = .ok padded
      ∧ padded.pool (axes.map ConvAxis.kernel) (axes.map ConvAxis.stride)
        (axes.map ConvAxis.filterDilation) = .ok r
      ∧ Shows r l (b :: c :: axes.map ConvAxis.output ++ axes.map ConvAxis.kernel) origin
      ∧ ∀ {i j : Int} {start step : List Int}, Inside [i, j] [b, c] →
        Inside start (axes.map ConvAxis.output) → Inside step (axes.map ConvAxis.kernel) →
        origin (i :: j :: start ++ step) = pointBelow (axes.map ConvAxis.input)
          (axes.map ConvAxis.inputDilation) [i, j] ((ConvParams.ofAxes axes).tap start step) := by
  obtain ⟨dilated, padded, dilatedOk, paddedOk, second⟩ := @Clear.dilatePad l b c clear ConvAxis axes
    ConvAxis.input ConvAxis.inputDilation ConvAxis.low ConvAxis.high shape
    (fun a member => Int.add_one_le_of_lt (fits a member).inputDilation)
    (fun a member => (fits a member).sliding.input)
  obtain ⟨r, origin, poolOk, third, pooled⟩ := @Clear.pool padded [b, c]
    (axes.map ConvAxis.sliding) second.clear (by rw [second.shape_eq, List.map_map]; rfl) (by
      intro w member
      obtain ⟨a, inner, rfl⟩ := List.mem_map.1 member
      exact (fits a inner).sliding)
  have kernels : (axes.map ConvAxis.sliding).map Sliding.kernel = axes.map ConvAxis.kernel :=
    List.map_map ..
  have strides : (axes.map ConvAxis.sliding).map Sliding.stride = axes.map ConvAxis.stride :=
    List.map_map ..
  have dilations : (axes.map ConvAxis.sliding).map Sliding.dilation
      = axes.map ConvAxis.filterDilation := List.map_map ..
  have outputs : (axes.map ConvAxis.sliding).map Sliding.windows = axes.map ConvAxis.output :=
    List.map_map ..
  -- The windows are those of the axes as they are after dilation and padding.
  rw [kernels, strides, dilations] at poolOk
  rw [kernels, outputs] at third
  refine ⟨dilated, padded, r, _, dilatedOk, paddedOk, poolOk, second.trans third, ?_⟩
  intro i j start step inside starts steps
  obtain ⟨spots, rfl, rfl, rfl, startBounds, stepBounds⟩ := exists_spots starts steps
  have here := pooled [i, j] inside (spots.map fun s => (s.1.sliding, s.2))
    (by simp [Function.comp_def])
    (by
      intro p member
      obtain ⟨s, inner, rfl⟩ := List.mem_map.1 member
      exact startBounds s inner)
    (by
      intro p member
      obtain ⟨s, inner, rfl⟩ := List.mem_map.1 member
      exact stepBounds s inner)
  simp only [List.map_map, Function.comp_def] at here
  show (origin ([i, j] ++ _ ++ _)).bind _ = _
  rw [here, Option.bind_some, ConvParams.tap_ofAxes]
  have taps : behind (spots.map fun s => s.2.1 * s.1.stride + s.2.2 * s.1.filterDilation)
      ((spots.map Prod.fst).map fun a => (a.low, a.high)) = spots.map Spot.tap := by
    rw [behind, List.map_map, List.zipWith_map, List.zipWith_self]
    rfl
  rw [← taps]
  rfl

/-! ## Channels and windows joined -/

theorem ravel_zeros (n : Nat) : ravel (List.replicate n 0) (List.replicate n 1) = 0 := by
  induction n with
  | zero => rfl
  | succ n inductionHypothesis =>
    rw [List.replicate_succ, List.replicate_succ, Shape.ravel_cons, inductionHypothesis,
      Int.zero_mul, Int.zero_add]

theorem samePlace_joined {index shape : List Int} (inside : Inside index shape) (n : Nat) :
    SamePlace (List.replicate n 0 ++ [ravel index shape]) (List.replicate n 1 ++ [product shape])
      index shape := by
  have zeros := Shape.inside_zeros (Shape.positive_replicate n)
  rw [List.length_replicate] at zeros
  refine ⟨zeros.append (Shape.inside_cons.2 ⟨inside.ravel_bounds, Shape.inside_nil⟩), inside, ?_, ?_⟩
  · simp [Shape.product_append]
  · rw [Shape.ravel_append (by simp), ravel_zeros]
    simp

theorem moveAxis_eq {r : Layout} {n m : Nat} (rank : r.rank = 2 + n + m) :
    r.moveAxis 1 ((n : Int) + 1) = r.permute (moveOrder r.rank 1 (n + 1)) := by
  have first : ((1 : Int) % (r.rank : Int)).toNat = 1 := by
    rw [Int.emod_eq_of_lt (by omega) (by omega)]
    rfl
  have second : (((n : Int) + 1) % (r.rank : Int)).toNat = n + 1 := by
    rw [Int.emod_eq_of_lt (by omega) (by omega)]
    omega
  unfold moveAxis
  rw [if_pos (by omega), first, second]

section Joined

variable {r : Layout} {outs kernels : List Int}

/-- The windows of all channels joined to one axis. -/
theorem Clear.joinInput (clear : r.Clear) (shape : r.shape = b :: c :: outs ++ kernels) :
    ∃ m x origin, r.moveAxis 1 ((outs.length : Int) + 1) = .ok m
      ∧ m.reshape (b :: 1 :: outs ++ [c * product kernels]) = .ok x
      ∧ Shows x r (b :: 1 :: outs ++ [c * product kernels]) origin
      ∧ ∀ {i j : Int} {start step : List Int}, Inside [i] [b] → Inside start outs →
        Inside (j :: step) (c :: kernels) →
        origin (i :: 0 :: start ++ [ravel (j :: step) (c :: kernels)])
          = some (i :: j :: start ++ step) := by
  have rank : r.rank = 2 + outs.length + kernels.length := by
    simp only [Layout.rank, shape, List.cons_append, List.length_cons, List.length_append]
    omega
  have perm : (moveOrder r.rank 1 (outs.length + 1)).Perm (axisNumbers r.rank) :=
    perm_moveOrder (by omega) (by omega)
  obtain ⟨m, moved, first⟩ := clear.permute perm
  have order : pick (moveOrder r.rank 1 (outs.length + 1)) r.shape
      = b :: outs ++ c :: kernels := by
    have bounds : 1 < r.shape.length ∧ outs.length + 1 < r.shape.length := by
      rw [Layout.rank] at rank
      omega
    rw [Layout.rank, pick_moveOrder bounds.1 bounds.2, shape, relocate_channels]
  rw [order] at first
  have positive := first.positive
  obtain ⟨x, reshaped, second⟩ := @Clear.reshape m
    (b :: 1 :: outs ++ [c * product kernels]) first.clear (by
      simp only [List.cons_append, Shape.positive_cons, Shape.positive_append, Shape.positive_nil,
        and_true] at positive ⊢
      exact ⟨positive.1, by decide, positive.2.1,
        Int.mul_pos positive.2.2.1 positive.2.2.2.product_pos⟩)
    (by
      show _ = product m.shape
      rw [first.shape_eq]
      simp [Shape.product_append])
  refine ⟨m, x, _, (moveAxis_eq rank).trans moved, reshaped, first.trans second, ?_⟩
  intro i j start step batch starts steps
  -- Axis by axis: the batch, the new axis of extent 1, the starts, and channels and window as one axis.
  have same : SamePlace ([i] ++ ([0] ++ (start ++ [ravel (j :: step) (c :: kernels)])))
      ([b] ++ ([1] ++ (outs ++ [c * product kernels]))) ([i] ++ ([] ++ (start ++ j :: step)))
      ([b] ++ ([] ++ (outs ++ c :: kernels))) :=
    (SamePlace.refl batch).append
      ((⟨by simp, by simp, rfl, rfl⟩ : SamePlace [0] [1] [] []).append
        ((SamePlace.refl starts).append (samePlace_joined steps 0)))
  have back := same.unravel_eq
  simp only [List.cons_append, List.nil_append] at back
  have startLength := starts.length_eq
  have stepLength : step.length = kernels.length := by simpa using steps.length_eq
  have count : (i :: j :: (start ++ step)).length = r.rank := by
    rw [rank]
    simp [startLength, stepLength]
    omega
  have there : pick (moveOrder r.rank 1 (outs.length + 1)) (i :: j :: (start ++ step))
      = i :: (start ++ j :: step) := by
    have bounds : 1 < (i :: j :: (start ++ step)).length
        ∧ outs.length + 1 < (i :: j :: (start ++ step)).length := by omega
    rw [← count, pick_moveOrder bounds.1 bounds.2, ← startLength]
    exact relocate_channels i j start step
  rw [first.shape_eq, Option.bind_some]
  simp only [List.cons_append] at back ⊢
  rw [back, ← there, View.unpick_pick (by rwa [count])]

/-- The windows of all channels of a filter joined to one axis. -/
theorem Clear.joinFilter (clear : f.Clear) (shape : f.shape = co :: c :: kernels) (n : Nat) :
    ∃ y origin, f.reshape (co :: List.replicate n 1 ++ [c * product kernels]) = .ok y
      ∧ Shows y f (co :: List.replicate n 1 ++ [c * product kernels]) origin
      ∧ ∀ {m j : Int} {step : List Int}, Inside [m] [co] → Inside (j :: step) (c :: kernels) →
        origin (m :: List.replicate n 0 ++ [ravel (j :: step) (c :: kernels)])
          = some (m :: j :: step) := by
  have positive := clear.positive
  rw [shape, Shape.positive_cons, Shape.positive_cons] at positive
  obtain ⟨y, ok, shows⟩ := @Clear.reshape f
    (co :: List.replicate n 1 ++ [c * product kernels]) clear (by
      simp only [List.cons_append, Shape.positive_cons, Shape.positive_append, Shape.positive_nil,
        and_true]
      exact ⟨positive.1, Shape.positive_replicate n,
        Int.mul_pos positive.2.1 positive.2.2.product_pos⟩)
    (by
      show _ = product f.shape
      rw [shape]
      simp [Shape.product_append])
  refine ⟨y, _, ok, shows, ?_⟩
  intro m j step output steps
  have same := (SamePlace.refl output).append (samePlace_joined steps n)
  rw [shape]
  exact congrArg some same.unravel_eq

end Joined

/-- The movements of both operands of a convolution, axis by axis. -/
theorem prepareConvolution_ok {dilated padded windows moved x y : Layout} (shape : l.rank = axes.length + 2)
    (filterShape : f.shape = co :: c :: axes.map ConvAxis.kernel)
    (dilatedOk : l.dilate (axes.map ConvAxis.inputDilation) = .ok dilated)
    (paddedOk : dilated.padOrCut (axes.map fun a => (a.low, a.high)) = .ok padded)
    (windowsOk : padded.pool (axes.map ConvAxis.kernel) (axes.map ConvAxis.stride)
      (axes.map ConvAxis.filterDilation) = .ok windows)
    (windowsShape : windows.shape = b :: c :: axes.map ConvAxis.output ++ axes.map ConvAxis.kernel)
    (movedOk : windows.moveAxis 1 ((axes.length : Int) + 1) = .ok moved)
    (xOk : moved.reshape (b :: 1 :: axes.map ConvAxis.output ++ [c * product (axes.map ConvAxis.kernel)])
      = .ok x)
    (yOk : f.reshape (co :: List.replicate axes.length 1 ++ [c * product (axes.map ConvAxis.kernel)])
      = .ok y) :
    prepareConvolution l f (ConvParams.ofAxes axes) = .ok (x, y) := by
  have spatial : l.rank - 2 = axes.length := by omega
  have kernels : f.shape.drop 2 = axes.map ConvAxis.kernel := by rw [filterShape]; rfl
  have batch : axisEntry windows.shape 0 = .ok b := by rw [windowsShape]; rfl
  have channels : axisEntry windows.shape 1 = .ok c := by rw [windowsShape]; rfl
  have positions : (windows.shape.drop 2).take axes.length = axes.map ConvAxis.output := by
    rw [windowsShape]
    simp
  have outputs : axisEntry f.shape 0 = .ok co := by rw [filterShape]; rfl
  have depth : axisEntry f.shape 1 = .ok c := by rw [filterShape]; rfl
  unfold prepareConvolution joinWindows
  simp only [ConvParams.ofAxes, dilatedOk, paddedOk, kernels, windowsOk, spatial, batch, channels,
    positions, movedOk, xOk, outputs, depth, yOk, ok_bind]
  rfl

theorem Clear.prepare (clear : l.Clear) (shape : l.shape = b :: c :: axes.map ConvAxis.input)
    (filter : f.Clear) (filterShape : f.shape = co :: c :: axes.map ConvAxis.kernel)
    (fits : ∀ a ∈ axes, a.Fits) :
    ∃ x y left right, prepareConvolution l f (ConvParams.ofAxes axes) = .ok (x, y)
      ∧ Shows x l (b :: 1 :: axes.map ConvAxis.output
        ++ [c * product (axes.map ConvAxis.kernel)]) left
      ∧ Shows y f (co :: List.replicate axes.length 1
        ++ [c * product (axes.map ConvAxis.kernel)]) right
      ∧ (∀ {i j : Int} {start step : List Int}, Inside [i] [b] →
        Inside start (axes.map ConvAxis.output) → Inside (j :: step) (c :: axes.map ConvAxis.kernel) →
        left (i :: 0 :: start ++ [ravel (j :: step) (c :: axes.map ConvAxis.kernel)])
          = pointBelow (axes.map ConvAxis.input) (axes.map ConvAxis.inputDilation) [i, j]
            ((ConvParams.ofAxes axes).tap start step))
      ∧ ∀ {m j : Int} {step : List Int}, Inside [m] [co] →
        Inside (j :: step) (c :: axes.map ConvAxis.kernel) →
        right (m :: List.replicate axes.length 0
          ++ [ravel (j :: step) (c :: axes.map ConvAxis.kernel)]) = some (m :: j :: step) := by
  obtain ⟨dilated, padded, windows, taps, dilatedOk, paddedOk, windowsOk, first, back⟩ :=
    clear.windows shape fits
  obtain ⟨moved, x, joined, movedOk, xOk, second, apart⟩ := first.clear.joinInput first.shape_eq
  obtain ⟨y, right, yOk, third, rightBack⟩ := filter.joinFilter filterShape axes.length
  refine ⟨x, y, _, right, ?_, first.trans second, third, ?_, rightBack⟩
  · rw [List.length_map] at movedOk
    exact prepareConvolution_ok (by simp [Layout.rank, shape]) filterShape dilatedOk paddedOk windowsOk
      first.shape_eq movedOk xOk yOk
  · intro i j start step batch starts steps
    obtain ⟨channel, window⟩ := Shape.inside_cons.1 steps
    obtain ⟨image, _⟩ := Shape.inside_cons.1 batch
    rw [apart batch starts steps, Option.bind_some]
    exact back (Shape.inside_cons.2 ⟨image, Shape.inside_cons.2 ⟨channel, Shape.inside_nil⟩⟩) starts
      window

/-! ## Operands in the shape of the result -/

section Broadcast

variable {x : Layout} {outs : List Int} {len : Int}

/-- The input is the same for every output. -/
theorem Clear.broadcastInput (clear : x.Clear) (shape : x.shape = b :: 1 :: outs ++ [len])
    (outputs : 0 < co) :
    ∃ r origin, x.expand (b :: co :: outs ++ [len]) = .ok r
      ∧ Shows r x (b :: co :: outs ++ [len]) origin
      ∧ ∀ {i m k : Int} {start : List Int}, Inside (i :: m :: start ++ [k]) (b :: co :: outs ++ [len]) →
        origin (i :: m :: start ++ [k]) = some (i :: 0 :: start ++ [k]) := by
  have positive := clear.positive
  rw [shape] at positive
  simp only [List.cons_append, Shape.positive_cons] at positive
  obtain ⟨r, ok, shows⟩ := @Clear.expand x (b :: co :: outs ++ [len]) clear
    (Shape.positive_cons.2 ⟨positive.1, Shape.positive_cons.2 ⟨outputs, positive.2.2⟩⟩) (by
      rw [shape]
      refine .cons (.inl rfl) (.cons (.inr rfl) ?_)
      exact List.forall₂_same.2 fun s _ => .inl rfl)
  refine ⟨r, _, ok, shows, ?_⟩
  intro i m k start inside
  simp only [List.cons_append, Shape.inside_cons] at inside
  obtain ⟨batch, _, rest⟩ := inside
  rw [shape]
  simp only [List.cons_append, View.collapse_cons, if_true, View.collapse_of_inside rest]
  congr 2
  split <;> omega

/-- The filter is the same for every element of the batch and for every start of a window. -/
theorem Clear.broadcastFilter {y : Layout} (clear : y.Clear)
    (shape : y.shape = co :: List.replicate outs.length 1 ++ [len]) (batch : 0 < b)
    (positive : Positive outs) :
    ∃ wide r origin, y.reshape (1 :: y.shape) = .ok wide
      ∧ wide.expand (b :: co :: outs ++ [len]) = .ok r
      ∧ Shows r y (b :: co :: outs ++ [len]) origin
      ∧ ∀ {i m k : Int} {start : List Int}, Inside (i :: m :: start ++ [k]) (b :: co :: outs ++ [len]) →
        origin (i :: m :: start ++ [k]) = some (m :: List.replicate outs.length 0 ++ [k]) := by
  have extents := clear.positive
  obtain ⟨wide, wideOk, first⟩ := @Clear.reshape y (1 :: y.shape) clear
    (Shape.positive_cons.2 ⟨by decide, extents⟩) (by
      show _ = product y.shape
      rw [Shape.product_cons, Int.one_mul])
  have wideShape := first.shape_eq
  rw [shape] at extents wideShape
  simp only [List.cons_append, Shape.positive_cons, Shape.positive_append] at extents
  obtain ⟨r, ok, second⟩ := @Clear.expand wide (b :: co :: outs ++ [len]) first.clear
    (by
      simp only [List.cons_append, Shape.positive_cons, Shape.positive_append]
      exact ⟨batch, extents.1, positive, extents.2.2⟩)
    (by
      rw [wideShape]
      refine .cons (.inr rfl) (.cons (.inl rfl) (List.rel_append ?_ (.cons (.inl rfl) .nil)))
      rw [List.forall₂_iff_zip]
      refine ⟨by simp, fun {s n} member => .inr ?_⟩
      exact List.eq_of_mem_replicate (List.of_mem_zip member).1)
  refine ⟨wide, r, _, wideOk, ok, first.trans second, ?_⟩
  intro i m k start inside
  simp only [List.cons_append, Shape.inside_cons] at inside
  obtain ⟨_, output, rest⟩ := inside
  obtain ⟨start', last, same, starts, lastInside⟩ := rest.split
  have lengths : start'.length = start.length := by
    have := congrArg List.length same
    have := lastInside.length_eq
    simp at *
    omega
  obtain ⟨rfl, rfl⟩ := List.append_inj same lengths.symm
  -- The batch and the starts of the windows do not matter to the filter.
  have front : collapse wide.shape (i :: m :: start ++ [k])
      = 0 :: m :: List.replicate outs.length 0 ++ [k] := by
    rw [wideShape]
    simp only [List.cons_append, View.collapse_cons, if_true]
    rw [collapse_append (by simp [starts.length_eq]), collapse_ones starts.length_eq,
      View.collapse_of_inside lastInside]
    congr 2
    split <;> omega
  rw [Option.bind_some, front]
  have zeros := Shape.inside_zeros (Shape.positive_replicate outs.length)
  rw [List.length_replicate] at zeros
  have below : Inside (m :: List.replicate outs.length 0 ++ [k]) y.shape := by
    rw [shape]
    exact Shape.inside_cons.2 ⟨output, zeros.append lastInside⟩
  have placed : SamePlace ([0] ++ (m :: List.replicate outs.length 0 ++ [k])) ([1] ++ y.shape)
      ([] ++ (m :: List.replicate outs.length 0 ++ [k])) ([] ++ y.shape) :=
    (⟨by simp, by simp, rfl, rfl⟩ : SamePlace [0] [1] [] []).append (.refl below)
  exact congrArg some placed.unravel_eq

end Broadcast

end Layout

/-! ## Products and their sums -/

open Layout

/-- Two layouts over which a convolution is a sum of products: both have the shape of the result with an
    axis of the given length behind it. -/
structure Lined (x y l f : Layout) (axes : List ConvAxis) (b c co : Int) : Prop where
  left : ∃ origin, Shows x l (b :: co :: axes.map ConvAxis.output
    ++ [c * product (axes.map ConvAxis.kernel)]) origin
  right : ∃ origin, Shows y f (b :: co :: axes.map ConvAxis.output
    ++ [c * product (axes.map ConvAxis.kernel)]) origin
  input : ∀ (content : Int → Int) {i m j : Int} {start step : List Int},
    Inside (i :: m :: start) (b :: co :: axes.map ConvAxis.output) →
    Inside (j :: step) (c :: axes.map ConvAxis.kernel) →
    x.entry content (i :: m :: start ++ [ravel (j :: step) (c :: axes.map ConvAxis.kernel)])
      = dilatedEntry (l.entry content) (axes.map ConvAxis.input) (axes.map ConvAxis.inputDilation)
        [i, j] ((ConvParams.ofAxes axes).tap start step)
  filter : ∀ (content : Int → Int) {i m j : Int} {start step : List Int},
    Inside (i :: m :: start) (b :: co :: axes.map ConvAxis.output) →
    Inside (j :: step) (c :: axes.map ConvAxis.kernel) →
    y.entry content (i :: m :: start ++ [ravel (j :: step) (c :: axes.map ConvAxis.kernel)])
      = f.entry content (m :: j :: step)

variable {l f x y : Layout} {b c co : Int} {axes : List ConvAxis}

/-- Both operands brought to the shape of the result. -/
theorem convolutionLayouts_ok {p : LooseConvParams} {u v wide : Layout} {output : List Int} {length : Int}
    (prepared : Loose.prepareConvolution l f p = .ok (u, v)) (last : u.shape.getLast? = some length)
    (xOk : u.expand (output ++ [length]) = .ok x) (wideOk : v.reshape (1 :: v.shape) = .ok wide)
    (yOk : wide.expand (output ++ [length]) = .ok y) :
    convolutionLayouts l f p (Datum.ints output) = .ok (x, y, length) := by
  have full : (Datum.list (Datum.ints output ++ [.int length])).wholes = .ok (output ++ [length]) := by
    rw [← Datum.wholes_ints]
    simp [Datum.ints]
  unfold convolutionLayouts Layout.requestExpand
  simp only [prepared, ok_bind, last, Option.getD_some, full, xOk, wideOk, yOk]
  rfl

theorem Layout.Clear.convolutionLayouts (clear : l.Clear)
    (shape : l.shape = b :: c :: axes.map ConvAxis.input) (filter : f.Clear)
    (filterShape : f.shape = co :: c :: axes.map ConvAxis.kernel) (fits : ∀ a ∈ axes, a.Fits)
    {p : LooseConvParams}
    (prepared : Loose.prepareConvolution l f p = prepareConvolution l f (ConvParams.ofAxes axes)) :
    ∃ x y, StridedArray.convolutionLayouts l f p (Datum.ints (b :: co :: axes.map ConvAxis.output))
        = .ok (x, y, c * product (axes.map ConvAxis.kernel))
      ∧ Lined x y l f axes b c co := by
  obtain ⟨u, v, left, right, ok, first, second, leftBack, rightBack⟩ :=
    clear.prepare shape filter filterShape fits
  have inputs := clear.positive
  have outputs := filter.positive
  rw [shape, Shape.positive_cons] at inputs
  rw [filterShape, Shape.positive_cons] at outputs
  obtain ⟨x, wideLeft, xOk, third, leftWide⟩ := first.clear.broadcastInput first.shape_eq outputs.1
  obtain ⟨wide, y, wideRight, wideOk, yOk, fourth, rightWide⟩ := @Layout.Clear.broadcastFilter b co
    (axes.map ConvAxis.output) _ v second.clear (by rw [second.shape_eq, List.length_map]) inputs.1 (by
      intro s member
      obtain ⟨a, inner, rfl⟩ := List.mem_map.1 member
      exact (fits a inner).output_pos)
  refine ⟨x, y, ?_, ⟨_, first.trans third⟩, ⟨_, second.trans fourth⟩, ?_, ?_⟩
  · exact convolutionLayouts_ok (prepared.trans ok) (by rw [first.shape_eq, List.getLast?_concat]) xOk wideOk
      yOk
  · intro content i m j start step index steps
    have last : Inside [ravel (j :: step) (c :: axes.map ConvAxis.kernel)]
        [c * product (axes.map ConvAxis.kernel)] :=
      Shape.inside_cons.2 ⟨steps.ravel_bounds, Shape.inside_nil⟩
    have whole := index.append last
    obtain ⟨batch, rest⟩ := Shape.inside_cons.1 index
    obtain ⟨_, starts⟩ := Shape.inside_cons.1 rest
    rw [(first.trans third).entry_eq content whole, leftWide whole, Option.bind_some,
      leftBack (Shape.inside_cons.2 ⟨batch, Shape.inside_nil⟩) starts steps, dilatedEntry_eq]
  · intro content i m j start step index steps
    have last : Inside [ravel (j :: step) (c :: axes.map ConvAxis.kernel)]
        [c * product (axes.map ConvAxis.kernel)] :=
      Shape.inside_cons.2 ⟨steps.ravel_bounds, Shape.inside_nil⟩
    have whole := index.append last
    obtain ⟨_, rest⟩ := Shape.inside_cons.1 index
    obtain ⟨output, _⟩ := Shape.inside_cons.1 rest
    refine (second.trans fourth).entry_of_some content whole ?_
    rw [rightWide whole, Option.bind_some, List.length_map]
    exact rightBack (Shape.inside_cons.2 ⟨output, Shape.inside_nil⟩) steps

/-- Summing along the last axis is summing over channels and windows. -/
theorem Lined.sum_eq (lined : Lined x y l f axes b c co) (filter : Positive (c :: axes.map ConvAxis.kernel))
    (left right : Int → Int) {index : List Int}
    (inside : Inside index (b :: co :: axes.map ConvAxis.output)) :
    ∑ k ∈ Finset.range (c * product (axes.map ConvAxis.kernel)).toNat,
        x.entry left (index ++ [(k : Int)]) * y.entry right (index ++ [(k : Int)])
      = (ConvParams.ofAxes axes).sumAt (axes.map ConvAxis.input) c (axes.map ConvAxis.kernel)
        (l.entry left) (f.entry right) index := by
  obtain ⟨i, _, rfl, batch, rest⟩ := Shape.inside_cons_right.1 inside
  obtain ⟨m, start, rfl, output, starts⟩ := Shape.inside_cons_right.1 rest
  let term : List Int → Int := fun steps =>
    x.entry left (i :: m :: start ++ [ravel steps (c :: axes.map ConvAxis.kernel)])
      * y.entry right (i :: m :: start ++ [ravel steps (c :: axes.map ConvAxis.kernel)])
  have products : ∀ k ∈ Finset.range (product (c :: axes.map ConvAxis.kernel)).toNat,
      x.entry left (i :: m :: start ++ [(k : Int)]) * y.entry right (i :: m :: start ++ [(k : Int)])
        = term (unravel k (c :: axes.map ConvAxis.kernel)) := by
    intro k member
    rw [Finset.mem_range] at member
    dsimp only [term]
    rw [Shape.ravel_unravel filter (by omega) (by omega)]
  rw [← Shape.product_cons, Finset.sum_congr rfl products, Shape.sum_positions filter term]
  rw [Shape.sum_box_cons]
  unfold ConvParams.sumAt
  refine Finset.sum_congr rfl fun j channel => Finset.sum_congr rfl fun step window => ?_
  have steps : Inside (j :: step) (c :: axes.map ConvAxis.kernel) :=
    Shape.inside_cons.2 ⟨Shape.mem_below.1 channel, Shape.mem_box.1 window⟩
  dsimp only [term]
  rw [lined.input left inside steps, lined.filter right inside steps]
  rfl

end StridedArray
