import StridedArray.Proofs.Layout.Orders
import StridedArray.Proofs.Layout.Tiling

/-! # Sliding windows

* `Sliding.plan` — the row of windows of one axis, and what makes it long enough;
* `pool_eq` — the movements of pooling, axis by axis;
* `Clear.pool` — every position of a window came from the start of the window, moved on. -/

namespace StridedArray

open Shape (Inside Positive SamePlace product ravel unravel)
open View (pick unpick)

/-! ## Rows of windows -/

namespace Sliding

def ceiling (a b : Int) : Int := -(-a / b)

theorem ceilDivide_eq {a b : Int} (positive : 0 < b) :
    Shape.ceilDivide a b = .ok (ceiling a b) := by
  rw [Shape.ceilDivide, if_neg (by omega), ceiling, Int.fdiv_eq_ediv_of_nonneg _ (by omega)]
  rfl

theorem ceiling_bounds {a b : Int} (positive : 0 < b) :
    a ≤ ceiling a b * b ∧ (ceiling a b - 1) * b < a := by
  have parts := Int.mul_ediv_add_emod (-a) b
  have low := Int.emod_nonneg (-a) (by omega : b ≠ 0)
  have high := Int.emod_lt_of_pos (-a) positive
  unfold ceiling
  constructor <;> nlinarith

/-- A quotient rounded up is the one number of steps that covers everything and needs its last one. -/
theorem ceiling_eq_iff {a b n : Int} (positive : 0 < b) :
    ceiling a b = n ↔ (n - 1) * b < a ∧ a ≤ n * b := by
  obtain ⟨covered, needed⟩ := ceiling_bounds positive (a := a)
  constructor
  · rintro rfl
    exact ⟨needed, covered⟩
  · rintro ⟨low, high⟩
    have notMore : ceiling a b - 1 < n := lt_of_mul_lt_mul_right (needed.trans_le high) positive.le
    have enough : n - 1 < ceiling a b := lt_of_mul_lt_mul_right (low.trans_le covered) positive.le
    omega

theorem ceiling_pos {a b : Int} (positive : 0 < b) (some : 0 < a) : 0 < ceiling a b := by
  have bounds := (ceiling_bounds positive (a := a)).1
  by_contra none
  nlinarith

structure Fits (w : Sliding) : Prop where
  kernel : 0 < w.kernel
  stride : 0 < w.stride
  dilation : 0 < w.dilation
  starts : 0 < w.starts

theorem Fits.input {w : Sliding} (fits : w.Fits) : 0 < w.input := by
  have starts := fits.starts
  have reach : 0 ≤ w.dilation * (w.kernel - 1) :=
    Int.mul_nonneg (le_of_lt fits.dilation) (by have := fits.kernel; omega)
  unfold Sliding.starts at starts
  omega

def windows (w : Sliding) : Int := ceiling w.starts w.stride

def repetitions (w : Sliding) : Int :=
  if w.windows * w.stride ≤ w.starts then 1
  else max 2 (ceiling (w.windows * w.stride - w.dilation) w.input)

def plan (w : Sliding) : SlidingRow :=
  ⟨w, w.windows, w.input * w.repetitions + w.dilation⟩

theorem Fits.windows_pos {w : Sliding} (fits : w.Fits) : 0 < w.windows :=
  ceiling_pos fits.stride fits.starts

theorem Fits.row_ge {w : Sliding} (fits : w.Fits) : w.windows * w.stride ≤ w.plan.row := by
  have input := fits.input
  have dilation := fits.dilation
  have reach : 0 ≤ w.dilation * (w.kernel - 1) :=
    Int.mul_nonneg (le_of_lt dilation) (by have := fits.kernel; omega)
  show _ ≤ w.input * w.repetitions + w.dilation
  unfold repetitions
  split
  · next short =>
    unfold Sliding.starts at short
    omega
  · have enough := (ceiling_bounds input (a := w.windows * w.stride - w.dilation)).1
    have more : ceiling (w.windows * w.stride - w.dilation) w.input * w.input
        ≤ max 2 (ceiling (w.windows * w.stride - w.dilation) w.input) * w.input :=
      Int.mul_le_mul_of_nonneg_right (le_max_right _ _) (le_of_lt input)
    rw [mul_comm w.input]
    omega

theorem Fits.last_lt {w : Sliding} (fits : w.Fits) :
    (w.windows - 1) * w.stride + (w.kernel - 1) * w.dilation < w.input := by
  have last := (ceiling_bounds fits.stride (a := w.starts)).2
  have swapped := mul_comm w.dilation (w.kernel - 1)
  unfold windows
  unfold Sliding.starts at last ⊢
  omega

theorem counts_eq {axes : List Sliding} (strides : ∀ w ∈ axes, 0 < w.stride) :
    axes.mapM Sliding.count = .ok (axes.map Sliding.windows) :=
  mapM_eq_map fun w member => ceilDivide_eq (strides w member)

theorem Fits.stretch_eq {w : Sliding} (fits : w.Fits) :
    w.stretch w.windows = .ok w.repetitions := by
  unfold stretch repetitions
  split
  · rfl
  · rw [ceilDivide_eq fits.input]
    rfl

theorem ofLists_map (axes : List Sliding) :
    ofLists (axes.map Sliding.input) (axes.map Sliding.kernel) (axes.map Sliding.stride)
      (axes.map Sliding.dilation) = axes := by
  induction axes with
  | nil => rfl
  | cons w axes inductionHypothesis => simp only [List.map_cons, ofLists, inductionHypothesis]

def copies (w : Sliding) : Int := ceiling (w.kernel * w.plan.row) w.input

theorem Fits.row_pos {w : Sliding} (fits : w.Fits) : 0 < w.plan.row :=
  lt_of_lt_of_le (Int.mul_pos fits.windows_pos fits.stride) fits.row_ge

theorem Fits.copies_ge {w : Sliding} (fits : w.Fits) :
    1 ≤ w.copies ∧ w.kernel * w.plan.row ≤ w.copies * w.input :=
  ⟨ceiling_pos fits.input (Int.mul_pos fits.kernel fits.row_pos), (ceiling_bounds fits.input).1⟩

theorem Fits.window_emod {w : Sliding} (fits : w.Fits) {o t : Int} (start : 0 ≤ o ∧ o < w.windows)
    (step : 0 ≤ t ∧ t < w.kernel) :
    (t * w.plan.row + o * w.stride) % w.input = o * w.stride + t * w.dilation := by
  have inRow : t * w.plan.row + o * w.stride
      = (o * w.stride + t * w.dilation) + w.input * (t * w.repetitions) := by
    show t * (w.input * w.repetitions + w.dilation) + _ = _
    ring
  have low : 0 ≤ o * w.stride + t * w.dilation :=
    Int.add_nonneg (Int.mul_nonneg start.1 (le_of_lt fits.stride))
      (Int.mul_nonneg step.1 (le_of_lt fits.dilation))
  have high : o * w.stride + t * w.dilation < w.input := by
    have last := fits.last_lt
    have := Int.mul_le_mul_of_nonneg_right (by omega : o ≤ w.windows - 1) (le_of_lt fits.stride)
    have := Int.mul_le_mul_of_nonneg_right (by omega : t ≤ w.kernel - 1) (le_of_lt fits.dilation)
    omega
  rw [inRow, Int.add_mul_emod_self_left, Int.emod_eq_of_lt low high]

end Sliding

namespace Layout

theorem planRows_eq {axes : List Sliding} (fits : ∀ w ∈ axes, w.Fits)
    (extents dilation input : List Int) :
    planRows axes extents dilation input = .ok (axes.map Sliding.plan) := by
  have counts := Sliding.counts_eq fun w member => (fits w member).stride
  have some : (axes.map Sliding.windows).any (· ≤ 0) = false := by
    simp only [List.any_map, List.any_eq_false, Function.comp_apply, decide_eq_true_eq]
    intro w member
    have := (fits w member).windows_pos
    omega
  have beside : axes.zip (axes.map Sliding.windows) = axes.map fun w => (w, w.windows) := by
    have pairs := @List.zip_map' _ _ _ id Sliding.windows axes
    rwa [List.map_id] at pairs
  unfold planRows
  rw [counts, ok_bind, some, if_neg Bool.false_ne_true, beside, mapM_eq_ok,
    List.forall₂_map_left_iff, List.forall₂_map_right_iff, List.forall₂_same]
  intro w member
  dsimp only
  rw [(fits w member).stretch_eq]
  rfl

section Windows

variable {l : Layout} {kept : List Int} {axes : List Sliding}

theorem zipWith_copies (kept : List Int) (axes : List Sliding) :
    (kept.map (fun _ => (1 : Int)) ++ axes.map Sliding.copies).zipWith (· * ·)
        (kept ++ axes.map Sliding.input)
      = kept ++ axes.flatMap fun w => [w.copies * w.input] := by
  rw [List.zipWith_append (by simp), List.zipWith_map, List.zipWith_self, List.zipWith_map_left,
    List.zipWith_self]
  simp only [Int.one_mul, List.map_id']
  rw [List.map_eq_flatMap]

theorem copies_natural (kept : List Int) (fits : ∀ w ∈ axes, w.Fits) :
    ∀ c ∈ kept.map (fun _ => (1 : Int)) ++ axes.map Sliding.copies, 1 ≤ c := by
  intro c member
  rcases List.mem_append.1 member with member | member
  · obtain ⟨_, _, rfl⟩ := List.mem_map.1 member
    exact le_refl 1
  · obtain ⟨w, inner, rfl⟩ := List.mem_map.1 member
    exact (fits w inner).copies_ge.1

/-- The movements by which windows are made of an axis: it is repeated, cut into rows that begin later and
    later, and of each row every so many columns are kept. -/
theorem Clear.slide (clear : l.Clear) (shape : l.shape = kept ++ axes.map Sliding.input)
    (fits : ∀ w ∈ axes, w.Fits) :
    ∃ tiled joined rows starts grid firsts windows,
      l.tile (kept.map (fun _ => 1) ++ axes.map Sliding.copies) = .ok tiled
      ∧ tiled.shrink (View.fullMask (kept ++ axes.flatMap fun w => [w.kernel * w.plan.row]))
        = .ok joined
      ∧ joined.reshape (kept ++ axes.flatMap fun w => [w.kernel, w.plan.row]) = .ok rows
      ∧ rows.shrink (View.fullMask (kept ++ axes.flatMap fun w => [w.kernel, w.windows * w.stride]))
        = .ok starts
      ∧ starts.reshape (kept ++ axes.flatMap fun w => [w.kernel, w.windows, w.stride]) = .ok grid
      ∧ grid.shrink (View.fullMask (kept ++ axes.flatMap fun w => [w.kernel, w.windows, 1]))
        = .ok firsts
      ∧ firsts.reshape (kept ++ axes.flatMap fun w => [w.kernel, w.windows]) = .ok windows
      ∧ Shows windows l (kept ++ axes.flatMap fun w => [w.kernel, w.windows]) fun index =>
        some (unravel (ravel (unravel (ravel (unravel (ravel index
            (kept ++ axes.flatMap fun w => [w.kernel, w.windows]))
            (kept ++ axes.flatMap fun w => [w.kernel, w.windows, 1]))
            (kept ++ axes.flatMap fun w => [w.kernel, w.windows, w.stride]))
            (kept ++ axes.flatMap fun w => [w.kernel, w.windows * w.stride]))
            (kept ++ axes.flatMap fun w => [w.kernel, w.plan.row]))
            (kept ++ axes.flatMap fun w => [w.kernel * w.plan.row])
          |>.zipWith (· % ·) l.shape) := by
  have counts : (kept.map (fun _ => (1 : Int)) ++ axes.map Sliding.copies).length = l.rank := by
    simp [Layout.rank, shape]
  -- The movements one by one, each from the shape that the one before gives.
  obtain ⟨tiled, tiledOk, first⟩ := clear.tile counts (copies_natural kept fits)
  have tiledShape : tiled.shape = kept ++ axes.flatMap fun w => [w.copies * w.input] := by
    rw [first.shape_eq, shape, zipWith_copies]
  obtain ⟨joined, joinedOk, second⟩ := first.clear.cutBlocks tiledShape
    (g := fun w => [w.kernel * w.plan.row]) fun w member => by
      have fit := fits w member
      exact .cons ⟨Int.mul_pos fit.kernel fit.row_pos, fit.copies_ge.2⟩ .nil
  obtain ⟨rows, rowsOk, third⟩ := second.clear.reshapeBlocks second.shape_eq
    (g := fun w => [w.kernel, w.plan.row])
    (fun w member => by simp [(fits w member).kernel, (fits w member).row_pos])
    (fun w _ => by simp)
  obtain ⟨starts, startsOk, fourth⟩ := third.clear.cutBlocks third.shape_eq
    (g := fun w => [w.kernel, w.windows * w.stride]) fun w member => by
      have fit := fits w member
      exact .cons ⟨fit.kernel, le_refl _⟩
        (.cons ⟨Int.mul_pos fit.windows_pos fit.stride, fit.row_ge⟩ .nil)
  obtain ⟨grid, gridOk, fifth⟩ := fourth.clear.reshapeBlocks fourth.shape_eq
    (g := fun w => [w.kernel, w.windows, w.stride])
    (fun w member => by
      simp [(fits w member).kernel, (fits w member).windows_pos, (fits w member).stride])
    (fun w _ => by simp)
  obtain ⟨firsts, firstsOk, sixth⟩ := fifth.clear.cutBlocks fifth.shape_eq
    (g := fun w => [w.kernel, w.windows, 1]) fun w member => by
      have fit := fits w member
      exact .cons ⟨fit.kernel, le_refl _⟩ (.cons ⟨fit.windows_pos, le_refl _⟩
        (.cons ⟨by decide, fit.stride⟩ .nil))
  obtain ⟨windows, windowsOk, seventh⟩ := sixth.clear.reshapeBlocks sixth.shape_eq
    (g := fun w => [w.kernel, w.windows])
    (fun w member => by simp [(fits w member).kernel, (fits w member).windows_pos])
    (fun w _ => by simp)
  exact ⟨tiled, joined, rows, starts, grid, firsts, windows, tiledOk, joinedOk, rowsOk, startsOk,
    gridOk, firstsOk, windowsOk,
    (((((first.trans second).trans third).trans fourth).trans fifth).trans sixth).trans seventh⟩

theorem slide_origin {front : List Int} (inside : Inside front kept)
    {spots : List (Sliding × Int × Int)} (fits : ∀ p ∈ spots, p.1.Fits)
    (start : ∀ p ∈ spots, 0 ≤ p.2.1 ∧ p.2.1 < p.1.windows)
    (step : ∀ p ∈ spots, 0 ≤ p.2.2 ∧ p.2.2 < p.1.kernel) :
    (unravel (ravel (unravel (ravel (unravel (ravel
        (front ++ spots.flatMap fun p => [p.2.2, p.2.1])
        (kept ++ spots.flatMap fun p => [p.1.kernel, p.1.windows]))
        (kept ++ spots.flatMap fun p => [p.1.kernel, p.1.windows, 1]))
        (kept ++ spots.flatMap fun p => [p.1.kernel, p.1.windows, p.1.stride]))
        (kept ++ spots.flatMap fun p => [p.1.kernel, p.1.windows * p.1.stride]))
        (kept ++ spots.flatMap fun p => [p.1.kernel, p.1.plan.row]))
        (kept ++ spots.flatMap fun p => [p.1.kernel * p.1.plan.row])
      |>.zipWith (· % ·) (kept ++ spots.map fun p => p.1.input))
      = front ++ spots.map fun p => p.2.1 * p.1.stride + p.2.2 * p.1.dilation := by
  have single : unravel (ravel (front ++ spots.flatMap fun p => [p.2.2, p.2.1])
      (kept ++ spots.flatMap fun p => [p.1.kernel, p.1.windows]))
      (kept ++ spots.flatMap fun p => [p.1.kernel, p.1.windows, 1])
      = front ++ spots.flatMap fun p => [p.2.2, p.2.1, 0] :=
    unravel_blocks inside fun p member => by
      have o := start p member
      have t := step p member
      constructor <;> simp [o, t]
  have column : unravel (ravel (front ++ spots.flatMap fun p => [p.2.2, p.2.1, 0])
      (kept ++ spots.flatMap fun p => [p.1.kernel, p.1.windows, p.1.stride]))
      (kept ++ spots.flatMap fun p => [p.1.kernel, p.1.windows * p.1.stride])
      = front ++ spots.flatMap fun p => [p.2.2, p.2.1 * p.1.stride] :=
    unravel_blocks inside fun p member => by
      have o := start p member
      have t := step p member
      have stride := (fits p member).stride
      have low : 0 ≤ p.2.1 * p.1.stride := Int.mul_nonneg o.1 (le_of_lt stride)
      have high : p.2.1 * p.1.stride < p.1.windows * p.1.stride :=
        Int.mul_lt_mul_of_pos_right o.2 stride
      constructor <;> simp [o, t, stride, low]
  have along : unravel (ravel (front ++ spots.flatMap fun p => [p.2.2, p.2.1 * p.1.stride])
      (kept ++ spots.flatMap fun p => [p.1.kernel, p.1.plan.row]))
      (kept ++ spots.flatMap fun p => [p.1.kernel * p.1.plan.row])
      = front ++ spots.flatMap fun p => [p.2.2 * p.1.plan.row + p.2.1 * p.1.stride] :=
    unravel_blocks inside fun p member => by
      have o := start p member
      have t := step p member
      have fit := fits p member
      have low : 0 ≤ p.2.1 * p.1.stride := Int.mul_nonneg o.1 (le_of_lt fit.stride)
      have high : p.2.1 * p.1.stride < p.1.plan.row :=
        lt_of_lt_of_le (Int.mul_lt_mul_of_pos_right o.2 fit.stride) fit.row_ge
      have first : 0 ≤ p.2.2 * p.1.plan.row := Int.mul_nonneg t.1 (le_of_lt fit.row_pos)
      have last : p.2.2 * p.1.plan.row + p.1.plan.row ≤ p.1.kernel * p.1.plan.row := by
        have := Int.mul_le_mul_of_nonneg_right (by omega : p.2.2 + 1 ≤ p.1.kernel)
          (le_of_lt fit.row_pos)
        rwa [Int.add_mul, Int.one_mul] at this
      constructor
      · simp [t, low, high]
      · simp only [Shape.inside_cons, Shape.inside_nil, and_true]
        omega
      · simp
      · simp
  -- What is left is a position in all copies of the input, modulo its extent.
  rw [single, column, along, ← List.map_eq_flatMap, List.zipWith_append inside.length_eq]
  congr 1
  · exact inside.zipWith_emod
  · rw [List.zipWith_map, List.zipWith_self]
    apply List.map_congr_left
    intro p member
    exact (fits p member).window_emod (start p member) (step p member)

theorem requireCount_eq {name : String} {n : Nat} : requireCount name n n = .ok () := if_pos rfl

/-- The movements of pooling, axis by axis. -/
theorem pool_eq (shape : l.shape = kept ++ axes.map Sliding.input) (fits : ∀ w ∈ axes, w.Fits) :
    l.pool (axes.map Sliding.kernel) (axes.map Sliding.stride) (axes.map Sliding.dilation) = (do
      let tiled ← l.tile (kept.map (fun _ => 1) ++ axes.map Sliding.copies)
      let joined ← tiled.shrink (View.fullMask (kept ++ axes.flatMap fun w => [w.kernel * w.plan.row]))
      let rows ← joined.reshape (kept ++ axes.flatMap fun w => [w.kernel, w.plan.row])
      let starts ← rows.shrink
        (View.fullMask (kept ++ axes.flatMap fun w => [w.kernel, w.windows * w.stride]))
      let grid ← starts.reshape (kept ++ axes.flatMap fun w => [w.kernel, w.windows, w.stride])
      let firsts ← grid.shrink (View.fullMask (kept ++ axes.flatMap fun w => [w.kernel, w.windows, 1]))
      let windows ← firsts.reshape (kept ++ axes.flatMap fun w => [w.kernel, w.windows])
      windows.permute (windowOrder kept.length axes.length)) := by
  have enough : ¬ l.rank < axes.length := by simp [Layout.rank, shape]
  have front : l.shape.take (l.rank - axes.length) = kept := by
    have count : l.rank - axes.length = kept.length := by simp [Layout.rank, shape]
    rw [count, shape, List.take_left]
  have back : l.shape.drop kept.length = axes.map Sliding.input := by
    rw [shape, List.drop_left]
  have copies : (axes.map Sliding.plan).mapM
      (fun r => Shape.ceilDivide (r.axis.kernel * r.row) r.axis.input)
      = .ok (axes.map Sliding.copies) := by
    rw [mapM_eq_ok, List.forall₂_map_left_iff, List.forall₂_map_right_iff, List.forall₂_same]
    exact fun w member => Sliding.ceilDivide_eq (fits w member).input
  have long : ((axes.map Sliding.plan).any fun r => r.row < r.count * r.axis.stride) = false := by
    simp only [List.any_map, List.any_eq_false, Function.comp_apply, decide_eq_true_eq, not_lt]
    exact fun w member => (fits w member).row_ge
  -- The ranges that are kept all begin with zero.
  have cut : ∀ f : Sliding → List Int,
      wholeRanges kept ++ axes.flatMap (fun w => View.fullMask (f w))
        = View.fullMask (kept ++ axes.flatMap f) := by
    intro f
    simp [wholeRanges, View.fullMask, List.map_flatMap]
  have joinedForm : wholeRanges kept
      ++ (axes.map Sliding.plan).map (fun r => (0, r.axis.kernel * r.row))
      = View.fullMask (kept ++ axes.flatMap fun w => [w.kernel * w.plan.row]) := by
    rw [← cut, List.map_map, List.map_eq_flatMap]
    rfl
  have startsForm : wholeRanges kept ++ (axes.map Sliding.plan).flatMap
      (fun r => [(0, r.axis.kernel), (0, r.count * r.axis.stride)])
      = View.fullMask (kept ++ axes.flatMap fun w => [w.kernel, w.windows * w.stride]) := by
    rw [← cut, List.flatMap_map]
    rfl
  have firstsForm : wholeRanges kept ++ (axes.map Sliding.plan).flatMap
      (fun r => [(0, r.axis.kernel), (0, r.count), (0, 1)])
      = View.fullMask (kept ++ axes.flatMap fun w => [w.kernel, w.windows, 1]) := by
    rw [← cut, List.flatMap_map]
    rfl
  have rowsForm : (axes.map Sliding.plan).flatMap (fun r => [r.axis.kernel, r.row])
      = axes.flatMap fun w => [w.kernel, w.plan.row] := List.flatMap_map ..
  have gridForm : (axes.map Sliding.plan).flatMap
      (fun r => [r.axis.kernel, r.count, r.axis.stride])
      = axes.flatMap fun w => [w.kernel, w.windows, w.stride] := List.flatMap_map ..
  have windowsForm : (axes.map Sliding.plan).flatMap (fun r => [r.axis.kernel, r.count])
      = axes.flatMap fun w => [w.kernel, w.windows] := List.flatMap_map ..
  unfold Layout.pool
  simp only [throw_bind, List.length_map, if_neg enough, requireCount_eq, ok_bind, front, back,
    Sliding.ofLists_map, planRows_eq fits, copies, joinedForm, long, Bool.false_eq_true, if_false,
    startsForm, firstsForm, rowsForm, gridForm, windowsForm]

/-- Windows: a step of a window came from the start of the window, moved on. -/
theorem Clear.pool (clear : l.Clear) (shape : l.shape = kept ++ axes.map Sliding.input)
    (fits : ∀ w ∈ axes, w.Fits) :
    ∃ r origin, l.pool (axes.map Sliding.kernel) (axes.map Sliding.stride)
        (axes.map Sliding.dilation) = .ok r
      ∧ Shows r l (kept ++ axes.map Sliding.windows ++ axes.map Sliding.kernel) origin
      ∧ ∀ front, Inside front kept → ∀ spots : List (Sliding × Int × Int),
        spots.map Prod.fst = axes → (∀ p ∈ spots, 0 ≤ p.2.1 ∧ p.2.1 < p.1.windows) →
        (∀ p ∈ spots, 0 ≤ p.2.2 ∧ p.2.2 < p.1.kernel) →
        origin (front ++ (spots.map fun p => p.2.1) ++ spots.map fun p => p.2.2)
          = some (front ++ spots.map fun p => p.2.1 * p.1.stride + p.2.2 * p.1.dilation) := by
  obtain ⟨tiled, joined, rows, starts, grid, firsts, windows, tiledOk, joinedOk, rowsOk, startsOk,
    gridOk, firstsOk, windowsOk, shows⟩ := clear.slide shape fits
  have perm : (windowOrder kept.length axes.length).Perm (axisNumbers windows.rank) := by
    have count : windows.rank = kept.length + 2 * axes.length := by
      rw [Layout.rank, shows.shape_eq]
      simp [Nat.mul_comm]
    rw [count]
    exact perm_windowOrder _ _
  obtain ⟨r, ok, last⟩ := shows.clear.permute perm
  rw [shows.shape_eq, pick_windowOrder] at last
  refine ⟨r, _, ?_, shows.trans last, ?_⟩
  · rw [pool_eq shape fits]
    simp only [ok_bind, tiledOk, joinedOk, rowsOk, startsOk, gridOk, firstsOk, windowsOk, ok]
  · -- Undoing the permutation puts each step in front of the start that it belongs to, as the rows have them.
    rintro front inside spots rfl start step
    have orderFront : front.length = kept.length := inside.length_eq
    have picked := pick_windowOrder front spots (fun p => p.2.2) (fun p => p.2.1)
    have whole : (windowOrder front.length spots.length).Perm
        (axisNumbers (front ++ spots.flatMap fun p => [p.2.2, p.2.1]).length) := by
      have count : (front ++ spots.flatMap fun p => [p.2.2, p.2.1]).length
          = front.length + 2 * spots.length := by simp [Nat.mul_comm]
      rw [count]
      exact perm_windowOrder _ _
    rw [← picked, List.length_map, ← orderFront, View.unpick_pick whole, Option.bind_some, shape]
    simp only [List.flatMap_map, List.map_map]
    exact congrArg some (slide_origin inside
      (fun p member => fits _ (List.mem_map_of_mem member)) start step)

end Windows

end Layout

end StridedArray
