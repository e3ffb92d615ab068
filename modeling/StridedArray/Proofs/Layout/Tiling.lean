import StridedArray.Convolution.Window
import StridedArray.Proofs.Layout.Shows

/-! # Tiled, dilated and padded layouts

Movements that work on all axes alike are looked at one axis at a time: shapes and multi-indices are
lists of blocks, one for each axis, and so are the shapes in between.

* `Inside.aligned` — a multi-index beside the axes that it belongs to; `zipWith_flatMap`,
  `interleave_map` — lists of blocks;
* `Clear.tile`, `Clear.dilate`, `Clear.padOrCut` — what the results show. -/

namespace StridedArray

namespace Shape

/-! ## Blocks -/

section Blocks

variable {α : Type}

/-- The entries of a multi-index beside the axes that they belong to. -/
theorem Inside.aligned {xs : List α} {extent : α → Int} {index : List Int}
    (inside : Inside index (xs.map extent)) :
    ∃ spots : List (α × Int), spots.map Prod.fst = xs ∧ spots.map Prod.snd = index
      ∧ ∀ p ∈ spots, 0 ≤ p.2 ∧ p.2 < extent p.1 := by
  have lengths : index.length = xs.length := by simpa using inside.length_eq
  refine ⟨xs.zip index, List.map_fst_zip (le_of_eq lengths.symm),
    List.map_snd_zip (le_of_eq lengths), ?_⟩
  intro p member
  have related := (List.forall₂_iff_zip.1 (List.forall₂_map_right_iff.1 inside).flip).2 member
  exact related

theorem forall₂_flatMap {β γ : Type} {relation : β → γ → Prop} {axes : List α} {f : α → List β}
    {g : α → List γ} (each : ∀ x ∈ axes, List.Forall₂ relation (f x) (g x)) :
    List.Forall₂ relation (axes.flatMap f) (axes.flatMap g) := by
  induction axes with
  | nil => exact List.Forall₂.nil
  | cons x axes inductionHypothesis =>
    simp only [List.flatMap_cons]
    exact List.rel_append (each x (List.mem_cons_self ..))
      (inductionHypothesis fun y member => each y (List.mem_cons_of_mem _ member))

theorem inside_flatMap {axes : List α} {f g : α → List Int}
    (lengths : ∀ x ∈ axes, (f x).length = (g x).length) :
    Inside (axes.flatMap f) (axes.flatMap g) ↔ ∀ x ∈ axes, Inside (f x) (g x) := by
  induction axes with
  | nil => simp
  | cons x axes inductionHypothesis =>
    simp only [List.flatMap_cons, List.forall_mem_cons,
      inside_append (lengths x (List.mem_cons_self ..)),
      inductionHypothesis fun y member => lengths y (List.mem_cons_of_mem _ member)]

theorem zipWith_flatMap {β γ δ : Type} (op : β → γ → δ) (axes : List α) {f : α → List β}
    {g : α → List γ} (lengths : ∀ x ∈ axes, (f x).length = (g x).length) :
    (axes.flatMap f).zipWith op (axes.flatMap g)
      = axes.flatMap fun x => (f x).zipWith op (g x) := by
  induction axes with
  | nil => rfl
  | cons x axes inductionHypothesis =>
    simp only [List.flatMap_cons]
    rw [List.zipWith_append (lengths x (List.mem_cons_self ..)),
      inductionHypothesis fun y member => lengths y (List.mem_cons_of_mem _ member)]

theorem interleave_map (axes : List α) (f g : α → Int) :
    Layout.interleave (axes.map f) (axes.map g) = axes.flatMap fun x => [f x, g x] := by
  simp only [Layout.interleave, List.zip_map', List.flatMap_map]

theorem positive_map {axes : List α} {f : α → Int} (each : ∀ x ∈ axes, 0 < f x) :
    Positive (axes.map f) := by
  intro s member
  obtain ⟨x, inner, rfl⟩ := List.mem_map.1 member
  exact each x inner

theorem positive_flatMap {axes : List α} {f : α → List Int} (each : ∀ x ∈ axes, Positive (f x)) :
    Positive (axes.flatMap f) := by
  intro s member
  obtain ⟨x, block, inner⟩ := List.mem_flatMap.1 member
  exact each x block s inner

theorem product_flatMap {axes : List α} {f g : α → List Int}
    (each : ∀ x ∈ axes, product (f x) = product (g x)) :
    product (axes.flatMap f) = product (axes.flatMap g) := by
  induction axes with
  | nil => rfl
  | cons x axes inductionHypothesis =>
    simp only [List.flatMap_cons, product_append]
    rw [each x (List.mem_cons_self ..),
      inductionHypothesis fun y member => each y (List.mem_cons_of_mem _ member)]

end Blocks

theorem samePlace_divide {rows length i : Int} (low : 0 ≤ i) (high : i < rows * length)
    (positive : 0 < length) :
    SamePlace [i] [rows * length] [i / length, i % length] [rows, length] where
  left := by simp [low, high]
  right := by
    have row : i / length < rows := Int.ediv_lt_of_lt_mul positive high
    have column : 0 ≤ i % length := Int.emod_nonneg i (ne_of_gt positive)
    simp [Int.ediv_nonneg low (le_of_lt positive), row, column, Int.emod_lt_of_pos i positive]
  size := by simp
  place := by
    have parts := Int.mul_ediv_add_emod i length
    simp only [ravel_cons, ravel_nil, product_cons, product_nil]
    linarith [mul_comm (i / length) length]

end Shape

namespace Layout

open Shape (Inside Positive SamePlace product ravel unravel)
open View (Within collapse padded behind)

variable {l r : Layout}

/-! ## Movements of blocks -/

section Blocks

-- Some axes in front stay, each of the others is a block.
variable {α : Type} {front : List Int} {axes : List α} {f g : α → List Int}

theorem Clear.reshapeBlocks (clear : l.Clear) (shape : l.shape = front ++ axes.flatMap f)
    (positive : ∀ x ∈ axes, Positive (g x))
    (size : ∀ x ∈ axes, product (g x) = product (f x)) :
    ∃ r, l.reshape (front ++ axes.flatMap g) = .ok r
      ∧ Shows r l (front ++ axes.flatMap g) fun index =>
        some (unravel (ravel index (front ++ axes.flatMap g)) (front ++ axes.flatMap f)) := by
  have whole := clear.positive
  rw [shape, Shape.positive_append] at whole
  rw [← shape]
  apply clear.reshape (Shape.positive_append.2 ⟨whole.1, Shape.positive_flatMap positive⟩)
  rw [Layout.size, shape, Shape.product_append, Shape.product_append, Shape.product_flatMap size]

theorem Clear.cutBlocks (clear : l.Clear) (shape : l.shape = front ++ axes.flatMap f)
    (fits : ∀ x ∈ axes, List.Forall₂ (fun high s => 0 < high ∧ high ≤ s) (g x) (f x)) :
    ∃ r, l.shrink (View.fullMask (front ++ axes.flatMap g)) = .ok r
      ∧ Shows r l (front ++ axes.flatMap g) some := by
  have whole := clear.positive
  rw [shape, Shape.positive_append] at whole
  apply clear.cut
  rw [shape]
  apply List.rel_append _ (Shape.forall₂_flatMap fits)
  rw [List.forall₂_same]
  exact fun s member => ⟨whole.1 s member, le_refl s⟩

theorem unravel_blocks {a b : α → List Int} {index : List Int} (inside : Inside index front)
    (each : ∀ x ∈ axes, SamePlace (a x) (g x) (b x) (f x)) :
    unravel (ravel (index ++ axes.flatMap a) (front ++ axes.flatMap g)) (front ++ axes.flatMap f)
      = index ++ axes.flatMap b :=
  ((SamePlace.refl inside).append (SamePlace.flatMap each)).unravel_eq

end Blocks

/-! ## Tiling -/

/-- The movements of tiling: every axis is split, the first halves are repeated, and all are joined again. -/
theorem tile_eq {axes : List (Int × Int)} (shape : axes.map Prod.snd = l.shape)
    (natural : ∀ a ∈ axes, 1 ≤ a.1) :
    l.tile (axes.map Prod.fst) = (do
      let split ← l.reshape (axes.flatMap fun a => [1, a.2])
      let tiled ← split.expand (axes.flatMap fun a => [a.1, a.2])
      tiled.reshape (axes.map fun a => a.1 * a.2)) := by
  have ones : interleave (l.shape.map fun _ => 1) l.shape = axes.flatMap fun a => [1, a.2] := by
    rw [← shape, List.map_map]
    exact Shape.interleave_map axes (fun _ => 1) Prod.snd
  have repeats : interleave (axes.map Prod.fst) l.shape = axes.flatMap fun a => [a.1, a.2] := by
    rw [← shape]
    exact Shape.interleave_map axes Prod.fst Prod.snd
  have joined : (axes.map Prod.fst).zipWith (· * ·) l.shape = axes.map fun a => a.1 * a.2 := by
    rw [← shape, List.zipWith_map, List.zipWith_self]
  have accepted : ¬ ((axes.map Prod.fst).length ≠ l.rank ∨ (axes.map Prod.fst).any (· < 1)) := by
    simp only [Layout.rank, ← shape, List.length_map, ne_eq, not_true_eq_false, false_or, List.any_map,
      Bool.not_eq_true, List.any_eq_false, Function.comp_apply, decide_eq_true_eq, not_lt]
    exact natural
  unfold Layout.tile
  simp only [throw_bind, if_neg accepted, ones, repeats, joined]

/-- Tiling: every multi-index came from the one that it is congruent to. -/
theorem Clear.tile (clear : l.Clear) {counts : List Int} (lengths : counts.length = l.rank)
    (natural : ∀ c ∈ counts, 1 ≤ c) :
    ∃ r, l.tile counts = .ok r ∧ Shows r l (counts.zipWith (· * ·) l.shape)
      fun index => some (index.zipWith (· % ·) l.shape) := by
  -- Every axis with its count.
  obtain ⟨axes, rfl, shape⟩ : ∃ axes : List (Int × Int), axes.map Prod.fst = counts
      ∧ axes.map Prod.snd = l.shape :=
    ⟨counts.zip l.shape, List.map_fst_zip (le_of_eq lengths), List.map_snd_zip (le_of_eq lengths.symm)⟩
  have bounds : ∀ a ∈ axes, 1 ≤ a.1 ∧ 0 < a.2 := by
    intro a member
    exact ⟨natural _ (List.mem_map_of_mem member),
      clear.positive _ (shape ▸ List.mem_map_of_mem member)⟩
  have splitPositive : Positive (axes.flatMap fun a => [1, a.2]) :=
    Shape.positive_flatMap fun a member => by simp [(bounds a member).2]
  have tiledPositive : Positive (axes.flatMap fun a => [a.1, a.2]) :=
    Shape.positive_flatMap fun a member => by
      have := bounds a member
      simp only [Shape.positive_cons, Shape.positive_nil, and_true]
      omega
  have positive : Positive (axes.map fun a => a.1 * a.2) :=
    Shape.positive_map fun a member => Int.mul_pos (by have := bounds a member; omega)
      (bounds a member).2
  obtain ⟨split, splitOk, first⟩ := clear.reshape splitPositive (by
    rw [Layout.size, ← shape, List.map_eq_flatMap]
    exact Shape.product_flatMap fun a _ => by simp)
  obtain ⟨tiled, tiledOk, second⟩ := first.clear.expand tiledPositive (by
    rw [first.shape_eq]
    exact Shape.forall₂_flatMap fun a _ => by simp)
  obtain ⟨r, ok, third⟩ := second.clear.reshape positive (by
    rw [Layout.size, second.shape_eq, List.map_eq_flatMap]
    exact Shape.product_flatMap fun a _ => by simp)
  have joined : (axes.map Prod.fst).zipWith (· * ·) l.shape = axes.map fun a => a.1 * a.2 := by
    rw [← shape, List.zipWith_map, List.zipWith_self]
  refine ⟨r, ?_, ?_⟩
  · rw [tile_eq shape fun a member => (bounds a member).1, splitOk, ok_bind, tiledOk, ok_bind, ok]
  rw [joined]
  apply ((first.trans second).trans third).congr
  intro index inside
  obtain ⟨spots, rfl, rfl, inRange⟩ := inside.aligned
  have extents : ∀ p ∈ spots, 0 < p.1.2 := fun p member =>
    (bounds p.1 (List.mem_map_of_mem member)).2
  have divided : SamePlace (spots.flatMap fun p => [p.2]) (spots.flatMap fun p => [p.1.1 * p.1.2])
      (spots.flatMap fun p => [p.2 / p.1.2, p.2 % p.1.2])
      (spots.flatMap fun p => [p.1.1, p.1.2]) :=
    SamePlace.flatMap fun p member =>
      Shape.samePlace_divide (inRange p member).1 (inRange p member).2 (extents p member)
  have merged : SamePlace (spots.flatMap fun p => [0, p.2 % p.1.2])
      (spots.flatMap fun p => [1, p.1.2]) (spots.flatMap fun p => [p.2 % p.1.2])
      (spots.flatMap fun p => [p.1.2]) :=
    SamePlace.flatMap fun p member => by
      have low := Int.emod_nonneg p.2 (ne_of_gt (extents p member))
      have high := Int.emod_lt_of_pos p.2 (extents p member)
      constructor <;> simp [low, high]
  have collapsed : collapse (spots.flatMap fun p => [1, p.1.2])
      (spots.flatMap fun p => [p.2 / p.1.2, p.2 % p.1.2])
      = spots.flatMap fun p => [0, p.2 % p.1.2] := by
    rw [collapse, Shape.zipWith_flatMap]
    · congr 1
      funext p
      by_cases unit : p.1.2 = 1 <;> simp [unit]
    · simp
  have remainders : (spots.map Prod.snd).zipWith (· % ·) (spots.flatMap fun p => [p.1.2])
      = spots.flatMap fun p => [p.2 % p.1.2] := by
    rw [List.map_eq_flatMap, Shape.zipWith_flatMap]
    · rfl
    · simp
  simp only [Option.bind_some, second.shape_eq, first.shape_eq, ← shape, List.map_map,
    List.flatMap_map, Function.comp_def]
  simp only [List.map_eq_flatMap] at remainders ⊢
  rw [divided.unravel_eq, collapsed, merged.unravel_eq, remainders]

/-! ## Gaps -/

/-- The multi-index that a multi-index between gaps came from; none for a gap. -/
def undilated (dilation : List Int) : List Int → Option (List Int)
  | i :: j :: index =>
    if (index.zip dilation).all fun a => a.1 % a.2 = 0 then
      some (i :: j :: index.zipWith (· / ·) dilation)
    else none
  | _ => none

theorem undilated_ones {shape index dilation : List Int} {a b : Int}
    (inside : Inside index (a :: b :: shape)) (lengths : dilation.length = shape.length)
    (ones : ∀ d ∈ dilation, d = 1) : undilated dilation index = some index := by
  obtain ⟨i, _, rfl, _, rest⟩ := Shape.inside_cons_right.1 inside
  obtain ⟨j, index, rfl, _, rest⟩ := Shape.inside_cons_right.1 rest
  have all : dilation = List.replicate index.length 1 := by
    rw [List.eq_replicate_iff]
    exact ⟨lengths.trans rest.length_eq.symm, ones⟩
  have same : index.zipWith (· / ·) (List.replicate index.length 1) = index := by
    apply List.ext_getElem (by simp)
    intro k low high
    simp
  have whole : (index.zip (List.replicate index.length 1)).all (fun a => a.1 % a.2 = 0) = true := by
    simp only [List.all_eq_true, decide_eq_true_eq]
    intro p member
    rw [List.eq_of_mem_replicate (List.of_mem_zip member).2, Int.emod_one]
  rw [undilated, all, whole, same]
  rfl

theorem dilatedExtent_one {s : Int} (extent : 0 ≤ s) : dilatedExtent s 1 = s := by
  unfold dilatedExtent
  omega

theorem dilatedExtent_natural {s d : Int} (natural : 1 ≤ d) (extent : 0 ≤ s) :
    0 ≤ dilatedExtent s d ∧ dilatedExtent s d ≤ s * d := by
  refine ⟨le_max_right _ _, max_le ?_ (Int.mul_nonneg extent (by omega))⟩
  have : (s - 1) * d = s * d - d := by ring
  omega

theorem dilatedExtent_pos {s d : Int} (positive : 0 < s) (natural : 1 ≤ d) :
    0 < dilatedExtent s d := by
  have span : 0 ≤ (s - 1) * d := Int.mul_nonneg (by omega) (by omega)
  unfold dilatedExtent
  omega

theorem dilatedExtent_eq {s d : Int} (positive : 0 < s) (natural : 1 ≤ d) :
    dilatedExtent s d = (s - 1) * d + 1 := by
  have span : 0 ≤ (s - 1) * d := Int.mul_nonneg (by omega) (by omega)
  unfold dilatedExtent
  omega

/-- A position before the last gap is in a gap unless it is a multiple of the dilation. -/
theorem inside_gap {s d i : Int} (positive : 0 < s) (natural : 1 ≤ d) (low : 0 ≤ i)
    (high : i < dilatedExtent s d) : Inside [i / d, i % d] [s, 1] ↔ i % d = 0 := by
  rw [dilatedExtent_eq positive natural] at high
  have quotient : i / d < s := by
    have := Int.ediv_le_ediv (by omega : 0 < d) (by omega : i ≤ (s - 1) * d)
    rw [Int.mul_ediv_cancel _ (by omega : d ≠ 0)] at this
    omega
  have := Int.ediv_nonneg low (by omega : 0 ≤ d)
  have := Int.emod_nonneg i (by omega : d ≠ 0)
  simp only [Shape.inside_cons, Shape.inside_nil, and_true]
  omega

theorem samePlace_single {i s : Int} (inside : Inside [i, 0] [s, 1]) :
    SamePlace [i, 0] [s, 1] [i] [s] where
  left := inside
  right := by simpa using inside
  size := by simp
  place := by simp

section Gaps

-- The axes are extents with dilations.
variable {a b : Int} {axes : List (Int × Int)}

def gapWidths (axes : List (Int × Int)) : List (Int × Int) :=
  (0, 0) :: (0, 0) :: axes.flatMap fun x => [(0, 0), (0, x.2 - 1)]

theorem natural_gapWidths (natural : ∀ x ∈ axes, 1 ≤ x.2) : ∀ w ∈ gapWidths axes, 0 ≤ w.1 ∧ 0 ≤ w.2 := by
  intro w member
  simp only [gapWidths, List.mem_cons, List.mem_flatMap, List.not_mem_nil, or_false] at member
  rcases member with rfl | rfl | ⟨x, member, rfl | rfl⟩
  · simp
  · simp
  · simp
  · have := natural x member
    dsimp only
    omega

theorem lows_gapWidths : ∀ w ∈ gapWidths axes, w.1 = 0 := by
  intro w member
  simp only [gapWidths, List.mem_cons, List.mem_flatMap, List.not_mem_nil, or_false] at member
  rcases member with rfl | rfl | ⟨x, _, rfl | rfl⟩ <;> rfl

theorem padded_gapWidths : padded ([a, b] ++ axes.flatMap fun x => [x.1, 1]) (gapWidths axes)
    = [a, b] ++ axes.flatMap fun x => [x.1, x.2] := by
  rw [gapWidths, List.cons_append, List.cons_append, List.nil_append, View.padded_cons,
    View.padded_cons, padded, Shape.zipWith_flatMap]
  · simp
  · simp

theorem gaps_origin (bounds : ∀ x ∈ axes, 0 < x.1 ∧ 1 ≤ x.2) {index : List Int}
    (inside : Inside index ([a, b] ++ axes.flatMap fun x => [dilatedExtent x.1 x.2])) :
    ((some (unravel (ravel index ([a, b] ++ axes.flatMap fun x => [x.1 * x.2]))
        ([a, b] ++ axes.flatMap fun x => [x.1, x.2]))).bind fun middle =>
      (if Inside (behind middle (gapWidths axes)) ([a, b] ++ axes.flatMap fun x => [x.1, 1])
        then some (behind middle (gapWidths axes)) else none).bind fun single =>
        some (unravel (ravel single ([a, b] ++ axes.flatMap fun x => [x.1, 1]))
          ([a, b] ++ axes.flatMap fun x => [x.1])))
      = undilated (axes.map Prod.snd) index := by
  obtain ⟨front, rest, rfl, frontInside, restInside⟩ := inside.split
  obtain ⟨i, _, rfl, _, restFront⟩ := Shape.inside_cons_right.1 frontInside
  obtain ⟨j, _, rfl, _, nothing⟩ := Shape.inside_cons_right.1 restFront
  rw [Shape.inside_nil_right] at nothing
  subst nothing
  rw [← List.map_eq_flatMap] at restInside
  -- Every spot is an axis with its entry, which is taken apart into quotient and remainder by the dilation.
  obtain ⟨spots, rfl, rfl, inRange⟩ := restInside.aligned
  have spotBounds : ∀ p ∈ spots, 0 < p.1.1 ∧ 1 ≤ p.1.2 := fun p member =>
    bounds p.1 (List.mem_map_of_mem member)
  have divided : unravel
      (ravel ([i, j] ++ spots.flatMap fun p => [p.2])
        ([a, b] ++ spots.flatMap fun p => [p.1.1 * p.1.2]))
      ([a, b] ++ spots.flatMap fun p => [p.1.1, p.1.2])
      = [i, j] ++ spots.flatMap fun p => [p.2 / p.1.2, p.2 % p.1.2] :=
    unravel_blocks frontInside fun p member => by
      obtain ⟨extent, dilation⟩ := spotBounds p member
      have fits : dilatedExtent p.1.1 p.1.2 ≤ p.1.1 * p.1.2 := by
        rw [dilatedExtent_eq extent dilation]
        linarith [Int.sub_mul p.1.1 1 p.1.2]
      exact Shape.samePlace_divide (inRange p member).1
        (lt_of_lt_of_le (inRange p member).2 fits) (by omega)
  have still : behind ([i, j] ++ spots.flatMap fun p => [p.2 / p.1.2, p.2 % p.1.2])
      (gapWidths (spots.map Prod.fst))
      = [i, j] ++ spots.flatMap fun p => [p.2 / p.1.2, p.2 % p.1.2] :=
    View.behind_of_lows (by simp [gapWidths, Function.comp_def]) lows_gapWidths
  have between : Inside ([i, j] ++ spots.flatMap fun p => [p.2 / p.1.2, p.2 % p.1.2])
      ([a, b] ++ spots.flatMap fun p => [p.1.1, 1]) ↔ ∀ p ∈ spots, p.2 % p.1.2 = 0 := by
    rw [Shape.inside_append frontInside.length_eq, and_iff_right frontInside, Shape.inside_flatMap]
    · exact forall₂_congr fun p member => inside_gap (spotBounds p member).1
        (spotBounds p member).2 (inRange p member).1 (inRange p member).2
    · simp
  have whole : ((spots.map Prod.snd).zip ((spots.map Prod.fst).map Prod.snd)).all
      (fun x => x.1 % x.2 = 0) = true ↔ ∀ p ∈ spots, p.2 % p.1.2 = 0 := by
    simp [List.map_map, List.zip_map', List.all_map]
  rw [← List.map_eq_flatMap] at divided
  simp only [List.flatMap_map, Option.bind_some]
  rw [divided, still]
  -- A remainder other than 0 is a gap.
  by_cases multiples : ∀ p ∈ spots, p.2 % p.1.2 = 0
  · have merged : unravel
        (ravel ([i, j] ++ spots.flatMap fun p => [p.2 / p.1.2, p.2 % p.1.2])
          ([a, b] ++ spots.flatMap fun p => [p.1.1, 1]))
        ([a, b] ++ spots.flatMap fun p => [p.1.1])
        = [i, j] ++ spots.flatMap fun p => [p.2 / p.1.2] :=
      unravel_blocks frontInside fun p member => by
        have quotient := (inside_gap (spotBounds p member).1 (spotBounds p member).2
          (inRange p member).1 (inRange p member).2).2 (multiples p member)
        rw [multiples p member] at quotient ⊢
        exact samePlace_single quotient
    have quotients : (spots.map Prod.snd).zipWith (· / ·) ((spots.map Prod.fst).map Prod.snd)
        = spots.flatMap fun p => [p.2 / p.1.2] := by
      rw [List.map_map, List.zipWith_map, List.zipWith_self, List.map_eq_flatMap]
      rfl
    rw [if_pos (between.2 multiples), Option.bind_some, merged, ← quotients]
    exact (if_pos (whole.2 multiples)).symm
  · rw [if_neg (fun inside => multiples (between.1 inside)), Option.bind_none]
    exact (if_neg fun all => multiples (whole.1 all)).symm

/-- Every axis split into single positions, each of them padded behind, joined again, and the last gap
    cut off. -/
theorem Clear.gaps (clear : l.Clear) (shape : l.shape = a :: b :: axes.map Prod.fst)
    (bounds : ∀ x ∈ axes, 0 < x.1 ∧ 1 ≤ x.2) :
    ∃ split padded joined r, l.reshape ([a, b] ++ axes.flatMap fun x => [x.1, 1]) = .ok split
      ∧ split.pad (gapWidths axes) = .ok padded
      ∧ padded.reshape ([a, b] ++ axes.flatMap fun x => [x.1 * x.2]) = .ok joined
      ∧ joined.shrink (View.fullMask ([a, b] ++ axes.flatMap fun x => [dilatedExtent x.1 x.2])) = .ok r
      ∧ Shows r l (a :: b :: axes.map fun x => dilatedExtent x.1 x.2)
        (undilated (axes.map Prod.snd)) := by
  obtain ⟨split, splitOk, first⟩ := @Clear.reshapeBlocks l (Int × Int) [a, b]
    axes (fun x => [x.1]) (fun x => [x.1, 1]) clear (by rw [shape, List.map_eq_flatMap]; rfl)
    (fun x member => by simp [(bounds x member).1]) (fun x _ => by simp)
  obtain ⟨gapped, gappedOk, second⟩ := first.clear.pad
    (show (gapWidths axes).length = split.rank by
      rw [Layout.rank, first.shape_eq]
      simp [gapWidths])
    (natural_gapWidths fun x member => (bounds x member).2)
  have gappedShape := second.shape_eq
  rw [first.shape_eq, padded_gapWidths] at gappedShape
  obtain ⟨joined, joinedOk, third⟩ := second.clear.reshapeBlocks gappedShape
    (g := fun x => [x.1 * x.2])
    (fun x member => by
      have := bounds x member
      simp only [Shape.positive_cons, Shape.positive_nil, and_true]
      exact Int.mul_pos (by omega) (by omega))
    (fun x _ => by simp)
  obtain ⟨r, ok, fourth⟩ := third.clear.cutBlocks third.shape_eq
    (g := fun x => [dilatedExtent x.1 x.2])
    (fun x member => by
      obtain ⟨extent, dilation⟩ := bounds x member
      refine .cons ⟨dilatedExtent_pos extent dilation, ?_⟩ .nil
      rw [dilatedExtent_eq extent dilation]
      linarith [Int.sub_mul x.1 1 x.2])
  refine ⟨split, gapped, joined, r, splitOk, gappedOk, joinedOk, ok, ?_⟩
  rw [show a :: b :: axes.map (fun x => dilatedExtent x.1 x.2)
    = [a, b] ++ axes.flatMap fun x => [dilatedExtent x.1 x.2] by rw [List.map_eq_flatMap]; rfl]
  -- The origins through the four movements, in one.
  apply (((first.trans second).trans third).trans fourth).congr
  intro index inside
  rw [first.shape_eq, gappedShape] at *
  exact gaps_origin bounds inside

end Gaps

/-- The movements of dilation, axis by axis, unless there is nothing to be done. -/
theorem dilate_eq {a b : Int} {axes : List (Int × Int)} (shape : l.shape = a :: b :: axes.map Prod.fst)
    (gaps : ¬ (axes.map Prod.snd).all (· = 1) = true) :
    l.dilate (axes.map Prod.snd) = (do
      let split ← l.reshape ([a, b] ++ axes.flatMap fun x => [x.1, 1])
      let gapped ← split.pad (gapWidths axes)
      let joined ← gapped.reshape ([a, b] ++ axes.flatMap fun x => [x.1 * x.2])
      joined.shrink (View.fullMask ([a, b] ++ axes.flatMap fun x => [dilatedExtent x.1 x.2]))) := by
  have splitForm : a :: b :: (axes.map Prod.fst).flatMap (fun k => [k, 1])
      = [a, b] ++ axes.flatMap fun x => [x.1, 1] := by
    rw [List.flatMap_map]
    rfl
  have widthForm : ((0, 0) :: (0, 0) :: (axes.map Prod.snd).flatMap
      fun s => [((0 : Int), (0 : Int)), (0, s - 1)]) = gapWidths axes := by
    rw [List.flatMap_map]
    rfl
  have joinForm : a :: b :: (axes.map Prod.fst).zipWith (· * ·) (axes.map Prod.snd)
      = [a, b] ++ axes.flatMap fun x => [x.1 * x.2] := by
    rw [List.zipWith_map, List.zipWith_self, List.map_eq_flatMap]
    rfl
  have cutForm : ((0, a) :: (0, b) :: (axes.map Prod.fst).zipWith
      (fun k s => (0, dilatedExtent k s)) (axes.map Prod.snd))
      = View.fullMask ([a, b] ++ axes.flatMap fun x => [dilatedExtent x.1 x.2]) := by
    rw [List.zipWith_map, List.zipWith_self, ← List.map_eq_flatMap, View.fullMask,
      List.map_append, List.map_map]
    rfl
  unfold Layout.dilate
  rw [if_neg gaps, shape]
  dsimp only
  rw [splitForm, widthForm, joinForm, cutForm]

/-- Dilation: every multi-index came from the one divided by the dilation, or from a gap. -/
theorem Clear.dilate (clear : l.Clear) {a b : Int} {extents dilation : List Int}
    (shape : l.shape = a :: b :: extents) (lengths : dilation.length = extents.length)
    (natural : ∀ d ∈ dilation, 1 ≤ d) :
    ∃ r, l.dilate dilation = .ok r
      ∧ Shows r l (a :: b :: extents.zipWith dilatedExtent dilation) (undilated dilation) := by
  -- Every axis with its dilation.
  obtain ⟨axes, rfl, rfl⟩ : ∃ axes : List (Int × Int), axes.map Prod.fst = extents
      ∧ axes.map Prod.snd = dilation :=
    ⟨extents.zip dilation, List.map_fst_zip (le_of_eq lengths.symm),
      List.map_snd_zip (le_of_eq lengths)⟩
  have positive := clear.positive
  rw [shape, Shape.positive_cons, Shape.positive_cons] at positive
  have bounds : ∀ x ∈ axes, 0 < x.1 ∧ 1 ≤ x.2 := fun x member =>
    ⟨positive.2.2 _ (List.mem_map_of_mem member), natural _ (List.mem_map_of_mem member)⟩
  rw [List.zipWith_map, List.zipWith_self]
  by_cases ones : (axes.map Prod.snd).all (· = 1) = true
  · have each : ∀ d ∈ axes.map Prod.snd, d = 1 := by
      intro d member
      simpa using List.all_eq_true.1 ones d member
    refine ⟨l, if_pos ones, ?_⟩
    have same : axes.map (fun x => dilatedExtent x.1 x.2) = axes.map Prod.fst :=
      List.map_congr_left fun x member => by
        rw [each _ (List.mem_map_of_mem member), dilatedExtent_one (bounds x member).1.le]
    rw [same, ← shape]
    apply clear.shows.congr
    intro index inside
    rw [shape] at inside
    exact (undilated_ones inside lengths each).symm
  · obtain ⟨split, gapped, joined, r, splitOk, gappedOk, joinedOk, ok, shows⟩ :=
      clear.gaps shape bounds
    refine ⟨r, ?_, shows⟩
    rw [dilate_eq shape ones]
    simp only [splitOk, gappedOk, joinedOk, ok_bind, ok]

/-! ## Padding that may be negative -/

theorem behind_ahead {α : Type} {axes : List α} {cut widths both : α → Int × Int}
    (each : ∀ x ∈ axes, (widths x).1 - (cut x).1 = (both x).1) (index : List Int) :
    behind (View.ahead index (axes.map cut)) (axes.map widths) = behind index (axes.map both) := by
  induction axes generalizing index with
  | nil => simp
  | cons x axes inductionHypothesis =>
    cases index with
    | nil => rfl
    | cons i index =>
      have here := each x (List.mem_cons_self ..)
      rw [List.map_cons, List.map_cons, List.map_cons, View.ahead_cons, View.behind_cons,
        View.behind_cons, inductionHypothesis fun y member => each y (List.mem_cons_of_mem _ member)]
      congr 1
      omega

def widening (padding : List (Int × Int)) : List (Int × Int) :=
  (0, 0) :: (0, 0) :: padding.map fun p => (max p.1 0, max p.2 0)

theorem natural_widening (padding : List (Int × Int)) : ∀ w ∈ widening padding, 0 ≤ w.1 ∧ 0 ≤ w.2 := by
  intro w member
  simp only [widening, List.mem_cons, List.mem_map] at member
  rcases member with rfl | rfl | ⟨x, _, rfl⟩ <;> simp

section Cuts

variable {a b : Int} {axes : List (Int × (Int × Int))}

theorem padded_widening : padded (a :: b :: axes.map Prod.fst) (widening (axes.map Prod.snd))
    = a :: b :: axes.map fun x => x.1 + max x.2.1 0 + max x.2.2 0 := by
  rw [widening, View.padded_cons, View.padded_cons, padded, List.map_map, List.zipWith_map, List.zipWith_self]
  simp only [Int.add_zero]
  rfl

def narrowing (a b : Int) (axes : List (Int × (Int × Int))) : List (Int × Int) :=
  (0, a) :: (0, b) :: axes.map fun x =>
    (max (-x.2.1) 0, x.1 + max x.2.1 0 + max x.2.2 0 - max (-x.2.2) 0)

theorem spans_narrowing : View.spans (narrowing a b axes) = a :: b :: axes.map fun x => x.1 + x.2.1 + x.2.2 := by
  simp only [narrowing, View.spans, List.map_cons, List.map_map, Int.sub_zero]
  congr 2
  apply List.map_congr_left
  intro x _
  simp only [Function.comp_apply]
  omega

theorem within_narrowing (batch : 0 ≤ a) (channels : 0 ≤ b)
    (fits : ∀ x ∈ axes, 0 ≤ x.1 + x.2.1 + x.2.2) :
    Within (narrowing a b axes) (a :: b :: axes.map fun x => x.1 + max x.2.1 0 + max x.2.2 0) := by
  refine View.within_cons.2 ⟨⟨le_refl _, batch, le_refl _⟩,
    View.within_cons.2 ⟨⟨le_refl _, channels, le_refl _⟩, ?_⟩⟩
  unfold Within
  rw [List.forall₂_map_left_iff, List.forall₂_map_right_iff, List.forall₂_same]
  intro x member
  have := fits x member
  omega

theorem padOrCut_eq {wide : Layout} (widened : l.pad (widening (axes.map Prod.snd)) = .ok wide)
    (shape : wide.shape = a :: b :: axes.map fun x => x.1 + max x.2.1 0 + max x.2.2 0) :
    l.padOrCut (axes.map Prod.snd) = wide.shrink (narrowing a b axes) := by
  have cutForm : (axes.map Prod.snd).zipWith
      (fun p s => (max (-p.1) 0, s - max (-p.2) 0)) (wide.shape.drop 2)
      = axes.map fun x =>
        (max (-x.2.1) 0, x.1 + max x.2.1 0 + max x.2.2 0 - max (-x.2.2) 0) := by
    rw [shape, List.drop_succ_cons, List.drop_succ_cons, List.drop_zero, List.zipWith_map,
      List.zipWith_self]
  have batch : axisEntry wide.shape 0 = .ok a := by rw [shape]; rfl
  have channels : axisEntry wide.shape 1 = .ok b := by rw [shape]; rfl
  show (l.pad (widening (axes.map Prod.snd)) >>= _) = _
  rw [widened, ok_bind, batch, ok_bind, channels, ok_bind, cutForm]
  rfl

end Cuts

/-- Padding and cutting: every multi-index came from the one behind the padding, or from nowhere. -/
theorem Clear.padOrCut (clear : l.Clear) {a b : Int} {extents : List Int}
    {padding : List (Int × Int)} (shape : l.shape = a :: b :: extents)
    (lengths : padding.length = extents.length) (fits : Positive (padded extents padding)) :
    ∃ r, l.padOrCut padding = .ok r
      ∧ Shows r l (a :: b :: padded extents padding) fun index =>
        if Inside (behind index ((0, 0) :: (0, 0) :: padding)) l.shape
        then some (behind index ((0, 0) :: (0, 0) :: padding)) else none := by
  -- Every axis with its padding.
  obtain ⟨axes, rfl, rfl⟩ : ∃ axes : List (Int × (Int × Int)), axes.map Prod.fst = extents
      ∧ axes.map Prod.snd = padding :=
    ⟨extents.zip padding, List.map_fst_zip (le_of_eq lengths.symm),
      List.map_snd_zip (le_of_eq lengths)⟩
  have total : padded (axes.map Prod.fst) (axes.map Prod.snd)
      = axes.map fun x => x.1 + x.2.1 + x.2.2 := by
    rw [padded, List.zipWith_map, List.zipWith_self]
  have positive := clear.positive
  rw [shape, Shape.positive_cons, Shape.positive_cons] at positive
  rw [total] at fits ⊢
  have bounds : ∀ x ∈ axes, 0 < x.1 ∧ 0 < x.1 + x.2.1 + x.2.2 := fun x member =>
    ⟨positive.2.2 _ (List.mem_map_of_mem member),
      fits _ (List.mem_map_of_mem (f := fun x : Int × (Int × Int) => x.1 + x.2.1 + x.2.2) member)⟩
  obtain ⟨wide, wideOk, first⟩ := clear.pad
    (show (widening (axes.map Prod.snd)).length = l.rank by simp [widening, Layout.rank, shape])
    (natural_widening _)
  have wideShape := first.shape_eq
  rw [shape, padded_widening] at wideShape
  obtain ⟨r, ok, second⟩ := first.clear.shrink
    (show Within (narrowing a b axes) wide.shape by
      rw [wideShape]
      exact within_narrowing (le_of_lt positive.1) (le_of_lt positive.2.1)
        fun x member => (bounds x member).2.le)
    (by
      rw [spans_narrowing]
      exact Shape.positive_cons.2 ⟨positive.1, Shape.positive_cons.2 ⟨positive.2.1, fits⟩⟩)
  refine ⟨r, (padOrCut_eq wideOk wideShape).trans ok, ?_⟩
  rw [← spans_narrowing]
  apply (first.trans second).congr
  intro index inside
  rw [spans_narrowing] at inside
  obtain ⟨i, _, rfl, _, rest⟩ := Shape.inside_cons_right.1 inside
  obtain ⟨j, index, rfl, _, _⟩ := Shape.inside_cons_right.1 rest
  have same : behind (View.ahead (i :: j :: index) (narrowing a b axes)) (widening (axes.map Prod.snd))
      = behind (i :: j :: index) ((0, 0) :: (0, 0) :: axes.map Prod.snd) := by
    rw [widening, List.map_map]
    simp only [narrowing, View.ahead_cons, View.behind_cons, Int.add_zero]
    congr 2
    apply behind_ahead
    intro x _
    dsimp only [Function.comp_apply]
    omega
  simp only [Option.bind_some, same]

end Layout

end StridedArray
