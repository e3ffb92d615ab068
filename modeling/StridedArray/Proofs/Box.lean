import Mathlib.Algebra.BigOperators.Group.Finset.Sigma
import Mathlib.Algebra.BigOperators.Ring.Finset
import Mathlib.Data.Int.Interval
import Mathlib.Data.List.Forall2
import Mathlib.Tactic.LinearCombination
import Mathlib.Tactic.Linarith
import Mathlib.Tactic.Ring
import StridedArray.Shape

/-! # Boxes of multi-indices

The multi-indices below the extents of a shape, and the row-major positions they stand for.

* `Positive`, `Inside` — shapes without an empty axis, and the multi-indices of a shape;
* `ravel_unravel`, `unravel_ravel` — positions and multi-indices are the same thing counted twice;
  `Inside.eq_of_ravel` — two multi-indices of one shape at the same position are equal;
* `ravel_append`, `product_ones` — shapes joined together, axes of extent 1;
* `SamePlace` — multi-indices of two shapes at one position, block by block;
* `reversed` — multi-indices counted from the ends;
* `box`, `sum_positions` — all multi-indices of a shape, and sums over positions as sums over them;
  `sum_box_reversed` — sums in the opposite direction. -/

namespace StridedArray.Shape

def Positive (shape : List Int) : Prop := ∀ s ∈ shape, 0 < s

def Inside (index shape : List Int) : Prop :=
  List.Forall₂ (fun i s => 0 ≤ i ∧ i < s) index shape

instance (shape : List Int) : Decidable (Positive shape) :=
  inferInstanceAs (Decidable (∀ s ∈ shape, 0 < s))

instance (index shape : List Int) : Decidable (Inside index shape) :=
  decidable_of_iff (index.length = shape.length ∧ ∀ a ∈ index.zip shape, 0 ≤ a.1 ∧ a.1 < a.2)
    (by rw [Inside, List.forall₂_iff_zip]; simp)

@[simp] theorem positive_nil : Positive [] := by simp [Positive]

@[simp] theorem positive_cons {s : Int} {shape : List Int} :
    Positive (s :: shape) ↔ 0 < s ∧ Positive shape := by simp [Positive]

@[simp] theorem positive_append {a b : List Int} :
    Positive (a ++ b) ↔ Positive a ∧ Positive b := by
  simp only [Positive, List.mem_append]
  exact ⟨fun h => ⟨fun s m => h s (.inl m), fun s m => h s (.inr m)⟩,
    fun h s m => m.elim (h.1 s) (h.2 s)⟩

@[simp] theorem positive_replicate (n : Nat) : Positive (List.replicate n 1) := by
  intro s member
  rw [List.eq_of_mem_replicate member]
  decide

@[simp] theorem inside_nil : Inside [] [] := List.Forall₂.nil

@[simp] theorem inside_nil_right {index : List Int} : Inside index [] ↔ index = [] :=
  List.forall₂_nil_right_iff

@[simp] theorem inside_cons {i s : Int} {index shape : List Int} :
    Inside (i :: index) (s :: shape) ↔ (0 ≤ i ∧ i < s) ∧ Inside index shape :=
  List.forall₂_cons

theorem inside_cons_right {s : Int} {index shape : List Int} :
    Inside index (s :: shape) ↔ ∃ i rest, index = i :: rest ∧ (0 ≤ i ∧ i < s) ∧ Inside rest shape := by
  unfold Inside
  rw [List.forall₂_cons_right_iff]
  constructor
  · rintro ⟨i, rest, bounds, inside, rfl⟩
    exact ⟨i, rest, rfl, bounds, inside⟩
  · rintro ⟨i, rest, rfl, bounds, inside⟩
    exact ⟨i, rest, bounds, inside, rfl⟩

theorem Inside.length_eq {index shape : List Int} (inside : Inside index shape) :
    index.length = shape.length := List.Forall₂.length_eq inside

theorem Inside.append {a b s t : List Int} (left : Inside a s) (right : Inside b t) :
    Inside (a ++ b) (s ++ t) := List.rel_append left right

theorem inside_append {a b s t : List Int} (lengths : a.length = s.length) :
    Inside (a ++ b) (s ++ t) ↔ Inside a s ∧ Inside b t := by
  induction a generalizing s with
  | nil =>
    have empty : s = [] := List.length_eq_zero_iff.1 lengths.symm
    simp [empty]
  | cons i a inductionHypothesis =>
    cases s with
    | nil => cases lengths
    | cons e s =>
      simp only [List.cons_append, inside_cons,
        inductionHypothesis (by simpa using lengths), and_assoc]

theorem Inside.split {index s t : List Int} (inside : Inside index (s ++ t)) :
    ∃ a b, index = a ++ b ∧ Inside a s ∧ Inside b t := by
  have lengths : (index.take s.length).length = s.length := by
    rw [List.length_take, inside.length_eq, List.length_append]
    omega
  rw [← List.take_append_drop s.length index, inside_append lengths] at inside
  exact ⟨_, _, (List.take_append_drop s.length index).symm, inside⟩

theorem Inside.positive {index shape : List Int} (inside : Inside index shape) :
    Positive shape := by
  induction inside with
  | nil => exact positive_nil
  | cons bounds _ inductionHypothesis => exact positive_cons.2 ⟨by omega, inductionHypothesis⟩

theorem Inside.zipWith_emod {index shape : List Int} (inside : Inside index shape) :
    index.zipWith (· % ·) shape = index := by
  induction inside with
  | nil => rfl
  | cons bounds _ inductionHypothesis =>
    rw [List.zipWith_cons_cons, inductionHypothesis, Int.emod_eq_of_lt bounds.1 bounds.2]

theorem inside_zeros {shape : List Int} (positive : Positive shape) :
    Inside (List.replicate shape.length 0) shape := by
  induction shape with
  | nil => exact inside_nil
  | cons s shape inductionHypothesis =>
    rw [positive_cons] at positive
    exact inside_cons.2 ⟨⟨le_refl _, positive.1⟩, inductionHypothesis positive.2⟩

/-! ## Products -/

theorem Positive.product_pos {shape : List Int} (positive : Positive shape) : 0 < product shape := by
  induction shape with
  | nil => decide
  | cons s shape inductionHypothesis =>
    rw [positive_cons] at positive
    exact Int.mul_pos positive.1 (inductionHypothesis positive.2)

theorem product_nonneg {shape : List Int} (extents : ∀ s ∈ shape, 0 ≤ s) : 0 ≤ product shape := by
  induction shape with
  | nil => decide
  | cons s shape inductionHypothesis =>
    obtain ⟨natural, rest⟩ := List.forall_mem_cons.1 extents
    exact Int.mul_nonneg natural (inductionHypothesis rest)

theorem positive_of_product_pos {shape : List Int} (extents : ∀ s ∈ shape, 0 ≤ s)
    (some : 0 < product shape) : Positive shape := by
  induction shape with
  | nil => exact positive_nil
  | cons s shape inductionHypothesis =>
    have rest : ∀ e ∈ shape, 0 ≤ e := fun e member => extents e (List.mem_cons_of_mem _ member)
    rw [product_cons] at some
    have head : 0 < s := lt_of_le_of_ne (extents s (List.mem_cons_self ..))
      (by rintro rfl; simp at some)
    exact positive_cons.2
      ⟨head, inductionHypothesis rest (pos_of_mul_pos_right some (le_of_lt head))⟩

@[simp] theorem product_ones (n : Nat) : product (List.replicate n 1) = 1 := by
  induction n with
  | zero => rfl
  | succ n inductionHypothesis => simp [List.replicate_succ, inductionHypothesis]

/-! ## Positions -/

@[simp] theorem ravel_nil : ravel [] [] = 0 := rfl

@[simp] theorem ravel_cons (i s : Int) (index shape : List Int) :
    ravel (i :: index) (s :: shape) = i * product shape + ravel index shape := rfl

theorem Inside.ravel_bounds {index shape : List Int} (inside : Inside index shape) :
    0 ≤ ravel index shape ∧ ravel index shape < product shape := by
  induction shape generalizing index with
  | nil =>
    rw [inside_nil_right.1 inside]
    decide
  | cons s shape inductionHypothesis =>
    obtain ⟨i, rest, rfl, bounds, restInside⟩ := inside_cons_right.1 inside
    obtain ⟨low, high⟩ := inductionHypothesis restInside
    have rows : i * product shape + product shape ≤ s * product shape := by
      nlinarith [restInside.positive.product_pos]
    have before : 0 ≤ i * product shape :=
      Int.mul_nonneg bounds.1 (le_of_lt restInside.positive.product_pos)
    simp only [ravel_cons, product_cons]
    omega

theorem ravel_append {a b s t : List Int} (lengths : a.length = s.length) :
    ravel (a ++ b) (s ++ t) = ravel a s * product t + ravel b t := by
  induction a generalizing s with
  | nil =>
    have empty : s = [] := List.length_eq_zero_iff.1 lengths.symm
    simp [empty]
  | cons i a inductionHypothesis =>
    cases s with
    | nil => cases lengths
    | cons e s =>
      simp only [List.cons_append, ravel_cons, inductionHypothesis (by simpa using lengths),
        product_append]
      ring

theorem unravel_nil (flat : Int) : unravel flat [] = [] := rfl

/-- What is left of a position after some axes are taken off is its quotient by their product. -/
theorem unravelFrom_fst {shape : List Int} (positive : Positive shape) (flat : Int) :
    (unravelFrom flat shape).1 = flat / product shape := by
  induction shape with
  | nil => simp [unravelFrom]
  | cons s shape inductionHypothesis =>
    rw [positive_cons] at positive
    have extent : s ≠ 0 := by omega
    simp only [unravelFrom, extent, if_false, inductionHypothesis positive.2, product_cons]
    rw [Int.fdiv_eq_ediv_of_nonneg _ (le_of_lt positive.1),
      Int.ediv_ediv_of_nonneg (le_of_lt positive.2.product_pos), Int.mul_comm]

theorem unravel_cons {s : Int} {shape : List Int} (positive : Positive (s :: shape)) (flat : Int) :
    unravel flat (s :: shape) = (flat / product shape) % s :: unravel flat shape := by
  rw [positive_cons] at positive
  have extent : s ≠ 0 := by omega
  have rest := unravelFrom_fst positive.2 flat
  simp only [unravel, unravelFrom, extent, if_false, rest]
  rw [Int.fmod_eq_emod_of_nonneg _ (le_of_lt positive.1)]

theorem inside_unravel {shape : List Int} (positive : Positive shape) (flat : Int) :
    Inside (unravel flat shape) shape := by
  induction shape with
  | nil => exact inside_nil
  | cons s shape inductionHypothesis =>
    rw [unravel_cons positive, inside_cons]
    rw [positive_cons] at positive
    exact ⟨⟨Int.emod_nonneg _ (by omega), Int.emod_lt_of_pos _ positive.1⟩,
      inductionHypothesis positive.2⟩

theorem ravel_unravel_emod {shape : List Int} (positive : Positive shape) (flat : Int) :
    ravel (unravel flat shape) shape = flat % product shape := by
  induction shape with
  | nil => simp [unravel_nil]
  | cons s shape inductionHypothesis =>
    rw [unravel_cons positive, ravel_cons, inductionHypothesis (positive_cons.1 positive).2,
      product_cons]
    have count := (positive_cons.1 positive).2.product_pos
    have quotient : flat / product shape / s = flat / (s * product shape) := by
      rw [Int.ediv_ediv_of_nonneg (le_of_lt count), Int.mul_comm]
    have outer := Int.mul_ediv_add_emod flat (s * product shape)
    have inner := Int.mul_ediv_add_emod flat (product shape)
    have digit := Int.mul_ediv_add_emod (flat / product shape) s
    rw [quotient] at digit
    linear_combination product shape * digit + inner - outer

theorem ravel_unravel {shape : List Int} (positive : Positive shape) {flat : Int} (low : 0 ≤ flat)
    (high : flat < product shape) : ravel (unravel flat shape) shape = flat := by
  rw [ravel_unravel_emod positive, Int.emod_eq_of_lt low high]

/-- Two multi-indices of one shape that stand for the same position are equal. -/
theorem Inside.eq_of_ravel {a b shape : List Int} (left : Inside a shape) (right : Inside b shape)
    (same : ravel a shape = ravel b shape) : a = b := by
  induction shape generalizing a b with
  | nil => rw [inside_nil_right.1 left, inside_nil_right.1 right]
  | cons s shape inductionHypothesis =>
    obtain ⟨i, a, rfl, _, leftRest⟩ := inside_cons_right.1 left
    obtain ⟨j, b, rfl, _, rightRest⟩ := inside_cons_right.1 right
    simp only [ravel_cons] at same
    obtain ⟨leftLow, leftHigh⟩ := leftRest.ravel_bounds
    obtain ⟨rightLow, rightHigh⟩ := rightRest.ravel_bounds
    have count := leftRest.positive.product_pos
    have heads : i = j := by nlinarith
    subst heads
    rw [inductionHypothesis leftRest rightRest (by omega)]

theorem Inside.unravel_ravel {index shape : List Int} (inside : Inside index shape) :
    unravel (ravel index shape) shape = index := by
  obtain ⟨low, high⟩ := inside.ravel_bounds
  exact (inside_unravel inside.positive _).eq_of_ravel inside
    (ravel_unravel inside.positive low high)

/-! ## The same place in two shapes -/

/-- Two multi-indices of two shapes of one size that stand for the same position. -/
structure SamePlace (a s b t : List Int) : Prop where
  left : Inside a s
  right : Inside b t
  size : product s = product t
  place : ravel a s = ravel b t

theorem SamePlace.refl {a s : List Int} (inside : Inside a s) : SamePlace a s a s :=
  ⟨inside, inside, rfl, rfl⟩

theorem SamePlace.append {a s b t a' s' b' t' : List Int} (first : SamePlace a s b t)
    (second : SamePlace a' s' b' t') : SamePlace (a ++ a') (s ++ s') (b ++ b') (t ++ t') where
  left := first.left.append second.left
  right := first.right.append second.right
  size := by rw [product_append, product_append, first.size, second.size]
  place := by
    rw [ravel_append first.left.length_eq, ravel_append first.right.length_eq, first.place,
      second.place, second.size]

theorem SamePlace.flatMap {α : Type} {axes : List α} {a s b t : α → List Int}
    (each : ∀ x ∈ axes, SamePlace (a x) (s x) (b x) (t x)) :
    SamePlace (axes.flatMap a) (axes.flatMap s) (axes.flatMap b) (axes.flatMap t) := by
  induction axes with
  | nil => exact .refl inside_nil
  | cons x axes inductionHypothesis =>
    simp only [List.flatMap_cons]
    exact (each x (List.mem_cons_self ..)).append
      (inductionHypothesis fun y member => each y (List.mem_cons_of_mem _ member))

/-- The second multi-index is found from the first one by way of the position. -/
theorem SamePlace.unravel_eq {a s b t : List Int} (same : SamePlace a s b t) :
    unravel (ravel a s) t = b := by
  rw [same.place, same.right.unravel_ravel]

/-! ## Counting from the ends -/

def reversed (shape index : List Int) : List Int := shape.zipWith (fun s i => s - 1 - i) index

theorem Inside.reversed {index shape : List Int} (inside : Inside index shape) :
    Inside (reversed shape index) shape := by
  induction inside with
  | nil => exact inside_nil
  | @cons i s _ _ bounds _ inductionHypothesis =>
    exact inside_cons.2 ⟨show 0 ≤ s - 1 - i ∧ s - 1 - i < s by omega, inductionHypothesis⟩

theorem Inside.reversed_reversed {index shape : List Int} (inside : Inside index shape) :
    Shape.reversed shape (Shape.reversed shape index) = index := by
  induction inside with
  | nil => rfl
  | cons _ _ inductionHypothesis =>
    unfold Shape.reversed at inductionHypothesis ⊢
    rw [List.zipWith_cons_cons, List.zipWith_cons_cons, inductionHypothesis, sub_sub_cancel]

/-! ## Sums over boxes -/

def consAxis : Int × List Int ↪ List Int :=
  ⟨fun p => p.1 :: p.2, fun _ _ same => Prod.ext (List.cons.inj same).1 (List.cons.inj same).2⟩

def below (s : Int) : Finset Int := (Finset.range s.toNat).map ⟨Int.ofNat, fun _ _ => Int.ofNat.inj⟩

@[simp] theorem mem_below {i s : Int} : i ∈ below s ↔ 0 ≤ i ∧ i < s := by
  simp only [below, Finset.mem_map, Finset.mem_range]
  constructor
  · rintro ⟨n, small, rfl⟩
    change 0 ≤ (n : Int) ∧ (n : Int) < s
    omega
  · intro bounds
    exact ⟨i.toNat, by omega, Int.toNat_of_nonneg bounds.1⟩

def box : List Int → Finset (List Int)
  | [] => {[]}
  | s :: rest => (below s ×ˢ box rest).map consAxis

@[simp] theorem mem_box {index shape : List Int} : index ∈ box shape ↔ Inside index shape := by
  induction shape generalizing index with
  | nil => simp [box]
  | cons s shape inductionHypothesis =>
    rw [inside_cons_right]
    simp only [box, Finset.mem_map, Finset.mem_product, mem_below, inductionHypothesis]
    constructor
    · rintro ⟨⟨i, rest⟩, ⟨bounds, inside⟩, rfl⟩
      exact ⟨i, rest, rfl, bounds, inside⟩
    · rintro ⟨i, rest, rfl, bounds, inside⟩
      exact ⟨(i, rest), ⟨bounds, inside⟩, rfl⟩

section Sums

variable {α : Type} [AddCommMonoid α]

theorem sum_box_cons (s : Int) (shape : List Int) (f : List Int → α) :
    ∑ index ∈ box (s :: shape), f index
      = ∑ i ∈ below s, ∑ index ∈ box shape, f (i :: index) := by
  rw [box, Finset.sum_map, Finset.sum_product]
  rfl

/-- Going through the positions of a shape is going through its multi-indices. -/
theorem sum_positions {shape : List Int} (positive : Positive shape) (f : List Int → α) :
    ∑ k ∈ Finset.range (product shape).toNat, f (unravel k shape) = ∑ index ∈ box shape, f index := by
  have count := positive.product_pos
  refine Finset.sum_bij' (fun k _ => unravel k shape) (fun index _ => (ravel index shape).toNat)
    ?_ ?_ ?_ ?_ ?_
  · intro k _
    exact mem_box.2 (inside_unravel positive k)
  · intro index member
    have bounds := (mem_box.1 member).ravel_bounds
    rw [Finset.mem_range]
    omega
  · intro k member
    rw [Finset.mem_range] at member
    rw [ravel_unravel positive (by omega) (by omega)]
    rfl
  · intro index member
    have inside := mem_box.1 member
    rw [Int.toNat_of_nonneg inside.ravel_bounds.1, inside.unravel_ravel]
  · intro k _
    rfl

/-- Going through a box backwards along every axis. -/
theorem sum_box_reversed (shape : List Int) (f : List Int → α) :
    ∑ index ∈ box shape, f (reversed shape index) = ∑ index ∈ box shape, f index := by
  refine Finset.sum_bij' (fun index _ => reversed shape index) (fun index _ => reversed shape index)
    ?_ ?_ ?_ ?_ fun _ _ => rfl
  · exact fun index member => mem_box.2 (mem_box.1 member).reversed
  · exact fun index member => mem_box.2 (mem_box.1 member).reversed
  · exact fun index member => (mem_box.1 member).reversed_reversed
  · exact fun index member => (mem_box.1 member).reversed_reversed

end Sums

end StridedArray.Shape
