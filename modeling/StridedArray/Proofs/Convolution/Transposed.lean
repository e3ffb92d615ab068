import StridedArray.Proofs.Convolution.Adjoint
import StridedArray.Proofs.Layout.Anchored
import StridedArray.Proofs.Layout.Orders
import StridedArray.Proofs.Layout.Shapes
import StridedArray.Tensor.Convolution

/-! # Operands of transposed convolutions

* `Clear.swapFront` — an operand with its first two axes exchanged;
* `foldr_mirror` — windows backwards; `Clear.flippedFilter` — both, for a filter;
* `Sound.swapFront`, `Sound.flippedFilter` — the shapes, also of arrays without elements;
  `Anchored.swapFront`, `Anchored.flippedFilter` — nothing outside of the buffer is seen. -/

namespace StridedArray

open Shape (Inside Positive)
open View (pick unpick mirror fullMask)

/-- Counting the axes behind some others from their ends. -/
theorem foldr_mirror {front head shape step : List Int} (heads : head.length = front.length)
    (inside : Inside step shape) :
    (List.range' front.length shape.length).foldr (mirror (front ++ shape)) (head ++ step)
      = head ++ Shape.reversed shape step := by
  induction inside generalizing front head with
  | nil => simp [Shape.reversed]
  | @cons i s step shape bounds inside inductionHypothesis =>
    have rest := @inductionHypothesis (front ++ [s]) (head ++ [i]) (by simp [heads])
    rw [List.append_assoc, List.append_assoc, List.append_assoc, List.length_append] at rest
    rw [List.length_cons, List.range'_succ, List.foldr_cons]
    simp only [List.singleton_append, List.length_singleton] at rest
    have extent : (front ++ s :: shape)[front.length]? = some s := by simp
    have entry : (head ++ i :: Shape.reversed shape step)[front.length]? = some i := by simp [← heads]
    rw [rest, mirror, extent, entry, ← heads, List.set_append_right _ _ (Nat.le_refl _), Nat.sub_self]
    rfl

namespace Layout

variable {l : Layout} {a b : Int} {rest : List Int}

theorem rank_of_front (shape : l.shape = a :: b :: rest) : l.rank = 2 + rest.length := by
  show l.shape.length = _
  rw [shape, List.length_cons, List.length_cons]
  omega

theorem spatialNumbers_eq (shape : l.shape = a :: b :: rest) :
    (axisNumbers l.rank).drop 2 = (List.range' 2 rest.length).map Int.ofNat := by
  rw [rank_of_front shape, axisNumbers_add, List.range'_eq_map_range, List.map_map]
  rfl

/-- The first two extents are exchanged, and nothing gets hidden. -/
theorem Sound.swapFront (sound : l.Sound) (shape : l.shape = a :: b :: rest) :
    ∃ r, l.swapFront = .ok r ∧ r.Sound ∧ r.shape = b :: a :: rest
      ∧ (l.top.ranges = fullMask l.shape → r.top.ranges = fullMask r.shape) := by
  have rank := rank_of_front shape
  obtain ⟨r, moved, movedSound, known⟩ := sound.gives_permute (1 :: 0 :: (axisNumbers l.rank).drop 2)
    (by rw [rank]; exact perm_swapOrder rest.length)
  rw [shape, rank, pick_swapOrder] at known
  refine ⟨r, moved, movedSound, known, fun whole => ?_⟩
  rw [sound.ranges_permute moved, whole, shape, rank, known, fullMask, View.pick_map, pick_swapOrder, fullMask]

theorem Clear.swapFront (clear : l.Clear) (shape : l.shape = a :: b :: rest) :
    ∃ r origin, l.swapFront = .ok r ∧ Shows r l (b :: a :: rest) origin
      ∧ (l.top.ranges = fullMask l.shape → r.top.ranges = fullMask r.shape)
      ∧ ∀ (content : Int → Int) {index : List Int}, Inside index (b :: a :: rest) →
        r.entry content index = exchanged (l.entry content) index := by
  have rank := rank_of_front shape
  have perm := perm_swapOrder rest.length
  obtain ⟨r, moved, shows⟩ := @Clear.permute l clear
    (1 :: 0 :: (axisNumbers l.rank).drop 2) (by rwa [rank])
  rw [shape, rank, pick_swapOrder] at shows
  refine ⟨r, _, moved, shows, ?_, ?_⟩
  · obtain ⟨_, same, -, -, whole⟩ := clear.sound.swapFront shape
    cases same.symm.trans moved
    exact whole
  · intro content index inside
    obtain ⟨j, _, rfl, first, tail⟩ := Shape.inside_cons_right.1 inside
    obtain ⟨i, index, rfl, second, others⟩ := Shape.inside_cons_right.1 tail
    refine shows.entry_of_some content inside ?_
    have whole : (1 :: 0 :: (axisNumbers (2 + rest.length)).drop 2).Perm
        (axisNumbers (i :: j :: index).length) := by
      have count : (i :: j :: index).length = 2 + rest.length := by
        rw [List.length_cons, List.length_cons, others.length_eq]
        omega
      rwa [count]
    have back := View.unpick_pick whole
    rw [← others.length_eq, pick_swapOrder, others.length_eq] at back
    exact congrArg some back

/-- A filter with its first two axes exchanged and its windows backwards. -/
theorem Clear.flippedFilter (clear : l.Clear) (shape : l.shape = a :: b :: rest)
    (whole : l.top.ranges = fullMask l.shape) :
    ∃ r origin, Session.flippedFilter l = .ok r ∧ Shows r l (b :: a :: rest) origin
      ∧ ∀ (content : Int → Int) {index : List Int}, Inside index (b :: a :: rest) →
        r.entry content index = turned rest (l.entry content) index := by
  obtain ⟨m, _, swapped, first, full, entries⟩ := clear.swapFront shape
  have rank : m.rank = rest.length + 2 := congrArg List.length first.shape_eq
  obtain ⟨r, flipped, second⟩ := @Clear.flip m first.clear (full whole) (List.range' 2 rest.length) (by
    intro axis member
    rw [List.mem_range'_1] at member
    omega)
  rw [first.shape_eq] at second
  refine ⟨r, _, ?_, first.trans second, ?_⟩
  · unfold Session.flippedFilter
    rw [swapped, ok_bind, spatialNumbers_eq shape, flipped]
  · intro content index inside
    obtain ⟨j, _, rfl, left, tail⟩ := Shape.inside_cons_right.1 inside
    obtain ⟨i, index, rfl, right, others⟩ := Shape.inside_cons_right.1 tail
    have turn := @foldr_mirror [b, a] [j, i] rest index rfl others
    have below : Inside (j :: i :: Shape.reversed rest index) (b :: a :: rest) :=
      Shape.inside_cons.2 ⟨left, Shape.inside_cons.2 ⟨right, others.reversed⟩⟩
    rw [second.entry_of_some content inside (congrArg some turn)]
    exact entries content below

/-! ## Arrays without elements -/

/-- A filter can always be turned, whatever its extents. -/
theorem Sound.flippedFilter (sound : l.Sound) (shape : l.shape = a :: b :: rest) :
    ∃ m r, l.swapFront = .ok m ∧ m.flip ((axisNumbers l.rank).drop 2) = .ok r
      ∧ Session.flippedFilter l = .ok r ∧ r.Sound ∧ r.shape = b :: a :: rest := by
  obtain ⟨m, swapped, swappedSound, known, -⟩ := sound.swapFront shape
  have rank := rank_of_front known
  obtain ⟨r, flipped, flippedSound, flippedShape⟩ := @Sound.gives_flip m swappedSound (List.range' 2 rest.length) (by
    intro axis member
    rw [List.mem_range'_1] at member
    omega)
  rw [← spatialNumbers_eq shape] at flipped
  refine ⟨m, r, swapped, flipped, ?_, flippedSound, flippedShape.trans known⟩
  unfold Session.flippedFilter
  rw [swapped, ok_bind, flipped]

variable {count : Int}

theorem Anchored.swapFront (anchored : l.Anchored count) (shape : l.shape = a :: b :: rest) :
    ∃ r, l.swapFront = .ok r ∧ r.Anchored count ∧ r.shape = b :: a :: rest := by
  obtain ⟨r, moved, -, known, -⟩ := anchored.sound.swapFront shape
  exact ⟨r, moved, anchored.permute moved, known⟩

/-- As for other filters that are turned, nothing may be hidden. -/
theorem Anchored.flippedFilter (anchored : l.Anchored count) (shape : l.shape = a :: b :: rest)
    (whole : l.top.ranges = fullMask l.shape) :
    ∃ r, Session.flippedFilter l = .ok r ∧ r.Anchored count ∧ r.shape = b :: a :: rest := by
  obtain ⟨m, r, swapped, flipped, turned, -, known⟩ := anchored.sound.flippedFilter shape
  obtain ⟨_, same, -, -, full⟩ := anchored.sound.swapFront shape
  cases same.symm.trans swapped
  exact ⟨r, turned, (anchored.permute swapped).flip (full whole) flipped, known⟩

end Layout

end StridedArray
