import StridedArray.Proofs.Layout.Guard

/-! # The announced range covers every read

Only the lowest view is looked at for the range of offsets that a layout announces. That is enough, whatever is
stacked on it: where an offset of the views above is counted out in the lowest one, it ends up at a multi-index of it.
The lowest view must not have negative extents for that.

* `Grounded` — what is asked of the lowest view; `offsetOf?_base` — every offset is one of that view;
* `Grounded.address_covered`, `Grounded.address_hidden` — addresses are in the range, and there are none if there is
  no range;
* `Grounded.address_reached` — a single view attains both ends. -/

namespace StridedArray.Layout

open Shape (Inside Positive unravel)

/-- The view over the buffer has no axis that is empty or of negative extent, and no valid range that leaves its
    axis. -/
structure Grounded (l : Layout) : Prop where
  regular : l.base.Regular
  positive : Positive l.base.shape

variable {l : Layout} {index : List Int} {low high : Int}

/-- Every offset that is shown is one of the lowest view. -/
theorem offsetOf?_base (positive : Positive l.base.shape) (inside : Inside index l.shape) {offset : Int}
    (known : l.offsetOf? index = some offset) :
    ∃ place, Inside place l.base.shape ∧ l.base.offsetOf? place = some offset := by
  obtain ⟨top, below⟩ := l
  cases below with
  | nil =>
    obtain ⟨shown, here, ⟨⟩⟩ := Option.bind_eq_some_iff.1 known
    exact ⟨index, inside, here⟩
  | cons v below =>
    obtain ⟨position, -, deeper⟩ := Option.bind_eq_some_iff.1 known
    rw [base_cons] at positive ⊢
    exact descend_base positive deeper

theorem offsetRange?_of_inside (positive : Positive l.base.shape) (inside : Inside index l.shape) :
    l.offsetRange? = (l.base.strides.zip l.base.ranges).foldlM widen? (l.base.offset, l.base.offset) := by
  have base := positive.product_pos
  have top : 0 < l.size := inside.positive.product_pos
  unfold offsetRange?
  exact if_neg (by omega)

theorem admits_of_offsetOf? (inside : Inside index l.base.shape) {offset : Int}
    (known : l.base.offsetOf? index = some offset) :
    View.admits l.base.ranges index = true ∧ offset = l.base.offset + Shape.dot index l.base.strides := by
  rw [View.offsetOf?_ranges inside] at known
  obtain ⟨admitted, same⟩ := Option.ite_none_right_eq_some.1 known
  exact ⟨admitted, (Option.some.inj same).symm⟩

namespace Grounded

/-- Every address is in the announced range. -/
theorem address_covered (grounded : l.Grounded) (inside : Inside index l.shape)
    (announced : l.offsetRange? = some (low, high)) {offset : Int} (known : l.address index = .ok (some offset)) :
    low ≤ offset ∧ offset ≤ high := by
  rw [address_eq inside] at known
  obtain ⟨place, here, shown⟩ := offsetOf?_base grounded.positive inside (Except.ok.inj known)
  obtain ⟨admitted, rfl⟩ := admits_of_offsetOf? here shown
  rw [offsetRange?_of_inside grounded.positive inside] at announced
  have length := here.length_eq.trans grounded.regular.ranges.length_eq.symm
  exact (View.reach_bounds announced (Int.le_refl _)).2 l.base.offset place (Int.le_refl _) (Int.le_refl _) length
    admitted

/-- Where no range is announced, all is padding. -/
theorem address_hidden (grounded : l.Grounded) (inside : Inside index l.shape) (silent : l.offsetRange? = none) :
    l.address index = .ok none := by
  rw [address_eq inside]
  cases known : l.offsetOf? index with
  | none => rfl
  | some offset =>
    obtain ⟨place, here, shown⟩ := offsetOf?_base grounded.positive inside known
    obtain ⟨admitted, -⟩ := admits_of_offsetOf? here shown
    rw [offsetRange?_of_inside grounded.positive inside] at silent
    obtain ⟨r, member, empty⟩ := View.exists_empty silent
    have length := here.length_eq.trans grounded.regular.ranges.length_eq.symm
    exact absurd (View.admits_bounds length admitted r member) (Int.not_lt.2 empty)

/-- A single view has both ends of the announced range as addresses. -/
theorem address_reached (grounded : l.Grounded) (alone : l.below = []) (announced : l.offsetRange? = some (low, high)) :
    (∃ a, Inside a l.shape ∧ l.address a = .ok (some low))
      ∧ ∃ b, Inside b l.shape ∧ l.address b = .ok (some high) := by
  obtain ⟨top, below⟩ := l
  obtain rfl : below = [] := alone
  have whole : ∀ {index offset}, Inside index top.shape → top.offsetOf? index = some offset →
      (Layout.mk top []).address index = .ok (some offset) := fun inside known => by
    rw [address_eq inside, offsetOf?, known]
    rfl
  obtain ⟨⟨a, aInside, aKnown⟩, b, bInside, bKnown⟩ := offsetRange?_attained grounded.regular announced
  exact ⟨⟨a, aInside, whole aInside aKnown⟩, b, bInside, whole bInside bKnown⟩

theorem address_bounds (grounded : l.Grounded) {count : Nat} (reaches : l.ReachesInside count)
    (inside : Inside index l.shape) {offset : Int} (known : l.address index = .ok (some offset)) :
    0 ≤ offset ∧ offset < count := by
  cases announced : l.offsetRange? with
  | none =>
    rw [grounded.address_hidden inside announced] at known
    cases known
  | some reach =>
    obtain ⟨bottom, top⟩ := reaches reach.1 reach.2 announced
    obtain ⟨least, most⟩ := grounded.address_covered inside announced known
    exact ⟨bottom.trans least, most.trans_lt top⟩

end Grounded

end StridedArray.Layout
