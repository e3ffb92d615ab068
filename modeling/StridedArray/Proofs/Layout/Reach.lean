import StridedArray.Proofs.Layout.Shows

/-! # The reach of a layout

The range of offsets that a layout announces is attained by positions of its lowest view, so a layout
that was moved from a whole array stays inside of its buffer.

* `foldlM_widen?`, `offsetRange?_attained` — both ends of the range belong to multi-indices;
* `Layout.Over` — a layout moved from the one of a whole array; `Over.offset_bounds` — it stays inside of the
  array. -/

namespace StridedArray

open Shape (Inside Positive dot ravel product)
open View (Enclosed admits)

namespace Layout

/-- Both ends of a range are offsets of multi-indices in the valid ranges. -/
theorem foldlM_widen? {strides shape : List Int} {ranges : List (Int × Int)}
    (enclosed : Enclosed ranges shape) (lengths : strides.length = shape.length) {start reach : Int × Int}
    (known : (strides.zip ranges).foldlM widen? start = some reach) :
    ∃ a b, (a.length = shape.length ∧ admits ranges a = true)
      ∧ (b.length = shape.length ∧ admits ranges b = true)
      ∧ reach = (start.1 + dot a strides, start.2 + dot b strides) := by
  induction enclosed generalizing strides start with
  | nil =>
    rw [List.length_eq_zero_iff.1 lengths] at known ⊢
    cases known
    exact ⟨[], [], ⟨rfl, rfl⟩, ⟨rfl, rfl⟩, by simp [dot]⟩
  | @cons r s ranges shape _ _ inductionHypothesis =>
    obtain ⟨stride, strides, rfl⟩ := List.exists_cons_of_length_eq_add_one lengths
    rw [List.zip_cons_cons, List.foldlM_cons, Option.bind_eq_bind, Option.bind_eq_some_iff] at known
    obtain ⟨next, widened, rest⟩ := known
    obtain ⟨a, b, ⟨aLength, aAdmits⟩, ⟨bLength, bAdmits⟩, rfl⟩ :=
      inductionHypothesis (by simpa using lengths) rest
    unfold widen? at widened
    dsimp only at widened
    split at widened
    · cases widened
    · next some =>
      -- Along a stride that is not negative the far end is the last valid entry, else the first one.
      split at widened
      · cases widened
        refine ⟨r.1 :: a, (r.2 - 1) :: b, ⟨by simp [aLength], ?_⟩, ⟨by simp [bLength], ?_⟩, ?_⟩
        · simp only [View.admits_cons, aAdmits, Bool.and_true, decide_eq_true_eq]
          omega
        · simp only [View.admits_cons, bAdmits, Bool.and_true, decide_eq_true_eq]
          omega
        · simp only [dot, Prod.mk.injEq]
          constructor <;> ring
      · cases widened
        refine ⟨(r.2 - 1) :: a, r.1 :: b, ⟨by simp [aLength], ?_⟩, ⟨by simp [bLength], ?_⟩, ?_⟩
        · simp only [View.admits_cons, aAdmits, Bool.and_true, decide_eq_true_eq]
          omega
        · simp only [View.admits_cons, bAdmits, Bool.and_true, decide_eq_true_eq]
          omega
        · simp only [dot, Prod.mk.injEq]
          constructor <;> ring

theorem base_mem (l : Layout) : l.base ∈ l.top :: l.below := by
  unfold base
  cases known : l.below.getLast? with
  | none => exact List.mem_cons_self ..
  | some v => exact List.mem_cons_of_mem _ (List.mem_of_getLast? known)

theorem base_cons (top v : View) (below : List View) : (Layout.mk top (v :: below)).base = (Layout.mk v below).base := by
  simp [base, List.getLast?_cons]

/-- Both ends of the announced range are offsets of the lowest view. -/
theorem offsetRange?_attained {l : Layout} (regular : l.base.Regular) {low high : Int}
    (known : l.offsetRange? = some (low, high)) :
    (∃ a, Inside a l.base.shape ∧ l.base.offsetOf? a = some low)
      ∧ ∃ b, Inside b l.base.shape ∧ l.base.offsetOf? b = some high := by
  unfold offsetRange? at known
  dsimp only at known
  split at known
  · cases known
  · obtain ⟨a, b, ⟨aLength, aAdmits⟩, ⟨bLength, bAdmits⟩, reach⟩ :=
      foldlM_widen? regular.ranges regular.strides known
    obtain ⟨rfl, rfl⟩ := Prod.mk.inj reach
    have aInside := regular.ranges.inside aLength aAdmits
    have bInside := regular.ranges.inside bLength bAdmits
    refine ⟨⟨a, aInside, ?_⟩, b, bInside, ?_⟩
    · rw [View.offsetOf?_ranges aInside, if_pos aAdmits]
    · rw [View.offsetOf?_ranges bInside, if_pos bAdmits]

def Over (l : Layout) (count : Int) : Prop :=
  ∃ shape origin, product shape = count ∧ Shows l (rowMajor shape) l.shape origin

variable {l r : Layout} {count : Int}

theorem over_rowMajor {shape : List Int} (positive : Positive shape) :
    (rowMajor shape).Over (product shape) :=
  ⟨shape, some, rfl, (clear_rowMajor positive).shows⟩

theorem Over.clear (laid : l.Over count) : l.Clear := by
  obtain ⟨_, _, _, shows⟩ := laid
  exact shows.clear

theorem Over.shows (laid : l.Over count) {shape : List Int} {origin : List Int → Option (List Int)}
    (shows : Shows r l shape origin) : r.Over count := by
  obtain ⟨whole, before, size, first⟩ := laid
  have both := first.trans shows
  rw [← shows.shape_eq] at both
  exact ⟨whole, _, size, both⟩

theorem Over.offset_bounds (laid : l.Over count) {index : List Int} (inside : Inside index l.shape)
    {offset : Int} (known : l.offsetOf? index = some offset) : 0 ≤ offset ∧ offset < count := by
  obtain ⟨whole, origin, rfl, shows⟩ := laid
  rw [shows.shown inside] at known
  obtain ⟨before, source, address⟩ := Option.bind_eq_some_iff.1 known
  have below : Inside before whole := shows.inside inside source
  rw [offsetOf?_rowMajor below] at address
  cases address
  exact below.ravel_bounds

end Layout

end StridedArray
