import StridedArray.Proofs.Box
import StridedArray.View

/-! # Well-formed views

What every view made by the movements has in common, and what such a view does to a multi-index.

* `View.Within`, `View.Sound` — valid ranges inside the extents; one stride and one range per axis, no
  stride on an axis of extent 1, no mask that hides nothing;
* `View.Arranged` — the part of this that does not compare ranges with extents; `View.Enclosed`,
  `View.Regular` — the part that decides what is shown;
* `View.Sound.create`, `View.Arranged.create`, `View.Regular.create` — the normal form makes such views;
* `View.offsetOf?_ranges`, `View.offsetOf?_create`, `View.offsetOf?_rowMajor` — the offset of a
  multi-index;
* `View.DrawsOn` — a view shows what another one shows elsewhere;
* `View.Settled` — an axis of extent 1 is either shown or hidden by the range `(0, 0)`. -/

namespace StridedArray

open Shape (Inside Positive dot ravel product)

namespace View

def Within (ranges : List (Int × Int)) (shape : List Int) : Prop :=
  List.Forall₂ (fun r s => 0 ≤ r.1 ∧ r.1 ≤ r.2 ∧ r.2 ≤ s) ranges shape

structure Sound (v : View) : Prop where
  extents : ∀ s ∈ v.shape, 0 ≤ s
  strides : v.strides.length = v.shape.length
  ranges : Within v.ranges v.shape
  /-- An axis of extent 1 does not move the offset. -/
  still : settleStrides v.shape v.strides = v.strides
  /-- A mask hides something. -/
  masked : ∀ mask, v.mask = some mask → coversAll mask v.shape = false

/-- One stride and one range for every axis, whatever the extents are; no stride on an axis of extent 1,
    no mask that hides nothing. -/
structure Arranged (v : View) : Prop where
  strides : v.strides.length = v.shape.length
  ranges : v.ranges.length = v.shape.length
  still : settleStrides v.shape v.strides = v.strides
  masked : ∀ mask, v.mask = some mask → coversAll mask v.shape = false

/-- One range for every axis, none of which begins before the axis or ends behind it. It may end before
    it begins. -/
def Enclosed (ranges : List (Int × Int)) (shape : List Int) : Prop :=
  List.Forall₂ (fun r s => 0 ≤ r.1 ∧ r.2 ≤ s) ranges shape

/-- A view with one stride and one enclosed range for every axis. An axis without a mask may have any
    extent. -/
structure Regular (v : View) : Prop where
  strides : v.strides.length = v.shape.length
  ranges : Enclosed v.ranges v.shape

@[simp] theorem within_nil : Within [] [] := List.Forall₂.nil

@[simp] theorem within_cons {r : Int × Int} {s : Int} {ranges : List (Int × Int)}
    {shape : List Int} :
    Within (r :: ranges) (s :: shape) ↔ (0 ≤ r.1 ∧ r.1 ≤ r.2 ∧ r.2 ≤ s) ∧ Within ranges shape :=
  List.forall₂_cons

theorem Within.length_eq {ranges : List (Int × Int)} {shape : List Int}
    (within : Within ranges shape) : ranges.length = shape.length := List.Forall₂.length_eq within

theorem Within.extents {ranges : List (Int × Int)} {shape : List Int}
    (within : Within ranges shape) : ∀ s ∈ shape, 0 ≤ s := by
  induction within with
  | nil => simp
  | cons bounds _ inductionHypothesis =>
    intro s member
    rcases List.mem_cons.1 member with rfl | member
    · omega
    · exact inductionHypothesis s member

theorem Within.bounds {ranges : List (Int × Int)} {shape : List Int} (within : Within ranges shape)
    {a : Int × (Int × Int)} (member : a ∈ shape.zip ranges) :
    0 ≤ a.2.1 ∧ a.2.1 ≤ a.2.2 ∧ a.2.2 ≤ a.1 :=
  (List.forall₂_iff_zip.1 within.flip).2 member

theorem within_fullMask {shape : List Int} (extents : ∀ s ∈ shape, 0 ≤ s) :
    Within (fullMask shape) shape := by
  induction shape with
  | nil => exact within_nil
  | cons s shape inductionHypothesis =>
    have head := extents s (List.mem_cons_self ..)
    exact within_cons.2 ⟨⟨le_refl _, head, le_refl _⟩,
      inductionHypothesis fun e member => extents e (List.mem_cons_of_mem _ member)⟩

/-! ## Ranges -/

@[simp] theorem admits_nil (index : List Int) : admits [] index = true := by
  simp [admits]

@[simp] theorem admits_nil_index (mask : List (Int × Int)) : admits mask [] = true := by
  simp [admits]

@[simp] theorem admits_cons (r : Int × Int) (mask : List (Int × Int)) (i : Int) (index : List Int) :
    admits (r :: mask) (i :: index) = (decide (r.1 ≤ i ∧ i < r.2) && admits mask index) := by
  simp [admits]

theorem admits_fullMask {index shape : List Int} (inside : Inside index shape) :
    admits (fullMask shape) index = true := by
  induction inside with
  | nil => rfl
  | cons bounds _ inductionHypothesis =>
    simp only [fullMask, List.map_cons, admits_cons, Bool.and_eq_true, decide_eq_true_eq]
    exact ⟨bounds, inductionHypothesis⟩

theorem Enclosed.length_eq {ranges : List (Int × Int)} {shape : List Int}
    (enclosed : Enclosed ranges shape) : ranges.length = shape.length := List.Forall₂.length_eq enclosed

theorem Within.enclosed {ranges : List (Int × Int)} {shape : List Int} (within : Within ranges shape) :
    Enclosed ranges shape :=
  within.imp fun _ _ bounds => ⟨bounds.1, bounds.2.2⟩

theorem Sound.regular {v : View} (sound : v.Sound) : v.Regular := ⟨sound.strides, sound.ranges.enclosed⟩

theorem Sound.arranged {v : View} (sound : v.Sound) : v.Arranged :=
  ⟨sound.strides, sound.ranges.length_eq, sound.still, sound.masked⟩

theorem Enclosed.inside {ranges : List (Int × Int)} {shape index : List Int}
    (enclosed : Enclosed ranges shape) (lengths : index.length = shape.length)
    (admitted : admits ranges index = true) : Inside index shape := by
  induction enclosed generalizing index with
  | nil => rw [List.length_eq_zero_iff.1 lengths]; exact Shape.inside_nil
  | cons bounds _ inductionHypothesis =>
    cases index with
    | nil => cases lengths
    | cons i index =>
      simp only [admits_cons, Bool.and_eq_true, decide_eq_true_eq] at admitted
      exact Shape.inside_cons.2
        ⟨by omega, inductionHypothesis (by simpa using lengths) admitted.2⟩

theorem eq_fullMask_of_coversAll {mask : List (Int × Int)} {shape : List Int}
    (lengths : mask.length = shape.length) (covers : coversAll mask shape = true) :
    mask = fullMask shape := by
  induction shape generalizing mask with
  | nil => rw [List.length_eq_zero_iff.1 lengths]; rfl
  | cons s shape inductionHypothesis =>
    cases mask with
    | nil => cases lengths
    | cons r mask =>
      simp only [coversAll, List.zip_cons_cons, List.all_cons, Bool.and_eq_true,
        decide_eq_true_eq] at covers
      have rest := inductionHypothesis (by simpa using lengths) covers.2
      simp [fullMask, rest, covers.1]

theorem coversAll_fullMask (shape : List Int) : coversAll (fullMask shape) shape = true := by
  induction shape with
  | nil => rfl
  | cons s shape inductionHypothesis =>
    simp only [coversAll, fullMask] at inductionHypothesis
    simp [coversAll, fullMask, inductionHypothesis]

/-! ## The normal form -/

@[simp] theorem length_settleStrides (shape strides : List Int) :
    (settleStrides shape strides).length = min shape.length strides.length := by
  simp [settleStrides]

theorem settleStrides_idem (shape strides : List Int) :
    settleStrides shape (settleStrides shape strides) = settleStrides shape strides := by
  induction shape generalizing strides with
  | nil => rfl
  | cons s shape inductionHypothesis =>
    cases strides with
    | nil => rfl
    | cons st strides =>
      have tail := inductionHypothesis strides
      simp only [settleStrides, List.zipWith_cons_cons, List.cons.injEq] at tail ⊢
      exact ⟨by split <;> rfl, tail⟩

@[simp] theorem dot_cons (i st : Int) (index strides : List Int) :
    dot (i :: index) (st :: strides) = i * st + dot index strides := rfl

@[simp] theorem dot_nil (index : List Int) : dot index [] = 0 := by cases index <;> rfl

@[simp] theorem dot_nil_index (strides : List Int) : dot [] strides = 0 := rfl

theorem dot_settleStrides {index shape : List Int} (inside : Inside index shape)
    (strides : List Int) : dot index (settleStrides shape strides) = dot index strides := by
  induction inside generalizing strides with
  | nil => cases strides <;> rfl
  | @cons i s index shape bounds _ inductionHypothesis =>
    cases strides with
    | nil => rfl
    | cons st strides =>
      have tail := inductionHypothesis strides
      simp only [settleStrides, List.zipWith_cons_cons, dot_cons] at tail ⊢
      rw [tail]
      split
      · have zero : i = 0 := by omega
        rw [zero, Int.zero_mul, Int.zero_mul]
      · rfl

@[simp] theorem create_strides (shape strides : List Int) (offset : Int)
    (mask : Option (List (Int × Int))) :
    (create shape strides offset mask).strides = settleStrides shape strides := rfl

@[simp] theorem ranges_create_none (shape strides : List Int) (offset : Int) :
    (create shape strides offset none).ranges = fullMask shape := rfl

theorem mask_create (shape strides : List Int) (offset : Int) (mask : List (Int × Int)) :
    (create shape strides offset (some mask)).mask
      = if coversAll mask shape then none else some mask := by
  simp only [create, Option.filter_some]
  cases coversAll mask shape <;> rfl

theorem ranges_create {mask : List (Int × Int)} {shape : List Int}
    (lengths : mask.length = shape.length) (strides : List Int) (offset : Int) :
    (create shape strides offset (some mask)).ranges = mask := by
  rw [ranges, mask_create]
  split
  · next covers => exact (eq_fullMask_of_coversAll lengths covers).symm
  · rfl

theorem Regular.create {shape strides : List Int} {mask : List (Int × Int)}
    (lengths : strides.length = shape.length) (enclosed : Enclosed mask shape) (offset : Int) :
    (create shape strides offset (some mask)).Regular where
  strides := by simp [lengths]
  ranges := by
    rw [ranges_create enclosed.length_eq]
    exact enclosed

/-- The normal form of lists of one length has a stride and a range for every axis. -/
theorem Arranged.create {shape strides : List Int} {mask : List (Int × Int)}
    (strideLength : strides.length = shape.length) (maskLength : mask.length = shape.length) (offset : Int) :
    (create shape strides offset (some mask)).Arranged where
  strides := by simp [strideLength]
  ranges := by
    rw [ranges_create maskLength]
    exact maskLength
  still := settleStrides_idem shape strides
  masked := by
    intro kept known
    rw [mask_create] at known
    split at known
    · cases known
    · next covers =>
      cases known
      simpa using covers

theorem arranged_rowMajor (shape : List Int) : (rowMajor shape).Arranged where
  strides := by simp [rowMajor]
  ranges := by simp [rowMajor, fullMask]
  still := settleStrides_idem shape _
  masked := by
    intro kept known
    cases known

/-- The normal form of matching lists is well formed. -/
theorem Sound.create {shape strides : List Int} {mask : List (Int × Int)}
    (lengths : strides.length = shape.length) (within : Within mask shape) (offset : Int) :
    (create shape strides offset (some mask)).Sound where
  extents := within.extents
  strides := (Arranged.create lengths within.length_eq offset).strides
  ranges := by
    rw [ranges_create within.length_eq]
    exact within
  still := (Arranged.create lengths within.length_eq offset).still
  masked := (Arranged.create lengths within.length_eq offset).masked

theorem sound_rowMajor {shape : List Int} (extents : ∀ s ∈ shape, 0 ≤ s) :
    (rowMajor shape).Sound where
  extents := extents
  strides := (arranged_rowMajor shape).strides
  ranges := within_fullMask extents
  still := (arranged_rowMajor shape).still
  masked := (arranged_rowMajor shape).masked

/-! ## Offsets -/

/-- What is in the valid ranges has an offset. -/
theorem offsetOf?_ranges {v : View} {index : List Int} (inside : Inside index v.shape) :
    v.offsetOf? index
      = if admits v.ranges index then some (v.offset + dot index v.strides) else none := by
  cases known : v.mask with
  | some mask => simp only [View.offsetOf?, View.ranges, known, Option.getD_some]
  | none =>
    simp only [View.offsetOf?, View.ranges, known, Option.getD_none, admits_fullMask inside, if_true]

theorem offsetOf?_create {mask : List (Int × Int)} {shape index : List Int}
    (lengths : mask.length = shape.length) (inside : Inside index shape) (strides : List Int)
    (offset : Int) :
    (create shape strides offset (some mask)).offsetOf? index
      = if admits mask index then some (offset + dot index strides) else none := by
  rw [View.offsetOf?, mask_create, create_strides, create_offset, dot_settleStrides inside]
  cases covers : coversAll mask shape with
  | false => rfl
  | true =>
    have shown := admits_fullMask inside
    rw [← eq_fullMask_of_coversAll lengths covers] at shown
    simp [shown]

theorem offsetOf?_create_none {shape index : List Int} (inside : Inside index shape)
    (strides : List Int) (offset : Int) :
    (create shape strides offset none).offsetOf? index = some (offset + dot index strides) := by
  simp [View.offsetOf?, create, dot_settleStrides inside]

/-- The view of a whole array shows a multi-index at its position. -/
theorem offsetOf?_rowMajor {shape index : List Int} (inside : Inside index shape) :
    (rowMajor shape).offsetOf? index = some (ravel index shape) := by
  rw [rowMajor, offsetOf?_create_none inside, Int.zero_add]
  rfl

theorem eq_rowMajor_of_contiguous {v : View} (contiguous : v.contiguous = true) :
    v = rowMajor v.shape := by
  obtain ⟨shape, strides, offset, mask⟩ := v
  simp only [View.contiguous, Bool.and_eq_true, decide_eq_true_eq, Option.isNone_iff_eq_none]
    at contiguous
  obtain ⟨⟨zero, unmasked⟩, same⟩ := contiguous
  subst zero
  subst unmasked
  rw [same]
  rfl

/-- The first view shows at every multi-index what the second one shows at the multi-index that it came
    from, and nothing where it came from none. -/
structure DrawsOn (v u : View) (origin : List Int → Option (List Int)) : Prop where
  inside : ∀ {index before}, Inside index v.shape → origin index = some before → Inside before u.shape
  shown : ∀ {index}, Inside index v.shape → v.offsetOf? index = (origin index).bind u.offsetOf?

/-! ## Axes of extent 1 -/

/-- An axis of extent 1 is shown, or hidden by the range `(0, 0)`. Only then does `reshape?` see that
    it is hidden. -/
def Settled (v : View) : Prop := ∀ a ∈ v.shape.zip v.ranges, a.1 = 1 → a.2 ≠ (1, 1)

theorem settled_rowMajor (shape : List Int) : (rowMajor shape).Settled := by
  intro a member unit
  rw [rowMajor, ranges_create_none, create_shape] at member
  rw [fullMask, List.zip_map_right, List.mem_map] at member
  obtain ⟨⟨s, t⟩, pair, rfl⟩ := member
  simp

end View

end StridedArray
