import StridedArray.Proofs.View.Sound

/-! # Views moved

Every movement of a well-formed view gives a well-formed view, and shows each multi-index where the view
before shows the one that it came from.

* `behind`, `padded` — padding counted off, and the extents with it; `ahead`, `spans`, `collapse` likewise
  for cutting and repeating;
* `Sound.pad`, `Settled.pad`, `Sound.shrink`, `Sound.settled_shrink`, `Sound.expand`, `Settled.expand` —
  moved views are well formed;
* `Regular.pad`, `Regular.shrink`, `Regular.expand` — with masks that stay inside of them;
* `Regular.drawsOn_pad`, `Regular.drawsOn_shrink`, `Regular.drawsOn_expand` — what they show. -/

namespace StridedArray.View

open Shape (Inside Positive dot ravel product)

/-! ## Padding -/

def behind (index : List Int) (widths : List (Int × Int)) : List Int :=
  index.zipWith (fun i w => i - w.1) widths

def padded (shape : List Int) (widths : List (Int × Int)) : List Int :=
  shape.zipWith (fun s w => s + w.1 + w.2) widths

@[simp] theorem behind_nil (index : List Int) : behind index [] = [] := by
  cases index <;> rfl

@[simp] theorem behind_cons (i : Int) (index : List Int) (w : Int × Int)
    (widths : List (Int × Int)) :
    behind (i :: index) (w :: widths) = (i - w.1) :: behind index widths := rfl

@[simp] theorem padded_cons (s : Int) (shape : List Int) (w : Int × Int)
    (widths : List (Int × Int)) :
    padded (s :: shape) (w :: widths) = (s + w.1 + w.2) :: padded shape widths := rfl

@[simp] theorem length_behind (index : List Int) (widths : List (Int × Int)) :
    (behind index widths).length = min index.length widths.length := by simp [behind]

@[simp] theorem length_padded (shape : List Int) (widths : List (Int × Int)) :
    (padded shape widths).length = min shape.length widths.length := by simp [padded]

theorem padded_of_zeros {shape : List Int} {widths : List (Int × Int)}
    (lengths : widths.length = shape.length) (zeros : ∀ w ∈ widths, w = (0, 0)) :
    padded shape widths = shape := by
  induction widths generalizing shape with
  | nil => simp [List.length_eq_zero_iff.1 lengths.symm, padded]
  | cons w widths inductionHypothesis =>
    cases shape with
    | nil => cases lengths
    | cons s shape =>
      rw [padded_cons, zeros w (List.mem_cons_self ..), inductionHypothesis (by simpa using lengths)
        fun u member => zeros u (List.mem_cons_of_mem _ member)]
      simp

theorem behind_of_lows {index : List Int} {widths : List (Int × Int)}
    (lengths : widths.length = index.length) (zeros : ∀ w ∈ widths, w.1 = 0) :
    behind index widths = index := by
  induction widths generalizing index with
  | nil => simp [List.length_eq_zero_iff.1 lengths.symm]
  | cons w widths inductionHypothesis =>
    cases index with
    | nil => cases lengths
    | cons i index =>
      rw [behind_cons, zeros w (List.mem_cons_self ..), inductionHypothesis (by simpa using lengths)
        fun u member => zeros u (List.mem_cons_of_mem _ member), Int.sub_zero]

theorem positive_padded {shape : List Int} {widths : List (Int × Int)} (positive : Positive shape)
    (natural : ∀ w ∈ widths, 0 ≤ w.1 ∧ 0 ≤ w.2) : Positive (padded shape widths) := by
  induction widths generalizing shape with
  | nil => simp [padded]
  | cons w widths inductionHypothesis =>
    cases shape with
    | nil => simp [padded]
    | cons s shape =>
      rw [Shape.positive_cons] at positive
      have bounds := natural w (List.mem_cons_self ..)
      have extent : 0 < s + w.1 + w.2 := by omega
      exact Shape.positive_cons.2 ⟨extent, inductionHypothesis positive.2
        fun u member => natural u (List.mem_cons_of_mem _ member)⟩

def shifted (ranges widths : List (Int × Int)) : List (Int × Int) :=
  ranges.zipWith (fun r w => (r.1 + w.1, r.2 + w.1)) widths

@[simp] theorem shifted_cons (r w : Int × Int) (ranges widths : List (Int × Int)) :
    shifted (r :: ranges) (w :: widths) = (r.1 + w.1, r.2 + w.1) :: shifted ranges widths := rfl

theorem pad_eq (v : View) (widths : List (Int × Int)) :
    v.pad widths = create (padded v.shape widths) v.strides
      (v.offset - dot (widths.map Prod.fst) v.strides) (some (shifted v.ranges widths)) := rfl

theorem dot_behind {index : List Int} {widths : List (Int × Int)} (strides : List Int)
    (lengths : index.length = widths.length) :
    dot (behind index widths) strides = dot index strides - dot (widths.map Prod.fst) strides := by
  induction widths generalizing index strides with
  | nil => simp [List.length_eq_zero_iff.1 lengths]
  | cons w widths inductionHypothesis =>
    cases index with
    | nil => cases lengths
    | cons i index =>
      cases strides with
      | nil => simp
      | cons st strides =>
        simp only [behind_cons, List.map_cons, dot_cons,
          inductionHypothesis strides (by simpa using lengths)]
        ring

theorem admits_shifted (ranges widths : List (Int × Int)) (index : List Int) :
    admits (shifted ranges widths) index
      = admits ranges (behind index widths) := by
  induction widths generalizing ranges index with
  | nil => simp [shifted]
  | cons w widths inductionHypothesis =>
    cases ranges with
    | nil => simp [shifted]
    | cons r ranges =>
      cases index with
      | nil => simp [behind]
      | cons i index =>
        simp only [shifted_cons, behind_cons, admits_cons, inductionHypothesis]
        congr 2
        exact propext ⟨fun h => by omega, fun h => by omega⟩

theorem Enclosed.shifted {ranges widths : List (Int × Int)} {shape : List Int}
    (enclosed : Enclosed ranges shape) (natural : ∀ w ∈ widths, 0 ≤ w.1 ∧ 0 ≤ w.2) :
    Enclosed (shifted ranges widths) (padded shape widths) := by
  induction enclosed generalizing widths with
  | nil => exact List.Forall₂.nil
  | cons bounds _ inductionHypothesis =>
    cases widths with
    | nil => exact List.Forall₂.nil
    | cons w widths =>
      obtain ⟨low, high⟩ := natural w (List.mem_cons_self ..)
      refine List.Forall₂.cons ?_ (inductionHypothesis fun u member =>
        natural u (List.mem_cons_of_mem _ member))
      dsimp only
      omega

theorem Within.shifted {ranges widths : List (Int × Int)} {shape : List Int}
    (within : Within ranges shape) (natural : ∀ w ∈ widths, 0 ≤ w.1 ∧ 0 ≤ w.2) :
    Within (shifted ranges widths) (padded shape widths) := by
  induction within generalizing widths with
  | nil => exact within_nil
  | cons bounds _ inductionHypothesis =>
    cases widths with
    | nil => exact within_nil
    | cons w widths =>
      obtain ⟨low, high⟩ := natural w (List.mem_cons_self ..)
      refine within_cons.2 ⟨?_, inductionHypothesis fun u member =>
        natural u (List.mem_cons_of_mem _ member)⟩
      dsimp only
      omega

theorem Sound.pad {v : View} (sound : v.Sound) {widths : List (Int × Int)}
    (lengths : widths.length = v.shape.length) (natural : ∀ w ∈ widths, 0 ≤ w.1 ∧ 0 ≤ w.2) :
    (v.pad widths).Sound :=
  Sound.create (by simp [sound.strides, lengths]) (sound.ranges.shifted natural) _

theorem Regular.pad {v : View} (regular : v.Regular) {widths : List (Int × Int)}
    (lengths : widths.length = v.shape.length) (natural : ∀ w ∈ widths, 0 ≤ w.1 ∧ 0 ≤ w.2) :
    (v.pad widths).Regular :=
  Regular.create (by simp [regular.strides, lengths]) (regular.ranges.shifted natural) _

/-- A padded view shows what lies behind the padding, and nothing in it. -/
theorem Regular.drawsOn_pad {v : View} (regular : v.Regular) {widths : List (Int × Int)}
    (lengths : widths.length = v.shape.length) (natural : ∀ w ∈ widths, 0 ≤ w.1 ∧ 0 ≤ w.2) :
    (v.pad widths).DrawsOn v fun index =>
      if Inside (behind index widths) v.shape then some (behind index widths) else none where
  inside := by
    intro index before _ known
    split at known
    · next inside =>
      cases known
      exact inside
    · cases known
  shown := by
    intro index inside
    have indexLength : index.length = widths.length := by
      simp [inside.length_eq, pad_eq, lengths]
    have shown : (v.pad widths).offsetOf? index
        = if admits v.ranges (behind index widths)
          then some (v.offset + dot (behind index widths) v.strides) else none := by
      rw [pad_eq, offsetOf?_create (regular.ranges.shifted natural).length_eq inside, admits_shifted,
        dot_behind _ indexLength]
      congr 2
      ring
    by_cases before : Inside (behind index widths) v.shape
    · rw [shown, if_pos before, Option.bind_some, offsetOf?_ranges before]
    · rw [shown, if_neg before, Option.bind_none, if_neg]
      exact fun admitted => before (regular.ranges.inside (by simp [indexLength, lengths]) admitted)

theorem settled_shifted {shape : List Int} {ranges widths : List (Int × Int)}
    (front : ∀ a ∈ shape.zip widths, a.1 = 0 → a.2 ≠ (1, 0)) (within : Within ranges shape)
    (natural : ∀ w ∈ widths, 0 ≤ w.1 ∧ 0 ≤ w.2)
    (settled : ∀ a ∈ shape.zip ranges, a.1 = 1 → a.2 ≠ (1, 1)) :
    ∀ a ∈ (padded shape widths).zip (shifted ranges widths), a.1 = 1 → a.2 ≠ (1, 1) := by
  induction within generalizing widths with
  | nil => simp [padded]
  | @cons r s ranges shape bounds _ inductionHypothesis =>
    cases widths with
    | nil => simp [padded]
    | cons w widths =>
      obtain ⟨low, high⟩ := natural w (List.mem_cons_self ..)
      obtain ⟨here, others⟩ := List.forall_mem_cons.1 front
      intro a member unit
      rw [padded_cons, shifted_cons, List.zip_cons_cons, List.mem_cons] at member
      rcases member with rfl | member
      · -- An axis of extent 1 had extent 1 before, without padding, or was empty, and then still begins with 0.
        dsimp only at here unit ⊢
        have single : s = 0 → ¬(w.1 = 1 ∧ w.2 = 0) := fun empty both => here empty (Prod.ext both.1 both.2)
        obtain nothing | one : s = 0 ∧ w.1 = 0 ∨ s = 1 ∧ w.1 = 0 := by omega
        · intro hidden
          have low := congrArg Prod.fst hidden
          dsimp only at low
          omega
        · have before := settled (s, r) (List.mem_cons_self ..) one.1
          simpa [one.2] using before
      · exact inductionHypothesis others
          (fun u member => natural u (List.mem_cons_of_mem _ member))
          (fun b member => settled b (List.mem_cons_of_mem _ member)) a member unit

/-- Padding hides no axis in the way that goes unnoticed, unless it is one position in front of an empty axis. -/
theorem Settled.pad {v : View} (settled : v.Settled) (sound : v.Sound) {widths : List (Int × Int)}
    (front : ∀ a ∈ v.shape.zip widths, a.1 = 0 → a.2 ≠ (1, 0)) (natural : ∀ w ∈ widths, 0 ≤ w.1 ∧ 0 ≤ w.2) :
    (v.pad widths).Settled := by
  unfold Settled
  rw [pad_eq, create_shape, ranges_create (sound.ranges.shifted natural).length_eq]
  exact settled_shifted front sound.ranges natural settled

/-! ## Cutting -/

def ahead (index : List Int) (kept : List (Int × Int)) : List Int :=
  index.zipWith (fun i r => i + r.1) kept

def spans (kept : List (Int × Int)) : List Int := kept.map fun r => r.2 - r.1

@[simp] theorem ahead_nil (index : List Int) : ahead index [] = [] := by
  cases index <;> rfl

@[simp] theorem ahead_cons (i : Int) (index : List Int) (r : Int × Int)
    (kept : List (Int × Int)) : ahead (i :: index) (r :: kept) = (i + r.1) :: ahead index kept := rfl

@[simp] theorem spans_cons (r : Int × Int) (kept : List (Int × Int)) :
    spans (r :: kept) = (r.2 - r.1) :: spans kept := rfl

@[simp] theorem spans_fullMask (shape : List Int) : spans (fullMask shape) = shape := by
  simp [spans, fullMask, Function.comp_def]

theorem ahead_fullMask {index shape : List Int} (lengths : index.length = shape.length) :
    ahead index (fullMask shape) = index := by
  induction shape generalizing index with
  | nil => simp [List.length_eq_zero_iff.1 lengths, fullMask]
  | cons s shape inductionHypothesis =>
    cases index with
    | nil => cases lengths
    | cons i index =>
      have rest := @inductionHypothesis index (by simpa using lengths)
      simp only [fullMask] at rest
      simp [fullMask, rest]

theorem shrink_eq (v : View) (kept : List (Int × Int)) :
    v.shrink kept = create (spans kept) v.strides
      (v.offset + dot (kept.map Prod.fst) v.strides) (some (v.ranges.zipWith cutRange kept)) := rfl

theorem dot_ahead {index : List Int} {kept : List (Int × Int)} (strides : List Int)
    (lengths : index.length = kept.length) :
    dot (ahead index kept) strides = dot index strides + dot (kept.map Prod.fst) strides := by
  induction kept generalizing index strides with
  | nil => simp [List.length_eq_zero_iff.1 lengths]
  | cons r kept inductionHypothesis =>
    cases index with
    | nil => cases lengths
    | cons i index =>
      cases strides with
      | nil => simp
      | cons st strides =>
        simp only [ahead_cons, List.map_cons, dot_cons,
          inductionHypothesis strides (by simpa using lengths)]
        ring

theorem admits_cutRange {ranges kept : List (Int × Int)} {index : List Int}
    (lengths : ranges.length = kept.length) (inside : Inside index (spans kept)) :
    admits (ranges.zipWith cutRange kept) index = admits ranges (ahead index kept) := by
  induction kept generalizing ranges index with
  | nil => simp
  | cons k kept inductionHypothesis =>
    rw [spans_cons] at inside
    obtain ⟨i, index, rfl, bounds, rest⟩ := Shape.inside_cons_right.1 inside
    cases ranges with
    | nil => cases lengths
    | cons r ranges =>
      simp only [List.zipWith_cons_cons, ahead_cons, admits_cons,
        inductionHypothesis (by simpa using lengths) rest]
      congr 1
      rw [decide_eq_decide]
      unfold cutRange
      dsimp only
      split <;> omega

theorem Within.cut {ranges kept : List (Int × Int)} {shape : List Int}
    (within : Within ranges shape) (valid : Within kept shape) :
    Within (ranges.zipWith cutRange kept) (spans kept) := by
  induction within generalizing kept with
  | nil =>
    cases kept with
    | nil => exact within_nil
    | cons _ _ => cases valid
  | cons bounds _ inductionHypothesis =>
    cases kept with
    | nil => cases valid
    | cons k kept =>
      rw [within_cons] at valid
      refine within_cons.2 ⟨?_, inductionHypothesis valid.2⟩
      unfold cutRange
      dsimp only
      split <;> dsimp only <;> omega

/-- What is left of a range is inside of what is left of its axis. -/
theorem enclosed_cut {ranges kept : List (Int × Int)} {shape : List Int}
    (lengths : ranges.length = shape.length) (valid : Within kept shape) :
    Enclosed (ranges.zipWith cutRange kept) (spans kept) := by
  induction valid generalizing ranges with
  | nil => rw [List.length_eq_zero_iff.1 lengths]; exact List.Forall₂.nil
  | cons bounds _ inductionHypothesis =>
    cases ranges with
    | nil => cases lengths
    | cons r ranges =>
      refine List.Forall₂.cons ?_ (inductionHypothesis (by simpa using lengths))
      unfold cutRange
      dsimp only
      split <;> dsimp only <;> omega

theorem Regular.shrink {v : View} (regular : v.Regular) {kept : List (Int × Int)}
    (valid : Within kept v.shape) : (v.shrink kept).Regular :=
  Regular.create (by simp [regular.strides, spans, valid.length_eq])
    (enclosed_cut regular.ranges.length_eq valid) _

theorem Sound.shrink {v : View} (sound : v.Sound) {kept : List (Int × Int)}
    (valid : Within kept v.shape) : (v.shrink kept).Sound :=
  Sound.create (by simp [sound.strides, spans, valid.length_eq]) (sound.ranges.cut valid) _

theorem Within.inside_ahead {kept : List (Int × Int)} {shape index : List Int}
    (valid : Within kept shape) (inside : Inside index (spans kept)) :
    Inside (ahead index kept) shape := by
  induction valid generalizing index with
  | nil => rw [ahead_nil]; exact Shape.inside_nil
  | cons bounds _ inductionHypothesis =>
    rw [spans_cons] at inside
    obtain ⟨i, index, rfl, indexBounds, rest⟩ := Shape.inside_cons_right.1 inside
    rw [ahead_cons]
    exact Shape.inside_cons.2 ⟨by omega, inductionHypothesis rest⟩

/-- A part of a view shows what the whole shows there. -/
theorem Regular.drawsOn_shrink {v : View} (regular : v.Regular) {kept : List (Int × Int)}
    (valid : Within kept v.shape) : (v.shrink kept).DrawsOn v fun index => some (ahead index kept) where
  inside := by
    rintro index before inside ⟨⟩
    exact valid.inside_ahead inside
  shown := by
    intro index inside
    rw [shrink_eq, create_shape] at inside
    have lengths : index.length = kept.length := by simp [inside.length_eq, spans]
    have rangeLength : v.ranges.length = kept.length := by
      rw [regular.ranges.length_eq, valid.length_eq]
    rw [shrink_eq, offsetOf?_create (by simp [spans, rangeLength]) inside, Option.bind_some,
      offsetOf?_ranges (valid.inside_ahead inside), admits_cutRange rangeLength inside,
      dot_ahead _ lengths]
    congr 2
    ring

/-- Cutting leaves every hidden axis hidden by the range `(0, 0)`. -/
theorem Sound.settled_shrink {v : View} (sound : v.Sound) {kept : List (Int × Int)}
    (valid : Within kept v.shape) : (v.shrink kept).Settled := by
  intro a member unit
  rw [shrink_eq, create_shape, ranges_create (sound.ranges.cut valid).length_eq] at member
  have cut := (List.of_mem_zip member).2
  rw [← List.map_uncurry_zip_eq_zipWith, List.mem_map] at cut
  obtain ⟨⟨r, k⟩, _, pair⟩ := cut
  rw [← pair]
  dsimp only [Function.uncurry]
  unfold cutRange
  dsimp only
  split
  · intro same
    have low := congrArg Prod.fst same
    have high := congrArg Prod.snd same
    dsimp only at low high
    omega
  · decide

/-! ## Repeating -/

def collapse (shape index : List Int) : List Int :=
  shape.zipWith (fun s i => if s = 1 then 0 else i) index

@[simp] theorem collapse_cons (s : Int) (shape : List Int) (i : Int) (index : List Int) :
    collapse (s :: shape) (i :: index) = (if s = 1 then 0 else i) :: collapse shape index := rfl

theorem collapse_of_inside {index shape : List Int} (inside : Inside index shape) :
    collapse shape index = index := by
  induction inside with
  | nil => rfl
  | @cons i s _ _ bounds _ inductionHypothesis =>
    rw [collapse_cons, inductionHypothesis]
    split
    · have zero : i = 0 := by omega
      rw [zero]
    · rfl

/-- Where an axis of extent 1 is repeated, every position came from the only one. -/
theorem collapse_append {front shape index rest : List Int} (lengths : front.length = index.length) :
    collapse (front ++ shape) (index ++ rest) = collapse front index ++ collapse shape rest := by
  unfold collapse
  rw [List.zipWith_append lengths]

theorem collapse_ones {n : Nat} {index : List Int} (length : index.length = n) :
    collapse (List.replicate n 1) index = List.replicate n 0 := by
  induction index generalizing n with
  | nil =>
    subst length
    rfl
  | cons i index inductionHypothesis =>
    subst length
    rw [List.length_cons, List.replicate_succ, List.replicate_succ, collapse_cons, if_pos rfl,
      inductionHypothesis rfl]

def Stretches (shape target : List Int) : Prop :=
  List.Forall₂ (fun s n => (s = n ∨ s = 1) ∧ 0 ≤ n) shape target

theorem stretches_iff {shape target : List Int} :
    Stretches shape target
      ↔ List.Forall₂ (fun s n => s = n ∨ s = 1) shape target ∧ ∀ n ∈ target, 0 ≤ n := by
  unfold Stretches
  rw [List.forall₂_iff_zip, List.forall₂_iff_zip]
  constructor
  · rintro ⟨lengths, axes⟩
    refine ⟨⟨lengths, fun member => (axes member).1⟩, fun n member => ?_⟩
    rw [← List.map_snd_zip (le_of_eq lengths.symm), List.mem_map] at member
    obtain ⟨a, member, rfl⟩ := member
    exact (axes member).2
  · rintro ⟨⟨lengths, axes⟩, extents⟩
    exact ⟨lengths, fun member => ⟨axes member, extents _ (List.of_mem_zip member).2⟩⟩

theorem stretches_of_inside {shape target index : List Int}
    (axes : List.Forall₂ (fun s n => s = n ∨ s = 1) shape target) (inside : Inside index target) :
    Stretches shape target :=
  stretches_iff.2 ⟨axes, fun n member => le_of_lt (inside.positive n member)⟩

theorem Stretches.inside {shape target : List Int} (stretches : Stretches shape target)
    {index : List Int} (inside : Inside index target) : Inside (collapse shape index) shape := by
  induction stretches generalizing index with
  | nil => exact Shape.inside_nil
  | cons axis _ inductionHypothesis =>
    obtain ⟨i, index, rfl, bounds, rest⟩ := Shape.inside_cons_right.1 inside
    rw [collapse_cons]
    refine Shape.inside_cons.2 ⟨?_, inductionHypothesis rest⟩
    split <;> omega

theorem length_expandAxes {shape target strides : List Int} {ranges : List (Int × Int)}
    (rank : shape.length = target.length) (strideLength : strides.length = shape.length)
    (rangeLength : ranges.length = shape.length) :
    (expandAxes shape target strides ranges).length = target.length := by
  induction shape generalizing target strides ranges with
  | nil => simp [List.length_eq_zero_iff.1 rank.symm, expandAxes]
  | cons s shape inductionHypothesis =>
    obtain ⟨n, target, rfl⟩ := List.exists_cons_of_length_eq_add_one rank.symm
    obtain ⟨st, strides, rfl⟩ := List.exists_cons_of_length_eq_add_one strideLength
    obtain ⟨r, ranges, rfl⟩ := List.exists_cons_of_length_eq_add_one rangeLength
    simp only [expandAxes, List.length_cons]
    rw [inductionHypothesis (by simpa using rank) (by simpa using strideLength) (by simpa using rangeLength)]

theorem Within.expand {shape target strides : List Int} {ranges : List (Int × Int)}
    (within : Within ranges shape) (stretches : Stretches shape target)
    (strideLength : strides.length = shape.length) :
    Within ((expandAxes shape target strides ranges).map Prod.snd) target := by
  induction stretches generalizing strides ranges with
  | nil =>
    cases within
    exact within_nil
  | cons axis _ inductionHypothesis =>
    cases strides with
    | nil => cases strideLength
    | cons st strides =>
      cases ranges with
      | nil => cases within
      | cons r ranges =>
        rw [within_cons] at within
        simp only [expandAxes, List.map_cons]
        refine within_cons.2 ⟨?_, inductionHypothesis within.2 (by simpa using strideLength)⟩
        unfold expandAxis
        split
        · dsimp only
          omega
        · dsimp only
          split <;> dsimp only <;> omega

theorem Enclosed.expand {shape target strides : List Int} {ranges : List (Int × Int)}
    (enclosed : Enclosed ranges shape) (stretches : Stretches shape target)
    (strideLength : strides.length = shape.length) :
    Enclosed ((expandAxes shape target strides ranges).map Prod.snd) target := by
  induction stretches generalizing strides ranges with
  | nil =>
    cases enclosed
    exact List.Forall₂.nil
  | cons axis _ inductionHypothesis =>
    cases strides with
    | nil => cases strideLength
    | cons st strides =>
      cases ranges with
      | nil => cases enclosed
      | cons r ranges =>
        obtain ⟨bounds, others⟩ := List.forall₂_cons.1 enclosed
        simp only [expandAxes, List.map_cons]
        refine List.Forall₂.cons ?_ (inductionHypothesis others (by simpa using strideLength))
        unfold expandAxis
        split
        · dsimp only
          omega
        · dsimp only
          split <;> dsimp only <;> omega

theorem settled_expandAxes {shape target strides : List Int} {ranges : List (Int × Int)}
    (stretches : Stretches shape target)
    (settled : ∀ a ∈ shape.zip ranges, a.1 = 1 → a.2 ≠ (1, 1)) :
    ∀ a ∈ target.zip ((expandAxes shape target strides ranges).map Prod.snd),
      a.1 = 1 → a.2 ≠ (1, 1) := by
  induction stretches generalizing strides ranges with
  | nil => simp
  | @cons s n shape target axis _ inductionHypothesis =>
    cases strides with
    | nil => simp [expandAxes]
    | cons st strides =>
      cases ranges with
      | nil => simp [expandAxes]
      | cons r ranges =>
        intro a member unit
        rw [expandAxes, List.map_cons, List.zip_cons_cons, List.mem_cons] at member
        rcases member with rfl | member
        · -- An axis that is repeated no longer has extent 1.
          have same : s = n := by
            dsimp only at unit
            omega
          have before := settled (s, r) (List.mem_cons_self ..) (by simpa [same] using unit)
          simpa [expandAxis, same] using before
        · exact inductionHypothesis (fun b member => settled b (List.mem_cons_of_mem _ member))
            a member unit

theorem expand_eq (v : View) (target : List Int) :
    v.expand target = create target ((expandAxes v.shape target v.strides v.ranges).map Prod.fst)
      v.offset (some ((expandAxes v.shape target v.strides v.ranges).map Prod.snd)) := rfl

theorem Sound.expand {v : View} (sound : v.Sound) {target : List Int}
    (stretches : Stretches v.shape target) : (v.expand target).Sound :=
  Sound.create
    (by rw [List.length_map, length_expandAxes stretches.length_eq sound.strides sound.ranges.length_eq])
    (sound.ranges.expand stretches sound.strides) _

theorem Regular.expand {v : View} (regular : v.Regular) {target : List Int}
    (stretches : Stretches v.shape target) : (v.expand target).Regular :=
  Regular.create
    (by rw [List.length_map, length_expandAxes stretches.length_eq regular.strides regular.ranges.length_eq])
    (regular.ranges.expand stretches regular.strides) _

theorem Settled.expand {v : View} (settled : v.Settled) (sound : v.Sound) {target : List Int}
    (stretches : Stretches v.shape target) : (v.expand target).Settled := by
  unfold Settled
  rw [expand_eq, create_shape,
    ranges_create (sound.ranges.expand stretches sound.strides).length_eq]
  exact settled_expandAxes stretches settled

theorem admits_expandAxes {shape target strides : List Int} {ranges : List (Int × Int)}
    (stretches : Stretches shape target) (enclosed : Enclosed ranges shape)
    (strideLength : strides.length = shape.length) {index : List Int}
    (inside : Inside index target) :
    admits ((expandAxes shape target strides ranges).map Prod.snd) index
      = admits ranges (collapse shape index) := by
  induction stretches generalizing strides ranges index with
  | nil =>
    cases enclosed
    simp [expandAxes]
  | @cons s n shape target axis _ inductionHypothesis =>
    obtain ⟨i, index, rfl, indexBounds, rest⟩ := Shape.inside_cons_right.1 inside
    cases strides with
    | nil => cases strideLength
    | cons st strides =>
      cases ranges with
      | nil => cases enclosed
      | cons r ranges =>
        obtain ⟨bounds, others⟩ := List.forall₂_cons.1 enclosed
        simp only [expandAxes, List.map_cons, collapse_cons, admits_cons,
          inductionHypothesis others (by simpa using strideLength) rest]
        congr 1
        rw [decide_eq_decide]
        obtain ⟨low, high⟩ := r
        unfold expandAxis
        dsimp only at bounds ⊢
        by_cases same : s = n
        · rw [if_pos same]
          dsimp only
          split <;> omega
        · have unit : s = 1 := by omega
          rw [if_neg same, if_pos unit]
          simp only [Prod.mk.injEq]
          -- Of an axis of extent 1 the range is `(0, 1)`, or it is empty.
          by_cases shown : low = 0 ∧ high = 1
          · rw [if_pos shown]
            dsimp only
            omega
          · rw [if_neg shown]
            dsimp only
            omega

theorem dot_expandAxes {shape target strides : List Int} {ranges : List (Int × Int)}
    (stretches : Stretches shape target) (rangeLength : ranges.length = shape.length)
    (strideLength : strides.length = shape.length) {index : List Int}
    (inside : Inside index target) :
    dot index ((expandAxes shape target strides ranges).map Prod.fst)
      = dot (collapse shape index) strides := by
  induction stretches generalizing strides ranges index with
  | nil => simp [Shape.inside_nil_right.1 inside, collapse]
  | @cons s n shape target axis _ inductionHypothesis =>
    obtain ⟨i, index, rfl, bounds, rest⟩ := Shape.inside_cons_right.1 inside
    cases strides with
    | nil => cases strideLength
    | cons st strides =>
      cases ranges with
      | nil => cases rangeLength
      | cons r ranges =>
        simp only [expandAxes, List.map_cons, collapse_cons, dot_cons,
          inductionHypothesis (by simpa using rangeLength) (by simpa using strideLength) rest]
        unfold expandAxis
        by_cases same : s = n
        · rw [if_pos same]
          by_cases unit : s = 1
          · have zero : i = 0 := by omega
            simp [zero]
          · rw [if_neg unit]
        · have unit : s = 1 := by omega
          rw [if_neg same, if_pos unit, Int.mul_zero, Int.zero_mul]

/-- A repeated axis shows the same everywhere. -/
theorem Regular.drawsOn_expand {v : View} (regular : v.Regular) {target : List Int}
    (axes : List.Forall₂ (fun s n => s = n ∨ s = 1) v.shape target) :
    (v.expand target).DrawsOn v fun index => some (collapse v.shape index) where
  inside := by
    rintro index before inside ⟨⟩
    exact (stretches_of_inside axes inside).inside inside
  shown := by
    intro index inside
    rw [expand_eq, create_shape] at inside
    have stretches := stretches_of_inside axes inside
    have lengths := length_expandAxes stretches.length_eq regular.strides regular.ranges.length_eq
    rw [expand_eq, offsetOf?_create (by rw [List.length_map, lengths]) inside, Option.bind_some,
      offsetOf?_ranges (stretches.inside inside),
      admits_expandAxes stretches regular.ranges regular.strides inside,
      dot_expandAxes stretches regular.ranges.length_eq regular.strides inside]

end StridedArray.View
