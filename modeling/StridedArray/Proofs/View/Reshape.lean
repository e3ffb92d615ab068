import StridedArray.Proofs.View.Sound

/-! # Views in another shape

Where `View.reshape?` only gains and loses axes of extent 1, what is shown is decided by the other axes.
An axis of extent 1 that is lost takes its valid range with it.

* `essential` — the entries on the axes whose extent is not 1; they fix position, offset and admission;
* `View.unveiled`, `View.Veiled` — a view with every axis of extent 1 shown, and whether that makes a
  difference;
* `View.Drops` — the case in which axes of extent 1 come and go;
* `View.Sound.reshape` — what a view in another shape shows. -/

namespace StridedArray

open Shape (Inside Positive dot ravel product)

section Essential

variable {α β : Type}

def essential : List Int → List α → List α
  | s :: shape, x :: xs => if s = 1 then essential shape xs else x :: essential shape xs
  | _, _ => []

@[simp] theorem essential_nil (xs : List α) : essential [] xs = [] := rfl

theorem essential_cons_one (shape : List Int) (x : α) (xs : List α) :
    essential (1 :: shape) (x :: xs) = essential shape xs := by
  simp [essential]

theorem essential_cons_of_ne {s : Int} (large : s ≠ 1) (shape : List Int) (x : α) (xs : List α) :
    essential (s :: shape) (x :: xs) = x :: essential shape xs := by
  simp [essential, large]

theorem essential_map (f : α → β) (shape : List Int) (xs : List α) :
    essential shape (xs.map f) = (essential shape xs).map f := by
  induction shape generalizing xs with
  | nil => rfl
  | cons s shape inductionHypothesis =>
    cases xs with
    | nil => rfl
    | cons x xs => by_cases unit : s = 1 <;> simp [essential, unit, inductionHypothesis]

theorem filter_zip_eq (shape : List Int) (xs : List α) (lengths : xs.length = shape.length) :
    (shape.zip xs).filter (fun a => a.1 ≠ 1)
      = (shape.filter (· ≠ 1)).zip (essential shape xs) := by
  induction shape generalizing xs with
  | nil => rfl
  | cons s shape inductionHypothesis =>
    cases xs with
    | nil => cases lengths
    | cons x xs =>
      have rest := inductionHypothesis xs (by simpa using lengths)
      by_cases unit : s = 1 <;> simp_all [essential]

theorem length_essential {shape : List Int} {xs : List α} (lengths : xs.length = shape.length) :
    (essential shape xs).length = (shape.filter (· ≠ 1)).length := by
  induction shape generalizing xs with
  | nil => rfl
  | cons s shape inductionHypothesis =>
    cases xs with
    | nil => cases lengths
    | cons x xs =>
      have rest := @inductionHypothesis xs (by simpa using lengths)
      by_cases unit : s = 1 <;> simp_all [essential]

end Essential

/-! ## Positions -/

theorem product_essential (shape : List Int) : product (shape.filter (· ≠ 1)) = product shape := by
  induction shape with
  | nil => rfl
  | cons s shape inductionHypothesis =>
    by_cases unit : s = 1 <;> simp_all

theorem inside_essential {index shape : List Int} (inside : Inside index shape) :
    Inside (essential shape index) (shape.filter (· ≠ 1)) := by
  induction inside with
  | nil => exact Shape.inside_nil
  | @cons i s _ shape bounds _ inductionHypothesis =>
    by_cases unit : s = 1
    · subst unit
      simpa [essential] using inductionHypothesis
    · have kept : (s :: shape).filter (· ≠ 1) = s :: shape.filter (· ≠ 1) := by simp [unit]
      rw [kept, essential_cons_of_ne unit]
      exact Shape.inside_cons.2 ⟨bounds, inductionHypothesis⟩

theorem ravel_essential {index shape : List Int} (inside : Inside index shape) :
    ravel (essential shape index) (shape.filter (· ≠ 1)) = ravel index shape := by
  induction inside with
  | nil => rfl
  | @cons i s index shape bounds _ inductionHypothesis =>
    by_cases unit : s = 1
    · have zero : i = 0 := by omega
      subst unit
      simpa [essential, zero] using inductionHypothesis
    · have kept : (s :: shape).filter (· ≠ 1) = s :: shape.filter (· ≠ 1) := by simp [unit]
      rw [kept, essential_cons_of_ne unit, Shape.ravel_cons, Shape.ravel_cons, product_essential,
        inductionHypothesis]

/-- Multi-indices at the same position of two shapes that differ in axes of extent 1 alone have the same
    entries on all other axes. -/
theorem essential_eq {index shape other target : List Int} (inside : Inside index shape)
    (otherInside : Inside other target) (same : ravel other target = ravel index shape)
    (kept : shape.filter (· ≠ 1) = target.filter (· ≠ 1)) :
    essential target other = essential shape index := by
  have left := inside_essential otherInside
  rw [← kept] at left
  apply left.eq_of_ravel (inside_essential inside)
  rw [ravel_essential inside, ← same, ← ravel_essential otherInside, kept]

namespace View

theorem dot_essential {index shape strides : List Int} (inside : Inside index shape) :
    dot (essential shape index) (essential shape strides) = dot index strides := by
  induction inside generalizing strides with
  | nil => rfl
  | @cons i s index shape bounds _ inductionHypothesis =>
    cases strides with
    | nil => by_cases unit : s = 1 <;> simp [essential, unit]
    | cons st strides =>
      by_cases unit : s = 1
      · have zero : i = 0 := by omega
        subst unit
        rw [essential_cons_one, essential_cons_one, dot_cons, inductionHypothesis, zero,
          Int.zero_mul, Int.zero_add]
      · rw [essential_cons_of_ne unit, essential_cons_of_ne unit, dot_cons, dot_cons,
          inductionHypothesis]

/-! ## Axes of extent 1 shown -/

def openUnits (shape : List Int) (ranges : List (Int × Int)) : List (Int × Int) :=
  shape.zipWith (fun s r => if s = 1 then (0, 1) else r) ranges

def unveiled (v : View) : View :=
  create v.shape v.strides v.offset (some (openUnits v.shape v.ranges))

def Veiled (v : View) : Prop := ∃ a ∈ v.shape.zip v.ranges, a.1 = 1 ∧ a.2 ≠ (0, 1)

instance (v : View) : Decidable v.Veiled := inferInstanceAs (Decidable (∃ a ∈ _, _))

theorem Within.openUnits {ranges : List (Int × Int)} {shape : List Int}
    (within : Within ranges shape) : Within (openUnits shape ranges) shape := by
  induction within with
  | nil => exact within_nil
  | @cons r s _ _ bounds _ inductionHypothesis =>
    refine within_cons.2 ⟨?_, inductionHypothesis⟩
    by_cases unit : s = 1
    · simp [unit]
    · simpa [unit] using bounds

theorem admits_openUnits {index shape : List Int} {ranges : List (Int × Int)}
    (inside : Inside index shape) (lengths : ranges.length = shape.length) :
    admits (openUnits shape ranges) index
      = admits (essential shape ranges) (essential shape index) := by
  induction inside generalizing ranges with
  | nil => simp [openUnits]
  | @cons i s index shape bounds _ inductionHypothesis =>
    cases ranges with
    | nil => cases lengths
    | cons r ranges =>
      have rest := @inductionHypothesis ranges (by simpa using lengths)
      simp only [openUnits, List.zipWith_cons_cons, admits_cons] at rest ⊢
      by_cases unit : s = 1
      · subst unit
        rw [essential_cons_one, essential_cons_one, ← rest]
        simp [bounds.1, bounds.2]
      · rw [essential_cons_of_ne unit, essential_cons_of_ne unit, admits_cons, ← rest, if_neg unit]

/-- What a view with every axis of extent 1 shown shows depends on the other axes alone. -/
theorem Sound.offsetOf?_unveiled {v : View} (sound : v.Sound) {index : List Int}
    (inside : Inside index v.shape) :
    v.unveiled.offsetOf? index
      = if admits (essential v.shape v.ranges) (essential v.shape index)
        then some (v.offset + dot (essential v.shape index) (essential v.shape v.strides))
        else none := by
  rw [unveiled, offsetOf?_create sound.ranges.openUnits.length_eq inside,
    admits_openUnits inside sound.ranges.length_eq, dot_essential inside]

theorem openUnits_of_not_veiled {v : View} (sound : v.Sound) (shown : ¬ v.Veiled) :
    openUnits v.shape v.ranges = v.ranges := by
  unfold Veiled at shown
  push Not at shown
  have lengths := sound.ranges.length_eq
  apply List.ext_getElem
  · simp [openUnits, lengths]
  · intro k low high
    have bound : k < v.shape.length := by rw [← lengths]; exact high
    have member : (v.shape[k], v.ranges[k]) ∈ v.shape.zip v.ranges := by
      rw [List.mem_iff_getElem]
      exact ⟨k, by simp [bound, high], by simp⟩
    have axis := shown _ member
    simp only [openUnits, List.getElem_zipWith]
    split
    · next unit => exact (axis unit).symm
    · rfl

theorem Sound.unveiled_of_not_veiled {v : View} (sound : v.Sound) (shown : ¬ v.Veiled)
    {index : List Int} (inside : Inside index v.shape) :
    v.unveiled.offsetOf? index = v.offsetOf? index := by
  rw [unveiled, openUnits_of_not_veiled sound shown,
    offsetOf?_create sound.ranges.length_eq inside, offsetOf?_ranges inside]

theorem admits_of_veiled {ranges : List (Int × Int)} {shape index : List Int}
    (within : Within ranges shape) (inside : Inside index shape)
    (veiled : ∃ a ∈ shape.zip ranges, a.1 = 1 ∧ a.2 ≠ (0, 1)) : admits ranges index = false := by
  induction within generalizing index with
  | nil => simp at veiled
  | @cons r s ranges shape bounds _ inductionHypothesis =>
    obtain ⟨i, index, rfl, indexBounds, rest⟩ := Shape.inside_cons_right.1 inside
    obtain ⟨a, member, unit, hidden⟩ := veiled
    rw [List.zip_cons_cons, List.mem_cons] at member
    rw [admits_cons, Bool.and_eq_false_iff]
    rcases member with rfl | member
    · -- Inside of `0 .. 1` the index is zero and the range is empty.
      left
      obtain ⟨low, high⟩ := r
      simp only [ne_eq, Prod.mk.injEq] at unit hidden bounds
      simp only [decide_eq_false_iff_not]
      omega
    · exact .inr (inductionHypothesis rest ⟨a, member, unit, hidden⟩)

theorem Sound.offsetOf?_of_veiled {v : View} (sound : v.Sound) (veiled : v.Veiled)
    {index : List Int} (inside : Inside index v.shape) : v.offsetOf? index = none := by
  rw [offsetOf?_ranges inside, admits_of_veiled sound.ranges inside veiled]
  rfl

/-! ## Axes handed out -/

section Distributed

variable {target : List Int} {pool : List (Int × (Int × Int))}

theorem distribute_one (rest : List Int) (pool : List (Int × (Int × Int))) :
    distribute (1 :: rest) pool = (0, (0, 1)) :: distribute rest pool := by
  simp [distribute]

theorem distribute_of_ne {s : Int} (large : s ≠ 1) (rest : List Int) (axis : Int × (Int × Int))
    (pool : List (Int × (Int × Int))) :
    distribute (s :: rest) (axis :: pool) = axis :: distribute rest pool := by
  simp [distribute, large]

theorem length_distribute (lengths : pool.length = (target.filter (· ≠ 1)).length) :
    (distribute target pool).length = target.length := by
  induction target generalizing pool with
  | nil => rfl
  | cons s target inductionHypothesis =>
    by_cases unit : s = 1
    · subst unit
      rw [distribute_one, List.length_cons, List.length_cons,
        inductionHypothesis (by simpa using lengths)]
    · cases pool with
      | nil => simp [unit] at lengths
      | cons axis pool =>
        rw [distribute_of_ne unit, List.length_cons, List.length_cons,
          inductionHypothesis (by simpa [unit] using lengths)]

theorem essential_distribute (lengths : pool.length = (target.filter (· ≠ 1)).length) :
    essential target (distribute target pool) = pool := by
  induction target generalizing pool with
  | nil => exact (List.length_eq_zero_iff.1 lengths).symm
  | cons s target inductionHypothesis =>
    by_cases unit : s = 1
    · subst unit
      rw [distribute_one, essential_cons_one, inductionHypothesis (by simpa using lengths)]
    · cases pool with
      | nil => simp [unit] at lengths
      | cons axis pool =>
        rw [distribute_of_ne unit, essential_cons_of_ne unit,
          inductionHypothesis (by simpa [unit] using lengths)]

theorem within_distribute (within : Within (pool.map Prod.snd) (target.filter (· ≠ 1))) :
    Within ((distribute target pool).map Prod.snd) target := by
  induction target generalizing pool with
  | nil => exact within_nil
  | cons s target inductionHypothesis =>
    by_cases unit : s = 1
    · subst unit
      rw [distribute_one]
      exact within_cons.2 ⟨by decide, inductionHypothesis (by simpa using within)⟩
    · have kept : (s :: target).filter (· ≠ 1) = s :: target.filter (· ≠ 1) := by simp [unit]
      rw [kept] at within
      cases pool with
      | nil => cases within
      | cons axis pool =>
        rw [distribute_of_ne unit]
        exact within_cons.2 ⟨(within_cons.1 within).1, inductionHypothesis (within_cons.1 within).2⟩

theorem openUnits_distribute (lengths : pool.length = (target.filter (· ≠ 1)).length) :
    openUnits target ((distribute target pool).map Prod.snd)
      = (distribute target pool).map Prod.snd := by
  induction target generalizing pool with
  | nil => rfl
  | cons s target inductionHypothesis =>
    by_cases unit : s = 1
    · subst unit
      have rest := @inductionHypothesis pool (by simpa using lengths)
      simp only [openUnits] at rest
      simp [distribute_one, openUnits, rest]
    · cases pool with
      | nil => simp [unit] at lengths
      | cons axis pool =>
        have rest := @inductionHypothesis pool (by simpa [unit] using lengths)
        simp only [openUnits] at rest
        simp [distribute_of_ne unit, openUnits, unit, rest]

end Distributed

/-! ## Reshaping -/

/-- The case of `reshape?` in which axes of extent 1 come and go: all others stay, and none of those
    that go has the empty range `(0, 0)`. -/
def Drops (v : View) (target : List Int) : Prop :=
  v.contiguous = false ∧ v.shape.filter (· ≠ 1) = target.filter (· ≠ 1)
    ∧ ∀ a ∈ v.shape.zip v.ranges, a.1 = 1 → a.2 ≠ (0, 0)

instance (v : View) (target : List Int) : Decidable (v.Drops target) :=
  inferInstanceAs (Decidable (_ ∧ _ ∧ _))

def regroupedAxes (v : View) (target : List Int) : List (Int × (Int × Int)) :=
  distribute target (essential v.shape (v.strides.zip v.ranges))

def regrouped (v : View) (target : List Int) : View :=
  create target ((v.regroupedAxes target).map Prod.fst) v.offset
    (some ((v.regroupedAxes target).map Prod.snd))

theorem reshape?_eq {v : View} (strideLength : v.strides.length = v.shape.length)
    (rangeLength : v.ranges.length = v.shape.length) (target : List Int) :
    v.reshape? target
      = if v.contiguous then some (rowMajor target)
        else if v.Drops target then some (v.regrouped target) else none := by
  have lengths : (v.strides.zip v.ranges).length = v.shape.length := by
    simp [strideLength, rangeLength]
  have essentialLength := length_essential lengths
  have filtered := filter_zip_eq v.shape (v.strides.zip v.ranges) lengths
  have extents : ((v.shape.zip (v.strides.zip v.ranges)).filter fun a => a.1 ≠ 1).map Prod.fst
      = v.shape.filter (· ≠ 1) := by
    rw [filtered, List.map_fst_zip (le_of_eq essentialLength.symm)]
  have axes : ((v.shape.zip (v.strides.zip v.ranges)).filter fun a => a.1 ≠ 1).map Prod.snd
      = essential v.shape (v.strides.zip v.ranges) := by
    rw [filtered, List.map_snd_zip (le_of_eq essentialLength)]
  have hidden : ((v.shape.zip v.ranges).any fun a => a.1 = 1 && a.2 = (0, 0)) = true
      ↔ ¬ ∀ a ∈ v.shape.zip v.ranges, a.1 = 1 → a.2 ≠ (0, 0) := by
    simp only [List.any_eq_true, Bool.and_eq_true, decide_eq_true_eq]
    push Not
    rfl
  unfold View.reshape?
  cases contiguous : v.contiguous with
  | true => rfl
  | false =>
    simp only [View.axes, extents, axes, Bool.false_eq_true, if_false]
    by_cases kept : v.shape.filter (· ≠ 1) = target.filter (· ≠ 1)
    · rw [if_neg (not_not.2 kept)]
      by_cases open' : ∀ a ∈ v.shape.zip v.ranges, a.1 = 1 → a.2 ≠ (0, 0)
      · rw [if_neg (fun found => hidden.1 found open'), if_pos ⟨contiguous, kept, open'⟩]
        rfl
      · rw [if_pos (hidden.2 open'), if_neg fun drops => open' drops.2.2]
    · rw [if_pos kept, if_neg fun drops => kept drops.2.1]

section Regrouped

variable {v : View} {target : List Int}

theorem regrouped_lengths (arranged : v.Arranged)
    (kept : v.shape.filter (· ≠ 1) = target.filter (· ≠ 1)) :
    (essential v.shape (v.strides.zip v.ranges)).length = (target.filter (· ≠ 1)).length := by
  rw [length_essential (by simp [arranged.strides, arranged.ranges]), kept]

theorem Within.essential {ranges : List (Int × Int)} {shape : List Int}
    (within : Within ranges shape) :
    Within (essential shape ranges) (shape.filter (· ≠ 1)) := by
  induction within with
  | nil => exact within_nil
  | @cons r s ranges shape bounds _ inductionHypothesis =>
    by_cases unit : s = 1
    · subst unit
      rw [essential_cons_one]
      simpa using inductionHypothesis
    · have kept : (s :: shape).filter (· ≠ 1) = s :: shape.filter (· ≠ 1) := by simp [unit]
      rw [essential_cons_of_ne unit, kept]
      exact within_cons.2 ⟨bounds, inductionHypothesis⟩

theorem regrouped_within (sound : v.Sound)
    (kept : v.shape.filter (· ≠ 1) = target.filter (· ≠ 1)) :
    Within ((v.regroupedAxes target).map Prod.snd) target := by
  apply within_distribute
  rw [← essential_map, List.map_snd_zip (by simp [sound.strides, sound.ranges.length_eq]), ← kept]
  exact sound.ranges.essential

theorem Sound.regrouped (sound : v.Sound)
    (kept : v.shape.filter (· ≠ 1) = target.filter (· ≠ 1)) : (v.regrouped target).Sound :=
  Sound.create
    (by rw [List.length_map, regroupedAxes, length_distribute (regrouped_lengths sound.arranged kept)])
    (regrouped_within sound kept) _

theorem not_veiled_regrouped (sound : v.Sound)
    (kept : v.shape.filter (· ≠ 1) = target.filter (· ≠ 1)) : ¬ (v.regrouped target).Veiled := by
  rintro ⟨a, member, unit, hidden⟩
  have within := regrouped_within sound kept
  have shown := @openUnits_distribute target _ (regrouped_lengths sound.arranged kept)
  rw [View.regrouped, create_shape, ranges_create within.length_eq, regroupedAxes, ← shown,
    openUnits, List.mem_iff_getElem] at member
  obtain ⟨k, bound, rfl⟩ := member
  simp only [List.getElem_zip, List.getElem_zipWith] at unit hidden
  exact hidden (if_pos unit)

theorem Sound.offsetOf?_regrouped (sound : v.Sound)
    (kept : v.shape.filter (· ≠ 1) = target.filter (· ≠ 1)) {index other : List Int}
    (inside : Inside index v.shape) (otherInside : Inside other target)
    (same : ravel other target = ravel index v.shape) :
    (v.regrouped target).offsetOf? other = v.unveiled.offsetOf? index := by
  have within := regrouped_within sound kept
  have lengths := regrouped_lengths sound.arranged kept
  have shown := @openUnits_distribute target _ lengths
  have strides : essential target ((v.regroupedAxes target).map Prod.fst)
      = essential v.shape v.strides := by
    rw [essential_map, regroupedAxes, essential_distribute lengths, ← essential_map,
      List.map_fst_zip (by simp [sound.strides, sound.ranges.length_eq])]
  have ranges : essential target ((v.regroupedAxes target).map Prod.snd)
      = essential v.shape v.ranges := by
    rw [essential_map, regroupedAxes, essential_distribute lengths, ← essential_map,
      List.map_snd_zip (by simp [sound.strides, sound.ranges.length_eq])]
  rw [sound.offsetOf?_unveiled inside, View.regrouped, offsetOf?_create within.length_eq otherInside,
    ← dot_essential otherInside, strides, ← essential_eq inside otherInside same kept,
    regroupedAxes, ← shown, admits_openUnits otherInside (by rw [List.length_map, length_distribute lengths])]
  rw [regroupedAxes] at ranges
  rw [ranges]

end Regrouped

theorem settled_of_not_veiled {v : View} (shown : ¬ v.Veiled) : v.Settled := by
  intro a member unit hidden
  exact shown ⟨a, member, unit, by rw [hidden]; decide⟩

theorem Drops.not_veiled {v : View} {target : List Int} (drops : v.Drops target) (sound : v.Sound)
    (settled : v.Settled) : ¬ v.Veiled := by
  rintro ⟨⟨s, low, high⟩, member, unit, hidden⟩
  have bounds := sound.ranges.bounds member
  have empty := drops.2.2 _ member unit
  have full := settled _ member unit
  simp only [ne_eq, Prod.mk.injEq] at bounds empty full hidden unit
  omega

theorem Sound.reshape {v r : View} (sound : v.Sound) {target : List Int}
    (extents : ∀ s ∈ target, 0 ≤ s) (shaped : v.reshape? target = some r) :
    r.Sound ∧ r.Settled ∧ r.shape = target
      ∧ ∀ index other, Inside index v.shape → Inside other target →
        ravel other target = ravel index v.shape →
        r.offsetOf? other
          = if v.Drops target then v.unveiled.offsetOf? index else v.offsetOf? index := by
  rw [reshape?_eq sound.strides sound.ranges.length_eq] at shaped
  cases contiguous : v.contiguous with
  | true =>
    rw [contiguous, if_pos rfl] at shaped
    cases shaped
    refine ⟨sound_rowMajor extents, settled_rowMajor target, rfl, ?_⟩
    intro index other inside otherInside same
    rw [if_neg fun drops => by simpa [contiguous] using drops.1, offsetOf?_rowMajor otherInside,
      eq_rowMajor_of_contiguous contiguous, offsetOf?_rowMajor inside, same]
  | false =>
    rw [contiguous, if_neg Bool.false_ne_true] at shaped
    by_cases drops : v.Drops target
    · rw [if_pos drops] at shaped
      cases shaped
      refine ⟨sound.regrouped drops.2.1,
        settled_of_not_veiled (not_veiled_regrouped sound drops.2.1), rfl, ?_⟩
      intro index other inside otherInside same
      rw [if_pos drops]
      exact sound.offsetOf?_regrouped drops.2.1 inside otherInside same
    · rw [if_neg drops] at shaped
      cases shaped

end View

end StridedArray
