import StridedArray.Proofs.Layout.Moves

/-! # Layouts in another shape

`Layout.reshape` keeps what every row-major position shows, with one exception. Of an axis of extent 1
that hides everything, `View.reshape?` notices the empty range `(0, 0)` and not `(1, 1)`, which is left
behind when such an axis is turned round, or when an axis without positions is padded in front. Losing
that axis shows what it hid.

* `Layout.Sound.addressFlat_eq` — the address of a position in range;
* `Layout.Sound.offsetOf?_reshaped` — what another shape shows;
* `Layout.Unveils` — the exception; `Layout.addressFlat_reshape_iff` — it is the only one. -/

namespace StridedArray.Layout

open Shape (Inside Positive dot ravel unravel product)

/-! ## Positions in range -/

theorem firstOutside?_eq_none {index shape : List Int} (lengths : index.length = shape.length) {axis : Nat} :
    firstOutside? axis index shape = none ↔ Inside index shape := by
  induction index generalizing axis shape with
  | nil => simp [List.length_eq_zero_iff.1 lengths.symm, firstOutside?]
  | cons i index inductionHypothesis =>
    obtain ⟨s, shape, rfl⟩ := List.exists_cons_of_length_eq_add_one lengths.symm
    rw [firstOutside?, Shape.inside_cons]
    split
    · next bounds =>
      rw [inductionHypothesis (by simpa using lengths)]
      exact (and_iff_right bounds).symm
    · next outside => simp [outside]

theorem address_eq {l : Layout} {index : List Int} (inside : Inside index l.shape) :
    l.address index = .ok (l.offsetOf? index) := by
  have lengths : index.length = l.rank := inside.length_eq
  rw [address, if_neg (not_not.2 lengths), (firstOutside?_eq_none lengths).2 inside]
  rfl

theorem address_ok_iff {l : Layout} {index : List Int} :
    (∃ answer, l.address index = .ok answer) ↔ Inside index l.shape := by
  refine ⟨fun ⟨answer, known⟩ => ?_, fun inside => ⟨_, address_eq inside⟩⟩
  rw [address, refuse_eq_ok, not_not] at known
  obtain ⟨lengths, known⟩ := known
  cases outside : firstOutside? 0 index l.shape with
  | some found =>
    rw [outside] at known
    cases known
  | none => exact (firstOutside?_eq_none lengths).1 outside

theorem inside_of_addressFlat {l : Layout} {p : Int} {address : Option Int} (known : l.addressFlat p = .ok address) :
    0 ≤ p ∧ p < l.size := by
  by_contra outside
  rw [addressFlat, if_neg outside] at known
  cases known

theorem Sound.positive {l : Layout} (sound : l.Sound) {p : Int} (low : 0 ≤ p) (high : p < l.size) :
    Positive l.shape :=
  Shape.positive_of_product_pos sound.extents (lt_of_le_of_lt low high)

theorem Sound.addressFlat_eq {l : Layout} (sound : l.Sound) {p : Int} (low : 0 ≤ p)
    (high : p < l.size) : l.addressFlat p = .ok (l.offsetOf? (unravel p l.shape)) := by
  rw [addressFlat, if_pos ⟨low, high⟩,
    address_eq (Shape.inside_unravel (sound.positive low high) p)]

/-! ## Another shape -/

section Reshaped

variable {l : Layout} {target : List Int}

def unveiled (l : Layout) : Layout := l.replaceTop l.top.unveiled

/-- Does `reshape` rewrite the top view by gaining and losing axes of extent 1? -/
def Regroups (l : Layout) (target : List Int) : Prop := target ≠ l.shape ∧ l.top.Drops target

instance (l : Layout) (target : List Int) : Decidable (l.Regroups target) :=
  inferInstanceAs (Decidable (_ ∧ _))

theorem reshaped_self (l : Layout) : l.reshaped l.shape = l := if_pos rfl

theorem shape_reshaped (sound : l.Sound) (extents : ∀ s ∈ target, 0 ≤ s) :
    (l.reshaped target).shape = target := by
  unfold reshaped
  split
  · next same => exact same.symm
  · cases shaped : l.top.reshape? target with
    | some v => exact (sound.top.reshape extents shaped).2.2.1
    | none => rfl

/-- What a layout in another shape shows at a position, in all three ways of getting there. -/
theorem Sound.offsetOf?_reshaped (sound : l.Sound) (extents : ∀ s ∈ target, 0 ≤ s)
    (size : product target = l.size) {p : Int} (low : 0 ≤ p) (high : p < l.size) :
    (l.reshaped target).offsetOf? (unravel p target)
      = if l.Regroups target then l.unveiled.offsetOf? (unravel p l.shape)
        else l.offsetOf? (unravel p l.shape) := by
  have positive := sound.positive low high
  have targetPositive : Positive target :=
    Shape.positive_of_product_pos extents (by omega)
  have inside := Shape.inside_unravel positive p
  have otherInside := Shape.inside_unravel targetPositive p
  have ravelled : ravel (unravel p target) target = p :=
    Shape.ravel_unravel targetPositive low (by omega)
  -- Nothing to do, one view for the other, or one view more; only the second can lose a mask.
  by_cases same : target = l.shape
  · subst same
    rw [reshaped_self, if_neg fun regroups => regroups.1 rfl]
  · rw [reshaped, if_neg same]
    cases shaped : l.top.reshape? target with
    | some v =>
      obtain ⟨_, _, _, shown⟩ := sound.top.reshape extents shaped
      have here := shown _ _ inside otherInside
        (ravelled.trans (Shape.ravel_unravel positive low high).symm)
      show (v.offsetOf? (unravel p target)).bind (descend l.below) = _
      rw [here]
      by_cases drops : l.top.Drops target
      · rw [if_pos drops, if_pos ⟨same, drops⟩]
        rfl
      · rw [if_neg drops, if_neg fun regroups => drops regroups.2]
        rfl
    | none =>
      have kept : ¬ l.Regroups target := by
        intro regroups
        rw [View.reshape?_eq sound.top.strides sound.top.ranges.length_eq, if_neg (by simp [regroups.2.1]),
          if_pos regroups.2] at shaped
        cases shaped
      rw [if_neg kept]
      show ((View.rowMajor target).offsetOf? (unravel p target)).bind (descend (l.top :: l.below)) = _
      rw [View.offsetOf?_rowMajor otherInside, ravelled]
      rfl

theorem Sound.settled_reshaped (sound : l.Sound) (extents : ∀ s ∈ target, 0 ≤ s)
    (other : target ≠ l.shape ∨ l.top.Settled) : (l.reshaped target).top.Settled := by
  unfold reshaped
  by_cases same : target = l.shape
  · rw [if_pos same]
    exact other.resolve_left (not_not.2 same)
  · rw [if_neg same]
    cases shaped : l.top.reshape? target with
    | some v => exact (sound.top.reshape extents shaped).2.1
    | none => exact View.settled_rowMajor target

theorem Sound.offsetOf?_reshaped_of_settled (sound : l.Sound) (settled : l.top.Settled)
    (extents : ∀ s ∈ target, 0 ≤ s) (size : product target = l.size) {p : Int} (low : 0 ≤ p)
    (high : p < l.size) :
    (l.reshaped target).offsetOf? (unravel p target) = l.offsetOf? (unravel p l.shape) := by
  rw [sound.offsetOf?_reshaped extents size low high]
  split
  · next regroups =>
    have inside := Shape.inside_unravel (sound.positive low high) p
    show (l.top.unveiled.offsetOf? _).bind _ = _
    rw [sound.top.unveiled_of_not_veiled (regroups.2.not_veiled sound.top settled) inside]
    rfl
  · rfl

end Reshaped

/-! ## The exception -/

/-- Does `reshape` show what the layout hides? It does if it loses a hidden axis of extent 1, and some
    position has an address once that axis is shown. -/
def Unveils (l : Layout) (target : List Int) : Prop :=
  l.Regroups target ∧ l.top.Veiled
    ∧ ∃ p < l.size.toNat, l.unveiled.offsetOf? (unravel p l.shape) ≠ none

instance (l : Layout) (target : List Int) : Decidable (l.Unveils target) :=
  inferInstanceAs (Decidable (_ ∧ _ ∧ _))

section Exception

variable {l : Layout} {target : List Int}

/-- Another shape shows the same at all positions exactly if it shows nothing that was hidden. -/
theorem Sound.offsetOf?_reshaped_iff (sound : l.Sound) (extents : ∀ s ∈ target, 0 ≤ s)
    (size : product target = l.size) :
    (∀ p, 0 ≤ p → p < l.size →
        (l.reshaped target).offsetOf? (unravel p target) = l.offsetOf? (unravel p l.shape))
      ↔ ¬ l.Unveils target := by
  constructor
  · rintro same ⟨regroups, veiled, k, bound, address⟩
    have high : (k : Int) < l.size := by omega
    have inside := Shape.inside_unravel (sound.positive (by omega) high) k
    have here := same k (by omega) high
    rw [sound.offsetOf?_reshaped extents size (by omega) high, if_pos regroups] at here
    apply address
    rw [here]
    show (l.top.offsetOf? _).bind _ = none
    rw [sound.top.offsetOf?_of_veiled veiled inside]
    rfl
  · intro kept p low high
    rw [sound.offsetOf?_reshaped extents size low high]
    have inside := Shape.inside_unravel (sound.positive low high) p
    split
    · next regroups =>
      by_cases veiled : l.top.Veiled
      · -- Both hide everything: the layout does, and nothing is behind the axis that is lost.
        have nothing : l.unveiled.offsetOf? (unravel p l.shape) = none := by
          by_contra address
          refine kept ⟨regroups, veiled, p.toNat, by omega, ?_⟩
          rwa [Int.toNat_of_nonneg low]
        rw [nothing]
        show none = (l.top.offsetOf? _).bind _
        rw [sound.top.offsetOf?_of_veiled veiled inside]
        rfl
      · show (l.top.unveiled.offsetOf? _).bind _ = _
        rw [sound.top.unveiled_of_not_veiled veiled inside]
        rfl
    · rfl

/-- Reshaping any layout that movements lead to succeeds, and so does the way back. Both keep the
    address of every position, padding included, exactly if no axis of extent 1 is lost that hid
    something. -/
theorem addressFlat_reshape_iff {shape : List Int} {moves : List Move}
    (made : (ofShape shape >>= fun start => start.runAll moves) = .ok l)
    (natural : ∀ m ∈ moves, m.Natural) (extents : ∀ s ∈ target, 0 ≤ s)
    (size : product target = l.size) :
    ∃ r back, l.reshape target = .ok r ∧ r.reshape l.shape = .ok back
      ∧ ((∀ p, 0 ≤ p → p < l.size → r.addressFlat p = l.addressFlat p) ↔ ¬ l.Unveils target)
      ∧ ((∀ p, 0 ≤ p → p < l.size → back.addressFlat p = l.addressFlat p)
          ↔ ¬ l.Unveils target) := by
  obtain ⟨start, fresh, moved⟩ := bind_eq_ok.1 made
  have sound := sound_runAll (sound_ofShape fresh) natural moved
  have first : l.reshape target = .ok (l.reshaped target) := reshape_ok.2 ⟨extents, size, rfl⟩
  have shaped := shape_reshaped sound extents
  have shapedSound := sound.reshape first
  have shapedSize : (l.reshaped target).size = l.size := by rw [Layout.size, shaped, size]
  have second : (l.reshaped target).reshape l.shape = .ok ((l.reshaped target).reshaped l.shape) :=
    reshape_ok.2 ⟨sound.extents, shapedSize.symm, rfl⟩
  refine ⟨_, _, first, second, ?_, ?_⟩
  · rw [← sound.offsetOf?_reshaped_iff extents size]
    refine forall_congr' fun p => forall_congr' fun low => forall_congr' fun high => ?_
    rw [sound.addressFlat_eq low high, shapedSound.addressFlat_eq low (by omega), shaped,
      Except.ok.injEq]
  · have backShape := shape_reshaped shapedSound sound.extents
    have backSound := shapedSound.reshape second
    have backSize : ((l.reshaped target).reshaped l.shape).size = l.size := by
      rw [Layout.size, backShape]
      rfl
    rw [← sound.offsetOf?_reshaped_iff extents size]
    refine forall_congr' fun p => forall_congr' fun low => forall_congr' fun high => ?_
    rw [sound.addressFlat_eq low high, backSound.addressFlat_eq low (by omega), backShape,
      Except.ok.injEq]
    -- On the way back nothing is left to be unveiled.
    by_cases same : target = l.shape
    · subst same
      rw [reshaped_self, reshaped_self]
    · rw [shapedSound.offsetOf?_reshaped_of_settled (sound.settled_reshaped extents (.inl same))
        sound.extents shapedSize.symm low (by omega), shaped]

/-- One position hidden by the range `(1, 1)`: a column of padding that was cut off and turned round. -/
def hiddenPosition : Layout := ⟨{ shape := [1], strides := [0], mask := some [(1, 1)] }, []⟩

/-- Another axis of extent 1 shows the hidden position. -/
theorem addressFlat_reshape_hiddenPosition :
    ∃ r, hiddenPosition.reshape [1, 1] = .ok r
      ∧ ¬ ∀ p, 0 ≤ p → p < hiddenPosition.size →
        r.addressFlat p = hiddenPosition.addressFlat p := by
  obtain ⟨r, _, moved, _, exact, _⟩ := @addressFlat_reshape_iff hiddenPosition [1, 1] [1]
    [.pad [(1, 0)], .shrink [(0, 1)], .flip [0]] rfl (by simp [Move.Natural]) (by decide) (by decide)
  exact ⟨r, moved, fun same => exact.1 same (by decide)⟩

end Exception

end StridedArray.Layout
