import StridedArray.Proofs.Outcome
import StridedArray.Proofs.View.Moves
import StridedArray.Proofs.View.Order
import StridedArray.Proofs.View.Reshape

/-! # Layouts moved

* `Layout.reshape_ok` … `Layout.flip_ok` — when a movement succeeds, and what it gives;
* `Layout.Sound` — every view of the stack is well formed; `Move.sound_run` and `Layout.sound_runAll` —
  movements keep that. -/

namespace StridedArray

open Shape (Inside Positive dot ravel product)
open View (Within Stretches pick)

namespace Layout

/-! ## When movements succeed -/

def reshaped (l : Layout) (target : List Int) : Layout :=
  if target = l.shape then l
  else
    match l.top.reshape? target with
    | some v => l.replaceTop v
    | none => ⟨View.rowMajor target, l.top :: l.below⟩

theorem any_negative {shape : List Int} : (shape.any (· < 0)) = false ↔ ∀ s ∈ shape, 0 ≤ s := by
  simp

theorem reshape_ok {l r : Layout} {target : List Int} :
    l.reshape target = .ok r
      ↔ (∀ s ∈ target, 0 ≤ s) ∧ product target = l.size ∧ l.reshaped target = r := by
  unfold Layout.reshape reshaped
  rw [refuse_eq_ok, refuse_eq_ok, Bool.not_eq_true, any_negative, not_not]
  refine and_congr_right fun _ => and_congr_right fun _ => ?_
  split
  · exact pure_eq_ok
  · cases l.top.reshape? target <;> exact pure_eq_ok

theorem pad_ok {l r : Layout} {widths : List (Int × Int)} :
    l.pad widths = .ok r
      ↔ widths.length = l.rank ∧ (∀ w ∈ widths, 0 ≤ w.1 ∧ 0 ≤ w.2)
        ∧ (if ∀ w ∈ widths, w = (0, 0) then l else l.replaceTop (l.top.pad widths)) = r := by
  have natural : (widths.any fun w => w.1 < 0 || w.2 < 0) = false
      ↔ ∀ w ∈ widths, 0 ≤ w.1 ∧ 0 ≤ w.2 := by simp
  have nothing : (widths.all (· = (0, 0))) = true ↔ ∀ w ∈ widths, w = (0, 0) := by simp
  unfold Layout.pad requirePairs
  simp only [bind_eq_ok, demand_eq_ok, throw_bind, refuse_eq_ok, Bool.not_eq_true, natural, nothing,
    exists_and_right, pure_eq_ok, and_true, exists_const, choice_eq_ok]

theorem firstBadRange?_eq_none {axis : Nat} {ranges : List (Int × Int)} {shape : List Int}
    (lengths : ranges.length = shape.length) :
    firstBadRange? axis ranges shape = none ↔ Within ranges shape := by
  induction ranges generalizing axis shape with
  | nil => simp [List.length_eq_zero_iff.1 lengths.symm, firstBadRange?]
  | cons r ranges inductionHypothesis =>
    cases shape with
    | nil => cases lengths
    | cons s shape =>
      rw [View.within_cons, ← @inductionHypothesis (axis + 1) shape (by simpa using lengths),
        firstBadRange?]
      split <;> simp_all

theorem shrink_ok {l r : Layout} {ranges : List (Int × Int)} :
    l.shrink ranges = .ok r
      ↔ Within ranges l.shape
        ∧ (if ranges = View.fullMask l.shape then l else l.replaceTop (l.top.shrink ranges)) = r := by
  unfold Layout.shrink requirePairs
  simp only [bind_eq_ok, demand_eq_ok, exists_and_right, pure_eq_ok, and_true, exists_const]
  constructor
  · rintro ⟨lengths, result⟩
    cases bad : firstBadRange? 0 ranges l.shape with
    | some fault => simp [bad] at result
    | none =>
      rw [bad] at result
      exact ⟨(firstBadRange?_eq_none lengths).1 bad, choice_eq_ok.1 result⟩
  · rintro ⟨within, result⟩
    refine ⟨within.length_eq, ?_⟩
    rw [(firstBadRange?_eq_none within.length_eq).2 within]
    exact choice_eq_ok.2 result

theorem any_mismatch {shape target : List Int} (lengths : shape.length = target.length) :
    ((shape.zip target).any fun a => a.1 ≠ a.2 && a.1 ≠ 1) = false
      ↔ List.Forall₂ (fun s n => s = n ∨ s = 1) shape target := by
  induction shape generalizing target with
  | nil => simp [List.length_eq_zero_iff.1 lengths.symm]
  | cons s shape inductionHypothesis =>
    cases target with
    | nil => cases lengths
    | cons n target =>
      rw [List.forall₂_cons, ← inductionHypothesis (by simpa using lengths)]
      simp [or_iff_not_imp_left]

theorem expand_ok {l r : Layout} {target : List Int} :
    l.expand target = .ok r
      ↔ List.Forall₂ (fun s n => s = n ∨ s = 1) l.shape target
        ∧ (if target = l.shape then l else l.replaceTop (l.top.expand target)) = r := by
  unfold Layout.expand
  rw [refuse_eq_ok, refuse_eq_ok, not_not, Bool.not_eq_true]
  constructor
  · rintro ⟨lengths, stretches, result⟩
    exact ⟨(any_mismatch lengths.symm).1 stretches, choice_eq_ok.1 result⟩
  · rintro ⟨stretches, result⟩
    exact ⟨stretches.length_eq.symm, (any_mismatch stretches.length_eq).2 stretches,
      choice_eq_ok.2 result⟩

theorem permute_ok {l r : Layout} {order : List Int} :
    l.permute order = .ok r
      ↔ order.Perm (axisNumbers l.rank) ∧ ∃ v, l.top.permute? order = some v ∧ l.replaceTop v = r := by
  unfold Layout.permute
  rw [demand_eq_ok, List.isPerm_iff]
  refine and_congr_right fun _ => ?_
  cases l.top.permute? order <;> simp

theorem tile_ok {l r : Layout} {counts : List Int} :
    l.tile counts = .ok r
      ↔ counts.length = l.rank ∧ (∀ c ∈ counts, 1 ≤ c)
        ∧ ∃ split, l.reshape (interleave (l.shape.map fun _ => 1) l.shape) = .ok split
        ∧ ∃ tiled, split.expand (interleave counts l.shape) = .ok tiled
        ∧ tiled.reshape (counts.zipWith (· * ·) l.shape) = .ok r := by
  unfold Layout.tile
  simp only [throw_bind, refuse_eq_ok, bind_eq_ok, not_or, not_not, and_assoc]
  refine and_congr_right fun _ => and_congr_left fun _ => ?_
  simp

theorem normalizeAxis_lt {axis : Int} {rank place : Nat}
    (placed : Shape.normalizeAxis axis rank = .ok place) : place < rank := by
  unfold Shape.normalizeAxis at placed
  rw [demand_eq_ok, pure_eq_ok] at placed
  obtain ⟨bounds, rfl⟩ := placed
  have positive : 0 < (rank : Int) := by omega
  have low := Int.emod_nonneg axis (by omega : (rank : Int) ≠ 0)
  have high := Int.emod_lt_of_pos axis positive
  omega

theorem normalizeAxis_natCast {axis rank : Nat} (bound : axis < rank) :
    Shape.normalizeAxis (Int.ofNat axis) rank = .ok axis := by
  have inside : -(rank : Int) ≤ Int.ofNat axis ∧ Int.ofNat axis < rank := by
    simp only [Int.ofNat_eq_natCast]
    omega
  rw [Shape.normalizeAxis, if_pos inside, Int.emod_eq_of_lt (by simp) inside.2]
  rfl

theorem places_natCast {axes : List Nat} {rank : Nat} (bounds : ∀ axis ∈ axes, axis < rank) :
    (axes.map Int.ofNat).mapM (fun a => Shape.normalizeAxis a rank) = .ok axes := by
  rw [mapM_eq_ok, List.forall₂_map_left_iff, List.forall₂_same]
  exact fun axis member => normalizeAxis_natCast (bounds axis member)

theorem flip_ok {l r : Layout} {axes : List Int} :
    l.flip axes = .ok r
      ↔ ∃ places : List Nat, axes.mapM (fun a => Shape.normalizeAxis a l.rank) = .ok places
        ∧ ∃ v, l.top.flip? (places.map Int.ofNat) = some v ∧ l.replaceTop v = r := by
  unfold Layout.flip
  simp only [bind_eq_ok]
  refine exists_congr fun places => and_congr_right fun _ => ?_
  cases l.top.flip? (places.map Int.ofNat) <;> simp

/-! ## Well-formed layouts -/

def Sound (l : Layout) : Prop := ∀ v ∈ l.top :: l.below, v.Sound

theorem Sound.top {l : Layout} (sound : l.Sound) : l.top.Sound := sound _ (List.mem_cons_self ..)

theorem Sound.extents {l : Layout} (sound : l.Sound) : ∀ s ∈ l.shape, 0 ≤ s := sound.top.extents

theorem Sound.replaceTop {l : Layout} (sound : l.Sound) {v : View} (top : v.Sound) :
    (l.replaceTop v).Sound := by
  intro u member
  rcases List.mem_cons.1 member with rfl | member
  · exact top
  · exact sound u (List.mem_cons_of_mem _ member)

theorem sound_rowMajor {shape : List Int} (extents : ∀ s ∈ shape, 0 ≤ s) :
    (rowMajor shape).Sound := by
  intro v member
  rw [List.mem_singleton.1 member]
  exact View.sound_rowMajor extents

variable {l r : Layout}

theorem Sound.reshape (sound : l.Sound) {target : List Int} (moved : l.reshape target = .ok r) :
    r.Sound := by
  obtain ⟨extents, _, rfl⟩ := reshape_ok.1 moved
  unfold reshaped
  split
  · exact sound
  · cases shaped : l.top.reshape? target with
    | some v => exact sound.replaceTop (sound.top.reshape extents shaped).1
    | none =>
      intro u member
      rcases List.mem_cons.1 member with rfl | member
      · exact View.sound_rowMajor extents
      · exact sound u member

theorem Sound.permute (sound : l.Sound) {order : List Int} (moved : l.permute order = .ok r) :
    r.Sound := by
  obtain ⟨perm, v, permuted, rfl⟩ := permute_ok.1 moved
  exact sound.replaceTop (sound.top.permute perm permuted).1

theorem Sound.moveAxis (sound : l.Sound) {source target : Int}
    (moved : l.moveAxis source target = .ok r) : r.Sound := by
  unfold Layout.moveAxis at moved
  rw [demand_eq_ok] at moved
  exact sound.permute moved.2

theorem Sound.pad (sound : l.Sound) {widths : List (Int × Int)} (moved : l.pad widths = .ok r) :
    r.Sound := by
  obtain ⟨lengths, natural, rfl⟩ := pad_ok.1 moved
  split
  · exact sound
  · exact sound.replaceTop (sound.top.pad lengths natural)

theorem Sound.shrink (sound : l.Sound) {ranges : List (Int × Int)}
    (moved : l.shrink ranges = .ok r) : r.Sound := by
  obtain ⟨within, rfl⟩ := shrink_ok.1 moved
  split
  · exact sound
  · exact sound.replaceTop (sound.top.shrink within)

theorem Sound.expand (sound : l.Sound) {target : List Int} (extents : ∀ n ∈ target, 0 ≤ n)
    (moved : l.expand target = .ok r) : r.Sound := by
  obtain ⟨stretches, rfl⟩ := expand_ok.1 moved
  split
  · exact sound
  · exact sound.replaceTop (sound.top.expand (View.stretches_iff.2 ⟨stretches, extents⟩))

theorem nonneg_interleave {xs ys : List Int} (left : ∀ x ∈ xs, 0 ≤ x) (right : ∀ y ∈ ys, 0 ≤ y) :
    ∀ n ∈ interleave xs ys, 0 ≤ n := by
  intro n member
  obtain ⟨⟨x, y⟩, pair, member⟩ := List.mem_flatMap.1 member
  have parts := List.of_mem_zip pair
  rcases List.mem_cons.1 member with rfl | member
  · exact left _ parts.1
  · rw [List.mem_singleton.1 member]
    exact right _ parts.2

theorem Sound.tile (sound : l.Sound) {counts : List Int} (moved : l.tile counts = .ok r) :
    r.Sound := by
  obtain ⟨_, natural, split, first, tiled, second, third⟩ := tile_ok.1 moved
  have extents := nonneg_interleave (fun c member => by have := natural c member; omega)
    sound.extents
  exact ((sound.reshape first).expand extents second).reshape third

theorem places_lt {axes : List Int} {rank : Nat} {places : List Nat}
    (placed : axes.mapM (fun a => Shape.normalizeAxis a rank) = .ok places) :
    ∀ place ∈ places, place < rank := by
  rw [mapM_eq_ok] at placed
  induction placed with
  | nil => simp
  | cons axis _ inductionHypothesis =>
    intro place member
    rcases List.mem_cons.1 member with rfl | member
    · exact normalizeAxis_lt axis
    · exact inductionHypothesis place member

theorem Sound.flip (sound : l.Sound) {axes : List Int} (moved : l.flip axes = .ok r) : r.Sound := by
  obtain ⟨places, placed, v, flipped, rfl⟩ := flip_ok.1 moved
  obtain ⟨u, known, _, top, _⟩ := sound.top.regular.flip (places_lt placed)
  rw [flipped] at known
  cases known
  exact sound.replaceTop (top sound.top)

end Layout

/-- A movement that does not ask for a negative extent. All movements but `expand` refuse one by
    themselves. -/
def Move.Natural : Move → Prop
  | .expand shape => ∀ s ∈ shape, 0 ≤ s
  | _ => True

/-- One movement keeps layouts well formed. -/
theorem Move.sound_run {l r : Layout} (sound : l.Sound) {m : Move} (natural : m.Natural)
    (moved : m.run l = .ok r) : r.Sound := by
  cases m with
  | reshape shape => exact sound.reshape moved
  | permute order => exact sound.permute moved
  | moveAxis source target => exact sound.moveAxis moved
  | pad widths => exact sound.pad moved
  | shrink ranges => exact sound.shrink moved
  | expand shape => exact sound.expand natural moved
  | tile counts => exact sound.tile moved
  | flip axes => exact sound.flip moved

theorem Layout.sound_runAll {l r : Layout} (sound : l.Sound) {moves : List Move}
    (natural : ∀ m ∈ moves, m.Natural) (moved : l.runAll moves = .ok r) : r.Sound := by
  induction moves generalizing l with
  | nil =>
    cases moved
    exact sound
  | cons m moves inductionHypothesis =>
    rw [Layout.runAll, List.foldlM_cons, bind_eq_ok] at moved
    obtain ⟨next, first, rest⟩ := moved
    exact inductionHypothesis (m.sound_run sound (natural m (List.mem_cons_self ..)) first)
      (fun other member => natural other (List.mem_cons_of_mem _ member)) rest

theorem Layout.ofShape_eq_ok {shape : List Int} {l : Layout} :
    ofShape shape = .ok l ↔ (∀ s ∈ shape, 0 ≤ s) ∧ rowMajor shape = l := by
  unfold ofShape
  rw [refuse_eq_ok, pure_eq_ok, Bool.not_eq_true, any_negative]

theorem Layout.sound_ofShape {l : Layout} {shape : List Int} (made : ofShape shape = .ok l) :
    l.Sound := by
  obtain ⟨extents, rfl⟩ := ofShape_eq_ok.1 made
  exact sound_rowMajor extents

end StridedArray
