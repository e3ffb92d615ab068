import StridedArray.Layout.Request
import StridedArray.Proofs.Layout.Tiling

/-! # Layouts built by movements

Padding, cutting, repeating, reordering, reshaping and dilating a whole array without empty axes gives layouts
of which reshaping loses nothing, however the movements are mixed.

* `Layout.Built` — such layouts; `Built.clear` — what they are like;
* `Shows.address_eq` — the addresses of a moved layout;
* `Built.requestTile_periodic` — tiling repeats what a layout shows. -/

namespace StridedArray.Layout

open Shape (Inside Positive product)
open View (spans)

variable {l r : Layout} {shape : List Int} {origin : List Int → Option (List Int)}

/-- Made from a whole array by movements that leave no axis empty. -/
inductive Built : Layout → Prop
  | whole {shape : List Int} {l : Layout} (positive : Positive shape) (made : ofShape shape = .ok l) : Built l
  | permute {l r : Layout} {order : List Int} (built : Built l) (moved : l.permute order = .ok r) : Built r
  | pad {l r : Layout} {widths : List (Int × Int)} (built : Built l) (moved : l.pad widths = .ok r) : Built r
  | shrink {l r : Layout} {kept : List (Int × Int)} (built : Built l) (positive : Positive (spans kept))
      (moved : l.shrink kept = .ok r) : Built r
  | expand {l r : Layout} {target : List Int} (built : Built l) (positive : Positive target)
      (moved : l.expand target = .ok r) : Built r
  | reshape {l r : Layout} {target : List Int} (built : Built l) (moved : l.reshape target = .ok r) : Built r
  | dilate {l r : Layout} {dilation : List Int} (built : Built l) (natural : ∀ d ∈ dilation, 1 ≤ d)
      (moved : l.dilate dilation = .ok r) : Built r

/-! ## Successful movements -/

theorem Clear.of_ok {moved : Except Failure Layout} (shown : ∃ s, moved = .ok s ∧ Shows s l shape origin)
    (ok : moved = .ok r) : r.Clear := by
  obtain ⟨s, made, shows⟩ := shown
  rw [made] at ok
  cases ok
  exact shows.clear

theorem Clear.dilate_ok (clear : l.Clear) {dilation : List Int} (moved : l.dilate dilation = .ok r) :
    l = r ∨ ∃ a b extents, l.shape = a :: b :: extents ∧ dilation.length = extents.length := by
  unfold Layout.dilate at moved
  split at moved
  · cases moved
    exact .inl rfl
  · split at moved
    · next a b extents shape =>
      refine .inr ⟨a, b, extents, shape, ?_⟩
      obtain ⟨split, splitOk, moved⟩ := bind_eq_ok.1 moved
      obtain ⟨padded, paddedOk, -⟩ := bind_eq_ok.1 moved
      obtain ⟨natural, -, rfl⟩ := reshape_ok.1 splitOk
      -- There is a pair of widths for each axis, and both halves of every split axis have one.
      have pairs := (pad_ok.1 paddedOk).1
      rw [Layout.rank, shape_reshaped clear.sound natural] at pairs
      simp only [List.length_cons, List.length_flatMap, List.length_nil, List.map_const', List.sum_replicate,
        smul_eq_mul] at pairs
      omega
    · cases moved

theorem Built.clear (built : l.Built) : l.Clear := by
  -- By induction on the movements. Each of them succeeds on arguments for which it is known what it shows.
  induction built with
  | @whole shape l positive made =>
    rw [ofShape_ok positive] at made
    cases made
    exact clear_rowMajor positive
  | permute _ moved clear => exact .of_ok (clear.permute (permute_ok.1 moved).1) moved
  | pad _ moved clear =>
    obtain ⟨lengths, natural, -⟩ := pad_ok.1 moved
    exact .of_ok (clear.pad lengths natural) moved
  | shrink _ positive moved clear => exact .of_ok (clear.shrink (shrink_ok.1 moved).1 positive) moved
  | expand _ positive moved clear => exact .of_ok (clear.expand positive (expand_ok.1 moved).1) moved
  | @reshape l r target _ moved clear =>
    obtain ⟨extents, size, -⟩ := reshape_ok.1 moved
    have some : 0 < product target := by
      rw [size]
      exact clear.positive.product_pos
    exact .of_ok (clear.reshape (Shape.positive_of_product_pos extents some) size) moved
  | dilate _ natural moved clear =>
    rcases clear.dilate_ok moved with rfl | ⟨a, b, extents, shape, lengths⟩
    · exact clear
    · exact .of_ok (clear.dilate shape lengths natural) moved

/-! ## Addresses -/

/-- What a moved layout shows has the address that it had before. -/
theorem Shows.address_eq (shows : Shows r l shape origin) {index : List Int} (inside : Inside index shape) :
    r.address index = (origin index).elim (.ok none) l.address := by
  rw [Layout.address_eq (shows.shape_eq ▸ inside), shows.shown inside]
  cases known : origin index with
  | none => rfl
  | some before => exact (Layout.address_eq (shows.inside inside known)).symm

/-- Tiling repeats a built layout along every axis: at every position it shows what is at the position that is congruent
    to it, padding included. -/
theorem Built.requestTile_periodic (built : l.Built) {counts : List Int} (lengths : counts.length = l.rank)
    (natural : ∀ c ∈ counts, 1 ≤ c) :
    ∃ r, l.requestTile (.list (Datum.ints counts)) = .ok r ∧ r.shape = counts.zipWith (· * ·) l.shape
      ∧ ∀ index, Inside index r.shape → r.address index = l.address (index.zipWith (· % ·) l.shape) := by
  obtain ⟨r, moved, shows⟩ := built.clear.tile lengths natural
  refine ⟨r, ?_, shows.shape_eq, fun index inside => shows.address_eq (shows.shape_eq ▸ inside)⟩
  rw [requestTile, Datum.wholes_ints, ok_bind, moved]

/-- The columns of two padded rows, joined in pairs and tiled: an element and padding, both in later copies. -/
theorem Built.requestTile_periodic_columns : ∃ l r : Layout, l.Built ∧ l.shape = [2, 6]
    ∧ l.requestTile (.list (Datum.ints [2, 3])) = .ok r ∧ r.shape = [4, 18]
    ∧ r.address [3, 12] = .ok (some 1) ∧ r.address [2, 7] = .ok none := by
  have built := @Built.reshape _ _ [2, 6] (@Built.permute _ _ [1, 0] (@Built.pad _ _ [(0, 1), (1, 0)]
    (@Built.whole [2, 3] _ (by decide) rfl) rfl) rfl) rfl
  obtain ⟨r, tiled, shape, periodic⟩ := @Built.requestTile_periodic _ built [2, 3] rfl (by decide)
  rw [shape] at periodic
  exact ⟨_, r, built, rfl, tiled, shape, (periodic [3, 12] (by decide)).trans rfl,
    (periodic [2, 7] (by decide)).trans rfl⟩

end StridedArray.Layout
