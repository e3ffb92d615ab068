import StridedArray.Convolution.Window
import StridedArray.Proofs.Layout.Reach

/-! # Layouts inside of a buffer

Every offset that a layout shows is one of its buffer. Axes may be empty, so that arrays without elements have
such layouts as well; then there is nothing to be said where elements came from.

* `Anchored` — a well-formed layout over a buffer of so many elements; `anchored_rowMajor`, `Over.anchored`;
  `Contained` — what reading needs of it; `Contained.size_le_of_contiguous` — a contiguous layout is that of a whole
  array, and in its buffer;
* `Anchored.reshape` and its neighbours — the movements keep layouts inside; `Anchored.dilate`,
  `Anchored.padOrCut`, `Anchored.pool` — so do those of a convolution;
* `Anchored.offsetRange?_bounds` — so is the range that is announced. -/

namespace StridedArray.Layout

open Shape (Inside product ravel unravel)

/-- A well-formed layout that shows no offset outside of a buffer of so many elements, nor does its view over the
    buffer. No hidden axis would be lost by reshaping. -/
structure Anchored (l : Layout) (count : Int) : Prop where
  sound : l.Sound
  settled : l.top.Settled
  shown : ∀ index offset, Inside index l.shape → l.offsetOf? index = some offset → 0 ≤ offset ∧ offset < count
  base : ∀ index offset, Inside index l.base.shape → l.base.offsetOf? index = some offset →
    0 ≤ offset ∧ offset < count

variable {l r : Layout} {count : Int}

theorem offset_rowMajor_bounds {shape index : List Int} (inside : Inside index shape) {offset : Int}
    (known : (View.rowMajor shape).offsetOf? index = some offset) : 0 ≤ offset ∧ offset < product shape := by
  rw [View.offsetOf?_rowMajor inside] at known
  cases known
  exact inside.ravel_bounds

theorem anchored_rowMajor {shape : List Int} (extents : ∀ s ∈ shape, 0 ≤ s) :
    (rowMajor shape).Anchored (product shape) where
  sound := sound_rowMajor extents
  settled := View.settled_rowMajor shape
  shown := by
    intro index offset inside known
    have whole : (rowMajor shape).offsetOf? index = some (ravel index shape) := offsetOf?_rowMajor inside
    rw [known] at whole
    cases whole
    exact inside.ravel_bounds
  base := fun _ _ inside known => offset_rowMajor_bounds inside known

/-- Both ends of the announced range are offsets. -/
theorem Anchored.offsetRange?_bounds (anchored : l.Anchored count) {low high : Int}
    (known : l.offsetRange? = some (low, high)) : 0 ≤ low ∧ high < count := by
  obtain ⟨⟨a, aInside, aAddress⟩, b, bInside, bAddress⟩ := offsetRange?_attained (anchored.sound _ l.base_mem).regular known
  exact ⟨(anchored.base a low aInside aAddress).1, (anchored.base b high bInside bAddress).2⟩

/-- A layout without negative extents shows and announces no offset outside of a buffer of so many elements. -/
structure Contained (l : Layout) (count : Int) : Prop where
  natural : ∀ s ∈ l.shape, 0 ≤ s
  shown : ∀ index offset, Inside index l.shape → l.offsetOf? index = some offset → 0 ≤ offset ∧ offset < count
  announced : ∀ low high, l.offsetRange? = some (low, high) → 0 ≤ low ∧ high < count

theorem Anchored.contained (anchored : l.Anchored count) : l.Contained count where
  natural := anchored.sound.extents
  shown := anchored.shown
  announced := fun _ _ known => anchored.offsetRange?_bounds known

theorem Contained.address_bounds (contained : l.Contained count) {index : List Int} {offset : Int}
    (known : l.address index = .ok (some offset)) : 0 ≤ offset ∧ offset < count := by
  have inside := address_ok_iff.1 ⟨_, known⟩
  rw [address_eq inside] at known
  exact contained.shown index offset inside (Except.ok.inj known)

/-! ## Contiguous layouts -/

theorem eq_rowMajor_of_contiguous (contiguous : l.contiguous = true) : l = rowMajor l.shape := by
  obtain ⟨top, below⟩ := l
  simp only [Layout.contiguous, Bool.and_eq_true, List.isEmpty_iff] at contiguous
  obtain ⟨rfl, whole⟩ := contiguous
  exact congrArg (Layout.mk · []) (View.eq_rowMajor_of_contiguous whole)

theorem offsetOf?_of_contiguous (contiguous : l.contiguous = true) {index : List Int} (inside : Inside index l.shape) :
    l.offsetOf? index = some (ravel index l.shape) := by
  conv_lhs => rw [eq_rowMajor_of_contiguous contiguous]
  exact offsetOf?_rowMajor inside

theorem addressFlat_of_contiguous (contiguous : l.contiguous = true) (natural : ∀ s ∈ l.shape, 0 ≤ s) {flat : Int}
    (low : 0 ≤ flat) (high : flat < l.size) : l.addressFlat flat = .ok (some flat) := by
  have positive := Shape.positive_of_product_pos natural (Int.lt_of_le_of_lt low high)
  have inside := Shape.inside_unravel positive flat
  unfold Layout.addressFlat
  rw [if_pos ⟨low, high⟩, address_eq inside, offsetOf?_of_contiguous contiguous inside,
    Shape.ravel_unravel positive low high]

/-- A contiguous layout is not larger than its buffer. -/
theorem Contained.size_le_of_contiguous (contained : l.Contained count) (contiguous : l.contiguous = true)
    (natural : 0 ≤ count) : l.size ≤ count := by
  by_contra larger
  have positive := Shape.positive_of_product_pos contained.natural (show 0 < product l.shape by unfold size at larger; omega)
  have inside := Shape.inside_unravel positive count
  have shown := offsetOf?_of_contiguous contiguous inside
  rw [Shape.ravel_unravel positive natural (by unfold size at larger; omega)] at shown
  exact absurd (contained.shown _ _ inside shown).2 (Int.lt_irrefl count)

/-! ## The movements -/

section Movements

variable {target order : List Int} {widths kept : List (Int × Int)}

theorem Anchored.replaceTop (anchored : l.Anchored count) {v : View} (sound : v.Sound) (settled : v.Settled)
    {origin : List Int → Option (List Int)} (draws : v.DrawsOn l.top origin) :
    (l.replaceTop v).Anchored count where
  sound := anchored.sound.replaceTop sound
  settled := settled
  shown := by
    intro index offset inside known
    rw [offsetOf?_replaceTop draws inside] at known
    obtain ⟨before, source, address⟩ := Option.bind_eq_some_iff.1 known
    exact anchored.shown before offset (draws.inside inside source) address
  base := by
    intro index offset inside known
    obtain ⟨before, beforeInside, address⟩ :=
      reachesNoMore_replaceTop l (reachesNoMore_of_drawsOn draws) index offset inside known
    exact anchored.base before offset beforeInside address

theorem Anchored.reshape (anchored : l.Anchored count) (moved : l.reshape target = .ok r) :
    r.Anchored count := by
  have sound := anchored.sound.reshape moved
  obtain ⟨extents, size, rfl⟩ := reshape_ok.1 moved
  refine ⟨sound, anchored.sound.settled_reshaped extents (.inr anchored.settled), ?_, ?_⟩
  · intro index offset inside known
    rw [shape_reshaped anchored.sound extents] at inside
    obtain ⟨low, high⟩ := inside.ravel_bounds
    rw [size] at high
    have here := anchored.sound.offsetOf?_reshaped_of_settled anchored.settled extents size low high
    rw [inside.unravel_ravel, known] at here
    exact anchored.shown _ offset (Shape.inside_unravel (anchored.sound.positive low high) _) here.symm
  · intro index offset inside known
    obtain ⟨before, beforeInside, address⟩ :=
      anchored.sound.reachesNoMore_reshaped anchored.settled extents size index offset inside known
    exact anchored.base before offset beforeInside address

theorem Anchored.permute (anchored : l.Anchored count) (moved : l.permute order = .ok r) :
    r.Anchored count := by
  have top := anchored.sound.top
  obtain ⟨perm, v, permuted, rfl⟩ := permute_ok.1 moved
  obtain ⟨u, known, _, shape, draws⟩ := top.regular.permute perm
  obtain rfl : v = u := Option.some.inj (permuted.symm.trans known)
  obtain ⟨sound, ranges⟩ := top.permute perm permuted
  exact anchored.replaceTop sound (anchored.settled.permute top perm shape ranges) draws

theorem Anchored.moveAxis (anchored : l.Anchored count) {source target : Int}
    (moved : l.moveAxis source target = .ok r) : r.Anchored count := by
  unfold Layout.moveAxis at moved
  rw [demand_eq_ok] at moved
  exact anchored.permute moved.2

/-- One position in front of an empty axis would be a hidden axis of extent 1 that reshaping loses. -/
theorem Anchored.pad (anchored : l.Anchored count) (front : ∀ a ∈ l.shape.zip widths, a.1 = 0 → a.2 ≠ (1, 0))
    (moved : l.pad widths = .ok r) : r.Anchored count := by
  have top := anchored.sound.top
  obtain ⟨lengths, natural, rfl⟩ := pad_ok.1 moved
  split
  · exact anchored
  · exact anchored.replaceTop (top.pad lengths natural) (anchored.settled.pad top front natural)
      (top.regular.drawsOn_pad lengths natural)

theorem Anchored.shrink (anchored : l.Anchored count) (moved : l.shrink kept = .ok r) : r.Anchored count := by
  have top := anchored.sound.top
  obtain ⟨within, rfl⟩ := shrink_ok.1 moved
  split
  · exact anchored
  · exact anchored.replaceTop (top.shrink within) (top.settled_shrink within) (top.regular.drawsOn_shrink within)

theorem Anchored.expand (anchored : l.Anchored count) (extents : ∀ n ∈ target, 0 ≤ n)
    (moved : l.expand target = .ok r) : r.Anchored count := by
  have top := anchored.sound.top
  obtain ⟨stretches, rfl⟩ := expand_ok.1 moved
  have natural := View.stretches_iff.2 ⟨stretches, extents⟩
  split
  · exact anchored
  · exact anchored.replaceTop (top.expand natural) (anchored.settled.expand top natural)
      (top.regular.drawsOn_expand stretches)

theorem Anchored.tile (anchored : l.Anchored count) {counts : List Int} (moved : l.tile counts = .ok r) :
    r.Anchored count := by
  obtain ⟨_, natural, split, first, tiled, second, third⟩ := tile_ok.1 moved
  have extents := nonneg_interleave (fun c member => by have := natural c member; omega) anchored.sound.extents
  exact ((anchored.reshape first).expand extents second).reshape third

/-- Where nothing is hidden, nothing is lost once axes are turned round. -/
theorem Anchored.flip (anchored : l.Anchored count) (whole : l.top.ranges = View.fullMask l.shape)
    {axes : List Int} (moved : l.flip axes = .ok r) : r.Anchored count := by
  have top := anchored.sound.top
  obtain ⟨places, placed, v, flipped, rfl⟩ := flip_ok.1 moved
  obtain ⟨u, known, _, sound, shape, full, draws⟩ := top.regular.flip (places_lt placed)
  obtain rfl : v = u := Option.some.inj (flipped.symm.trans known)
  refine anchored.replaceTop (sound top) ?_ draws
  unfold View.Settled
  rw [full whole, shape]
  exact View.settled_rowMajor l.shape

end Movements

/-! ## Gaps, padding, windows -/

theorem Anchored.dilate (anchored : l.Anchored count) {dilation : List Int} (moved : l.dilate dilation = .ok r) :
    r.Anchored count := by
  unfold Layout.dilate at moved
  split at moved
  · cases moved
    exact anchored
  · split at moved
    · simp only [bind_eq_ok] at moved
      obtain ⟨split, first, gapped, second, joined, third, last⟩ := moved
      refine (((anchored.reshape first).pad (fun a member _ => ?_) second).reshape third).shrink last
      have width := (List.of_mem_zip member).2
      simp only [List.mem_cons, List.mem_flatMap, List.not_mem_nil, or_false] at width
      rcases width with same | same | ⟨_, _, same | same⟩ <;> simp [same]
    · cases moved

/-- Padding that is not a single position in front of an empty axis. -/
theorem Anchored.padOrCut (anchored : l.Anchored count) {a b : Int} {axes : List (Int × (Int × Int))}
    (known : l.shape = a :: b :: axes.map Prod.fst) (front : ∀ x ∈ axes, x.1 = 0 → x.2.1 = 1 → 0 < x.2.2)
    (moved : l.padOrCut (axes.map Prod.snd) = .ok r) : r.Anchored count := by
  unfold Layout.padOrCut at moved
  simp only [bind_eq_ok] at moved
  obtain ⟨wide, first, _, _, _, _, last⟩ := moved
  refine (anchored.pad (fun entry member => ?_) first).shrink last
  rw [known, List.map_map, List.zip_cons_cons, List.zip_cons_cons, List.zip_map'] at member
  simp only [List.mem_cons, List.mem_map] at member
  rcases member with rfl | rfl | ⟨x, inner, rfl⟩
  · simp
  · simp
  · intro empty single
    have low : max x.2.1 0 = 1 := congrArg Prod.fst single
    have high : max x.2.2 0 = 0 := congrArg Prod.snd single
    have more := front x inner empty (by omega)
    omega

theorem Anchored.pool (anchored : l.Anchored count) {extents strides dilation : List Int}
    (moved : l.pool extents strides dilation = .ok r) : r.Anchored count := by
  unfold Layout.pool at moved
  simp only [throw_bind, refuse_eq_ok, bind_eq_ok] at moved
  obtain ⟨_, _, _, _, _, _, _, _, _, tiled, first, joined, second, rows, third, -, starts, fourth, grid, fifth,
    firsts, sixth, windows, seventh, last⟩ := moved
  exact (((((((anchored.tile first).shrink second).reshape third).shrink fourth).reshape fifth).shrink
    sixth).reshape seventh).permute last

/-! ## Layouts moved from whole arrays -/

theorem Over.anchored (laid : l.Over count) : l.Anchored count where
  sound := laid.clear.sound
  settled := laid.clear.settled
  shown := fun _ _ inside known => laid.offset_bounds inside known
  base := by
    obtain ⟨whole, origin, rfl, shows⟩ := laid
    intro index offset inside known
    obtain ⟨before, beforeInside, address⟩ := shows.reach index offset inside known
    exact offset_rowMajor_bounds beforeInside address

end StridedArray.Layout
