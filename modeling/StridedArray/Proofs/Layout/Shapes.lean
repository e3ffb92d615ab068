import StridedArray.Proofs.Layout.Pooling

/-! # Shapes that movements give

What becomes of shapes alone. Extents may be zero here, so that arrays without elements are moved as well.

* `Gives` — a computation succeeds with a well-formed layout of a given shape;
* `Sound.gives_reshape` and its neighbours — the movements;
* `Sound.gives_dilate`, `Sound.gives_padOrCut`, `Sound.gives_pool` — gaps, padding and windows. -/

namespace StridedArray.Layout

open Shape (product)
open View (padded spans Within pick)

def Gives (made : Except Failure Layout) (shape : List Int) : Prop :=
  ∃ r, made = .ok r ∧ r.Sound ∧ r.shape = shape

variable {l : Layout} {shape target : List Int}

theorem Sound.gives (sound : l.Sound) : Gives (pure l) l.shape := ⟨l, rfl, sound, rfl⟩

theorem Gives.bind {made : Except Failure Layout} {f : Layout → Except Failure Layout} (first : Gives made shape)
    (rest : ∀ r : Layout, r.Sound → r.shape = shape → Gives (f r) target) : Gives (made >>= f) target := by
  obtain ⟨r, rfl, sound, known⟩ := first
  exact rest r sound known

/-! ## Single movements -/

theorem Sound.gives_reshape (sound : l.Sound) (target : List Int) (extents : ∀ s ∈ target, 0 ≤ s)
    (size : product target = product l.shape) : Gives (l.reshape target) target := by
  have moved := reshape_ok.2 ⟨extents, size, rfl⟩
  exact ⟨_, moved, sound.reshape moved, shape_reshaped sound extents⟩

theorem Sound.gives_pad (sound : l.Sound) (widths : List (Int × Int)) (lengths : widths.length = l.rank)
    (natural : ∀ w ∈ widths, 0 ≤ w.1 ∧ 0 ≤ w.2) : Gives (l.pad widths) (padded l.shape widths) := by
  have moved := pad_ok.2 ⟨lengths, natural, rfl⟩
  refine ⟨_, moved, sound.pad moved, ?_⟩
  split
  · next nothing => exact (View.padded_of_zeros lengths nothing).symm
  · rfl

theorem Sound.gives_shrink (sound : l.Sound) {kept : List (Int × Int)} (within : Within kept l.shape) :
    Gives (l.shrink kept) (spans kept) := by
  have moved := shrink_ok.2 ⟨within, rfl⟩
  refine ⟨_, moved, sound.shrink moved, ?_⟩
  split
  · next everything => rw [everything, View.spans_fullMask]
  · rfl

theorem Sound.gives_cut (sound : l.Sound)
    (fits : List.Forall₂ (fun high s => 0 ≤ high ∧ high ≤ s) target l.shape) :
    Gives (l.shrink (View.fullMask target)) target := by
  have within : Within (View.fullMask target) l.shape :=
    List.forall₂_map_left_iff.2 (fits.imp fun _ _ bounds => ⟨le_refl _, bounds⟩)
  have cut := sound.gives_shrink within
  rwa [View.spans_fullMask] at cut

theorem Sound.gives_expand (sound : l.Sound) (target : List Int) (extents : ∀ n ∈ target, 0 ≤ n)
    (stretches : List.Forall₂ (fun s n => s = n ∨ s = 1) l.shape target) : Gives (l.expand target) target := by
  have moved := expand_ok.2 ⟨stretches, rfl⟩
  refine ⟨_, moved, sound.expand extents moved, ?_⟩
  split
  · next same => exact same.symm
  · rfl

theorem Sound.gives_permute (sound : l.Sound) (order : List Int) (perm : order.Perm (axisNumbers l.rank)) :
    Gives (l.permute order) (pick order l.shape) := by
  obtain ⟨v, permuted, -, known, -⟩ := sound.top.regular.permute perm
  have moved := permute_ok.2 ⟨perm, v, permuted, rfl⟩
  exact ⟨_, moved, sound.permute moved, known⟩

theorem Sound.gives_flip (sound : l.Sound) {axes : List Nat} (bounds : ∀ axis ∈ axes, axis < l.rank) :
    Gives (l.flip (axes.map Int.ofNat)) l.shape := by
  obtain ⟨v, flipped, -, -, known, -⟩ := sound.top.regular.flip bounds
  have moved := flip_ok.2 ⟨axes, places_natCast bounds, v, flipped, rfl⟩
  exact ⟨_, moved, sound.flip moved, known⟩

/-! ## Movements of blocks -/

section Blocks

-- Some axes in front stay, each of the others is a block.
variable {α : Type} {front : List Int} {axes : List α} {f g : α → List Int}

theorem Sound.gives_reshapeBlocks (sound : l.Sound) (known : l.shape = front ++ axes.flatMap f)
    (extents : ∀ x ∈ axes, ∀ s ∈ g x, 0 ≤ s) (size : ∀ x ∈ axes, product (g x) = product (f x)) :
    Gives (l.reshape (front ++ axes.flatMap g)) (front ++ axes.flatMap g) := by
  apply sound.gives_reshape
  · intro s member
    rcases List.mem_append.1 member with member | member
    · exact sound.extents s (by rw [known]; exact List.mem_append_left _ member)
    · obtain ⟨x, block, inner⟩ := List.mem_flatMap.1 member
      exact extents x block s inner
  · rw [known, Shape.product_append, Shape.product_append, Shape.product_flatMap size]

theorem Sound.gives_cutBlocks (sound : l.Sound) (known : l.shape = front ++ axes.flatMap f)
    (fits : ∀ x ∈ axes, List.Forall₂ (fun high s => 0 ≤ high ∧ high ≤ s) (g x) (f x)) :
    Gives (l.shrink (View.fullMask (front ++ axes.flatMap g))) (front ++ axes.flatMap g) := by
  apply sound.gives_cut
  have extents := sound.extents
  rw [known] at extents ⊢
  exact List.rel_append
    (List.forall₂_same.2 fun s member => ⟨extents s (List.mem_append_left _ member), le_refl s⟩)
    (Shape.forall₂_flatMap fits)

end Blocks

/-! ## Tiles, gaps, padding, windows -/

theorem Sound.gives_tile (sound : l.Sound) {counts : List Int} (lengths : counts.length = l.rank)
    (natural : ∀ c ∈ counts, 1 ≤ c) : Gives (l.tile counts) (counts.zipWith (· * ·) l.shape) := by
  -- Every axis with its count.
  obtain ⟨axes, rfl, known⟩ : ∃ axes : List (Int × Int), axes.map Prod.fst = counts
      ∧ axes.map Prod.snd = l.shape :=
    ⟨counts.zip l.shape, List.map_fst_zip (le_of_eq lengths), List.map_snd_zip (le_of_eq lengths.symm)⟩
  have bounds : ∀ a ∈ axes, 1 ≤ a.1 ∧ 0 ≤ a.2 := fun a member =>
    ⟨natural _ (List.mem_map_of_mem member), sound.extents _ (known ▸ List.mem_map_of_mem member)⟩
  have start : l.shape = [] ++ axes.flatMap fun a => [a.2] := by
    rw [← known, List.map_eq_flatMap]
    rfl
  rw [tile_eq known fun a member => (bounds a member).1, ← known, List.zipWith_map, List.zipWith_self]
  have apart := sound.gives_reshapeBlocks start (g := fun a => [1, a.2])
    (fun a member => by simp [(bounds a member).2]) fun a _ => by simp
  refine apart.bind fun split splitSound splitShape => ?_
  refine (splitSound.gives_expand (axes.flatMap fun a => [a.1, a.2]) ?_ ?_).bind
    fun tiled tiledSound tiledShape => ?_
  · intro n member
    obtain ⟨a, known, inner⟩ := List.mem_flatMap.1 member
    have := bounds a known
    simp only [List.mem_cons, List.not_mem_nil, or_false] at inner
    omega
  · rw [splitShape]
    exact Shape.forall₂_flatMap fun a _ => by simp
  · rw [List.map_eq_flatMap]
    refine @Sound.gives_reshapeBlocks tiled _ [] axes _ _ tiledSound tiledShape (fun a member => ?_)
      fun a _ => by simp
    obtain ⟨count, extent⟩ := bounds a member
    simpa using Int.mul_nonneg (by omega : 0 ≤ a.1) extent

section Axes

variable {a b : Int}

/-- Gaps between the neighbours of every axis. An empty axis stays empty. -/
theorem Sound.gives_dilate (sound : l.Sound) {axes : List (Int × Int)}
    (known : l.shape = a :: b :: axes.map Prod.fst) (natural : ∀ x ∈ axes, 1 ≤ x.2) :
    Gives (l.dilate (axes.map Prod.snd)) (a :: b :: axes.map fun x => dilatedExtent x.1 x.2) := by
  have extents := sound.extents
  rw [known] at extents
  have bounds : ∀ x ∈ axes, 0 ≤ x.1 ∧ 1 ≤ x.2 := fun x member =>
    ⟨extents _ (List.mem_cons_of_mem _ (List.mem_cons_of_mem _ (List.mem_map_of_mem member))), natural x member⟩
  by_cases ones : (axes.map Prod.snd).all (· = 1) = true
  · have same : axes.map (fun x => dilatedExtent x.1 x.2) = axes.map Prod.fst :=
      List.map_congr_left fun x member => by
        have one : x.2 = 1 := by simpa using List.all_eq_true.1 ones _ (List.mem_map_of_mem member)
        rw [one, dilatedExtent_one (bounds x member).1]
    rw [same, ← known]
    unfold Layout.dilate
    rw [if_pos ones]
    exact sound.gives
  · rw [dilate_eq known ones]
    have start : l.shape = [a, b] ++ axes.flatMap fun x => [x.1] := by
      rw [known, ← List.map_eq_flatMap]
      rfl
    have apart := sound.gives_reshapeBlocks start (g := fun x => [x.1, 1])
      (fun x member => by simp [(bounds x member).1]) fun x _ => by simp
    refine apart.bind fun split splitSound splitShape => ?_
    have gaps := splitSound.gives_pad (gapWidths axes)
      (by rw [Layout.rank, splitShape]; simp [gapWidths]) (natural_gapWidths natural)
    rw [splitShape, padded_gapWidths] at gaps
    refine gaps.bind fun gapped gappedSound gappedShape => ?_
    have natural : ∀ x ∈ axes, 0 ≤ x.1 * x.2 := fun x member =>
      Int.mul_nonneg (bounds x member).1 (by have := (bounds x member).2; omega)
    have together := gappedSound.gives_reshapeBlocks gappedShape (g := fun x => [x.1 * x.2])
      (fun x member => by simpa using natural x member) fun x _ => by simp
    refine together.bind fun joined joinedSound joinedShape => ?_
    have last : a :: b :: axes.map (fun x => dilatedExtent x.1 x.2)
        = [a, b] ++ axes.flatMap fun x => [dilatedExtent x.1 x.2] := by
      rw [List.map_eq_flatMap]
      rfl
    rw [last]
    exact joinedSound.gives_cutBlocks joinedShape fun x member =>
      .cons (dilatedExtent_natural (bounds x member).2 (bounds x member).1) .nil

/-- Padding, or cutting where it is negative, as long as it leaves something or nothing. -/
theorem Sound.gives_padOrCut (sound : l.Sound) {axes : List (Int × (Int × Int))}
    (known : l.shape = a :: b :: axes.map Prod.fst) (fits : ∀ x ∈ axes, 0 ≤ x.1 + x.2.1 + x.2.2) :
    Gives (l.padOrCut (axes.map Prod.snd)) (a :: b :: axes.map fun x => x.1 + x.2.1 + x.2.2) := by
  have extents := sound.extents
  rw [known, List.forall_mem_cons, List.forall_mem_cons] at extents
  obtain ⟨wide, widened, wideSound, wideShape⟩ := sound.gives_pad (widening (axes.map Prod.snd))
    (by simp [widening, Layout.rank, known]) (natural_widening _)
  rw [known, padded_widening] at wideShape
  rw [padOrCut_eq widened wideShape, ← spans_narrowing]
  apply wideSound.gives_shrink
  rw [wideShape]
  exact within_narrowing extents.1 extents.2.1 fits

end Axes

/-- Windows. The axes that are kept may be empty. -/
theorem Sound.gives_pool (sound : l.Sound) {kept : List Int} {axes : List Sliding}
    (known : l.shape = kept ++ axes.map Sliding.input) (fits : ∀ w ∈ axes, w.Fits) :
    Gives (l.pool (axes.map Sliding.kernel) (axes.map Sliding.stride) (axes.map Sliding.dilation))
      (kept ++ axes.map Sliding.windows ++ axes.map Sliding.kernel) := by
  rw [pool_eq known fits]
  have counts : (kept.map (fun _ => (1 : Int)) ++ axes.map Sliding.copies).length = l.rank := by
    simp [Layout.rank, known]
  have tile := sound.gives_tile counts (copies_natural kept fits)
  rw [known, zipWith_copies] at tile
  refine tile.bind fun tiled tiledSound tiledShape => ?_
  have cut := tiledSound.gives_cutBlocks tiledShape (g := fun w => [w.kernel * w.plan.row]) fun w member =>
    .cons ⟨Int.mul_nonneg (fits w member).kernel.le (fits w member).row_pos.le, (fits w member).copies_ge.2⟩ .nil
  refine cut.bind fun joined joinedSound joinedShape => ?_
  have inRows := joinedSound.gives_reshapeBlocks joinedShape (g := fun w => [w.kernel, w.plan.row])
    (fun w member => by simp [(fits w member).kernel.le, (fits w member).row_pos.le]) fun w _ => by simp
  refine inRows.bind fun rows rowsSound rowsShape => ?_
  have whole := rowsSound.gives_cutBlocks rowsShape (g := fun w => [w.kernel, w.windows * w.stride])
    fun w member => .cons ⟨(fits w member).kernel.le, le_refl _⟩ (.cons
      ⟨Int.mul_nonneg (fits w member).windows_pos.le (fits w member).stride.le, (fits w member).row_ge⟩ .nil)
  refine whole.bind fun starts startsSound startsShape => ?_
  have inGrid := startsSound.gives_reshapeBlocks startsShape (g := fun w => [w.kernel, w.windows, w.stride])
    (fun w member => by
      simp [(fits w member).kernel.le, (fits w member).windows_pos.le, (fits w member).stride.le])
    fun w _ => by simp
  refine inGrid.bind fun grid gridSound gridShape => ?_
  have chosen := gridSound.gives_cutBlocks gridShape (g := fun w => [w.kernel, w.windows, 1]) fun w member =>
    .cons ⟨(fits w member).kernel.le, le_refl _⟩ (.cons ⟨(fits w member).windows_pos.le, le_refl _⟩
      (.cons ⟨by decide, (fits w member).stride⟩ .nil))
  refine chosen.bind fun firsts firstsSound firstsShape => ?_
  have without := firstsSound.gives_reshapeBlocks firstsShape (g := fun w => [w.kernel, w.windows])
    (fun w member => by simp [(fits w member).kernel.le, (fits w member).windows_pos.le]) fun w _ => by simp
  refine without.bind fun windows windowsSound windowsShape => ?_
  have count : windows.rank = kept.length + 2 * axes.length := by
    simp [Layout.rank, windowsShape, Nat.mul_comm]
  have last := windowsSound.gives_permute (windowOrder kept.length axes.length)
    (count ▸ perm_windowOrder ..)
  rwa [windowsShape, pick_windowOrder] at last

end StridedArray.Layout
