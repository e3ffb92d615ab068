import StridedArray.Convolution.Request
import StridedArray.Proofs.Convolution.Operands
import StridedArray.Proofs.Datum
import StridedArray.Proofs.Layout.Built

/-! # Windows and gaps of built layouts

Whatever movements a layout was built by, windows over its last axes are exactly the sliding windows, and
dilation and padding of either sign put every element where it belongs.

* `Loose.ForAxes`, `Layout.requestPool_eq` — one number for each axis, or one for all;
* `Layout.Unfit` — windows that do not fit; `pool_of_few`, `pool_unfit` — they are refused;
* `Built.requestPool_windows` — what windows show; `Built.dilate_padOrCut` — what is shown between gaps. -/

namespace StridedArray

open Shape (Inside Positive)
open View (behind)

/-! ## Numbers for axes -/

namespace Loose

/-- Numbers for several axes: a sequence of as many, or one for all. -/
inductive ForAxes (count : Nat) : Datum → List Int → Prop
  | each {ns : List Int} (counted : ns.length = count) : ForAxes count (.list (Datum.ints ns)) ns
  | all (n : Int) : ForAxes count (.int n) (List.replicate count n)

variable {count : Nat} {given : Datum} {ns : List Int}

theorem ForAxes.length_eq (numbers : ForAxes count given ns) : ns.length = count := by
  cases numbers with
  | each counted => exact counted
  | all n => exact List.length_replicate

theorem ForAxes.perAxis_eq (numbers : ForAxes count given ns) (name : String) :
    perAxis name count given = .ok (Datum.ints ns) := by
  cases numbers with
  | each counted => simp [perAxis, counted, Datum.items_list, Datum.length_ints]
  | all n =>
    rw [Datum.ints, List.map_replicate]
    rfl

end Loose

/-! ## Windows that do not fit -/

namespace Sliding

/-- There is no window along an axis just if a single one does not fit. -/
theorem windows_nonpos_iff {w : Sliding} (stride : 0 < w.stride) :
    w.windows ≤ 0 ↔ w.input ≤ w.dilation * (w.kernel - 1) := by
  have starts : w.starts ≤ 0 ↔ w.input ≤ w.dilation * (w.kernel - 1) := by
    unfold Sliding.starts
    omega
  rw [← starts]
  constructor
  · intro none
    by_contra some
    have := ceiling_pos stride (not_le.1 some)
    unfold windows at none
    omega
  · intro short
    have quotient := Int.ediv_nonneg (by omega : 0 ≤ -w.starts) (le_of_lt stride)
    unfold windows ceiling
    omega

theorem map_ofLists {is ks ss ds : List Int} (inputs : is.length = ks.length) (strides : ss.length = ks.length)
    (dilations : ds.length = ks.length) :
    (ofLists is ks ss ds).map Sliding.input = is ∧ (ofLists is ks ss ds).map Sliding.kernel = ks
      ∧ (ofLists is ks ss ds).map Sliding.stride = ss ∧ (ofLists is ks ss ds).map Sliding.dilation = ds := by
  induction ks generalizing is ss ds with
  | nil => simp_all [ofLists]
  | cons k ks inductionHypothesis =>
    obtain ⟨i, is, rfl⟩ := List.exists_cons_of_length_eq_add_one inputs
    obtain ⟨s, ss, rfl⟩ := List.exists_cons_of_length_eq_add_one strides
    obtain ⟨d, ds, rfl⟩ := List.exists_cons_of_length_eq_add_one dilations
    have rest := @inductionHypothesis is ss ds (by simpa using inputs) (by simpa using strides)
      (by simpa using dilations)
    simp [ofLists, rest]

end Sliding

namespace Layout

variable {l r : Layout} {ks ss ds : List Int}

def slidingAxes (l : Layout) (ks ss ds : List Int) : List Sliding :=
  Sliding.ofLists (l.shape.drop (l.rank - ks.length)) ks ss ds

def Unfit (l : Layout) (ks ss ds : List Int) : Prop :=
  l.rank < ks.length ∨ ∃ w ∈ l.slidingAxes ks ss ds, w.input ≤ w.dilation * (w.kernel - 1)

theorem pool_of_few (few : l.rank < ks.length) : l.pool ks ss ds = .error (.convolution .poolRank) := by
  unfold Layout.pool
  simp only [if_pos few]
  rfl

instance (l : Layout) (ks ss ds : List Int) : Decidable (l.Unfit ks ss ds) :=
  inferInstanceAs (Decidable (_ ∨ _))

/-- Windows that are asked for with numbers are those with one number for every axis. -/
theorem requestPool_eq (l : Layout) {strides dilation : Datum} (strided : Loose.ForAxes ks.length strides ss)
    (dilated : Loose.ForAxes ks.length dilation ds) :
    l.requestPool (.list (Datum.ints ks)) strides dilation = l.pool ks ss ds := by
  unfold requestPool
  simp only [Datum.items_list, ok_bind, Datum.length_ints, strided.perAxis_eq, dilated.perAxis_eq,
    Datum.plainInts?_ints]
  by_cases few : l.rank < ks.length
  · rw [if_pos few, pool_of_few few]
    rfl
  · rw [if_neg few]

theorem planRows_unfit {axes : List Sliding} (strides : ∀ w ∈ axes, 0 < w.stride) {w : Sliding}
    (member : w ∈ axes) (unfit : w.input ≤ w.dilation * (w.kernel - 1)) (extents dilation input : List Int) :
    planRows axes extents dilation input
      = .error (.convolution (.window (Datum.ints extents) (Datum.ints dilation) input)) := by
  have none : (axes.map Sliding.windows).any (· ≤ 0) = true := by
    simp only [List.any_map, List.any_eq_true, Function.comp_apply, decide_eq_true_eq]
    exact ⟨w, member, (Sliding.windows_nonpos_iff (strides w member)).2 unfit⟩
  unfold planRows
  rw [Sliding.counts_eq strides, ok_bind, if_pos none]
  rfl

section Fitting

variable (enough : ks.length ≤ l.rank) (strided : ss.length = ks.length) (dilated : ds.length = ks.length)

include enough strided dilated

theorem map_slidingAxes : (l.slidingAxes ks ss ds).map Sliding.input = l.shape.drop (l.rank - ks.length)
    ∧ (l.slidingAxes ks ss ds).map Sliding.kernel = ks ∧ (l.slidingAxes ks ss ds).map Sliding.stride = ss
    ∧ (l.slidingAxes ks ss ds).map Sliding.dilation = ds :=
  Sliding.map_ofLists (by rw [List.length_drop]; exact Nat.sub_sub_self enough) strided dilated

theorem pool_unfit (strides : ∀ s ∈ ss, 1 ≤ s) (unfit : l.Unfit ks ss ds) :
    l.pool ks ss ds = .error (.convolution (.window (Datum.ints ks) (Datum.ints ds)
      (l.shape.drop (l.rank - ks.length)))) := by
  -- The windows are counted before anything is moved.
  obtain ⟨w, member, short⟩ := unfit.resolve_left (Nat.not_lt.2 enough)
  have kept : (l.shape.take (l.rank - ks.length)).length = l.rank - ks.length := by
    rw [List.length_take]
    exact Nat.min_eq_left (Nat.sub_le _ _)
  have planned := planRows_unfit (fun v inner => strides v.stride (by
    rw [← (map_slidingAxes enough strided dilated).2.2.1]
    exact List.mem_map_of_mem inner)) member short ks ds (l.shape.drop (l.rank - ks.length))
  unfold slidingAxes at planned
  unfold Layout.pool
  simp only [if_neg (Nat.not_lt.2 enough), strided, dilated, requireCount_eq, ok_bind, kept, planned]
  rfl

theorem Clear.pool_windows (clear : l.Clear) (kernels : ∀ k ∈ ks, 1 ≤ k) (strides : ∀ s ∈ ss, 1 ≤ s)
    (dilations : ∀ d ∈ ds, 1 ≤ d) (fit : ¬ l.Unfit ks ss ds) : ∃ r, l.pool ks ss ds = .ok r
      ∧ r.shape = l.shape.take (l.rank - ks.length) ++ (l.slidingAxes ks ss ds).map Sliding.windows ++ ks
      ∧ ∀ front start step, Inside front (l.shape.take (l.rank - ks.length)) →
        Inside start ((l.slidingAxes ks ss ds).map Sliding.windows) → Inside step ks →
        r.address (front ++ start ++ step) = l.address (front
          ++ (start.zipWith (· * ·) ss).zipWith (· + ·) (step.zipWith (· * ·) ds)) := by
  obtain ⟨inputs, windows, spacings, gaps⟩ := map_slidingAxes enough strided dilated
  have shape : l.shape = l.shape.take (l.rank - ks.length) ++ (l.slidingAxes ks ss ds).map Sliding.input := by
    rw [inputs, List.take_append_drop]
  have fits : ∀ w ∈ l.slidingAxes ks ss ds, w.Fits := by
    intro w member
    refine ⟨kernels _ (windows ▸ List.mem_map_of_mem member), strides _ (spacings ▸ List.mem_map_of_mem member),
      dilations _ (gaps ▸ List.mem_map_of_mem member), ?_⟩
    by_contra none
    refine fit (.inr ⟨w, member, ?_⟩)
    unfold Sliding.starts at none
    omega
  obtain ⟨r, origin, pooled, shows, back⟩ := clear.pool shape fits
  rw [windows, spacings, gaps] at pooled
  rw [windows] at shows
  refine ⟨r, pooled, shows.shape_eq, fun front start step first starts steps => ?_⟩
  have whole := (first.append starts).append steps
  rw [← windows] at steps
  -- Each start and each step beside the axis that it belongs to.
  obtain ⟨spots, axes, rfl, rfl, startBounds, stepBounds⟩ := exists_spots starts steps
  have stride : ss = spots.map fun p => p.1.stride := by
    rw [← spacings, ← axes, List.map_map]
    rfl
  have dilation : ds = spots.map fun p => p.1.dilation := by
    rw [← gaps, ← axes, List.map_map]
    rfl
  have position : ((spots.map fun p => p.2.1).zipWith (· * ·) ss).zipWith (· + ·)
      ((spots.map fun p => p.2.2).zipWith (· * ·) ds)
      = spots.map fun p => p.2.1 * p.1.stride + p.2.2 * p.1.dilation := by
    rw [stride, dilation]
    simp only [List.zipWith_map, List.zipWith_self]
  rw [shows.address_eq whole, back front first spots axes startBounds stepBounds, position]
  rfl

end Fitting

/-- Windows over the last axes of a built layout are refused just if there are not enough axes, or one of them
    is shorter than its window. Otherwise there are as many along each axis as fit, and a step of a window has
    the address that its position has. -/
theorem Built.requestPool_windows (built : l.Built) {strides dilation : Datum}
    (strided : Loose.ForAxes ks.length strides ss) (dilated : Loose.ForAxes ks.length dilation ds)
    (kernels : ∀ k ∈ ks, 1 ≤ k) (steps : ∀ s ∈ ss, 1 ≤ s) (gaps : ∀ d ∈ ds, 1 ≤ d) :
    ((∃ fault, l.requestPool (.list (Datum.ints ks)) strides dilation = .error (.shape fault))
        ↔ l.Unfit ks ss ds)
      ∧ l.requestPool (.list (Datum.ints ks)) strides dilation ≠ .error .unmet
      ∧ (¬ l.Unfit ks ss ds → ∃ r, l.requestPool (.list (Datum.ints ks)) strides dilation = .ok r
        ∧ r.shape = l.shape.take (l.rank - ks.length) ++ (l.slidingAxes ks ss ds).map Sliding.windows ++ ks
        ∧ ∀ front start step, Inside front (l.shape.take (l.rank - ks.length)) →
          Inside start ((l.slidingAxes ks ss ds).map Sliding.windows) → Inside step ks →
          r.address (front ++ start ++ step) = l.address (front
            ++ (start.zipWith (· * ·) ss).zipWith (· + ·) (step.zipWith (· * ·) ds))) := by
  rw [l.requestPool_eq strided dilated]
  have strideCount := strided.length_eq
  have dilationCount := dilated.length_eq
  -- Too few axes, a window that is too long for its axis, or windows that fit.
  by_cases few : l.rank < ks.length
  · rw [pool_of_few few]
    exact ⟨⟨fun _ => .inl few, fun _ => ⟨_, rfl⟩⟩, by simp, fun fit => absurd (.inl few) fit⟩
  · have enough := Nat.not_lt.1 few
    by_cases unfit : l.Unfit ks ss ds
    · rw [pool_unfit enough strideCount dilationCount steps unfit]
      exact ⟨⟨fun _ => unfit, fun _ => ⟨_, rfl⟩⟩, by simp, fun fit => absurd unfit fit⟩
    · obtain ⟨r, ok, shown⟩ :=
        built.clear.pool_windows enough strideCount dilationCount kernels steps gaps unfit
      rw [ok]
      refine ⟨⟨?_, fun bad => absurd bad unfit⟩, by simp, fun _ => ⟨r, rfl, shown⟩⟩
      rintro ⟨_, failed⟩
      cases failed

/-- Two rows of three elements in a padded rectangle, whose columns are joined in pairs. -/
def joinedColumns : Layout :=
  ⟨View.rowMajor [2, 6], [{ shape := [4, 3], strides := [1, 3], offset := -1, mask := some [(1, 4), (0, 2)] }]⟩

theorem built_joinedColumns : joinedColumns.Built :=
  @Built.reshape _ _ [2, 6] (@Built.permute _ _ [1, 0] (@Built.pad _ _ [(0, 1), (1, 0)]
    (@Built.whole [2, 3] _ (by decide) rfl) rfl) rfl) rfl

/-- Windows over the joined columns meet elements and padding, and a window of seven columns does not fit. -/
theorem Built.requestPool_windows_joinedColumns : joinedColumns.Built
    ∧ (∃ r, joinedColumns.requestPool (.list (Datum.ints [2])) (.int 3) (.list (Datum.ints [2])) = .ok r
      ∧ r.shape = [2, 2, 2] ∧ r.address [0, 1, 0] = .ok (some 0) ∧ r.address [0, 1, 1] = .ok none)
    ∧ ∃ fault,
      joinedColumns.requestPool (.list (Datum.ints [4])) (.int 1) (.int 2) = .error (.shape fault) := by
  have fit := @Built.requestPool_windows joinedColumns [2] [3] [2] built_joinedColumns (.int 3)
    (.list (Datum.ints [2])) (.all 3) (.each rfl) (by decide) (by decide) (by decide)
  have unfit := @Built.requestPool_windows joinedColumns [4] [1] [2] built_joinedColumns (.int 1) (.int 2)
    (.all 1) (.all 2) (by decide) (by decide) (by decide)
  obtain ⟨r, ok, shape, shown⟩ := fit.2.2 (by decide)
  refine ⟨built_joinedColumns, ⟨r, ok, shape, ?_, ?_⟩, unfit.1.2 (by decide)⟩
  · exact (shown [0] [1] [0] (by decide) (by decide) (by decide)).trans rfl
  · exact (shown [0] [1] [1] (by decide) (by decide) (by decide)).trans rfl

/-- Dilating a built layout and padding it, or cutting it where the padding is negative, shows at every position
    between gaps the element that belongs there, and nothing in the gaps and in the padding. -/
theorem Built.dilate_padOrCut (built : l.Built) {a b : Int} {extents dilation : List Int}
    {padding : List (Int × Int)} (shape : l.shape = a :: b :: extents)
    (dilations : dilation.length = extents.length) (paddings : padding.length = extents.length)
    (natural : ∀ d ∈ dilation, 1 ≤ d)
    (fits : ∀ n ∈ View.padded (extents.zipWith windowReach dilation) padding, 1 ≤ n) :
    ∃ r, (l.dilate dilation >>= fun dilated => dilated.padOrCut padding) = .ok r
      ∧ r.shape = a :: b :: View.padded (extents.zipWith windowReach dilation) padding
      ∧ ∀ i c position, Inside (i :: c :: position) r.shape → r.address (i :: c :: position)
        = if OnPoint extents dilation (behind position padding)
          then l.address (i :: c :: (behind position padding).zipWith (· / ·) dilation) else .ok none := by
  -- Every axis with its dilation and its padding.
  obtain ⟨axes, rfl, rfl, rfl⟩ : ∃ axes : List (Int × Int × (Int × Int)), axes.map (fun x => x.1) = extents
      ∧ axes.map (fun x => x.2.1) = dilation ∧ axes.map (fun x => x.2.2) = padding := by
    have rest : (extents.zip (dilation.zip padding)).map Prod.snd = dilation.zip padding :=
      List.map_snd_zip (by simp [dilations, paddings])
    refine ⟨extents.zip (dilation.zip padding), List.map_fst_zip (by simp [dilations, paddings]), ?_, ?_⟩
    · refine (List.map_map (g := Prod.fst) (f := Prod.snd)).symm.trans ?_
      rw [rest, List.map_fst_zip (le_of_eq (dilations.trans paddings.symm))]
    · refine (List.map_map (g := Prod.snd) (f := Prod.snd)).symm.trans ?_
      rw [rest, List.map_snd_zip (le_of_eq (paddings.trans dilations.symm))]
  -- No axis is empty, so that a dilated axis is never cut down to nothing.
  have positive := built.clear.positive
  rw [shape, Shape.positive_cons, Shape.positive_cons] at positive
  have reach : ∀ x ∈ axes, dilatedExtent x.1 x.2.1 = windowReach x.1 x.2.1 := fun x member =>
    dilatedExtent_eq (positive.2.2 _ (List.mem_map_of_mem member)) (natural _ (List.mem_map_of_mem member))
  have extents : View.padded ((axes.map fun x => x.1).zipWith windowReach (axes.map fun x => x.2.1))
      (axes.map fun x => x.2.2) = axes.map fun x => dilatedExtent x.1 x.2.1 + x.2.2.1 + x.2.2.2 := by
    rw [View.padded, List.zipWith_map, List.zipWith_self, List.zipWith_map, List.zipWith_self]
    exact List.map_congr_left fun x member => by rw [reach x member]
  rw [extents] at fits ⊢
  obtain ⟨dilated, r, dilatedOk, ok, shows⟩ := @Clear.dilatePad l a b built.clear _ axes (fun x => x.1)
    (fun x => x.2.1) (fun x => x.2.2.1) (fun x => x.2.2.2) shape
    (fun x member => natural _ (List.mem_map_of_mem member))
    (fun x member => Int.lt_of_add_one_le (fits _ (List.mem_map_of_mem member)))
  refine ⟨r, by rw [dilatedOk, ok_bind]; exact ok, shows.shape_eq, fun i c position inside => ?_⟩
  rw [shows.address_eq (shows.shape_eq ▸ inside)]
  show (pointBelow _ _ [i, c] _).elim _ _ = _
  rw [List.drop_succ_cons, List.drop_succ_cons, List.drop_zero, pointBelow]
  split <;> rfl

/-- Joined columns between gaps, cut in front and padded behind: an element, a gap and the padding. -/
theorem Built.dilate_padOrCut_joinedColumns : ∃ l r, joinedColumns.reshape [1, 2, 6] = .ok l ∧ l.Built
    ∧ (l.dilate [2] >>= fun dilated => dilated.padOrCut [(-3, 1)]) = .ok r ∧ r.shape = [1, 2, 9]
    ∧ r.address [0, 1, 3] = .ok (some 2) ∧ r.address [0, 1, 2] = .ok none ∧ r.address [0, 1, 8] = .ok none := by
  have built := @Built.reshape _ _ [1, 2, 6] built_joinedColumns rfl
  obtain ⟨r, ok, shape, shown⟩ := @Built.dilate_padOrCut _ built 1 2 [6] [2] [(-3, 1)] rfl rfl rfl (by decide)
    (by decide)
  rw [shape] at shown
  exact ⟨_, r, rfl, built, ok, shape, (shown 0 1 [3] (by decide)).trans rfl,
    (shown 0 1 [2] (by decide)).trans rfl, (shown 0 1 [8] (by decide)).trans rfl⟩

end Layout

end StridedArray
