import StridedArray.Proofs.Layout.Reshape

/-! # How layouts stay well formed

Every movement checks its arguments, and `expand` alone takes an extent that is negative. Otherwise all views
of a layout stay well formed; and even then they keep one stride and one range for every axis, no stride on
an axis of extent 1 and no mask that hides nothing.

* `View.Arranged.create` and its neighbours, `Move.arranged_run` — what no argument can break;
* `Layout.Counts` — the size of a layout is the number of its multi-indices;
* `Layout.runAll_sound_iff` — all layouts on the way are well formed exactly if no axis is repeated a
  negative number of times. -/

namespace StridedArray

open Shape (Inside box product)
open Layout (axisNumbers)
open View (pick)

/-! ## What no argument can break -/

namespace View

variable {v r : View}

theorem Arranged.permute (arranged : v.Arranged) {order : List Int}
    (perm : order.Perm (axisNumbers v.shape.length)) (permuted : v.permute? order = some r) : r.Arranged := by
  have stridePerm : order.Perm (axisNumbers v.strides.length) := by rwa [arranged.strides]
  have rangePerm : order.Perm (axisNumbers v.ranges.length) := by rwa [arranged.ranges]
  rw [permute?_eq arranged.strides arranged.ranges perm] at permuted
  cases permuted
  exact Arranged.create (by rw [length_pick stridePerm, length_pick perm, arranged.strides])
    (by rw [length_pick rangePerm, length_pick perm, arranged.ranges]) _

theorem Arranged.pad (arranged : v.Arranged) {widths : List (Int × Int)}
    (lengths : widths.length = v.shape.length) : (v.pad widths).Arranged :=
  Arranged.create (by simp [arranged.strides, lengths]) (by simp [arranged.ranges, lengths]) _

theorem Arranged.shrink (arranged : v.Arranged) {kept : List (Int × Int)}
    (lengths : kept.length = v.shape.length) : (v.shrink kept).Arranged :=
  Arranged.create (by simp [arranged.strides, lengths]) (by simp [arranged.ranges, lengths]) _

theorem Arranged.expand (arranged : v.Arranged) {target : List Int}
    (rank : v.shape.length = target.length) : (v.expand target).Arranged :=
  have lengths := length_expandAxes rank arranged.strides arranged.ranges
  Arranged.create (by rw [List.length_map, lengths]) (by rw [List.length_map, lengths]) _

theorem Arranged.flip (arranged : v.Arranged) {axes : List Nat} (bounds : ∀ axis ∈ axes, axis < v.shape.length)
    (flipped : v.flip? (axes.map Int.ofNat) = some r) : r.Arranged := by
  have course : Course.Regular v.shape (v.offset, v.strides, v.ranges) := ⟨arranged.strides, arranged.ranges⟩
  obtain ⟨⟨offset, strides, ranges⟩, known, last, -, -⟩ := course.run bounds
  obtain rfl : View.create v.shape strides offset (some ranges) = r := by
    simpa [View.flip?, known] using flipped
  exact Arranged.create last.strides last.ranges _

theorem Arranged.reshape (arranged : v.Arranged) {target : List Int} (shaped : v.reshape? target = some r) :
    r.Arranged := by
  rw [reshape?_eq arranged.strides arranged.ranges] at shaped
  split at shaped
  · cases shaped
    exact arranged_rowMajor target
  · split at shaped
    · next drops =>
      cases shaped
      have lengths := length_distribute (regrouped_lengths arranged drops.2.1)
      exact Arranged.create (by rw [List.length_map, regroupedAxes, lengths])
        (by rw [List.length_map, regroupedAxes, lengths]) _
    · cases shaped

end View

namespace Layout

def Arranged (l : Layout) : Prop := ∀ v ∈ l.top :: l.below, v.Arranged

variable {l r : Layout}

theorem Sound.arranged (sound : l.Sound) : l.Arranged := fun v member => (sound v member).arranged

theorem Arranged.top (arranged : l.Arranged) : l.top.Arranged := arranged _ (List.mem_cons_self ..)

theorem Arranged.replaceTop (arranged : l.Arranged) {v : View} (top : v.Arranged) :
    (l.replaceTop v).Arranged :=
  List.forall_mem_cons.2 ⟨top, (List.forall_mem_cons.1 arranged).2⟩

theorem Arranged.reshape (arranged : l.Arranged) {target : List Int} (moved : l.reshape target = .ok r) :
    r.Arranged := by
  obtain ⟨-, -, rfl⟩ := reshape_ok.1 moved
  unfold reshaped
  split
  · exact arranged
  · cases shaped : l.top.reshape? target with
    | some v => exact arranged.replaceTop (arranged.top.reshape shaped)
    | none => exact List.forall_mem_cons.2 ⟨View.arranged_rowMajor target, arranged⟩

theorem Arranged.permute (arranged : l.Arranged) {order : List Int} (moved : l.permute order = .ok r) :
    r.Arranged := by
  obtain ⟨perm, v, permuted, rfl⟩ := permute_ok.1 moved
  exact arranged.replaceTop (arranged.top.permute perm permuted)

theorem Arranged.expand (arranged : l.Arranged) {target : List Int} (moved : l.expand target = .ok r) :
    r.Arranged := by
  obtain ⟨stretches, rfl⟩ := expand_ok.1 moved
  split
  · exact arranged
  · exact arranged.replaceTop (arranged.top.expand stretches.length_eq)

end Layout

/-- Every movement keeps a stride and a range for every axis, whatever its arguments are. -/
theorem Move.arranged_run {l r : Layout} (arranged : l.Arranged) {m : Move} (moved : m.run l = .ok r) :
    r.Arranged := by
  cases m with
  | reshape shape => exact arranged.reshape moved
  | permute order => exact arranged.permute moved
  | moveAxis source target => exact arranged.permute (demand_eq_ok.1 moved).2
  | pad widths =>
    obtain ⟨lengths, -, rfl⟩ := Layout.pad_ok.1 moved
    split
    · exact arranged
    · exact arranged.replaceTop (arranged.top.pad lengths)
  | shrink ranges =>
    obtain ⟨within, rfl⟩ := Layout.shrink_ok.1 moved
    split
    · exact arranged
    · exact arranged.replaceTop (arranged.top.shrink within.length_eq)
  | expand shape => exact arranged.expand moved
  | tile counts =>
    obtain ⟨-, -, split, first, tiled, second, third⟩ := Layout.tile_ok.1 moved
    exact ((arranged.reshape first).expand second).reshape third
  | flip axes =>
    obtain ⟨places, placed, v, flipped, rfl⟩ := Layout.flip_ok.1 moved
    exact arranged.replaceTop (arranged.top.flip (Layout.places_lt placed) flipped)

theorem Layout.arranged_runAll {l r : Layout} (arranged : l.Arranged) {moves : List Move}
    (moved : l.runAll moves = .ok r) : r.Arranged := by
  induction moves generalizing l with
  | nil =>
    cases moved
    exact arranged
  | cons m moves inductionHypothesis =>
    rw [Layout.runAll, List.foldlM_cons, bind_eq_ok] at moved
    obtain ⟨next, first, rest⟩ := moved
    exact inductionHypothesis (m.arranged_run arranged first) rest

/-! ## Sizes -/

/-- A box without negative extents has as many multi-indices as its extents say. -/
theorem Shape.card_box {shape : List Int} (extents : ∀ s ∈ shape, 0 ≤ s) : ((box shape).card : Int) = product shape := by
  induction shape with
  | nil => rfl
  | cons s shape inductionHypothesis =>
    obtain ⟨natural, extents⟩ := List.forall_mem_cons.1 extents
    have axis : ((below s).card : Int) = s := by
      rw [below, Finset.card_map, Finset.card_range, Int.toNat_of_nonneg natural]
    rw [box, Finset.card_map, Finset.card_product, Nat.cast_mul, axis, inductionHypothesis extents, product_cons]

namespace Layout

/-- The size of a layout is the number of multi-indices that it has an answer for. -/
def Counts (l : Layout) : Prop :=
  ∃ legal : Finset (List Int), (∀ index, index ∈ legal ↔ ∃ answer, l.address index = .ok answer)
    ∧ (legal.card : Int) = l.size

variable {l : Layout}

theorem Sound.counts (sound : l.Sound) : l.Counts :=
  ⟨box l.shape, fun _ => Shape.mem_box.trans address_ok_iff.symm, Shape.card_box sound.extents⟩

/-! ## The way -/

theorem runAll_append {first last : List Move} {r : Layout} :
    l.runAll (first ++ last) = .ok r ↔ ∃ m, l.runAll first = .ok m ∧ m.runAll last = .ok r := by
  rw [runAll, List.foldlM_append, bind_eq_ok]
  rfl

theorem shape_expand {target : List Int} {r : Layout} (moved : l.expand target = .ok r) : r.shape = target := by
  obtain ⟨-, rfl⟩ := expand_ok.1 moved
  split
  · next same => exact same.symm
  · rfl

/-- Whatever movements succeed from a whole array: every layout on the way is well formed, and has as many
    multi-indices as its size says, exactly if no axis is repeated a negative number of times. All views have
    one stride and one range for every axis in any case. -/
theorem runAll_sound_iff {shape : List Int} {start r : Layout} {moves : List Move}
    (made : ofShape shape = .ok start) (moved : start.runAll moves = .ok r) :
    ((∀ n m, start.runAll (moves.take n) = .ok m → m.Sound ∧ m.Counts) ↔ ∀ m ∈ moves, m.Natural)
      ∧ r.Arranged := by
  have sound := sound_ofShape made
  refine ⟨⟨fun each => ?_, fun natural n m reached => ?_⟩, arranged_runAll sound.arranged moved⟩
  · intro move member
    cases move with
    | expand target =>
      -- Just after the movement, its argument is the shape of the layout.
      obtain ⟨before, after, rfl⟩ := List.append_of_mem member
      obtain ⟨m, reached, rest⟩ := runAll_append.1 moved
      rw [runAll, List.foldlM_cons, bind_eq_ok] at rest
      obtain ⟨next, expanded, -⟩ := rest
      have taken : start.runAll ((before ++ .expand target :: after).take (before.length + 1)) = .ok next := by
        rw [List.take_length_add_append]
        exact runAll_append.2 ⟨m, reached, bind_eq_ok.2 ⟨next, expanded, rfl⟩⟩
      have extents := (each _ _ taken).1.extents
      rwa [shape_expand expanded] at extents
    | _ => trivial
  · have fine := sound_runAll sound (fun m member => natural m (List.mem_of_mem_take member)) reached
    exact ⟨fine, fine.counts⟩

/-- Nine positions of a padded array in the other order of its axes, seen in a row and turned round. -/
def turnedRow : List Move :=
  [.pad [(1, 0), (0, 0)], .permute [1, 0], .reshape [9], .flip [0], .expand [9]]

/-- A single position repeated `-3` times is no array any more; the padded one is, on two views. -/
theorem runAll_sound_iff_negativeExtent :
    (¬ ∀ n m, (rowMajor [1]).runAll ([Move.expand [-3]].take n) = .ok m → m.Sound ∧ m.Counts)
      ∧ ∃ r, (rowMajor [2, 3]).runAll turnedRow = .ok r ∧ r.below.length = 1 ∧ r.Sound ∧ r.Counts := by
  constructor
  · intro each
    have law := @runAll_sound_iff [1] (rowMajor [1]) _ [.expand [-3]] rfl rfl
    have natural : (0 : Int) ≤ -3 := law.1.1 each _ (List.mem_singleton_self _) _ (List.mem_singleton_self _)
    exact absurd natural (by decide)
  · have law := @runAll_sound_iff [2, 3] (rowMajor [2, 3]) _ turnedRow rfl rfl
    obtain ⟨sound, counts⟩ := law.1.2 (by simp [turnedRow, Move.Natural]) 5 _ rfl
    exact ⟨_, rfl, rfl, sound, counts⟩

end Layout

end StridedArray
