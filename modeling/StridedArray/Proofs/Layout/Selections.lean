import StridedArray.Layout.Select
import StridedArray.Proofs.Datum
import StridedArray.Proofs.Layout.Anchored
import StridedArray.Proofs.Layout.Pooling
import StridedArray.Proofs.Layout.Rearrangements

/-! # Basic indexing

Positions and slices select from the leading axes of an array. A position takes its axis away; a slice keeps every so
many positions of a range.

* `BasicIndex` — positions and slices; `selected`, `source` — the shape that they leave, and where its elements come
  from; `Refused` — what is no index of an axis;
* `Layout.Takes` — a layout that shows every multi-index like another one does elsewhere, so that nothing is padding;
* `Anchored.cutAxis`, `Anchored.takes_everyNth` — parts of one axis; `Anchored.selectAxis_cases`,
  `Anchored.selectFrom_cases` — one index and several;
* `Anchored.select_cases` — a selection shows what is selected, unless an index is refused. -/

namespace StridedArray

open Shape (Inside SamePlace product ravel unravel)

/-! ## Indices -/

/-- An index of one axis: a position, which counts from the end if it is negative, or a slice, of which nothing needs
    to be given. -/
inductive BasicIndex
  | position (i : Int)
  | slice (start stop step : Option Int)
  deriving DecidableEq

namespace BasicIndex

def part : Option Int → Datum
  | none => .none
  | some n => .int n

def datum : BasicIndex → Datum
  | position i => .int i
  | slice start stop step => .slice (part start) (part stop) (part step)

/-- An end of a slice of an axis with `n` positions. It counts from the end if it is negative, and does not leave the
    axis. -/
def bounded (n given : Int) : Int :=
  if given < 0 then if given + n < 0 then 0 else given + n
  else if n ≤ given then n else given

def first (n : Int) (start : Option Int) : Int := (start.map (bounded n)).getD 0

/-- The position at which a slice ends, which does not belong to it. -/
def last (n : Int) (stop : Option Int) : Int := (stop.map (bounded n)).getD n

def count (n : Int) (start stop step : Option Int) : Int :=
  if first n start < last n stop then (last n stop - first n start - 1) / step.getD 1 + 1 else 0

def Refused (n : Int) : BasicIndex → Prop
  | position i => ¬ (-n ≤ i ∧ i < n)
  | slice _ _ step => step.getD 1 < 0

instance (n : Int) : (x : BasicIndex) → Decidable (x.Refused n)
  | position _ => inferInstanceAs (Decidable (¬ _))
  | slice _ _ step => inferInstanceAs (Decidable (step.getD 1 < 0))

/-- Slices take steps. One that takes none is no slice at all, whatever its axis is. -/
def Steps : BasicIndex → Prop
  | position _ => True
  | slice _ _ step => step ≠ some 0

instance : (x : BasicIndex) → Decidable x.Steps
  | position _ => isTrue trivial
  | slice _ _ step => inferInstanceAs (Decidable (step ≠ some 0))

def selected : List BasicIndex → List Int → List Int
  | position _ :: rest, _ :: shape => selected rest shape
  | slice start stop step :: rest, n :: shape => count n start stop step :: selected rest shape
  | _, shape => shape

def source : List BasicIndex → List Int → List Int → List Int
  | position i :: rest, n :: shape, index => (if i < 0 then i + n else i) :: source rest shape index
  | slice start _ step :: rest, n :: shape, k :: index =>
    (first n start + k * step.getD 1) :: source rest shape index
  | _, _, index => index

/-- Indices of the leading axes that are refused: there are too many, or one of them is none of its axis. -/
def RefusedBy (shape : List Int) (xs : List BasicIndex) : Prop :=
  shape.length < xs.length ∨ ∃ a ∈ xs.zip shape, a.1.Refused a.2

instance (shape : List Int) (xs : List BasicIndex) : Decidable (RefusedBy shape xs) :=
  inferInstanceAs (Decidable (_ ∨ _))

/-! ### Selectors -/

def selector : BasicIndex → Selector
  | position i => .position i (.int i)
  | slice start stop step => if step = some 0 then .refused .malformed else .slice start stop (step.getD 1)

theorem slicePart_part (given : Option Int) : (part given).slicePart = .ok given := by
  cases given with
  | none => rfl
  | some n =>
    show some <$> (Datum.int n).exact = _
    rw [Datum.exact_int]
    rfl

theorem ofDatum_datum (x : BasicIndex) : Selector.ofDatum x.datum = x.selector := by
  cases x with
  | position i => rfl
  | slice start stop step =>
    have parts : Selector.ofParts (part start) (part stop) (part step)
        = if step = some 0 then .error .malformed else .ok (.slice start stop (step.getD 1)) := by
      unfold Selector.ofParts
      rw [slicePart_part, slicePart_part, slicePart_part, ok_bind]
      split <;> rfl
    unfold datum Selector.ofDatum selector
    dsimp only
    rw [parts]
    by_cases none : step = some 0
    · rw [if_pos none, if_pos none]
    · rw [if_neg none, if_neg none]

theorem bounded_eq (n given : Int) : bounded n given = clampEnd n given := by
  unfold bounded clampEnd
  split
  · split <;> omega
  · split <;> omega

theorem sliceRange_eq (n : Int) (start stop : Option Int) :
    sliceRange n start stop = (first n start, max (last n stop) (first n start)) := by
  have same : clampEnd n = bounded n := funext fun given => (bounded_eq n given).symm
  unfold sliceRange first last
  rw [same]

theorem range_bounds {n : Int} (natural : 0 ≤ n) (start stop : Option Int) :
    0 ≤ first n start ∧ first n start ≤ n ∧ 0 ≤ last n stop ∧ last n stop ≤ n := by
  have each : ∀ given, 0 ≤ bounded n given ∧ bounded n given ≤ n := by
    intro given
    unfold bounded
    split
    · split <;> omega
    · split <;> omega
  have low : 0 ≤ first n start ∧ first n start ≤ n := by
    cases start with
    | none => exact ⟨Int.le_refl 0, natural⟩
    | some given => exact each given
  have high : 0 ≤ last n stop ∧ last n stop ≤ n := by
    cases stop with
    | none => exact ⟨natural, Int.le_refl n⟩
    | some given => exact each given
  exact ⟨low.1, low.2, high.1, high.2⟩

theorem count_eq {n : Int} {step : Option Int} (forward : 0 < step.getD 1) (start stop : Option Int) :
    count n start stop step = Sliding.ceiling (max (last n stop) (first n start) - first n start) (step.getD 1) := by
  symm
  unfold count
  split
  · next some =>
    rw [max_eq_left (Int.le_of_lt some), Sliding.ceiling_eq_iff forward]
    have parts := Int.mul_ediv_add_emod (last n stop - first n start - 1) (step.getD 1)
    have low := Int.emod_nonneg (last n stop - first n start - 1) (by omega : step.getD 1 ≠ 0)
    have high := Int.emod_lt_of_pos (last n stop - first n start - 1) forward
    constructor <;> nlinarith
  · next none =>
    rw [max_eq_right (Int.not_lt.1 none), Int.sub_self, Sliding.ceiling_eq_iff forward]
    omega

end BasicIndex

/-! ## One axis -/

namespace Layout

open View (padded behind ahead spans)

/-- A layout that stays inside of a buffer and shows every multi-index like another one shows one elsewhere. -/
structure Takes (r l : Layout) (count : Int) (shape : List Int) (origin : List Int → List Int) : Prop where
  anchored : r.Anchored count
  follows : r.Follows l shape fun index => some (origin index)

variable {l m r : Layout} {count n : Int} {shape target front back : List Int} {origin later : List Int → List Int}

theorem Takes.trans (first : m.Takes l count shape origin) (second : r.Takes m count target later) :
    r.Takes l count target fun index => origin (later index) :=
  ⟨second.anchored, first.follows.trans second.follows⟩

theorem Takes.congr (takes : r.Takes l count shape origin)
    (same : ∀ index, Inside index shape → origin index = later index) : r.Takes l count shape later :=
  ⟨takes.anchored, takes.follows.congr fun index inside => congrArg some (same index inside)⟩

theorem Takes.shape_eq (takes : r.Takes l count shape origin) : r.shape = shape := takes.follows.shape_eq

theorem Takes.address_rowMajor (takes : r.Takes (rowMajor target) count shape origin) {index : List Int}
    (inside : Inside index shape) :
    Inside (origin index) target ∧ r.address index = .ok (some (ravel (origin index) target)) := by
  have source : Inside (origin index) (rowMajor target).shape := takes.follows.inside inside rfl
  refine ⟨source, (takes.follows.address_eq inside).trans ((address_eq source).trans ?_)⟩
  exact congrArg Except.ok (offsetOf?_rowMajor source)

theorem Anchored.takes_reshape (anchored : l.Anchored count) (natural : ∀ s ∈ target, 0 ≤ s)
    (size : product target = l.size) :
    ∃ r, l.reshape target = .ok r ∧ r.Takes l count target fun index => unravel (ravel index target) l.shape := by
  have moved : l.reshape target = .ok (l.reshaped target) := reshape_ok.2 ⟨natural, size, rfl⟩
  refine ⟨_, moved, anchored.reshape moved, shape_reshaped anchored.sound natural, ?_, ?_⟩
  · rintro index before inside ⟨⟩
    obtain ⟨low, high⟩ := inside.ravel_bounds
    exact Shape.inside_unravel (anchored.sound.positive low (size ▸ high)) _
  · intro index inside
    obtain ⟨low, high⟩ := inside.ravel_bounds
    have here := anchored.sound.offsetOf?_reshaped_of_settled anchored.settled natural size low (size ▸ high)
    rw [inside.unravel_ravel] at here
    rw [address_eq ((shape_reshaped anchored.sound natural).symm ▸ inside), here]
    exact (address_eq (Shape.inside_unravel (anchored.sound.positive low (size ▸ high)) _)).symm

theorem Anchored.takes_shrink (anchored : l.Anchored count) {kept : List (Int × Int)} (within : View.Within kept l.shape) :
    ∃ r, l.shrink kept = .ok r ∧ r.Takes l count (spans kept) fun index => ahead index kept := by
  obtain ⟨r, moved, -, follows⟩ := anchored.sound.regular.shrink within
  exact ⟨r, moved, anchored.shrink moved, follows⟩

/-! ### An axis between others -/

theorem inside_middle {index : List Int} (inside : Inside index (front ++ n :: back)) :
    ∃ a i b, index = a ++ i :: b ∧ Inside a front ∧ (0 ≤ i ∧ i < n) ∧ Inside b back := by
  obtain ⟨a, rest, rfl, first, behind⟩ := inside.split
  obtain ⟨i, b, rfl, bounds, second⟩ := Shape.inside_cons_right.1 behind
  exact ⟨a, i, b, rfl, first, bounds, second⟩

theorem modify_middle (a b : List Int) (i : Int) (f : Int → Int) : (a ++ i :: b).modify a.length f = a ++ f i :: b := by
  induction a with
  | nil => rfl
  | cons x a inductionHypothesis => simpa using inductionHypothesis

theorem mapIdx_except {β : Type} (front back : List Int) (n : Int) (x : β) (f : Int → β) :
    (front ++ n :: back).mapIdx (fun a s => if a = front.length then x else f s) = front.map f ++ x :: back.map f := by
  rw [List.mapIdx_append, List.mapIdx_cons]
  congr 1
  · refine List.ext_getElem (by simp) fun k bound _ => ?_
    rw [List.length_mapIdx] at bound
    rw [List.getElem_mapIdx, List.getElem_map, if_neg (by omega)]
  · rw [if_pos (Nat.zero_add _)]
    congr 1
    refine List.ext_getElem (by simp) fun k _ _ => ?_
    rw [List.getElem_mapIdx, List.getElem_map, if_neg (by omega)]

theorem fullExcept_eq (front back : List Int) (n : Int) (range : Int × Int) :
    fullExcept (front ++ n :: back) front.length range = View.fullMask front ++ range :: View.fullMask back :=
  mapIdx_except front back n range fun s => (0, s)

theorem padOnly_eq (front back : List Int) (n : Int) (widths : Int × Int) :
    padOnly (front ++ n :: back).length front.length widths
      = front.map (fun _ => (0, 0)) ++ widths :: back.map fun _ => (0, 0) := by
  rw [← mapIdx_except front back n widths fun _ => (0, 0), padOnly]
  exact List.ext_getElem (by simp) fun k _ _ => by simp

theorem within_fullMask (natural : ∀ s ∈ shape, 0 ≤ s) : View.Within (View.fullMask shape) shape := by
  unfold View.Within View.fullMask
  rw [List.forall₂_map_left_iff, List.forall₂_same]
  exact fun s member => ⟨Int.le_refl 0, natural s member, Int.le_refl s⟩

theorem Anchored.cutAxis (anchored : l.Anchored count) (known : l.shape = front ++ n :: back) {low high : Int}
    (start : 0 ≤ low) (order : low ≤ high) (stop : high ≤ n) :
    ∃ r, l.shrink (fullExcept l.shape front.length (low, high)) = .ok r
      ∧ r.Takes l count (front ++ (high - low) :: back) fun index => index.modify front.length (low + ·) := by
  have natural := anchored.sound.extents
  rw [known] at natural
  have within : View.Within (View.fullMask front ++ (low, high) :: View.fullMask back) l.shape := by
    rw [known]
    refine List.rel_append (within_fullMask fun s member => natural s (List.mem_append_left _ member))
      (.cons ⟨start, order, stop⟩ (within_fullMask fun s member => natural s ?_))
    exact List.mem_append_right _ (List.mem_cons_of_mem _ member)
  obtain ⟨r, moved, takes⟩ := anchored.takes_shrink within
  rw [known, fullExcept_eq]
  refine ⟨r, moved, ?_⟩
  have extents : spans (View.fullMask front ++ (low, high) :: View.fullMask back) = front ++ (high - low) :: back := by
    rw [spans, List.map_append, List.map_cons]
    exact congrArg₂ (fun a b => a ++ _ :: b) (View.spans_fullMask front) (View.spans_fullMask back)
  rw [extents] at takes
  refine takes.congr fun index inside => ?_
  obtain ⟨a, i, b, rfl, first, -, second⟩ := inside_middle inside
  have lengths : a.length = (View.fullMask front).length := by
    rw [first.length_eq, View.fullMask, List.length_map]
  rw [← first.length_eq, modify_middle, ahead, List.zipWith_append lengths, List.zipWith_cons_cons, Int.add_comm i]
  exact congrArg₂ (fun x y => x ++ _ :: y) (View.ahead_fullMask first.length_eq) (View.ahead_fullMask second.length_eq)

theorem Anchored.padAxis (anchored : l.Anchored count) (known : l.shape = front ++ n :: back) {more : Int}
    (natural : 0 ≤ more) :
    ∃ r, l.pad (padOnly l.rank front.length (0, more)) = .ok r ∧ r.Anchored count
      ∧ r.Follows l (front ++ (n + more) :: back) fun index => if Inside index l.shape then some index else none := by
  have lows : ∀ w ∈ padOnly l.rank front.length (0, more), w.1 = 0 ∧ 0 ≤ w.2 := by
    intro w member
    obtain ⟨a, -, rfl⟩ := List.mem_map.1 member
    split
    · exact ⟨rfl, natural⟩
    · exact ⟨rfl, Int.le_refl 0⟩
  have lengths : (padOnly l.rank front.length (0, more)).length = l.rank := by simp [padOnly]
  obtain ⟨r, moved, -, follows⟩ := anchored.sound.regular.pad lengths
    fun w member => ⟨le_of_eq (lows w member).1.symm, (lows w member).2⟩
  refine ⟨r, moved, anchored.pad (fun entry member _ single => ?_) moved, ?_⟩
  · have low := (lows entry.2 (List.of_mem_zip member).2).1
    rw [single] at low
    cases low
  · have extents : padded l.shape (padOnly l.rank front.length (0, more)) = front ++ (n + more) :: back := by
      rw [show l.rank = (front ++ n :: back).length from congrArg List.length known, padOnly_eq, known, padded,
        List.zipWith_append (by simp), List.zipWith_cons_cons, Int.add_zero]
      exact congrArg₂ (fun x y => x ++ _ :: y) (View.padded_of_zeros (by simp) (by simp))
        (View.padded_of_zeros (by simp) (by simp))
    rw [extents] at follows
    refine follows.congr fun index inside => ?_
    have rank : l.rank = index.length := by
      rw [inside.length_eq, Layout.rank, known, List.length_append, List.length_append, List.length_cons, List.length_cons]
    rw [View.behind_of_lows (lengths.trans rank) fun w member => (lows w member).1]

theorem samePlace_middle {a b a' s' : List Int} {i : Int} (first : Inside a front) (second : Inside b back)
    (middle : SamePlace a' s' [i] [n]) :
    SamePlace (a ++ a' ++ b) (front ++ s' ++ back) (a ++ i :: b) (front ++ n :: back) := by
  have same := ((SamePlace.refl first).append middle).append (SamePlace.refl second)
  simpa using same

theorem Anchored.takes_firsts (anchored : l.Anchored count) {rows step : Int}
    (known : l.shape = front ++ (rows * step) :: back) (some : 0 ≤ rows) (forward : 0 < step) :
    ∃ split column r, l.reshape (front ++ [rows, step] ++ back) = .ok split
      ∧ split.shrink (fullExcept split.shape (front.length + 1) (0, 1)) = .ok column
      ∧ column.reshape (front ++ [rows] ++ back) = .ok r
      ∧ r.Takes l count (front ++ rows :: back) fun index => index.modify front.length (· * step) := by
  have natural := anchored.sound.extents
  rw [known] at natural
  have others : ∀ {middle : List Int}, (∀ s ∈ middle, 0 ≤ s) → ∀ s ∈ front ++ middle ++ back, 0 ≤ s := by
    intro middle extents
    simp only [List.forall_mem_append] at natural ⊢
    exact ⟨⟨natural.1, extents⟩, fun s member => natural.2 s (List.mem_cons_of_mem _ member)⟩
  obtain ⟨split, divided, splitTakes⟩ := @Anchored.takes_reshape l count (front ++ [rows, step] ++ back) anchored
    (others (by simp [some, forward.le]))
    (by rw [Layout.size, known]; simp only [Shape.product_append, Shape.product_cons, Shape.product_nil]; ring)
  have splitShape : split.shape = (front ++ [rows]) ++ step :: back := by simpa using splitTakes.shape_eq
  obtain ⟨column, cut, columnTakes⟩ := splitTakes.anchored.cutAxis splitShape (Int.le_refl 0) (by decide : (0 : Int) ≤ 1)
    (by omega)
  have columnShape : column.shape = front ++ [rows, 1] ++ back := by simpa using columnTakes.shape_eq
  obtain ⟨r, joined, takes⟩ := @Anchored.takes_reshape column count (front ++ [rows] ++ back) columnTakes.anchored
    (others (by simp [some]))
    (by rw [Layout.size, columnShape]; simp only [Shape.product_append, Shape.product_cons, Shape.product_nil]; ring)
  have all := (splitTakes.trans columnTakes).trans takes
  rw [List.append_assoc, List.singleton_append] at all
  rw [List.length_append, List.length_singleton] at cut
  refine ⟨split, column, r, divided, cut, joined, all.congr fun index inside => ?_⟩
  obtain ⟨a, i, b, rfl, first, ⟨low, high⟩, second⟩ := inside_middle inside
  -- The first place of row `i` is the place `i * step` of the axis.
  have row : i * step < rows * step := Int.mul_lt_mul_of_pos_right high forward
  have single : SamePlace (a ++ [i, 0] ++ b) (front ++ [rows, 1] ++ back) (a ++ i :: b) (front ++ rows :: back) :=
    samePlace_middle first second (samePlace_single (by simp [low, high]))
  have whole : SamePlace (a ++ [i, 0] ++ b) (front ++ [rows, step] ++ back) (a ++ (i * step) :: b)
      (front ++ (rows * step) :: back) :=
    samePlace_middle first second
      ⟨by simp [low, high, forward], by simp [Int.mul_nonneg low forward.le, row], by simp, by simp⟩
  have kept : (a ++ [i, 0] ++ b).modify (front ++ [rows]).length (0 + ·) = a ++ [i, 0] ++ b := by
    have here := modify_middle (a ++ [i]) b 0 (0 + ·)
    rw [List.length_append, List.length_singleton, first.length_eq] at here
    simpa using here
  rw [columnShape, ← single.place, single.left.unravel_ravel, kept, known, whole.unravel_eq, ← first.length_eq,
    modify_middle]

theorem Anchored.takes_everyNth (anchored : l.Anchored count) (known : l.shape = front ++ n :: back) {step : Int}
    (forward : 0 < step) :
    ∃ r, l.everyNth front.length step = .ok r
      ∧ r.Takes l count (front ++ Sliding.ceiling n step :: back) fun index => index.modify front.length (· * step) := by
  -- The axis is filled up to whole rows.
  let rows := Sliding.ceiling n step
  have least : 0 ≤ n := anchored.sound.extents n (known ▸ List.mem_append_right _ (List.mem_cons_self ..))
  obtain ⟨covered, needed⟩ : n ≤ rows * step ∧ (rows - 1) * step < n := Sliding.ceiling_bounds forward
  have some : 0 ≤ rows := by
    by_contra negative
    have : rows * step < 0 := Int.mul_neg_of_neg_of_pos (by omega) forward
    omega
  obtain ⟨wide, padded, wideAnchored, wideFollows⟩ := anchored.padAxis known (show 0 ≤ rows * step - n by omega)
  rw [add_sub_cancel] at wideFollows
  obtain ⟨split, column, r, divided, cut, joined, takes⟩ := wideAnchored.takes_firsts wideFollows.shape_eq some forward
  refine ⟨r, ?_, takes.anchored, (wideFollows.trans takes.follows).congr fun index inside => ?_⟩
  · have extent : l.shape[front.length]?.getD 0 = n := by simp [known]
    have before : wide.shape.take front.length = front := by simp [wideFollows.shape_eq]
    have after : wide.shape.drop (front.length + 1) = back := by simp [wideFollows.shape_eq]
    unfold everyNth
    rw [extent]
    dsimp only
    rw [Sliding.ceilDivide_eq forward, ok_bind, padded, ok_bind, before, after, divided, ok_bind, cut, ok_bind]
    exact joined
  · -- The first position of a row is one of the axis, not padding.
    obtain ⟨a, i, b, rfl, first, ⟨low, high⟩, second⟩ := inside_middle inside
    have bound : i * step < n := by nlinarith
    rw [← first.length_eq, modify_middle, Option.bind_some, if_pos]
    rw [known, Shape.inside_append first.length_eq]
    exact ⟨first, Shape.inside_cons.2 ⟨⟨Int.mul_nonneg low forward.le, bound⟩, second⟩⟩

theorem Anchored.takes_sliceAxis (anchored : l.Anchored count) (known : l.shape = front ++ n :: back)
    (start stop : Option Int) {step : Option Int} (forward : 0 < step.getD 1) :
    ∃ r, l.sliceAxis front.length start stop (step.getD 1) = .ok r
      ∧ r.Takes l count (front ++ BasicIndex.count n start stop step :: back)
        fun index => index.modify front.length fun k => BasicIndex.first n start + k * step.getD 1 := by
  let low := BasicIndex.first n start
  let high := max (BasicIndex.last n stop) low
  have least : 0 ≤ n := anchored.sound.extents n (known ▸ List.mem_append_right _ (List.mem_cons_self ..))
  obtain ⟨lowest, lowBound, -, highBound⟩ := BasicIndex.range_bounds least start stop
  have extent : l.shape[front.length]?.getD 0 = n := by simp [known]
  obtain ⟨part, cut, takes⟩ := anchored.cutAxis known lowest (le_max_right _ _ : low ≤ high) (max_le highBound lowBound)
  have opened : l.sliceAxis front.length start stop (step.getD 1)
      = if step.getD 1 = 1 then .ok part else part.everyNth front.length (step.getD 1) := by
    unfold sliceAxis
    rw [if_neg (by omega), extent, BasicIndex.sliceRange_eq]
    dsimp only
    rw [cut, ok_bind]
    rfl
  rw [opened, BasicIndex.count_eq forward]
  by_cases unit : step.getD 1 = 1
  · refine ⟨part, if_pos unit, ?_⟩
    have whole : Sliding.ceiling (high - low) 1 = high - low := by simp [Sliding.ceiling]
    rw [unit, whole]
    simpa only [Int.mul_one] using takes
  · obtain ⟨r, every, taken⟩ := takes.anchored.takes_everyNth takes.shape_eq forward
    refine ⟨r, (if_neg unit).trans every, (takes.trans taken).congr fun index inside => ?_⟩
    obtain ⟨a, i, b, rfl, first, -, -⟩ := inside_middle inside
    rw [← first.length_eq, modify_middle, modify_middle, modify_middle]

end Layout

/-! ## Several axes -/

namespace BasicIndex

def extent (n : Int) : BasicIndex → Int
  | position _ => 1
  | slice start stop step => count n start stop step

/-- The position on an axis that an index selects for a position of what it leaves. -/
def place (n : Int) (x : BasicIndex) (k : Int) : Int :=
  match x with
  | position i => (if i < 0 then i + n else i) + k
  | slice start _ step => first n start + k * step.getD 1

def kept? (n : Int) : BasicIndex → Option Int
  | position _ => none
  | slice start stop step => some (count n start stop step)

def extents : List BasicIndex → List Int → List Int
  | x :: xs, n :: shape => x.extent n :: extents xs shape
  | _, shape => shape

def places : List BasicIndex → List Int → List Int → List Int
  | x :: xs, n :: shape, k :: index => x.place n k :: places xs shape index
  | _, _, index => index

/-- A multi-index of what indices leave, with zero on the axes with positions. -/
def opened : List BasicIndex → List Int → List Int
  | position _ :: xs, index => 0 :: opened xs index
  | slice .. :: xs, k :: index => k :: opened xs index
  | _, index => index

variable {xs : List BasicIndex} {shape index : List Int}

theorem mem_extents (xs : List BasicIndex) (shape : List Int) : ∀ s ∈ selected xs shape, s ∈ extents xs shape := by
  induction xs generalizing shape with
  | nil => cases shape <;> exact fun _ => id
  | cons x xs inductionHypothesis =>
    cases shape with
    | nil => cases x <;> exact fun _ => id
    | cons n shape =>
      cases x with
      | position i => exact fun s member => List.mem_cons_of_mem _ (inductionHypothesis shape s member)
      | slice start stop step =>
        intro s member
        rcases List.mem_cons.1 member with rfl | rest
        · exact List.mem_cons_self ..
        · exact List.mem_cons_of_mem _ (inductionHypothesis shape s rest)

theorem product_selected (xs : List BasicIndex) (shape : List Int) :
    product (selected xs shape) = product (extents xs shape) := by
  induction xs generalizing shape with
  | nil => cases shape <;> rfl
  | cons x xs inductionHypothesis =>
    cases shape with
    | nil => cases x <;> rfl
    | cons n shape =>
      cases x with
      | position i => exact (inductionHypothesis shape).trans (Int.one_mul _).symm
      | slice start stop step => exact congrArg (_ * ·) (inductionHypothesis shape)

theorem drop_extents (few : xs.length ≤ shape.length) : (extents xs shape).drop xs.length = shape.drop xs.length := by
  induction xs generalizing shape with
  | nil => cases shape <;> rfl
  | cons x xs inductionHypothesis =>
    cases shape with
    | nil => cases few
    | cons n shape => exact inductionHypothesis (Nat.le_of_succ_le_succ few)

theorem samePlace_opened (few : xs.length ≤ shape.length) (inside : Inside index (selected xs shape)) :
    SamePlace (opened xs index) (extents xs shape) index (selected xs shape) := by
  induction xs generalizing shape index with
  | nil =>
    rw [show selected [] shape = shape by cases shape <;> rfl] at inside ⊢
    rw [show extents [] shape = shape by cases shape <;> rfl, show opened [] index = index by cases index <;> rfl]
    exact .refl inside
  | cons x xs inductionHypothesis =>
    obtain _ | ⟨n, shape⟩ := shape
    · cases few
    · have fewer : xs.length ≤ shape.length := Nat.le_of_succ_le_succ few
      cases x with
      | position i =>
        have rest := inductionHypothesis fewer inside
        refine ⟨Shape.inside_cons.2 ⟨by simp [extent], rest.left⟩, rest.right, ?_, ?_⟩
        · exact (Int.one_mul _).trans rest.size
        · show 0 * _ + ravel (opened xs index) (extents xs shape) = _
          rw [Int.zero_mul, Int.zero_add, rest.place]
          rfl
      | slice start stop step =>
        obtain ⟨k, rest, rfl, bounds, within⟩ := Shape.inside_cons_right.1 inside
        exact @SamePlace.append [k] [_] [k] [_] _ _ _ _ (.refl (Shape.inside_cons.2 ⟨bounds, Shape.inside_nil⟩))
          (inductionHypothesis fewer within)

theorem places_opened (few : xs.length ≤ shape.length) (inside : Inside index (selected xs shape)) :
    places xs shape (opened xs index) = source xs shape index := by
  induction xs generalizing shape index with
  | nil => cases shape <;> cases index <;> rfl
  | cons x xs inductionHypothesis =>
    obtain _ | ⟨n, shape⟩ := shape
    · cases few
    · have fewer : xs.length ≤ shape.length := Nat.le_of_succ_le_succ few
      cases x with
      | position i =>
        show ((if i < 0 then i + n else i) + 0) :: _ = _
        rw [Int.add_zero]
        exact congrArg _ (inductionHypothesis fewer inside)
      | slice start stop step =>
        obtain ⟨k, rest, rfl, -, within⟩ := Shape.inside_cons_right.1 inside
        exact congrArg _ (inductionHypothesis fewer within)

end BasicIndex

namespace Layout

open BasicIndex (selected source)

variable {l : Layout} {count n : Int} {shape front back : List Int} {x : BasicIndex} {xs : List BasicIndex}

/-- An index selects from its axis, unless it is refused or no index at all. -/
theorem Anchored.selectAxis_cases (anchored : l.Anchored count) (known : l.shape = front ++ n :: back)
    (x : BasicIndex) :
    (x.Steps ∧ ¬ x.Refused n ∧ ∃ r, l.selectAxis front.length x.selector = .ok (r, x.kept? n)
        ∧ r.Takes l count (front ++ x.extent n :: back) fun index => index.modify front.length (x.place n))
      ∨ (x.Refused n ∧ ∃ fault, l.selectAxis front.length x.selector = .error (.index fault))
      ∨ ¬ x.Steps ∧ l.selectAxis front.length x.selector = .error .malformed := by
  have extent : l.shape[front.length]?.getD 0 = n := by simp [known]
  cases x with
  | position i =>
    let p := if i < 0 then i + n else i
    have inside : (-n ≤ i ∧ i < n) ↔ 0 ≤ p ∧ p < n := by
      simp only [p]
      split <;> omega
    have opened : l.selectAxis front.length (.position i (.int i))
        = if p < 0 ∨ n ≤ p then .error (.index (.outOfBounds (.int i) front.length n)) else do
          return (← l.shrink (fullExcept l.shape front.length (p, p + 1)), none) := by
      unfold selectAxis
      rw [extent]
      change (if p < 0 ∨ n ≤ p then _ else _) = _
      by_cases outside : p < 0 ∨ n ≤ p
      · rw [if_pos outside, if_pos outside]
        rfl
      · rw [if_neg outside, if_neg outside]
    by_cases within : -n ≤ i ∧ i < n
    · obtain ⟨low, high⟩ := inside.1 within
      obtain ⟨r, cut, takes⟩ := anchored.cutAxis known low (show p ≤ p + 1 by omega) (by omega)
      refine .inl ⟨trivial, not_not.2 within, r, ?_, ?_⟩
      · refine opened.trans ((if_neg (by omega)).trans ?_)
        rw [cut]
        rfl
      · rw [add_sub_cancel_left] at takes
        exact takes
    · exact .inr (.inl ⟨within, .outOfBounds (.int i) front.length n, opened.trans (if_pos (by omega))⟩)
  | slice start stop step =>
    by_cases steps : step = some 0
    · refine .inr (.inr ⟨not_not.2 steps, ?_⟩)
      rw [BasicIndex.selector, if_pos steps]
      rfl
    rw [BasicIndex.selector, if_neg steps]
    by_cases forward : 0 < step.getD 1
    · obtain ⟨r, cut, takes⟩ := anchored.takes_sliceAxis known start stop forward
      refine .inl ⟨steps, Int.not_lt.2 forward.le, r, ?_, takes⟩
      have left : r.shape[front.length]?.getD 0 = BasicIndex.count n start stop step := by simp [takes.shape_eq]
      show (do
        let l ← l.sliceAxis front.length start stop (step.getD 1)
        return (l, some (l.shape[front.length]?.getD 0))) = _
      rw [cut, ok_bind, left]
      rfl
    · -- Without steps a slice never comes here, so this one goes backwards.
      refine .inr (.inl ⟨?_, .backwardSlice, ?_⟩)
      · show step.getD 1 < 0
        have nonzero : step.getD 1 ≠ 0 := by
          cases step with
          | none => decide
          | some d => exact fun zero => steps (congrArg some zero)
        omega
      · show (do
          let l ← l.sliceAxis front.length start stop (step.getD 1)
          return (l, some (l.shape[front.length]?.getD 0))) = _
        unfold sliceAxis
        rw [if_pos (Int.not_lt.1 forward)]
        rfl

section Cons

variable {m r : Layout} {axis : Nat} {first : Selector} {rest : List Selector} {extent? : Option Int} {kept : List Int}
  {e : Failure}

theorem selectFrom_cons_ok (cut : l.selectAxis axis first = .ok (m, extent?))
    (others : m.selectFrom (axis + 1) rest = .ok (r, kept)) :
    l.selectFrom axis (first :: rest) = .ok (r, extent?.toList ++ kept) := by
  rw [selectFrom, cut, ok_bind]
  dsimp only
  rw [others]
  rfl

theorem selectFrom_cons_later (cut : l.selectAxis axis first = .ok (m, extent?))
    (others : m.selectFrom (axis + 1) rest = .error e) : l.selectFrom axis (first :: rest) = .error e := by
  rw [selectFrom, cut, ok_bind]
  dsimp only
  rw [others]
  rfl

theorem selectFrom_cons_first (failed : l.selectAxis axis first = .error e) :
    l.selectFrom axis (first :: rest) = .error e := by
  rw [selectFrom, failed]
  rfl

end Cons

/-- Indices select from one axis after the other. What is in front of them stays. -/
theorem Anchored.selectFrom_cases (anchored : l.Anchored count) (known : l.shape = front ++ shape)
    (few : xs.length ≤ shape.length) :
    ((∀ x ∈ xs, x.Steps) ∧ (∀ a ∈ xs.zip shape, ¬ a.1.Refused a.2)
        ∧ ∃ r kept, l.selectFrom front.length (xs.map BasicIndex.selector) = .ok (r, kept)
          ∧ kept ++ shape.drop xs.length = selected xs shape
          ∧ r.Takes l count (front ++ BasicIndex.extents xs shape) fun index =>
            index.take front.length ++ BasicIndex.places xs shape (index.drop front.length))
      ∨ ((∃ a ∈ xs.zip shape, a.1.Refused a.2)
        ∧ ∃ fault, l.selectFrom front.length (xs.map BasicIndex.selector) = .error (.index fault))
      ∨ (∃ x ∈ xs, ¬ x.Steps) ∧ l.selectFrom front.length (xs.map BasicIndex.selector) = .error .malformed := by
  induction xs generalizing l front shape with
  | nil =>
    refine .inl ⟨nofun, nofun, l, [], rfl, by cases shape <;> rfl, anchored, ?_⟩
    rw [show BasicIndex.extents [] shape = shape by cases shape <;> rfl, ← known]
    refine (Follows.refl l).congr fun index _ => congrArg some ?_
    rw [show ∀ rest, BasicIndex.places [] shape rest = rest from fun rest => by cases shape <;> cases rest <;> rfl,
      List.take_append_drop]
  | cons x xs inductionHypothesis =>
    obtain _ | ⟨n, shape⟩ := shape
    · cases few
    rw [List.map_cons]
    rcases anchored.selectAxis_cases known x with
      ⟨first, accepted, m, cut, takes⟩ | ⟨refused, fault, failed⟩ | ⟨none, failed⟩
    · -- The axis stays behind the ones in front, whether or not it is to go, so that the next one has its number.
      have here : m.shape = (front ++ [x.extent n]) ++ shape := by simp [takes.shape_eq]
      have rest := inductionHypothesis takes.anchored here (Nat.le_of_succ_le_succ few)
      rw [List.length_append, List.length_singleton] at rest
      rcases rest with ⟨others, all, r, kept, ran, remains, taken⟩ | ⟨⟨a, member, refused⟩, fault, failed⟩
        | ⟨⟨y, member, none⟩, failed⟩
      · refine .inl ⟨List.forall_mem_cons.2 ⟨first, others⟩, ?_, r, (x.kept? n).toList ++ kept,
          selectFrom_cons_ok cut ran, ?_, ?_⟩
        · rw [List.zip_cons_cons]
          exact List.forall_mem_cons.2 ⟨accepted, all⟩
        · rw [List.append_assoc, List.length_cons, List.drop_succ_cons, remains]
          cases x <;> rfl
        · have both := takes.trans taken
          rw [List.append_assoc, List.singleton_append] at both
          refine both.congr fun index inside => ?_
          obtain ⟨a, k, b, rfl, ahead, -, -⟩ := inside_middle inside
          have cutFront : (a ++ k :: b).take (front.length + 1) = a ++ [k] := by
            simp [← ahead.length_eq, List.take_append]
          have cutBack : (a ++ k :: b).drop (front.length + 1) = b := by
            simp [← ahead.length_eq]
          rw [cutFront, cutBack, List.append_assoc, List.singleton_append, ← ahead.length_eq, modify_middle,
            List.take_left, List.drop_left]
          rfl
      · exact .inr (.inl ⟨⟨a, List.mem_cons_of_mem _ member, refused⟩, fault, selectFrom_cons_later cut failed⟩)
      · exact .inr (.inr ⟨⟨y, List.mem_cons_of_mem _ member, none⟩, selectFrom_cons_later cut failed⟩)
    · exact .inr (.inl ⟨⟨(x, n), List.mem_cons_self .., refused⟩, fault, selectFrom_cons_first failed⟩)
    · exact .inr (.inr ⟨⟨x, List.mem_cons_self .., none⟩, selectFrom_cons_first failed⟩)

/-- Indices of the leading axes select, unless they are refused or one of them is none at all. -/
theorem Anchored.select_cases (anchored : l.Anchored count) (xs : List BasicIndex) :
    ((∀ x ∈ xs, x.Steps) ∧ ¬ BasicIndex.RefusedBy l.shape xs ∧ ∃ r, l.select (xs.map BasicIndex.selector) = .ok r
        ∧ r.Takes l count (selected xs l.shape) (source xs l.shape))
      ∨ (BasicIndex.RefusedBy l.shape xs
        ∧ ∃ fault, l.select (xs.map BasicIndex.selector) = .error (.index fault))
      ∨ (∃ x ∈ xs, ¬ x.Steps) ∧ l.select (xs.map BasicIndex.selector) = .error .malformed := by
  have rank : l.rank = l.shape.length := rfl
  unfold select
  rw [List.length_map]
  by_cases many : l.rank < xs.length
  · exact .inr (.inl ⟨.inl many, .tooMany l.rank, by rw [if_pos many]; rfl⟩)
  have few : xs.length ≤ l.shape.length := Nat.not_lt.1 many
  rw [if_neg many]
  rcases @Anchored.selectFrom_cases l count l.shape [] xs anchored rfl few with
    ⟨steps, all, part, kept, ran, remains, takes⟩ | ⟨refused, fault, failed⟩ | ⟨none, failed⟩
  · refine .inl ⟨steps, ?_, ?_⟩
    · rintro (more | ⟨a, member, refused⟩)
      · exact many more
      · exact all a member refused
    · -- Axes with positions have extent 1 until they are all taken away here.
      have rest : part.shape = BasicIndex.extents xs l.shape := takes.shape_eq
      obtain ⟨r, reshaped, taken⟩ := @Anchored.takes_reshape part count (selected xs l.shape) takes.anchored
        (fun s member => takes.anchored.sound.extents s (rest ▸ BasicIndex.mem_extents xs l.shape s member))
        (by rw [Layout.size, rest, BasicIndex.product_selected])
      refine ⟨r, ?_, (takes.trans taken).congr fun index inside => ?_⟩
      · rw [show l.selectFrom 0 (xs.map BasicIndex.selector) = _ from ran, ok_bind]
        dsimp only
        rw [rest, BasicIndex.drop_extents few, remains]
        exact reshaped
      · have place := BasicIndex.samePlace_opened few inside
        show BasicIndex.places xs l.shape (unravel (ravel index (selected xs l.shape)) part.shape) = _
        rw [rest, ← place.place, place.left.unravel_ravel, BasicIndex.places_opened few inside]
  · refine .inr (.inl ⟨.inr refused, fault, ?_⟩)
    rw [show l.selectFrom 0 (xs.map BasicIndex.selector) = _ from failed]
    rfl
  · refine .inr (.inr ⟨none, ?_⟩)
    rw [show l.selectFrom 0 (xs.map BasicIndex.selector) = _ from failed]
    rfl

end Layout

end StridedArray
