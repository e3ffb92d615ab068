import StridedArray.Layout.Move
import StridedArray.Proofs.View.Sound

/-! # Views with their axes in another order or backwards

* `pick` — the entries of a list that numbers stand for; picking in an order of all axes changes neither
  offsets nor what is admitted;
* `View.Regular.permute`, `View.Sound.permute` — a view with its axes in another order;
* `mirror`, `View.Regular.flip` — a view with some axes backwards. -/

namespace StridedArray.View

open Shape (Inside Positive dot ravel product)
open Layout (axisNumbers)

section Picking

variable {α β : Type}

def pick (order : List Int) (xs : List α) : List α := order.filterMap (Shape.entry? xs)

theorem pick_append (a b : List Int) (xs : List α) : pick (a ++ b) xs = pick a xs ++ pick b xs :=
  List.filterMap_append

@[simp] theorem entry?_natCast (xs : List α) (k : Nat) : Shape.entry? xs (k : Int) = xs[k]? := by
  have start : ¬ (k : Int) < 0 := by omega
  unfold Shape.entry? Shape.place?
  simp only [start, if_false]
  by_cases bound : k < xs.length
  · simp [bound]
  · simp only [Nat.cast_lt, bound, and_false, if_false, Option.bind_none]
    exact (List.getElem?_eq_none (Nat.le_of_not_lt bound)).symm

/-- Numbers that follow each other pick what stands next to each other. -/
theorem pick_block (xs : List α) (first count : Nat) :
    pick ((List.range count).map fun j => ((first + j : Nat) : Int)) xs
      = (xs.drop first).take count := by
  induction count with
  | zero => rfl
  | succ count inductionHypothesis =>
    rw [List.range_succ, List.map_append, pick_append, inductionHypothesis, List.take_add_one,
      List.getElem?_drop]
    simp only [pick, List.map_cons, List.map_nil, List.filterMap_cons, List.filterMap_nil,
      entry?_natCast]
    cases xs[first + count]? <;> rfl

theorem pick_axisNumbers (xs : List α) : pick (axisNumbers xs.length) xs = xs := by
  have block := pick_block xs 0 xs.length
  simp only [Nat.zero_add, List.drop_zero, List.take_length] at block
  exact block

theorem pick_map (f : α → β) (order : List Int) (xs : List α) :
    pick order (xs.map f) = (pick order xs).map f := by
  simp only [pick, List.map_filterMap]
  congr 1
  funext a
  unfold Shape.entry?
  rw [List.length_map]
  cases Shape.place? xs.length a <;> simp

theorem entry?_zip {xs : List α} {ys : List β} (lengths : xs.length = ys.length) (a : Int) :
    Shape.entry? (xs.zip ys) a
      = (Shape.entry? xs a).bind fun x => (Shape.entry? ys a).map fun y => (x, y) := by
  unfold Shape.entry?
  rw [List.length_zip, ← lengths, Nat.min_self]
  cases Shape.place? xs.length a with
  | none => rfl
  | some k =>
    simp only [Option.bind_some, List.zip, List.getElem?_zipWith]
    cases xs[k]? <;> cases ys[k]? <;> rfl

theorem pick_zip {xs : List α} {ys : List β} (lengths : xs.length = ys.length)
    (order : List Int) : pick order (xs.zip ys) = (pick order xs).zip (pick order ys) := by
  induction order with
  | nil => rfl
  | cons a order inductionHypothesis =>
    have both : (Shape.entry? xs a).isSome = (Shape.entry? ys a).isSome := by
      unfold Shape.entry?
      rw [lengths]
      cases known : Shape.place? ys.length a with
      | none => rfl
      | some k =>
        simp only [Option.bind_some]
        by_cases bound : k < ys.length <;> simp [bound, lengths]
    simp only [pick, List.filterMap_cons, entry?_zip lengths a] at inductionHypothesis ⊢
    cases left : Shape.entry? xs a <;> cases right : Shape.entry? ys a
      <;> simp_all

end Picking

/-! ## All axes in some order -/

section Orders

variable {order : List Int} {α β : Type}

theorem entry?_isSome {xs : List α} {a : Int} (member : a ∈ axisNumbers xs.length) :
    (Shape.entry? xs a).isSome := by
  obtain ⟨k, bound, rfl⟩ := List.mem_map.1 member
  rw [List.mem_range] at bound
  show (Shape.entry? xs ((k : Nat) : Int)).isSome
  simp [bound]

theorem mapM_entry? (xs : List α) (axes : ∀ a ∈ order, a ∈ axisNumbers xs.length) :
    order.mapM (Shape.entry? xs) = some (pick order xs) := by
  induction order with
  | nil => rfl
  | cons a order inductionHypothesis =>
    obtain ⟨x, known⟩ := Option.isSome_iff_exists.1 (entry?_isSome (axes a (List.mem_cons_self ..)))
    have rest := inductionHypothesis fun b member => axes b (List.mem_cons_of_mem _ member)
    simp [List.mapM_cons, known, rest, pick]

theorem pick_perm {xs : List α} (perm : order.Perm (axisNumbers xs.length)) :
    (pick order xs).Perm xs := by
  have picked := perm.filterMap (Shape.entry? xs)
  have whole := pick_axisNumbers xs
  unfold pick at whole ⊢
  rwa [whole] at picked

theorem length_pick {xs : List α} (perm : order.Perm (axisNumbers xs.length)) :
    (pick order xs).length = xs.length := (pick_perm perm).length_eq

theorem dot_eq_sum (index strides : List Int) :
    dot index strides = ((index.zip strides).map fun p => p.1 * p.2).sum := by
  induction index generalizing strides with
  | nil => rfl
  | cons i index inductionHypothesis =>
    cases strides with
    | nil => rfl
    | cons st strides => simp [inductionHypothesis]

theorem dot_pick {index strides : List Int} (perm : order.Perm (axisNumbers index.length))
    (lengths : index.length = strides.length) :
    dot (pick order index) (pick order strides) = dot index strides := by
  have zipped : order.Perm (axisNumbers (index.zip strides).length) := by
    rwa [List.length_zip, ← lengths, Nat.min_self]
  rw [dot_eq_sum, dot_eq_sum, ← pick_zip lengths]
  exact ((pick_perm zipped).map _).sum_eq

theorem admits_pick {index : List Int} {ranges : List (Int × Int)}
    (perm : order.Perm (axisNumbers index.length)) (lengths : index.length = ranges.length) :
    admits (pick order ranges) (pick order index) = admits ranges index := by
  have zipped : order.Perm (axisNumbers (index.zip ranges).length) := by
    rwa [List.length_zip, ← lengths, Nat.min_self]
  unfold admits
  rw [← pick_zip lengths]
  exact (pick_perm zipped).all_eq

/-- A relation between corresponding entries holds of what is picked. -/
theorem forall₂_pick {relation : α → β → Prop} {xs : List α} {ys : List β}
    (perm : order.Perm (axisNumbers xs.length)) (related : List.Forall₂ relation xs ys) :
    List.Forall₂ relation (pick order xs) (pick order ys) := by
  have lengths := related.length_eq
  have other : order.Perm (axisNumbers ys.length) := lengths ▸ perm
  rw [List.forall₂_iff_zip] at related ⊢
  refine ⟨by rw [length_pick perm, length_pick other, lengths], ?_⟩
  intro x y member
  rw [← pick_zip lengths] at member
  have zipped : order.Perm (axisNumbers (xs.zip ys).length) := by
    rwa [List.length_zip, ← lengths, Nat.min_self]
  exact related.2 ((pick_perm zipped).mem_iff.1 member)

def unpick (order index : List Int) : List Int :=
  (axisNumbers order.length).map fun a => index[order.idxOf a]?.getD 0

theorem length_of_perm {n : Nat} (perm : order.Perm (axisNumbers n)) : order.length = n := by
  rw [perm.length_eq, axisNumbers, List.length_map, List.length_range]

theorem pick_unpick {index : List Int} (perm : order.Perm (axisNumbers order.length))
    (lengths : index.length = order.length) : pick order (unpick order index) = index := by
  have distinct : order.Nodup := perm.nodup_iff.2
    ((List.nodup_range).map fun _ _ same => Int.ofNat.inj same)
  have each : ∀ a ∈ order, Shape.entry? (unpick order index) a
      = some (index[order.idxOf a]?.getD 0) := by
    intro a member
    obtain ⟨k, bound, rfl⟩ := List.mem_map.1 (perm.mem_iff.1 member)
    rw [List.mem_range] at bound
    show Shape.entry? (unpick order index) ((k : Nat) : Int) = _
    simp [unpick, axisNumbers, bound]
  rw [pick, List.filterMap_congr each, List.filterMap_eq_map']
  apply List.ext_getElem (by simp [lengths])
  intro k low high
  simp [distinct.idxOf_getElem, high]

theorem unpick_pick {xs : List Int} (perm : order.Perm (axisNumbers xs.length)) :
    unpick order (pick order xs) = xs := by
  have each : ∀ a ∈ order, Shape.entry? xs a = some ((Shape.entry? xs a).getD 0) := by
    intro a member
    obtain ⟨x, known⟩ := Option.isSome_iff_exists.1 (entry?_isSome (perm.mem_iff.1 member))
    rw [known]
    rfl
  have picked : pick order xs = order.map fun a => (Shape.entry? xs a).getD 0 := by
    rw [pick, List.filterMap_congr each, List.filterMap_eq_map']
  have orderLength := length_of_perm perm
  apply List.ext_getElem (by simp [unpick, axisNumbers, orderLength])
  intro k low high
  have member : Int.ofNat k ∈ order :=
    perm.mem_iff.2 (List.mem_map.2 ⟨k, List.mem_range.2 high, rfl⟩)
  have entry : Shape.entry? xs (Int.ofNat k) = some xs[k] := by
    show Shape.entry? xs ((k : Nat) : Int) = _
    simp [high]
  simp only [unpick, axisNumbers, List.getElem_map, List.getElem_range, picked, List.getElem?_map,
    List.getElem?_idxOf member, Option.map_some, Option.getD_some, entry]

theorem inside_unpick {index shape : List Int} (perm : order.Perm (axisNumbers shape.length))
    (inside : Inside index (pick order shape)) : Inside (unpick order index) shape := by
  have orderLength := length_of_perm perm
  have orderPerm : order.Perm (axisNumbers order.length) := by rwa [orderLength]
  have indexLength : index.length = order.length := by
    rw [inside.length_eq, length_pick perm, orderLength]
  have picked := pick_unpick orderPerm indexLength
  have lengths : (unpick order index).length = shape.length := by
    simp [unpick, axisNumbers, orderLength]
  have zipped : order.Perm (axisNumbers ((unpick order index).zip shape).length) := by
    rwa [List.length_zip, lengths, Nat.min_self]
  -- Entries next to each other in the picked lists are so in the lists themselves.
  unfold Inside at inside ⊢
  rw [← picked, List.forall₂_iff_zip] at inside
  rw [List.forall₂_iff_zip]
  refine ⟨lengths, ?_⟩
  intro i s member
  rw [← (pick_perm zipped).mem_iff, pick_zip lengths] at member
  exact inside.2 member

end Orders

/-- A view with its axes in another order. A mask that is not there and one that hides nothing give the
    same view. -/
theorem permute?_eq {v : View} (strideLength : v.strides.length = v.shape.length)
    (rangeLength : v.ranges.length = v.shape.length) {order : List Int}
    (perm : order.Perm (axisNumbers v.shape.length)) :
    v.permute? order = some (View.create (pick order v.shape) (pick order v.strides) v.offset
      (some (pick order v.ranges))) := by
  have stridePerm : order.Perm (axisNumbers v.strides.length) := by rwa [strideLength]
  have rangePerm : order.Perm (axisNumbers v.ranges.length) := by rwa [rangeLength]
  have shape := mapM_entry? v.shape fun a member => perm.mem_iff.1 member
  have strides := mapM_entry? v.strides fun a member => stridePerm.mem_iff.1 member
  cases known : v.mask with
  | none =>
    have full : v.ranges = fullMask v.shape := by simp [View.ranges, known]
    have covered : coversAll (pick order v.ranges) (pick order v.shape) = true := by
      rw [full, fullMask, pick_map]
      exact coversAll_fullMask _
    simp [View.permute?, shape, strides, known, View.create, Option.filter_some, covered]
  | some mask =>
    have same : v.ranges = mask := by simp [View.ranges, known]
    have ranges := mapM_entry? mask fun a member => by
      rw [← same]
      exact rangePerm.mem_iff.1 member
    simp [View.permute?, shape, strides, known, ranges, same]

/-- A view with its axes in another order shows the same at multi-indices in that order. -/
theorem Regular.permute {v : View} (regular : v.Regular) {order : List Int}
    (perm : order.Perm (axisNumbers v.shape.length)) :
    ∃ r, v.permute? order = some r ∧ r.Regular ∧ r.shape = pick order v.shape
      ∧ r.DrawsOn v fun index => some (unpick order index) := by
  have rangeLength := regular.ranges.length_eq
  have stridePerm : order.Perm (axisNumbers v.strides.length) := by rwa [regular.strides]
  have enclosed : Enclosed (pick order v.ranges) (pick order v.shape) :=
    forall₂_pick (by rwa [rangeLength]) regular.ranges
  refine ⟨_, permute?_eq regular.strides rangeLength perm, Regular.create
    (by rw [length_pick stridePerm, length_pick perm, regular.strides]) enclosed _, rfl, ?_, ?_⟩
  · rintro index before inside ⟨⟩
    exact inside_unpick perm inside
  · intro index inside
    have before := inside_unpick perm inside
    have orderLength := length_of_perm perm
    have picked : pick order (unpick order index) = index :=
      pick_unpick (by rwa [orderLength]) (inside.length_eq.trans ((length_pick perm).trans orderLength.symm))
    have indexPerm : order.Perm (axisNumbers (unpick order index).length) := by rwa [before.length_eq]
    rw [offsetOf?_create enclosed.length_eq inside, Option.bind_some, offsetOf?_ranges before,
      ← admits_pick indexPerm (by rw [before.length_eq, rangeLength]),
      ← dot_pick indexPerm (by rw [before.length_eq, regular.strides]), picked]

/-- Another order of the axes keeps a view well formed. -/
theorem Sound.permute {v r : View} (sound : v.Sound) {order : List Int}
    (perm : order.Perm (axisNumbers v.shape.length)) (permuted : v.permute? order = some r) :
    r.Sound ∧ r.ranges = pick order v.ranges := by
  have stridePerm : order.Perm (axisNumbers v.strides.length) := by rwa [sound.strides]
  have within : Within (pick order v.ranges) (pick order v.shape) :=
    forall₂_pick (by rwa [sound.ranges.length_eq]) sound.ranges
  rw [permute?_eq sound.strides sound.ranges.length_eq perm] at permuted
  cases permuted
  exact ⟨Sound.create (by rw [length_pick stridePerm, length_pick perm, sound.strides]) within _,
    ranges_create within.length_eq _ _⟩

/-- Another order of the axes hides none that was shown. -/
theorem Settled.permute {v r : View} {order : List Int} (settled : v.Settled) (sound : v.Sound)
    (perm : order.Perm (axisNumbers v.shape.length)) (shape : r.shape = pick order v.shape)
    (ranges : r.ranges = pick order v.ranges) : r.Settled := by
  have lengths : v.shape.length = v.ranges.length := sound.ranges.length_eq.symm
  have zipped : order.Perm (axisNumbers (v.shape.zip v.ranges).length) := by
    rwa [List.length_zip, ← lengths, Nat.min_self]
  intro a member
  rw [shape, ranges, ← pick_zip lengths] at member
  exact settled a ((pick_perm zipped).mem_iff.1 member)

/-! ## Axes backwards -/

def mirror (shape : List Int) (axis : Nat) (index : List Int) : List Int :=
  index.set axis (shape[axis]?.getD 0 - 1 - index[axis]?.getD 0)

abbrev Course := Int × List Int × List (Int × Int)

/-- What a view with the given offset, strides and ranges shows at a multi-index. -/
def Course.shown (course : Course) (index : List Int) : Option Int :=
  if admits course.2.2 index then some (course.1 + dot index course.2.1) else none

theorem dot_set_strides {index strides : List Int} {k : Nat} (indexBound : k < index.length)
    (strideBound : k < strides.length) (x : Int) :
    dot index (strides.set k x) = dot index strides + index[k] * (x - strides[k]) := by
  induction index generalizing strides k with
  | nil => cases indexBound
  | cons i index inductionHypothesis =>
    cases strides with
    | nil => cases strideBound
    | cons st strides =>
      cases k with
      | zero =>
        simp only [List.set_cons_zero, dot_cons, List.getElem_cons_zero]
        ring
      | succ k =>
        simp only [List.set_cons_succ, dot_cons, List.getElem_cons_succ]
        rw [inductionHypothesis (by simpa using indexBound) (by simpa using strideBound)]
        ring

theorem dot_set_index {index strides : List Int} {k : Nat} (indexBound : k < index.length)
    (strideBound : k < strides.length) (x : Int) :
    dot (index.set k x) strides = dot index strides + (x - index[k]) * strides[k] := by
  induction index generalizing strides k with
  | nil => cases indexBound
  | cons i index inductionHypothesis =>
    cases strides with
    | nil => cases strideBound
    | cons st strides =>
      cases k with
      | zero =>
        simp only [List.set_cons_zero, dot_cons, List.getElem_cons_zero]
        ring
      | succ k =>
        simp only [List.set_cons_succ, dot_cons, List.getElem_cons_succ]
        rw [inductionHypothesis (by simpa using indexBound) (by simpa using strideBound)]
        ring

theorem admits_set {ranges : List (Int × Int)} {index : List Int} {k : Nat}
    (rangeBound : k < ranges.length) (indexBound : k < index.length) (s : Int) :
    admits (ranges.set k (s - ranges[k].2, s - ranges[k].1)) index
      = admits ranges (index.set k (s - 1 - index[k])) := by
  induction ranges generalizing index k with
  | nil => cases rangeBound
  | cons r ranges inductionHypothesis =>
    cases index with
    | nil => cases indexBound
    | cons i index =>
      cases k with
      | zero =>
        simp only [List.set_cons_zero, admits_cons, List.getElem_cons_zero]
        congr 1
        rw [decide_eq_decide]
        omega
      | succ k =>
        simp only [List.set_cons_succ, admits_cons, List.getElem_cons_succ]
        rw [inductionHypothesis (by simpa using rangeBound) (by simpa using indexBound)]

theorem Within.set {ranges : List (Int × Int)} {shape : List Int} (within : Within ranges shape)
    {k : Nat} (rangeBound : k < ranges.length) (bound : k < shape.length) :
    Within (ranges.set k (shape[k] - ranges[k].2, shape[k] - ranges[k].1)) shape := by
  induction within generalizing k with
  | nil => cases bound
  | cons bounds rest inductionHypothesis =>
    cases k with
    | zero => exact within_cons.2 ⟨by dsimp only [List.getElem_cons_zero]; omega, rest⟩
    | succ k =>
      exact within_cons.2 ⟨bounds, inductionHypothesis (by simpa using rangeBound)
        (by simpa using bound)⟩

theorem Enclosed.set {ranges : List (Int × Int)} {shape : List Int} (enclosed : Enclosed ranges shape)
    {k : Nat} (rangeBound : k < ranges.length) (bound : k < shape.length) :
    Enclosed (ranges.set k (shape[k] - ranges[k].2, shape[k] - ranges[k].1)) shape := by
  induction enclosed generalizing k with
  | nil => cases bound
  | cons bounds rest inductionHypothesis =>
    cases k with
    | zero => exact List.Forall₂.cons (by dsimp only [List.getElem_cons_zero]; omega) rest
    | succ k =>
      exact List.Forall₂.cons bounds (inductionHypothesis (by simpa using rangeBound)
        (by simpa using bound))

theorem inside_mirror {index shape : List Int} (inside : Inside index shape) (axis : Nat) :
    Inside (mirror shape axis index) shape := by
  unfold mirror
  induction inside generalizing axis with
  | nil => exact Shape.inside_nil
  | cons bounds rest inductionHypothesis =>
    cases axis with
    | zero =>
      refine Shape.inside_cons.2 ⟨?_, rest⟩
      simp only [List.getElem?_cons_zero, Option.getD_some]
      omega
    | succ axis => exact Shape.inside_cons.2 ⟨bounds, inductionHypothesis axis⟩

theorem inside_mirrors {index shape : List Int} (inside : Inside index shape) (axes : List Nat) :
    Inside (axes.foldr (mirror shape) index) shape := by
  induction axes with
  | nil => exact inside
  | cons axis axes inductionHypothesis => exact inside_mirror inductionHypothesis axis

/-- One stride and one range for every axis in the course of `flip?`. -/
structure Course.Regular (shape : List Int) (course : Course) : Prop where
  strides : course.2.1.length = shape.length
  ranges : course.2.2.length = shape.length

/-- What a step of `flip?` keeps of the valid ranges. -/
structure Course.Keeps (shape : List Int) (course next : Course) : Prop where
  within : Within course.2.2 shape → Within next.2.2 shape
  enclosed : Enclosed course.2.2 shape → Enclosed next.2.2 shape
  full : course.2.2 = fullMask shape → next.2.2 = fullMask shape

theorem Course.Keeps.trans {shape : List Int} {course next last : Course}
    (first : course.Keeps shape next) (second : next.Keeps shape last) : course.Keeps shape last :=
  ⟨second.within ∘ first.within, second.enclosed ∘ first.enclosed, second.full ∘ first.full⟩

theorem Course.Regular.step {shape : List Int} {course : Course} (regular : course.Regular shape)
    {axis : Nat} (bound : axis < shape.length) :
    ∃ next : Course, flipAxis? shape course axis = some next ∧ next.Regular shape
      ∧ course.Keeps shape next
      ∧ ∀ index, Inside index shape → next.shown index = course.shown (mirror shape axis index) := by
  obtain ⟨offset, strides, ranges⟩ := course
  have strideBound : axis < strides.length := by rw [regular.strides]; exact bound
  have rangeBound : axis < ranges.length := by rw [regular.ranges]; exact bound
  have start : ¬ (axis : Int) < 0 := by omega
  by_cases empty : shape[axis] = 0
  · -- An empty axis stays as it is, and there is no multi-index to look at.
    refine ⟨_, by simp [flipAxis?, bound, empty], regular, ⟨id, id, id⟩, ?_⟩
    intro index inside
    have bounds := (List.forall₂_iff_get.1 inside).2 axis (by rw [inside.length_eq]; exact bound)
      bound
    simp only [List.get_eq_getElem, empty] at bounds
    omega
  · refine ⟨(offset + (shape[axis] - 1) * strides[axis], strides.set axis (-strides[axis]),
        ranges.set axis (shape[axis] - ranges[axis].2, shape[axis] - ranges[axis].1)),
      by simp [flipAxis?, bound, empty, Shape.place?, start, strideBound, rangeBound],
      ⟨(List.length_set ..).trans regular.strides, (List.length_set ..).trans regular.ranges⟩,
      ⟨fun within => within.set rangeBound bound, fun enclosed => enclosed.set rangeBound bound, ?_⟩,
      ?_⟩
    · intro full
      dsimp only at full ⊢
      have entry : ranges[axis] = (0, shape[axis]) := by simp [full, fullMask]
      simp only [entry, Int.sub_self, Int.sub_zero]
      rw [← entry, List.set_getElem_self]
      exact full
    · intro index inside
      have indexBound : axis < index.length := by rw [inside.length_eq]; exact bound
      unfold Course.shown mirror
      simp only [List.getElem?_eq_getElem bound, List.getElem?_eq_getElem indexBound,
        Option.getD_some]
      rw [admits_set rangeBound indexBound, dot_set_strides indexBound strideBound,
        dot_set_index indexBound strideBound]
      congr 2
      ring

theorem Course.Regular.run {shape : List Int} {course : Course} (regular : course.Regular shape)
    {axes : List Nat} (bounds : ∀ axis ∈ axes, axis < shape.length) :
    ∃ last : Course, (axes.map Int.ofNat).foldlM (flipAxis? shape) course = some last
      ∧ last.Regular shape ∧ course.Keeps shape last
      ∧ ∀ index, Inside index shape →
        last.shown index = course.shown (axes.foldr (mirror shape) index) := by
  induction axes generalizing course with
  | nil => exact ⟨course, rfl, regular, ⟨id, id, id⟩, fun _ _ => rfl⟩
  | cons axis axes inductionHypothesis =>
    obtain ⟨next, flipped, nextRegular, keeps, shown⟩ :=
      regular.step (bounds axis (List.mem_cons_self ..))
    obtain ⟨last, rest, lastRegular, lastKeeps, lastShown⟩ :=
      inductionHypothesis nextRegular fun a member => bounds a (List.mem_cons_of_mem _ member)
    refine ⟨last, ?_, lastRegular, keeps.trans lastKeeps, ?_⟩
    · rw [List.map_cons, List.foldlM_cons]
      show (flipAxis? shape course axis).bind _ = _
      rw [flipped]
      exact rest
    · intro index inside
      rw [lastShown index inside, shown _ (inside_mirrors inside axes)]
      rfl

/-- A view with some axes backwards shows the same at multi-indices counted from their ends. -/
theorem Regular.flip {v : View} (regular : v.Regular) {axes : List Nat}
    (bounds : ∀ axis ∈ axes, axis < v.shape.length) :
    ∃ r, v.flip? (axes.map Int.ofNat) = some r ∧ r.Regular ∧ (v.Sound → r.Sound)
      ∧ r.shape = v.shape ∧ (v.ranges = fullMask v.shape → r.ranges = fullMask v.shape)
      ∧ r.DrawsOn v fun index => some (axes.foldr (mirror v.shape) index) := by
  have course : Course.Regular v.shape (v.offset, v.strides, v.ranges) :=
    ⟨regular.strides, regular.ranges.length_eq⟩
  obtain ⟨⟨offset, strides, ranges⟩, flipped, last, keeps, shown⟩ := course.run bounds
  refine ⟨View.create v.shape strides offset (some ranges), by simp [View.flip?, flipped],
    Regular.create last.strides (keeps.enclosed regular.ranges) _,
    fun sound => Sound.create last.strides (keeps.within sound.ranges) _, rfl, ?_, ?_, ?_⟩
  · intro whole
    rw [ranges_create last.ranges]
    exact keeps.full whole
  · rintro index before inside ⟨⟩
    exact inside_mirrors inside axes
  · intro index inside
    rw [create_shape] at inside
    rw [offsetOf?_create last.ranges inside, Option.bind_some,
      offsetOf?_ranges (inside_mirrors inside axes)]
    exact shown index inside

end StridedArray.View
