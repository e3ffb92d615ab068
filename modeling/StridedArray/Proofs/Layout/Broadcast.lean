import StridedArray.Layout.Stretch
import StridedArray.Proofs.Layout.Anchored

/-! # Broadcasting

Shapes are aligned at their last axes. An axis of extent 1 stretches to any extent, and so does one that is not
there.

* `Shape.raised`, `Shape.StretchesTo` — new axes in front, and shapes that stretch to another one;
* `Shape.CommonShape`, `Shape.broadcast_ok` — the common shape of several ones is found;
* `Shape.aligned` — where an element of the stretched shape comes from;
* `Anchored.stretch` — a layout is stretched, and shows the elements that were there. -/

namespace StridedArray

namespace Shape

/-! ## Common shapes -/

def raised (rank : Nat) (shape : List Int) : List Int := List.replicate (rank - shape.length) 1 ++ shape

def StretchesTo (shape out : List Int) : Prop := List.Forall₂ (fun s n => s = n ∨ s = 1) (raised out.length shape) out

instance (shape out : List Int) : Decidable (StretchesTo shape out) :=
  inferInstanceAs (Decidable (List.Forall₂ _ _ _))

/-- The shape to which several ones stretch: no axis and no extent that none of them has. -/
structure CommonShape (shapes : List (List Int)) (out : List Int) : Prop where
  stretches : ∀ shape ∈ shapes, StretchesTo shape out
  rank : ∃ shape ∈ shapes, shape.length = out.length
  attained : ∀ k < out.length, ∃ shape ∈ shapes, (raised out.length shape)[k]? = out[k]?

variable {shape out : List Int} {shapes : List (List Int)}

theorem StretchesTo.length_le (stretches : StretchesTo shape out) : shape.length ≤ out.length := by
  have lengths := stretches.length_eq
  rw [raised, List.length_append, List.length_replicate] at lengths
  omega

theorem length_raised {rank : Nat} (bound : shape.length ≤ rank) : (raised rank shape).length = rank := by
  rw [raised, List.length_append, List.length_replicate]
  omega

theorem stretchesTo_self (shape : List Int) : StretchesTo shape shape := by
  unfold StretchesTo raised
  rw [Nat.sub_self, List.replicate_zero, List.nil_append, List.forall₂_same]
  exact fun _ _ => .inl rfl

theorem commonShape_single (shape : List Int) : CommonShape [shape] shape where
  stretches := fun _ member => List.mem_singleton.1 member ▸ stretchesTo_self shape
  rank := ⟨shape, List.mem_singleton_self _, rfl⟩
  attained := fun k _ => ⟨shape, List.mem_singleton_self _, by simp [raised]⟩

theorem CommonShape.perm {others : List (List Int)} (common : CommonShape shapes out) (same : shapes.Perm others) :
    CommonShape others out where
  stretches := fun shape member => common.stretches shape (same.mem_iff.2 member)
  rank := by
    obtain ⟨shape, member, rank⟩ := common.rank
    exact ⟨shape, same.mem_iff.1 member, rank⟩
  attained := fun k bound => by
    obtain ⟨shape, member, known⟩ := common.attained k bound
    exact ⟨shape, same.mem_iff.1 member, known⟩

theorem getElem?_raised {rank k : Nat} (bound : k < rank) (short : shape.length ≤ rank) :
    (raised rank shape)[rank - 1 - k]? = some ((shape.reverse[k]?).getD 1) := by
  unfold raised
  by_cases known : k < shape.length
  · rw [List.getElem?_append_right (by rw [List.length_replicate]; omega), List.length_replicate,
      List.getElem?_reverse known, List.getElem?_eq_getElem (by omega), List.getElem?_eq_getElem (by omega),
      Option.getD_some]
    congr 2
    omega
  · have before : rank - 1 - k < rank - shape.length := by omega
    rw [List.getElem?_append_left (by rw [List.length_replicate]; omega), List.getElem?_replicate, if_pos before,
      List.getElem?_eq_none (by rw [List.length_reverse]; omega), Option.getD_none]

theorem commonExtent?_eq {extents : List Int} {n : Int} (fits : ∀ s ∈ extents, s = n ∨ s = 1)
    (attained : n ∈ extents ∨ n = 1) : commonExtent? extents = some n := by
  unfold commonExtent?
  cases known : extents.filter (· ≠ 1) with
  | nil =>
    have ones : ∀ s ∈ extents, s = 1 := by
      intro s member
      by_contra other
      have kept : s ∈ extents.filter (· ≠ 1) := List.mem_filter.2 ⟨member, by simpa using other⟩
      rw [known] at kept
      cases kept
    exact congrArg some (attained.elim (fun member => (ones n member).symm) fun one => one.symm)
  | cons e rest =>
    have all : ∀ s ∈ e :: rest, s = n := by
      intro s member
      rw [← known, List.mem_filter] at member
      exact (fits s member.1).resolve_right (by simpa using member.2)
    have same : rest.all (· = e) = true := by
      rw [List.all_eq_true]
      intro s member
      rw [decide_eq_true_iff, all s (List.mem_cons_of_mem _ member), all e (List.mem_cons_self ..)]
    dsimp only
    rw [if_pos same, all e (List.mem_cons_self ..)]

theorem foldl_max_eq {ns : List Nat} {n start : Nat} (bound : ∀ m ∈ ns, m ≤ n) (least : start ≤ n)
    (attained : n ∈ ns ∨ n = start) : ns.foldl max start = n := by
  induction ns generalizing start with
  | nil => exact (attained.resolve_left (by simp)).symm
  | cons m ns inductionHypothesis =>
    obtain ⟨first, others⟩ := List.forall_mem_cons.1 bound
    refine inductionHypothesis others (max_le least first) ?_
    rcases attained with member | rfl
    · rcases List.mem_cons.1 member with rfl | member
      · exact .inr (max_eq_right least).symm
      · exact .inl member
    · exact .inr (max_eq_left first).symm

theorem CommonShape.greatestRank (common : CommonShape shapes out) : greatestRank shapes = out.length := by
  obtain ⟨shape, member, rank⟩ := common.rank
  refine foldl_max_eq (fun m listed => ?_) (Nat.zero_le _) (.inl (List.mem_map.2 ⟨shape, member, rank⟩))
  obtain ⟨other, inside, rfl⟩ := List.mem_map.1 listed
  exact (common.stretches other inside).length_le

theorem mapM_some {α β : Type} {f : α → Option β} {g : α → β} {xs : List α} (each : ∀ x ∈ xs, f x = some (g x)) :
    xs.mapM f = some (xs.map g) := by
  induction xs with
  | nil => rfl
  | cons x xs inductionHypothesis =>
    obtain ⟨first, others⟩ := List.forall_mem_cons.1 each
    rw [List.mapM_cons, first, inductionHypothesis others]
    rfl

theorem broadcast_ok (common : CommonShape shapes out) : broadcast shapes = .ok out := by
  have some : shapes.isEmpty = false := by
    obtain ⟨shape, member, -⟩ := common.rank
    cases shapes with
    | nil => cases member
    | cons => rfl
  -- Axes are counted from the last one, where shapes are aligned.
  have axis : ∀ k < out.length, commonExtent? (alignedExtents shapes k) = out[out.length - 1 - k]? := by
    intro k bound
    have here : out.length - 1 - k < out.length := by omega
    rw [List.getElem?_eq_getElem here]
    refine commonExtent?_eq (fun s member => ?_) ?_
    · obtain ⟨shape, inside, known⟩ := List.mem_filterMap.1 member
      have stretches := common.stretches shape inside
      have raised := getElem?_raised bound stretches.length_le
      rw [known, Option.getD_some] at raised
      obtain ⟨low, entry⟩ := List.getElem?_eq_some_iff.1 raised
      have both := (List.forall₂_iff_get.1 stretches).2 (out.length - 1 - k) low here
      rwa [List.get_eq_getElem, List.get_eq_getElem, entry] at both
    · obtain ⟨shape, inside, known⟩ := common.attained (out.length - 1 - k) here
      rw [getElem?_raised bound (common.stretches shape inside).length_le, List.getElem?_eq_getElem here,
        Option.some_inj] at known
      cases last : shape.reverse[k]? with
      | none =>
        rw [last, Option.getD_none] at known
        exact .inr known.symm
      | some s =>
        rw [last, Option.getD_some] at known
        exact .inl (List.mem_filterMap.2 ⟨shape, inside, known ▸ last⟩)
  have axes : broadcast? shapes = Option.some out := by
    unfold broadcast?
    rw [common.greatestRank]
    rw [@mapM_some _ _ _ (fun k => (out[out.length - 1 - k]?).getD 0) _ fun k member => by
      have bound := List.mem_range.1 (List.mem_reverse.1 member)
      rw [axis k bound, List.getElem?_eq_getElem (by omega), Option.getD_some], Option.some_inj]
    refine List.ext_getElem (by simp) fun k first second => ?_
    have back : out.length - 1 - (out.length - 1 - k) = k := by omega
    rw [List.getElem_map, List.getElem_reverse, List.getElem_range, List.length_range, back,
      List.getElem?_eq_getElem second, Option.getD_some]
  unfold broadcast
  rw [some, axes]
  rfl

/-! ## Where elements come from -/

/-- The multi-index in a shape of what is shown at a multi-index of a shape that it stretches to: new axes are left
    out, and on an axis of extent 1 there is one position only. -/
def aligned (shape index : List Int) : List Int :=
  shape.zipWith (fun s i => if s = 1 then 0 else i) (index.drop (index.length - shape.length))

theorem aligned_of_inside {index : List Int} (inside : Inside index shape) : aligned shape index = index := by
  rw [aligned, inside.length_eq, Nat.sub_self, List.drop_zero]
  exact View.collapse_of_inside inside

theorem StretchesTo.inside_collapse {index : List Int} (stretches : StretchesTo shape out) (inside : Inside index out) :
    Inside (View.collapse (raised out.length shape) index) (raised out.length shape) := by
  unfold StretchesTo at stretches
  generalize raised out.length shape = front at stretches
  induction stretches generalizing index with
  | nil =>
    cases inside
    exact Shape.inside_nil
  | @cons s n front out same _ inductionHypothesis =>
    obtain ⟨i, rest, rfl, bounds, others⟩ := Shape.inside_cons_right.1 inside
    rw [View.collapse_cons]
    refine Shape.inside_cons.2 ⟨?_, inductionHypothesis others⟩
    split <;> omega

theorem StretchesTo.collapse_eq {index : List Int} (stretches : StretchesTo shape out) (inside : Inside index out) :
    View.collapse (raised out.length shape) index
      = List.replicate (out.length - shape.length) 0 ++ aligned shape index := by
  have lengths := inside.length_eq
  have short := stretches.length_le
  have front : (index.take (out.length - shape.length)).length = out.length - shape.length := by
    rw [List.length_take]
    omega
  conv_lhs => rw [← List.take_append_drop (out.length - shape.length) index]
  rw [raised, View.collapse_append (by rw [List.length_replicate, front]), View.collapse_ones front, aligned, lengths]
  rfl

theorem StretchesTo.inside_aligned {index : List Int} (stretches : StretchesTo shape out) (inside : Inside index out) :
    Inside (aligned shape index) shape := by
  have collapsed := stretches.inside_collapse inside
  rw [stretches.collapse_eq inside, raised] at collapsed
  exact ((inside_append (by simp)).1 collapsed).2

theorem ravel_zeros (n : Nat) (index shape : List Int) :
    ravel (List.replicate n 0 ++ index) (List.replicate n 1 ++ shape) = ravel index shape := by
  rw [ravel_append (by simp)]
  have none : ∀ n : Nat, ravel (List.replicate n 0) (List.replicate n 1) = 0 := by
    intro n
    induction n with
    | zero => rfl
    | succ n inductionHypothesis =>
      show 0 * _ + ravel (List.replicate n 0) (List.replicate n 1) = 0
      rw [inductionHypothesis, Int.zero_mul, Int.add_zero]
  rw [none, Int.zero_mul, Int.zero_add]

theorem product_raised (rank : Nat) (shape : List Int) : product (raised rank shape) = product shape := by
  rw [raised, product_append]
  have one : ∀ n : Nat, product (List.replicate n 1) = 1 := by
    intro n
    induction n with
    | zero => rfl
    | succ n inductionHypothesis => rw [List.replicate_succ, product_cons, inductionHypothesis, Int.one_mul]
  rw [one, Int.one_mul]

theorem CommonShape.natural (common : CommonShape shapes out) (each : ∀ shape ∈ shapes, ∀ s ∈ shape, 0 ≤ s) :
    ∀ n ∈ out, 0 ≤ n := by
  intro n member
  obtain ⟨k, bound, rfl⟩ := List.getElem_of_mem member
  obtain ⟨shape, inside, known⟩ := common.attained k bound
  rw [List.getElem?_eq_getElem bound] at known
  rcases List.mem_append.1 (List.mem_of_getElem? known) with new | old
  · rw [List.eq_of_mem_replicate new]
    decide
  · exact each shape inside _ old

end Shape

namespace Layout

open Shape (Inside CommonShape StretchesTo aligned product raised ravel)

variable {l : Layout} {count : Int} {out : List Int}

theorem stretch_self (l : Layout) : l.stretch l.shape = .ok l := by
  have long : ¬ l.shape.length < l.rank := Nat.lt_irrefl _
  unfold Layout.stretch
  rw [if_neg long, if_pos rfl]
  rfl

theorem stretch_ok {r : Layout} (moved : l.stretch out = .ok r) :
    l = r ∨ ∃ wide, l.raise out.length = .ok wide ∧ wide.expand out = .ok r := by
  unfold Layout.stretch at moved
  simp only [throw_bind, refuse_eq_ok] at moved
  by_cases same : l.shape = out
  · rw [if_pos same, pure_eq_ok] at moved
    exact .inl moved.2
  · rw [if_neg same, bind_eq_ok] at moved
    exact .inr moved.2

/-- A layout is stretched to a shape, and shows the elements that were there. -/
theorem Anchored.stretch (anchored : l.Anchored count) (stretches : StretchesTo l.shape out)
    (natural : ∀ n ∈ out, 0 ≤ n) :
    ∃ r, l.stretch out = .ok r ∧ r.shape = out ∧ r.Anchored count
      ∧ ∀ index, Inside index out → r.offsetOf? index = l.offsetOf? (aligned l.shape index) := by
  have long : ¬ out.length < l.rank := Nat.not_lt.2 stretches.length_le
  by_cases same : l.shape = out
  · subst same
    exact ⟨l, l.stretch_self, rfl, anchored, fun index inside => by rw [Shape.aligned_of_inside inside]⟩
  have sound := anchored.sound
  have extents : ∀ s ∈ raised out.length l.shape, 0 ≤ s := by
    intro s member
    rcases List.mem_append.1 member with new | old
    · rw [List.eq_of_mem_replicate new]
      decide
    · exact sound.extents s old
  have size := Shape.product_raised out.length l.shape
  let wide := l.reshaped (raised out.length l.shape)
  have raises : l.raise out.length = .ok wide := reshape_ok.2 ⟨extents, size, rfl⟩
  have shape : wide.shape = raised out.length l.shape := shape_reshaped sound extents
  have wideAnchored : wide.Anchored count := anchored.reshape raises
  let r := if out = wide.shape then wide else wide.replaceTop (wide.top.expand out)
  have expands : wide.expand out = .ok r := expand_ok.2 ⟨by rw [shape]; exact stretches, rfl⟩
  refine ⟨r, ?_, ?_, wideAnchored.expand natural expands, fun index inside => ?_⟩
  · unfold Layout.stretch
    rw [if_neg long, if_neg same, raises]
    exact expands
  · by_cases whole : out = wide.shape
    · exact (congrArg Layout.shape (if_pos whole)).trans whole.symm
    · exact congrArg Layout.shape (if_neg whole)
  -- First to the raised shape, then past the new axes.
  have before : r.offsetOf? index = wide.offsetOf? (View.collapse wide.shape index) := by
    by_cases whole : out = wide.shape
    · rw [show r = wide from if_pos whole, View.collapse_of_inside (whole ▸ inside)]
    · rw [show r = _ from if_neg whole]
      have regular := wideAnchored.sound.top.regular
      exact offsetOf?_replaceTop (regular.drawsOn_expand (by
        show List.Forall₂ _ wide.shape out
        rw [shape]
        exact stretches)) inside
  have collapsed := stretches.inside_collapse inside
  have place := Shape.ravel_zeros (out.length - l.shape.length) (aligned l.shape index) l.shape
  rw [← stretches.collapse_eq inside] at place
  obtain ⟨low, high⟩ := collapsed.ravel_bounds
  rw [size] at high
  have moved := sound.offsetOf?_reshaped_of_settled anchored.settled extents size low high
  rw [before, shape]
  rw [collapsed.unravel_ravel] at moved
  rw [moved, show ravel (View.collapse (raised out.length l.shape) index) (raised out.length l.shape)
    = ravel (aligned l.shape index) l.shape from place, (stretches.inside_aligned inside).unravel_ravel]

end Layout

end StridedArray
