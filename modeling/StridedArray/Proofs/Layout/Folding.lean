import StridedArray.Proofs.Datum
import StridedArray.Proofs.Layout.Anchored
import StridedArray.Proofs.Layout.Rearrangements
import StridedArray.Tensor.Reduction

/-! # Axes that are folded

A reduction is asked for some axes, which it brings to the end and joins to one.

* `AxisRequest` — the axes that are asked for; `reducedAxes_cases` — they are found, unless one is not there or is
  named twice;
* `Shape.collapsed` — what is left of an array without some axes, or with extent 1 there; `Shape.fiber` — the
  multi-indices of which the same is left;
* `Layout.planReduction_cases` — the rows of a planned reduction are the fibers. -/

namespace StridedArray

open Shape (Inside product ravel unravel)
open View (pick unpick)
open Layout (axisNumbers rowMajor)
open Rearrangement (place Names)

/-! ## Requests -/

inductive AxisRequest
  | all
  | one (axis : Int)
  | several (axes : List Int)

namespace AxisRequest

def datum : AxisRequest → Datum
  | all => .none
  | one axis => .int axis
  | several axes => .list (Datum.ints axes)

def axes (rank : Nat) : AxisRequest → List Int
  | all => axisNumbers rank
  | one axis => [axis]
  | several axes => axes

def places (rank : Nat) (request : AxisRequest) : List Nat := (request.axes rank).map (place rank)

def folded (rank : Nat) (request : AxisRequest) : Finset Nat := (request.places rank).toFinset

def Proper (rank : Nat) (request : AxisRequest) : Prop :=
  (∀ a ∈ request.axes rank, Names rank a) ∧ (request.places rank).Nodup

instance (rank : Nat) (request : AxisRequest) : Decidable (request.Proper rank) := inferInstanceAs (Decidable (_ ∧ _))

end AxisRequest

section Requests

variable {rank : Nat} {request : AxisRequest}

theorem normalizeAxis_int (a : Int) (rank : Nat) : Loose.normalizeAxis (.int a) (.int rank)
    = if Names rank a then .ok (.int (place rank a)) else .error (.shape (.axisOutside (.int a) (.int rank))) := by
  unfold Loose.normalizeAxis Datum.within
  rw [Datum.negate_of_exact (Datum.exact_int _), ok_bind, Datum.atMost_int, ok_bind,
    Datum.less_of_exact (Datum.exact_int a) (Datum.exact_int rank)]
  by_cases names : Names rank a
  · have low : -(rank : Int) ≤ a := names.1
    have high : a < rank := names.2
    have nonzero : (rank : Int) ≠ 0 := by omega
    have remainder : (Datum.int a).floorModulo (.int rank) = .ok (.int (place rank a)) := by
      show Datum.scalar <$> Scalar.floorModulo _ _ = _
      rw [Scalar.floorModulo_int a rank nonzero, place, Int.toNat_of_nonneg (Int.emod_nonneg a nonzero),
        Int.fmod_eq_emod_of_nonneg a (Int.natCast_nonneg rank)]
      rfl
    rw [if_pos names, decide_eq_true low, decide_eq_true high]
    exact remainder
  · rw [if_neg names]
    by_cases low : -(rank : Int) ≤ a
    · have high : ¬ a < rank := fun below => names ⟨low, below⟩
      rw [decide_eq_true low, decide_eq_false high]
      rfl
    · rw [decide_eq_false low]
      rfl

theorem mapM_normalizeAxis (axes : List Int) (rank : Nat) :
    ((∀ a ∈ axes, Names rank a) ∧ (Datum.ints axes).mapM (fun axis => Loose.normalizeAxis axis (.int rank))
        = .ok (Datum.ints ((axes.map (place rank)).map Int.ofNat)))
      ∨ (¬ ∀ a ∈ axes, Names rank a) ∧ ∃ fault, (Datum.ints axes).mapM
        (fun axis => Loose.normalizeAxis axis (.int rank)) = .error (.shape fault) := by
  induction axes with
  | nil => exact .inl ⟨nofun, rfl⟩
  | cons a axes inductionHypothesis =>
    have next : (Datum.ints (a :: axes)).mapM (fun axis => Loose.normalizeAxis axis (.int rank)) = (do
        let first ← Loose.normalizeAxis (.int a) (.int rank)
        let others ← (Datum.ints axes).mapM fun axis => Loose.normalizeAxis axis (.int rank)
        return first :: others) := List.mapM_cons
    rw [next, normalizeAxis_int]
    by_cases names : Names rank a
    · rw [if_pos names, ok_bind]
      rcases inductionHypothesis with ⟨others, found⟩ | ⟨missing, fault, refused⟩
      · exact .inl ⟨List.forall_mem_cons.2 ⟨names, others⟩, by rw [found]; rfl⟩
      · exact .inr ⟨fun all => missing fun b member => all b (List.mem_cons_of_mem _ member), fault, by rw [refused]; rfl⟩
    · rw [if_neg names]
      exact .inr ⟨fun all => names (all a (List.mem_cons_self ..)), _, rfl⟩

theorem place_natCast {a : Nat} (bound : a < rank) : place rank (a : Int) = a := by
  unfold place
  rw [Int.emod_eq_of_lt (by omega) (by omega), Int.toNat_natCast]

theorem names_axisNumbers : ∀ a ∈ axisNumbers rank, Names rank a := by
  intro a member
  obtain ⟨k, inside, rfl⟩ := List.mem_map.1 member
  rw [List.mem_range] at inside
  exact ⟨by simp only [Int.ofNat_eq_natCast]; omega, by simp only [Int.ofNat_eq_natCast]; omega⟩

theorem places_axisNumbers : (axisNumbers rank).map (place rank) = List.range rank := by
  rw [axisNumbers, List.map_map]
  exact (List.map_congr_left fun a inside => place_natCast (List.mem_range.1 inside)).trans (List.map_id' _)

theorem requestedAxes_cases (request : AxisRequest) (rank : Nat) :
    ((∀ a ∈ request.axes rank, Names rank a) ∧ request.datum.requestedAxes rank
        = .ok (Datum.ints ((request.places rank).map Int.ofNat)))
      ∨ (¬ ∀ a ∈ request.axes rank, Names rank a) ∧ ∃ fault, request.datum.requestedAxes rank = .error (.shape fault) := by
  cases request with
  | all =>
    refine .inl ⟨names_axisNumbers, ?_⟩
    show Except.ok (Datum.ints (axisNumbers rank)) = .ok (Datum.ints (((axisNumbers rank).map (place rank)).map Int.ofNat))
    rw [places_axisNumbers]
    rfl
  | one a =>
    have known := normalizeAxis_int a rank
    by_cases names : Names rank a
    · rw [if_pos names] at known
      refine .inl ⟨by simpa [AxisRequest.axes] using names, ?_⟩
      show (do return [← Loose.normalizeAxis (.int a) (.int rank)]) = _
      rw [known]
      rfl
    · rw [if_neg names] at known
      refine .inr ⟨by simpa [AxisRequest.axes] using names, .axisOutside (.int a) (.int rank), ?_⟩
      show (do return [← Loose.normalizeAxis (.int a) (.int rank)]) = _
      rw [known]
      rfl
  | several axes => exact mapM_normalizeAxis axes rank

/-- Numbers are collected once each, so that fewer are left if one comes twice. -/
theorem length_insertOnce (ns known : List Int) :
    ((Datum.ints ns).foldl Loose.insertOnce (Datum.ints known)).length ≤ known.length + ns.length
      ∧ (((Datum.ints ns).foldl Loose.insertOnce (Datum.ints known)).length = known.length + ns.length
        ↔ ns.Nodup ∧ ∀ n ∈ ns, n ∉ known) := by
  induction ns generalizing known with
  | nil => simp [Datum.ints]
  | cons n ns inductionHypothesis =>
    have there : (Datum.ints known).any (fun k => Datum.same k (.int n)) = decide (n ∈ known) := by
      rw [Bool.eq_iff_iff, List.any_eq_true, decide_eq_true_iff]
      constructor
      · rintro ⟨d, member, same⟩
        obtain ⟨k, inside, rfl⟩ := List.mem_map.1 member
        rw [show Datum.same (.int k) (.int n) = decide (k = n) from Datum.sameNumber_int k n, decide_eq_true_iff] at same
        exact same ▸ inside
      · intro inside
        refine ⟨.int n, List.mem_map_of_mem inside, ?_⟩
        rw [show Datum.same (.int n) (.int n) = decide (n = n) from Datum.sameNumber_int n n]
        exact decide_eq_true rfl
    -- The number is new, and then it counts, or it is known, and then one is missing in the end.
    have step : (Datum.ints (n :: ns)).foldl Loose.insertOnce (Datum.ints known)
        = (Datum.ints ns).foldl Loose.insertOnce (Datum.ints (if n ∈ known then known else known ++ [n])) := by
      show (Datum.ints ns).foldl Loose.insertOnce (Loose.insertOnce (Datum.ints known) (.int n)) = _
      unfold Loose.insertOnce
      rw [there]
      by_cases inside : n ∈ known <;> simp [inside, Datum.ints]
    rw [step]
    by_cases inside : n ∈ known
    · obtain ⟨most, -⟩ := inductionHypothesis known
      rw [if_pos inside, List.length_cons]
      refine ⟨by omega, fun same => ?_, fun apart => absurd inside (apart.2 n (List.mem_cons_self ..))⟩
      omega
    · obtain ⟨most, exactly⟩ := inductionHypothesis (known ++ [n])
      rw [if_neg inside, List.length_cons]
      rw [List.length_append, List.length_singleton] at most exactly
      refine ⟨by omega, ?_⟩
      rw [show known.length + (ns.length + 1) = known.length + 1 + ns.length by omega, exactly, List.nodup_cons]
      simp only [List.mem_append, List.mem_singleton, List.forall_mem_cons]
      constructor
      · rintro ⟨distinct, apart⟩
        exact ⟨⟨fun again => apart n again (.inr rfl), distinct⟩, inside, fun m member old => apart m member (.inl old)⟩
      · rintro ⟨⟨once, distinct⟩, -, apart⟩
        exact ⟨distinct, fun m member => not_or.2 ⟨apart m member, fun same => once (same ▸ member)⟩⟩

/-- The axes of a proper request are found, and any other request is refused. -/
theorem reducedAxes_cases (request : AxisRequest) (rank : Nat) :
    (request.Proper rank ∧ request.datum.reducedAxes rank = .ok (request.places rank))
      ∨ ¬ request.Proper rank ∧ ∃ fault, request.datum.reducedAxes rank = .error (.shape fault) := by
  unfold Datum.reducedAxes
  rcases requestedAxes_cases request rank with ⟨named, found⟩ | ⟨missing, fault, refused⟩
  · rw [found, ok_bind]
    obtain ⟨-, exactly⟩ := length_insertOnce ((request.places rank).map Int.ofNat) []
    have once : ((Datum.ints ((request.places rank).map Int.ofNat)).foldl Loose.insertOnce []).length
        = (Datum.ints ((request.places rank).map Int.ofNat)).length ↔ (request.places rank).Nodup := by
      rw [Datum.length_ints, ← List.nodup_map_iff (f := Int.ofNat) fun _ _ => Int.ofNat.inj]
      simpa [Datum.ints] using exactly
    by_cases distinct : (request.places rank).Nodup
    · refine .inl ⟨⟨named, distinct⟩, ?_⟩
      rw [if_neg (not_not.2 (once.2 distinct))]
      have back : (Datum.ints ((request.places rank).map Int.ofNat)).mapM
          (fun axis => do return (← axis.exact).toNat) = .ok (request.places rank) := by
        rw [mapM_eq_ok, Datum.ints, List.map_map, List.forall₂_map_left_iff, List.forall₂_same]
        intro a _
        show (do return (← (Datum.int (a : Int)).exact).toNat) = _
        rw [Datum.exact_int, ok_bind, Int.toNat_natCast]
        rfl
      exact back
    · refine .inr ⟨fun proper => distinct proper.2, .duplicateAxis request.datum, ?_⟩
      rw [if_pos fun same => distinct (once.1 same)]
      rfl
  · refine .inr ⟨fun proper => missing proper.1, fault, ?_⟩
    rw [refused]
    rfl

end Requests

/-! ## What is left -/

namespace Shape

variable {folded : Finset Nat} {keep : Bool} {unit : Int}

/-- What is left of an array without some axes: nothing on those axes, or the same everywhere. -/
def collapsed (folded : Finset Nat) (keep : Bool) (unit : Int) (xs : List Int) : List Int :=
  (List.range xs.length).filterMap fun a => if a ∈ folded then (if keep then some unit else none) else xs[a]?

def fiber (shape : List Int) (folded : Finset Nat) (keep : Bool) (index : List Int) : Finset (List Int) :=
  (box shape).filter fun i => collapsed folded keep 0 i = index

theorem product_eq_prod (xs : List Int) : product xs = xs.prod := by
  induction xs with
  | nil => rfl
  | cons x xs inductionHypothesis => rw [product_cons, inductionHypothesis, List.prod_cons]

def extentAlong (shape : List Int) (folded : Finset Nat) : Int := ∏ a ∈ folded, shape[a]?.getD 0

theorem collapsed_concat (xs : List Int) (x : Int) :
    collapsed folded keep unit (xs ++ [x])
      = collapsed folded keep unit xs
        ++ if xs.length ∈ folded then (if keep then [unit] else []) else [x] := by
  unfold collapsed
  rw [List.length_append, List.length_singleton, List.range_succ, List.filterMap_append]
  congr 1
  · refine List.filterMap_congr fun a member => ?_
    rw [List.getElem?_append_left (List.mem_range.1 member)]
  · by_cases inside : xs.length ∈ folded <;> cases keep <;> simp [inside]

theorem collapsed_true_concat (xs : List Int) (x : Int) : collapsed folded true unit (xs ++ [x])
    = collapsed folded true unit xs ++ [if xs.length ∈ folded then unit else x] := by
  rw [collapsed_concat]
  split <;> rfl

theorem Inside.last {index shape : List Int} {s : Int} (inside : Inside index (shape ++ [s])) :
    ∃ front i, index = front ++ [i] ∧ Inside front shape ∧ Inside [i] [s] := by
  obtain ⟨front, last, rfl, within, single⟩ := inside.split
  obtain ⟨i, rest, rfl, bounds, none⟩ := inside_cons_right.1 single
  obtain rfl := inside_nil_right.1 none
  exact ⟨front, i, rfl, within, single⟩

theorem length_collapsed_true (xs : List Int) : (collapsed folded true unit xs).length = xs.length := by
  induction xs using List.reverseRecOn with
  | nil => rfl
  | append_singleton xs x inductionHypothesis =>
    rw [collapsed_true_concat]
    simp [inductionHypothesis]

theorem natural_collapsed {shape : List Int} (natural : ∀ s ∈ shape, 0 ≤ s) (folded : Finset Nat) (keep : Bool) :
    ∀ s ∈ collapsed folded keep 1 shape, 0 ≤ s := by
  intro s member
  obtain ⟨a, -, known⟩ := List.mem_filterMap.1 member
  split at known
  · cases keep
    · cases known
    · cases known
      decide
  · exact natural s (List.mem_of_getElem? known)

theorem product_collapsed (folded : Finset Nat) (shape : List Int) :
    product (collapsed folded true 1 shape) = product (collapsed folded false 1 shape) := by
  induction shape using List.reverseRecOn with
  | nil => rfl
  | append_singleton shape s inductionHypothesis =>
    rw [collapsed_true_concat, collapsed_concat, product_append, product_append, inductionHypothesis]
    split <;> rfl

theorem samePlace_collapsed {index shape : List Int} (inside : Inside index (collapsed folded true 1 shape)) :
    SamePlace (collapsed folded false 0 index) (collapsed folded false 1 shape) index (collapsed folded true 1 shape) := by
  induction shape using List.reverseRecOn generalizing index with
  | nil =>
    obtain rfl := inside_nil_right.1 inside
    exact .refl inside_nil
  | append_singleton shape s inductionHypothesis =>
    rw [collapsed_true_concat] at inside ⊢
    obtain ⟨front, i, rfl, within, single⟩ := inside.last
    have rank := within.length_eq.trans (length_collapsed_true shape)
    rw [collapsed_concat, collapsed_concat, rank]
    refine (inductionHypothesis within).append ?_
    by_cases here : shape.length ∈ folded
    · simp only [here, if_true, Bool.false_eq_true, if_false] at single ⊢
      obtain ⟨⟨low, high⟩, -⟩ := inside_cons.1 single
      obtain rfl : i = 0 := by omega
      exact ⟨inside_nil, single, rfl, rfl⟩
    · simp only [here, if_false] at single ⊢
      exact .refl single

/-- What is left with extent 1 on the folded axes is known from what is left without them. -/
theorem collapsed_eq_iff {i index shape : List Int} (inside : Inside i shape)
    (within : Inside index (collapsed folded true 1 shape)) :
    collapsed folded true 0 i = index ↔ collapsed folded false 0 i = collapsed folded false 0 index := by
  induction shape using List.reverseRecOn generalizing i index with
  | nil =>
    obtain rfl := inside_nil_right.1 inside
    obtain rfl := inside_nil_right.1 within
    exact iff_of_true rfl rfl
  | append_singleton shape s inductionHypothesis =>
    rw [collapsed_true_concat] at within
    obtain ⟨before, p, rfl, first, -⟩ := inside.last
    obtain ⟨front, q, rfl, second, single⟩ := within.last
    have rank := second.length_eq.trans (length_collapsed_true shape)
    rw [collapsed_concat, collapsed_concat, collapsed_concat, rank, first.length_eq]
    by_cases here : shape.length ∈ folded
    · simp only [here, if_true, Bool.false_eq_true, if_false, List.append_nil] at single ⊢
      obtain ⟨⟨low, high⟩, -⟩ := inside_cons.1 single
      obtain rfl : q = 0 := by omega
      rw [List.append_left_inj, inductionHypothesis first second]
    · simp only [here, if_false]
      rw [← List.concat_eq_append, ← List.concat_eq_append, ← List.concat_eq_append, ← List.concat_eq_append,
        List.concat_inj, List.concat_inj, inductionHypothesis first second]

theorem fiber_true {index shape : List Int} (within : Inside index (collapsed folded true 1 shape)) :
    fiber shape folded true index = fiber shape folded false (collapsed folded false 0 index) :=
  Finset.filter_congr fun _ member => collapsed_eq_iff (mem_box.1 member) within

theorem keptShape_eq (shape : List Int) (axes : List Nat) :
    keptShape shape axes = collapsed axes.toFinset true 1 shape := by
  unfold keptShape
  induction shape using List.reverseRecOn with
  | nil => rfl
  | append_singleton shape s inductionHypothesis =>
    rw [List.mapIdx_concat, inductionHypothesis, collapsed_true_concat]
    simp

/-! ## Axes by their numbers -/

section Axes

variable {axes : List Nat} {xs : List Int}

theorem pick_natCast (bounds : ∀ a ∈ axes, a < xs.length) :
    pick (axes.map Int.ofNat) xs = axes.map fun a => xs[a]?.getD 0 := by
  rw [pick, List.filterMap_map, ← List.filterMap_eq_map']
  refine List.filterMap_congr fun a member => ?_
  show entry? xs (a : Int) = _
  rw [View.entry?_natCast, List.getElem?_eq_getElem (bounds a member)]
  rfl

def outside (rank : Nat) (axes : List Nat) : List Nat := (List.range rank).filter fun a => !axes.contains a

theorem outside_lt : ∀ a ∈ outside xs.length axes, a < xs.length := fun _ member =>
  List.mem_range.1 (List.mem_filter.1 member).1

theorem collapsed_false (axes : List Nat) (xs : List Int) :
    collapsed axes.toFinset false unit xs = pick ((outside xs.length axes).map Int.ofNat) xs := by
  rw [pick, List.filterMap_map, outside, List.filterMap_filter]
  refine List.filterMap_congr fun a _ => ?_
  show _ = if _ then entry? xs (a : Int) else none
  rw [View.entry?_natCast]
  by_cases inside : a ∈ axes <;> simp [inside]

theorem extentAlong_toFinset (distinct : axes.Nodup) :
    extentAlong xs axes.toFinset = product (axes.map fun a => xs[a]?.getD 0) := by
  rw [extentAlong, List.prod_toFinset _ distinct, product_eq_prod]

theorem perm_outside {rank : Nat} (bounds : ∀ a ∈ axes, a < rank) (distinct : axes.Nodup) :
    ((outside rank axes ++ axes).map Int.ofNat).Perm (axisNumbers rank) := by
  refine List.Perm.map _ ((List.perm_ext_iff_of_nodup ?_ List.nodup_range).2 fun a => ?_)
  · refine List.nodup_append'.2 ⟨List.nodup_range.filter _, distinct, fun a outer inner => ?_⟩
    simpa [inner] using (List.mem_filter.1 outer).2
  · have bound := bounds a
    by_cases inner : a ∈ axes <;> simp [outside, inner, bound]

/-! ## Numbers on the folded axes and on the others -/

def along (axes : List Nat) (xs : List Int) : List Int := axes.map fun a => xs[a]?.getD 0

/-- The multi-index with some numbers on the axes, and others outside of them. -/
def spread (rank : Nat) (axes : List Nat) (index u : List Int) : List Int :=
  unpick ((outside rank axes ++ axes).map Int.ofNat) (index ++ u)

variable {shape index u : List Int}

theorem pick_order (bounds : ∀ a ∈ axes, a < xs.length) :
    pick ((outside xs.length axes ++ axes).map Int.ofNat) xs = collapsed axes.toFinset false unit xs ++ along axes xs := by
  rw [List.map_append, View.pick_append, ← collapsed_false, pick_natCast bounds, along]

theorem length_collapsed_false (axes : List Nat) (xs : List Int) :
    (collapsed axes.toFinset false unit xs).length = (outside xs.length axes).length := by
  rw [collapsed_false, pick_natCast outside_lt, List.length_map]

theorem Inside.along {i : List Int} (inside : Inside i shape) (bounds : ∀ a ∈ axes, a < shape.length) :
    Inside (along axes i) (along axes shape) := by
  unfold Shape.along Inside
  rw [List.forall₂_map_left_iff, List.forall₂_map_right_iff, List.forall₂_same]
  intro a member
  have bound := bounds a member
  have rank := inside.length_eq
  rw [List.getElem?_eq_getElem (by omega), List.getElem?_eq_getElem bound]
  exact (List.forall₂_iff_get.1 inside).2 a (by omega) bound

theorem spread_entries {i : List Int} (bounds : ∀ a ∈ axes, a < i.length) (distinct : axes.Nodup) :
    spread i.length axes (collapsed axes.toFinset false unit i) (along axes i) = i := by
  rw [spread, ← pick_order bounds]
  exact View.unpick_pick (perm_outside bounds distinct)

theorem inside_spread (bounds : ∀ a ∈ axes, a < shape.length) (distinct : axes.Nodup)
    (inside : Inside index (collapsed axes.toFinset false 1 shape)) (within : Inside u (along axes shape)) :
    Inside (spread shape.length axes index u) shape := by
  refine View.inside_unpick (perm_outside bounds distinct) ?_
  rw [pick_order bounds]
  exact inside.append within

theorem entries_spread (bounds : ∀ a ∈ axes, a < shape.length) (distinct : axes.Nodup)
    (inside : Inside index (collapsed axes.toFinset false 1 shape)) (within : Inside u (along axes shape)) :
    collapsed axes.toFinset false 0 (spread shape.length axes index u) = index
      ∧ along axes (spread shape.length axes index u) = u := by
  have perm := perm_outside bounds distinct
  have rank := (inside_spread bounds distinct inside within).length_eq
  have lengths : index.length = (outside shape.length axes).length := by
    rw [inside.length_eq, length_collapsed_false]
  have total : (index ++ u).length = ((outside shape.length axes ++ axes).map Int.ofNat).length := by
    rw [List.length_append, List.length_map, List.length_append, lengths, within.length_eq, Shape.along, List.length_map]
  have back : pick ((outside shape.length axes ++ axes).map Int.ofNat) (spread shape.length axes index u) = index ++ u :=
    View.pick_unpick (by rwa [View.length_of_perm perm]) total
  have apart := @pick_order 0 axes (spread shape.length axes index u) (by rwa [rank])
  rw [rank, back] at apart
  refine List.append_inj apart.symm ?_
  rw [length_collapsed_false, rank, lengths]

theorem natural_along (natural : ∀ s ∈ shape, 0 ≤ s) (bounds : ∀ a ∈ axes, a < shape.length) :
    ∀ s ∈ along axes shape, 0 ≤ s := by
  intro s member
  obtain ⟨a, named, rfl⟩ := List.mem_map.1 member
  rw [List.getElem?_eq_getElem (bounds a named)]
  exact natural _ (List.getElem_mem _)

theorem unravel_step (natural : ∀ s ∈ shape, 0 ≤ s) {step : Nat} (bound : step < (product shape).toNat) :
    Inside (unravel step shape) shape ∧ ravel (unravel step shape) shape = step := by
  have positive := positive_of_product_pos natural (by omega)
  exact ⟨inside_unravel positive step, ravel_unravel positive (by omega) (by omega)⟩

/-- A fiber is gone through once when the positions along the folded axes are. -/
theorem image_spread (natural : ∀ s ∈ shape, 0 ≤ s) (bounds : ∀ a ∈ axes, a < shape.length) (distinct : axes.Nodup)
    (inside : Inside index (collapsed axes.toFinset false 1 shape)) :
    Set.InjOn (fun step : Nat => spread shape.length axes index (unravel step (along axes shape)))
        (Finset.range (product (along axes shape)).toNat)
      ∧ (Finset.range (product (along axes shape)).toNat).image
        (fun step : Nat => spread shape.length axes index (unravel step (along axes shape)))
        = fiber shape axes.toFinset false index := by
  let joined := along axes shape
  have within {step : Nat} (member : step ∈ Finset.range (product joined).toNat) :
      Inside (unravel step joined) joined ∧ ravel (unravel step joined) joined = step :=
    unravel_step (natural_along natural bounds) (Finset.mem_range.1 member)
  constructor
  · intro a first b second same
    obtain ⟨insideFirst, ravelFirst⟩ := within first
    obtain ⟨insideSecond, ravelSecond⟩ := within second
    have entries := (entries_spread bounds distinct inside insideFirst).2.symm.trans
      ((congrArg (along axes) same).trans (entries_spread bounds distinct inside insideSecond).2)
    rw [entries, ravelSecond] at ravelFirst
    omega
  · ext i
    rw [Finset.mem_image, fiber, Finset.mem_filter, mem_box]
    constructor
    · rintro ⟨step, member, rfl⟩
      obtain ⟨insideStep, -⟩ := within member
      exact ⟨inside_spread bounds distinct inside insideStep, (entries_spread bounds distinct inside insideStep).1⟩
    · rintro ⟨source, rfl⟩
      -- A multi-index of the fiber stands at the position of its own numbers on the folded axes.
      have numbers := source.along bounds
      obtain ⟨low, high⟩ : 0 ≤ ravel (along axes i) joined ∧ ravel (along axes i) joined < product joined :=
        numbers.ravel_bounds
      refine ⟨(ravel (along axes i) joined).toNat, Finset.mem_range.2 (show _ < (product joined).toNat by omega), ?_⟩
      show spread shape.length axes _ (unravel ((ravel (along axes i) joined).toNat : Nat) joined) = i
      rw [Int.toNat_of_nonneg low, numbers.unravel_ravel, ← source.length_eq]
      exact spread_entries (by rwa [source.length_eq]) distinct

end Axes

end Shape

/-! ## The plan -/

namespace Layout

/-- A layout with one row for everything that is left without some axes of a whole array. Each row goes once through
    the multi-indices of which the same is left. -/
structure Gathers (rows : Layout) (shape : List Int) (folded : Finset Nat) : Prop where
  anchored : rows.Anchored (product shape)
  lined : rows.shape = Shape.collapsed folded false 1 shape ++ [Shape.extentAlong shape folded]
  size : product (Shape.collapsed folded false 1 shape) * Shape.extentAlong shape folded = product shape
  fibers : ∀ index, Inside index (Shape.collapsed folded false 1 shape) → ∃ f : Nat → List Int,
    Set.InjOn f (Finset.range (Shape.extentAlong shape folded).toNat)
      ∧ (Finset.range (Shape.extentAlong shape folded).toNat).image f = Shape.fiber shape folded false index
      ∧ ∀ step < (Shape.extentAlong shape folded).toNat,
        rows.offsetOf? (index ++ [(step : Int)]) = some (ravel (f step) shape)

variable {shape : List Int} {axes : List Nat}

theorem gathers_rows (natural : ∀ s ∈ shape, 0 ≤ s) (bounds : ∀ a ∈ axes, a < shape.length) (distinct : axes.Nodup) :
    ∃ moved rows, (rowMajor shape).permute ((Shape.outside shape.length axes ++ axes).map Int.ofNat) = .ok moved
      ∧ moved.reshape (Shape.collapsed axes.toFinset false 1 shape ++ [Shape.extentAlong shape axes.toFinset]) = .ok rows
      ∧ rows.Gathers shape axes.toFinset := by
  let left := Shape.collapsed axes.toFinset false 1 shape
  let joined := Shape.along axes shape
  have count : Shape.extentAlong shape axes.toFinset = product joined := Shape.extentAlong_toFinset distinct
  have perm := Shape.perm_outside bounds distinct
  have whole := anchored_rowMajor natural
  obtain ⟨moved, permuted, -, follows⟩ := whole.sound.regular.permute perm
  have picked : moved.shape = left ++ joined := follows.shape_eq.trans (Shape.pick_order bounds)
  have anchored := whole.permute permuted
  have size : product (left ++ joined) = product shape := by
    rw [← Shape.pick_order bounds, Shape.product_eq_prod, Shape.product_eq_prod]
    exact (View.pick_perm perm).prod_eq
  have rest : ∀ s ∈ left ++ [product joined], 0 ≤ s := by
    refine List.forall_mem_append.2 ⟨Shape.natural_collapsed natural _ _, ?_⟩
    rw [List.forall_mem_singleton]
    exact Shape.product_nonneg (Shape.natural_along natural bounds)
  have same : product (left ++ [product joined]) = moved.size := by
    rw [Layout.size, picked, Shape.product_append, Shape.product_append, Shape.product_cons, Shape.product_nil,
      Int.mul_one]
  have reshaped : moved.reshape (left ++ [product joined]) = .ok (moved.reshaped (left ++ [product joined])) :=
    reshape_ok.2 ⟨rest, same, rfl⟩
  rw [count]
  refine ⟨moved, _, permuted, reshaped, anchored.reshape reshaped, ?_, ?_, fun index inside => ?_⟩
  · rw [count]
    exact shape_reshaped anchored.sound rest
  · rw [count, ← Shape.product_append]
    exact size
  · rw [count]
    obtain ⟨injective, image⟩ := Shape.image_spread natural bounds distinct inside
    refine ⟨_, injective, image, fun step bound => ?_⟩
    obtain ⟨insideStep, place⟩ := Shape.unravel_step (Shape.natural_along natural bounds) bound
    -- A place in a row is one in the array with the folded axes at the end, and that is found in the whole array.
    have samePlace : Shape.SamePlace (index ++ [(step : Int)]) (left ++ [product joined])
        (index ++ unravel step joined) (left ++ joined) := by
      refine (Shape.SamePlace.refl inside).append ⟨?_, insideStep, by simp, by simpa using place.symm⟩
      exact Shape.inside_cons.2 ⟨by omega, Shape.inside_nil⟩
    obtain ⟨low, high⟩ := samePlace.left.ravel_bounds
    have here := anchored.sound.offsetOf?_reshaped_of_settled anchored.settled rest same low (by omega)
    rw [samePlace.left.unravel_ravel, picked, samePlace.unravel_eq] at here
    have source := Shape.inside_spread bounds distinct inside insideStep
    have there : Inside (index ++ unravel step joined) moved.shape := picked ▸ samePlace.right
    have address := follows.address_eq (show Inside (index ++ unravel step joined) _ from follows.shape_eq ▸ there)
    rw [address_eq there] at address
    rw [here]
    refine (Except.ok.inj (address.trans (address_eq source))).trans ?_
    exact offsetOf?_rowMajor source

/-- A request for axes that are not there or are named twice, or for the greatest of no elements. -/
def Refuses (shape : List Int) (op : Reduction) (request : AxisRequest) : Prop :=
  ¬ request.Proper shape.length ∨ op = .max ∧ Shape.extentAlong shape (request.folded shape.length) = 0

instance (shape : List Int) (op : Reduction) (request : AxisRequest) : Decidable (Refuses shape op request) :=
  inferInstanceAs (Decidable (_ ∨ _))

variable {op : Reduction} {request : AxisRequest}

theorem places_lt_of_proper {rank : Nat} (proper : request.Proper rank) : ∀ a ∈ request.places rank, a < rank := by
  intro a member
  obtain ⟨axis, inside, rfl⟩ := List.mem_map.1 member
  exact place_lt (proper.1 axis inside)

/-- A request that names axes properly is refused for the greatest of no elements only. -/
theorem planReduction_of_proper (natural : ∀ s ∈ shape, 0 ≤ s) (op : Reduction) (proper : request.Proper shape.length)
    (found : request.datum.reducedAxes shape.length = .ok (request.places shape.length)) :
    ∃ rows, rows.Gathers shape (request.folded shape.length) ∧ (rowMajor shape).planReduction op request.datum
      = if op = .max ∧ Shape.extentAlong shape (request.folded shape.length) = 0 then .error (.shape .emptyMaximum)
        else .ok ⟨request.places shape.length, Shape.collapsed (request.folded shape.length) false 1 shape,
          Shape.extentAlong shape (request.folded shape.length), rows⟩ := by
  let axes := request.places shape.length
  have kept : ((rowMajor shape).axesOutside axes).map (rowMajor shape).extent
      = Shape.collapsed axes.toFinset false 1 shape := by
    rw [Shape.collapsed_false, Shape.pick_natCast Shape.outside_lt]
    rfl
  have count : product (axes.map (rowMajor shape).extent) = Shape.extentAlong shape axes.toFinset :=
    (Shape.extentAlong_toFinset proper.2).symm
  obtain ⟨moved, rows, permuted, reshaped, gathers⟩ := gathers_rows natural (places_lt_of_proper proper) proper.2
  refine ⟨rows, gathers, ?_⟩
  unfold planReduction
  rw [show request.datum.reducedAxes (rowMajor shape).rank = .ok axes from found, ok_bind]
  dsimp only
  rw [kept, count]
  by_cases nothing : op = .max ∧ Shape.extentAlong shape axes.toFinset = 0
  · rw [if_pos nothing]
    exact (if_pos nothing).symm
  · rw [if_neg nothing, show (rowMajor shape).permute (((rowMajor shape).axesOutside axes ++ axes).map Int.ofNat)
      = .ok moved from permuted]
    refine Eq.trans ?_ (if_neg nothing).symm
    show (moved.reshape _ >>= _) = _
    rw [reshaped]
    rfl

/-- A whole array is planned to be reduced in rows over what is left, unless the request is refused. -/
theorem planReduction_cases (natural : ∀ s ∈ shape, 0 ≤ s) (op : Reduction) (request : AxisRequest) :
    (Refuses shape op request ∧ ∃ fault, (rowMajor shape).planReduction op request.datum = .error (.shape fault))
      ∨ ¬ Refuses shape op request ∧ ∃ rows, rows.Gathers shape (request.folded shape.length)
        ∧ (rowMajor shape).planReduction op request.datum = .ok ⟨request.places shape.length,
          Shape.collapsed (request.folded shape.length) false 1 shape,
          Shape.extentAlong shape (request.folded shape.length), rows⟩ := by
  rcases reducedAxes_cases request shape.length with ⟨proper, found⟩ | ⟨improper, fault, refused⟩
  · obtain ⟨rows, gathers, planned⟩ := planReduction_of_proper natural op proper found
    by_cases nothing : op = .max ∧ Shape.extentAlong shape (request.folded shape.length) = 0
    · exact .inl ⟨.inr nothing, _, by rw [planned, if_pos nothing]⟩
    · rw [if_neg nothing] at planned
      exact .inr ⟨not_or.2 ⟨not_not.2 proper, nothing⟩, rows, gathers, planned⟩
  · refine .inl ⟨.inl improper, fault, ?_⟩
    unfold planReduction
    rw [show request.datum.reducedAxes (rowMajor shape).rank = .error (.shape fault) from refused]
    rfl

end Layout

end StridedArray
