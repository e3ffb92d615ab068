import StridedArray.Proofs.Layout.Orders

/-! # What rearranged layouts address

The movements that only change where a multi-index comes from, and not what is there. The laws hold at
any depth of the stack, on empty and on hidden axes as well: all they need is that no mask sticks out of
its view.

* `Rearrangement` — such a movement; `Fits`, `target`, `origin` — which shapes it is for, the shape that
  it gives, and where multi-indices come from;
* `Layout.Regular` — the layouts that the laws are about;
* `Layout.Follows` — a layout addresses every multi-index like another one the multi-index it came from;
* `Rearrangement.run_iff_fits`, `Rearrangement.follows_run` — one movement;
* `Rearrangement.undo?`, `Rearrangement.follows_undo` — the movement that takes one back;
* `Layout.Regular.rearrange` — all of this together. -/

namespace StridedArray

open Shape (Inside)
open View (Within pick unpick behind padded ahead spans mirror)
open Layout (axisNumbers moveOrder relocate)

/-- A movement by which every multi-index comes from at most one other. -/
inductive Rearrangement
  | permute (order : List Int)
  | moveAxis (source target : Int)
  | pad (widths : List (Int × Int))
  | shrink (ranges : List (Int × Int))
  | expand (shape : List Int)
  | flip (axes : List Int)
  deriving DecidableEq

namespace Rearrangement

def move : Rearrangement → Move
  | .permute order => .permute order
  | .moveAxis source target => .moveAxis source target
  | .pad widths => .pad widths
  | .shrink ranges => .shrink ranges
  | .expand shape => .expand shape
  | .flip axes => .flip axes

/-- The place of an axis, negative numbers counting from the last. -/
def place (rank : Nat) (axis : Int) : Nat := (axis % rank).toNat

def Names (rank : Nat) (axis : Int) : Prop := -(rank : Int) ≤ axis ∧ axis < rank

instance (rank : Nat) (axis : Int) : Decidable (Names rank axis) := inferInstanceAs (Decidable (_ ∧ _))

def Fits (shape : List Int) : Rearrangement → Prop
  | .permute order => order.Perm (axisNumbers shape.length)
  | .moveAxis source target => Names shape.length source ∧ Names shape.length target
  | .pad widths => widths.length = shape.length ∧ ∀ w ∈ widths, 0 ≤ w.1 ∧ 0 ≤ w.2
  | .shrink ranges => List.Forall₂ (fun r s => 0 ≤ r.1 ∧ r.1 ≤ r.2 ∧ r.2 ≤ s) ranges shape
  | .expand target => List.Forall₂ (fun s n => s = n ∨ s = 1) shape target
  | .flip axes => ∀ a ∈ axes, Names shape.length a

instance (shape : List Int) : (x : Rearrangement) → Decidable (x.Fits shape)
  | .permute order => inferInstanceAs (Decidable (order.Perm _))
  | .moveAxis _ _ | .pad _ => inferInstanceAs (Decidable (_ ∧ _))
  | .shrink ranges =>
    inferInstanceAs (Decidable (List.Forall₂ (fun r s => 0 ≤ r.1 ∧ r.1 ≤ r.2 ∧ r.2 ≤ s) ranges shape))
  | .expand target => inferInstanceAs (Decidable (List.Forall₂ (fun s n => s = n ∨ s = 1) shape target))
  | .flip axes => inferInstanceAs (Decidable (∀ a ∈ axes, Names shape.length a))

def target (shape : List Int) : Rearrangement → List Int
  | .permute order => pick order shape
  | .moveAxis source target => relocate shape (place shape.length source) (place shape.length target)
  | .pad widths => padded shape widths
  | .shrink ranges => spans ranges
  | .expand target => target
  | .flip _ => shape

def zeroChanged (shape target index : List Int) : List Int :=
  (shape.zip target).zipWith (fun a i => if a.1 = a.2 then i else 0) index

def countBack (shape : List Int) (places : List Nat) (index : List Int) : List Int :=
  (shape.zip index).mapIdx fun j a => if j ∈ places then a.1 - 1 - a.2 else a.2

/-- The multi-index before the movement that one after it came from; none for padding. -/
def origin (shape : List Int) : Rearrangement → List Int → Option (List Int)
  | .permute order, index => some (unpick order index)
  | .moveAxis source target, index =>
    some (relocate index (place shape.length target) (place shape.length source))
  | .pad widths, index => if Inside (behind index widths) shape then some (behind index widths) else none
  | .shrink ranges, index => some (ahead index ranges)
  | .expand target, index => some (zeroChanged shape target index)
  | .flip axes, index => some (countBack shape (axes.map (place shape.length)) index)

def Distinct (rank : Nat) : Rearrangement → Prop
  | .flip axes => (axes.map (place rank)).Nodup
  | _ => True

instance (rank : Nat) : (x : Rearrangement) → Decidable (x.Distinct rank)
  | .flip axes => inferInstanceAs (Decidable (axes.map (place rank)).Nodup)
  | .permute _ | .moveAxis _ _ | .pad _ | .shrink _ | .expand _ => isTrue trivial

def inverse (order : List Int) : List Int :=
  (axisNumbers order.length).map fun a => (order.idxOf a : Int)

def behindPadding (shape : List Int) (widths : List (Int × Int)) : List (Int × Int) :=
  shape.zipWith (fun s w => (w.1, w.1 + s)) widths

/-- The movement that takes a movement back. Cutting and repeating lose something. -/
def undo? (shape : List Int) : Rearrangement → Option Rearrangement
  | .permute order => some (.permute (inverse order))
  | .moveAxis source target => some (.moveAxis target source)
  | .pad widths => some (.shrink (behindPadding shape widths))
  | .flip axes => some (.flip axes)
  | .shrink _ | .expand _ => none

end Rearrangement

/-! ## Layouts that follow others -/

namespace Layout

def Regular (l : Layout) : Prop := ∀ v ∈ l.top :: l.below, v.Regular

theorem Sound.regular {l : Layout} (sound : l.Sound) : l.Regular := fun v member => (sound v member).regular

/-- The first layout has the given shape, and addresses every multi-index like the second one the
    multi-index that it came from. -/
structure Follows (r l : Layout) (shape : List Int) (origin : List Int → Option (List Int)) : Prop where
  shape_eq : r.shape = shape
  inside : ∀ {index before}, Inside index shape → origin index = some before → Inside before l.shape
  address_eq : ∀ {index}, Inside index shape →
    r.address index = (origin index).elim (.ok none) l.address

variable {l m r : Layout} {shape target : List Int} {origin later : List Int → Option (List Int)}

theorem Regular.top (regular : l.Regular) : l.top.Regular := regular _ (List.mem_cons_self ..)

theorem Regular.replaceTop (regular : l.Regular) {v : View} (top : v.Regular) :
    (l.replaceTop v).Regular := by
  intro u member
  rcases List.mem_cons.1 member with rfl | member
  · exact top
  · exact regular u (List.mem_cons_of_mem _ member)

theorem Follows.refl (l : Layout) : l.Follows l l.shape some where
  shape_eq := rfl
  inside := by
    rintro index before inside ⟨⟩
    exact inside
  address_eq := fun _ => rfl

theorem Follows.congr (follows : r.Follows l shape origin)
    (same : ∀ index, Inside index shape → origin index = later index) : r.Follows l shape later where
  shape_eq := follows.shape_eq
  inside := fun inside known => follows.inside inside ((same _ inside).trans known)
  address_eq := fun inside => by rw [follows.address_eq inside, same _ inside]

theorem Follows.trans (first : m.Follows l shape origin) (second : r.Follows m target later) :
    r.Follows l target fun index => (later index).bind origin where
  shape_eq := second.shape_eq
  inside := by
    intro index before inside known
    obtain ⟨middle, known, rest⟩ := Option.bind_eq_some_iff.1 known
    exact first.inside (first.shape_eq ▸ second.inside inside known) rest
  address_eq := by
    intro index inside
    rw [second.address_eq inside]
    cases known : later index with
    | none => rfl
    | some middle => exact first.address_eq (first.shape_eq ▸ second.inside inside known)

theorem follows_replaceTop {v : View} (draws : v.DrawsOn l.top origin) :
    (l.replaceTop v).Follows l v.shape origin where
  shape_eq := rfl
  inside := draws.inside
  address_eq := by
    intro index inside
    rw [address_eq (show Inside index (l.replaceTop v).shape from inside),
      offsetOf?_replaceTop draws inside]
    cases known : origin index with
    | none => rfl
    | some before => exact (address_eq (draws.inside inside known)).symm

end Layout

/-! ## The movements -/

namespace Layout

open Rearrangement (Names place zeroChanged countBack)

variable {l : Layout}

theorem Regular.permute (regular : l.Regular) {order : List Int}
    (perm : order.Perm (axisNumbers l.rank)) :
    ∃ r, l.permute order = .ok r ∧ r.Regular
      ∧ r.Follows l (pick order l.shape) fun index => some (unpick order index) := by
  obtain ⟨v, permuted, top, shape, draws⟩ := regular.top.permute perm
  refine ⟨_, permute_ok.2 ⟨perm, v, permuted, rfl⟩, regular.replaceTop top, ?_⟩
  show Follows _ l (pick order l.top.shape) _
  rw [← shape]
  exact follows_replaceTop draws

theorem place_lt {rank : Nat} {axis : Int} (names : Names rank axis) : place rank axis < rank := by
  unfold Names at names
  have positive : 0 < (rank : Int) := by omega
  have low := Int.emod_nonneg axis (by omega : (rank : Int) ≠ 0)
  have high := Int.emod_lt_of_pos axis positive
  unfold place
  omega

theorem unpick_moveOrder {index : List Int} {source target : Nat} (sourceBound : source < index.length)
    (targetBound : target < index.length) :
    unpick (moveOrder index.length source target) index = relocate index target source := by
  have count : (relocate index target source).length = index.length :=
    (relocate_perm targetBound sourceBound).length_eq
  -- Picking by the order undoes moving the axis back, and putting back undoes picking.
  have there : pick (moveOrder index.length source target) (relocate index target source) = index := by
    rw [← count, pick_moveOrder (by rwa [count]) (by rwa [count]),
      relocate_relocate targetBound sourceBound]
  have perm : (moveOrder index.length source target).Perm
      (axisNumbers (relocate index target source).length) := by
    rw [count]
    exact perm_moveOrder sourceBound targetBound
  have back := View.unpick_pick perm
  rwa [there] at back

theorem Regular.moveAxis (regular : l.Regular) {source target : Int} (sourceNames : Names l.rank source)
    (targetNames : Names l.rank target) :
    ∃ r, l.moveAxis source target = .ok r ∧ r.Regular
      ∧ r.Follows l (relocate l.shape (place l.rank source) (place l.rank target))
          fun index => some (relocate index (place l.rank target) (place l.rank source)) := by
  have sourceBound : place l.rank source < l.shape.length := place_lt sourceNames
  have targetBound : place l.rank target < l.shape.length := place_lt targetNames
  have moving : l.moveAxis source target
      = l.permute (moveOrder l.rank (place l.rank source) (place l.rank target)) :=
    if_pos ⟨sourceNames.1, sourceNames.2, targetNames.1, targetNames.2⟩
  obtain ⟨r, moved, rest, follows⟩ := regular.permute (perm_moveOrder sourceBound targetBound)
  have picked : pick (moveOrder l.rank (place l.rank source) (place l.rank target)) l.shape = _ :=
    pick_moveOrder sourceBound targetBound
  rw [picked] at follows
  refine ⟨r, moving.trans moved, rest, follows.congr fun index inside => ?_⟩
  have count : index.length = l.shape.length :=
    inside.length_eq.trans (relocate_perm sourceBound targetBound).length_eq
  rw [← show index.length = l.rank from count,
    unpick_moveOrder (by rwa [count]) (by rwa [count])]

theorem Regular.pad (regular : l.Regular) {widths : List (Int × Int)}
    (lengths : widths.length = l.rank) (natural : ∀ w ∈ widths, 0 ≤ w.1 ∧ 0 ≤ w.2) :
    ∃ r, l.pad widths = .ok r ∧ r.Regular ∧ r.Follows l (padded l.shape widths)
      fun index => if Inside (behind index widths) l.shape then some (behind index widths) else none := by
  refine ⟨_, pad_ok.2 ⟨lengths, natural, rfl⟩, ?_⟩
  -- Padding of nothing is the same layout again, and no view is made for it.
  by_cases nothing : ∀ w ∈ widths, w = (0, 0)
  · rw [if_pos nothing, View.padded_of_zeros lengths nothing]
    refine ⟨regular, (Follows.refl l).congr fun index inside => ?_⟩
    rw [View.behind_of_lows (lengths.trans inside.length_eq.symm)
      fun w member => by rw [nothing w member], if_pos inside]
  · rw [if_neg nothing]
    exact ⟨regular.replaceTop (regular.top.pad lengths natural),
      follows_replaceTop (regular.top.drawsOn_pad lengths natural)⟩

theorem Regular.shrink (regular : l.Regular) {kept : List (Int × Int)} (within : Within kept l.shape) :
    ∃ r, l.shrink kept = .ok r ∧ r.Regular
      ∧ r.Follows l (spans kept) fun index => some (ahead index kept) := by
  refine ⟨_, shrink_ok.2 ⟨within, rfl⟩, ?_⟩
  by_cases everything : kept = View.fullMask l.shape
  · rw [if_pos everything, everything, View.spans_fullMask]
    refine ⟨regular, (Follows.refl l).congr fun index inside => ?_⟩
    rw [View.ahead_fullMask inside.length_eq]
  · rw [if_neg everything]
    exact ⟨regular.replaceTop (regular.top.shrink within),
      follows_replaceTop (regular.top.drawsOn_shrink within)⟩

theorem zeroChanged_eq {shape target index : List Int}
    (stretches : List.Forall₂ (fun s n => s = n ∨ s = 1) shape target) (inside : Inside index target) :
    zeroChanged shape target index = View.collapse shape index := by
  induction stretches generalizing index with
  | nil => rfl
  | @cons s n shape target axis _ inductionHypothesis =>
    obtain ⟨i, index, rfl, bounds, rest⟩ := Shape.inside_cons_right.1 inside
    have tail := inductionHypothesis rest
    unfold zeroChanged at tail ⊢
    rw [List.zip_cons_cons, List.zipWith_cons_cons, View.collapse_cons, tail]
    congr 1
    split <;> split <;> omega

theorem Regular.expand (regular : l.Regular) {target : List Int}
    (stretches : List.Forall₂ (fun s n => s = n ∨ s = 1) l.shape target) :
    ∃ r, l.expand target = .ok r ∧ ((∀ n ∈ target, 0 ≤ n) → r.Regular)
      ∧ r.Follows l target fun index => some (zeroChanged l.shape target index) := by
  have moved : l.expand target = .ok _ := expand_ok.2 ⟨stretches, rfl⟩
  refine ⟨_, moved, ?_⟩
  by_cases same : target = l.shape
  · rw [if_pos same]
    refine ⟨fun _ => regular, ?_⟩
    have whole : (l.Follows l target some) := same ▸ Follows.refl l
    refine whole.congr fun index inside => ?_
    rw [zeroChanged_eq stretches inside, View.collapse_of_inside (same ▸ inside)]
  · rw [if_neg same]
    refine ⟨fun natural => regular.replaceTop
      (regular.top.expand (View.stretches_iff.2 ⟨stretches, natural⟩)), ?_⟩
    exact (follows_replaceTop (regular.top.drawsOn_expand stretches)).congr fun index inside => by
      rw [zeroChanged_eq stretches inside]
      rfl

theorem normalizeAxes_ok {rank : Nat} {axes : List Int} {places : List Nat} :
    axes.mapM (fun a => Shape.normalizeAxis a rank) = .ok places
      ↔ (∀ a ∈ axes, Names rank a) ∧ axes.map (place rank) = places := by
  have one : ∀ a k, Shape.normalizeAxis a rank = .ok k ↔ Names rank a ∧ place rank a = k := by
    intro a k
    unfold Shape.normalizeAxis
    rw [demand_eq_ok, pure_eq_ok]
    rfl
  simp only [mapM_eq_ok, one]
  induction axes generalizing places with
  | nil => simp [eq_comm]
  | cons a axes inductionHypothesis =>
    rw [List.forall₂_cons_left_iff]
    simp only [inductionHypothesis, List.forall_mem_cons, List.map_cons]
    constructor
    · rintro ⟨k, others, ⟨names, rfl⟩, ⟨rest, rfl⟩, rfl⟩
      exact ⟨⟨names, rest⟩, rfl⟩
    · rintro ⟨⟨names, rest⟩, rfl⟩
      exact ⟨_, _, ⟨names, rfl⟩, ⟨rest, rfl⟩, rfl⟩

theorem getElem?_mirror (shape index : List Int) (axis j : Nat) :
    (mirror shape axis index)[j]?
      = index[j]?.map fun i => if j = axis then shape[j]?.getD 0 - 1 - i else i := by
  unfold mirror
  rw [List.getElem?_set]
  by_cases same : axis = j
  · subst same
    by_cases bound : axis < index.length <;> simp [bound]
  · rw [if_neg same]
    cases index[j]? <;> simp [Ne.symm same]

/-- Axes turned round one after the other are all turned round, if none of them is meant twice. -/
theorem getElem?_mirrors {shape index : List Int} {places : List Nat} (distinct : places.Nodup) (j : Nat) :
    (places.foldr (mirror shape) index)[j]?
      = index[j]?.map fun i => if j ∈ places then shape[j]?.getD 0 - 1 - i else i := by
  induction places with
  | nil => simp
  | cons axis places inductionHypothesis =>
    obtain ⟨fresh, rest⟩ := List.nodup_cons.1 distinct
    rw [List.foldr_cons, getElem?_mirror, inductionHypothesis rest, Option.map_map]
    cases index[j]? with
    | none => rfl
    | some i =>
      by_cases same : j = axis
      · subst same
        simp [fresh]
      · simp [same]

theorem getElem?_countBack {shape index : List Int} (places : List Nat)
    (lengths : index.length = shape.length) (j : Nat) :
    (countBack shape places index)[j]?
      = index[j]?.map fun i => if j ∈ places then shape[j]?.getD 0 - 1 - i else i := by
  unfold countBack
  by_cases bound : j < shape.length <;> simp [bound, lengths]

theorem mirrors_eq {shape index : List Int} {places : List Nat} (distinct : places.Nodup)
    (lengths : index.length = shape.length) :
    places.foldr (mirror shape) index = countBack shape places index := by
  apply List.ext_getElem?
  intro j
  rw [getElem?_mirrors distinct, getElem?_countBack places lengths]

theorem Regular.flip (regular : l.Regular) {axes : List Int} (names : ∀ a ∈ axes, Names l.rank a) :
    ∃ r, l.flip axes = .ok r ∧ r.Regular
      ∧ ((axes.map (place l.rank)).Nodup →
        r.Follows l l.shape fun index => some (countBack l.shape (axes.map (place l.rank)) index)) := by
  have bounds : ∀ k ∈ axes.map (place l.rank), k < l.top.shape.length := by
    intro k placed
    obtain ⟨a, member, rfl⟩ := List.mem_map.1 placed
    exact place_lt (names a member)
  obtain ⟨v, flipped, top, _, shape, _, draws⟩ := regular.top.flip bounds
  refine ⟨_, flip_ok.2 ⟨_, normalizeAxes_ok.2 ⟨names, rfl⟩, v, flipped, rfl⟩,
    regular.replaceTop top, fun distinct => ?_⟩
  show Follows _ l l.top.shape _
  rw [← shape]
  refine (follows_replaceTop draws).congr fun index inside => ?_
  rw [mirrors_eq distinct (inside.length_eq.trans (by rw [shape]))]
  rfl

end Layout

/-! ## Any of them -/

namespace Rearrangement

variable {l r : Layout} {x : Rearrangement}

theorem run_of_fits (regular : l.Regular) (fits : x.Fits l.shape) :
    ∃ r, x.move.run l = .ok r ∧ (x.move.Natural → r.Regular)
      ∧ (x.Distinct l.rank → r.Follows l (x.target l.shape) (x.origin l.shape)) := by
  cases x with
  | permute order =>
    obtain ⟨r, moved, rest, follows⟩ := regular.permute fits
    exact ⟨r, moved, fun _ => rest, fun _ => follows⟩
  | moveAxis source target =>
    obtain ⟨r, moved, rest, follows⟩ := regular.moveAxis fits.1 fits.2
    exact ⟨r, moved, fun _ => rest, fun _ => follows⟩
  | pad widths =>
    obtain ⟨r, moved, rest, follows⟩ := regular.pad fits.1 fits.2
    exact ⟨r, moved, fun _ => rest, fun _ => follows⟩
  | shrink ranges =>
    obtain ⟨r, moved, rest, follows⟩ := regular.shrink fits
    exact ⟨r, moved, fun _ => rest, fun _ => follows⟩
  | expand shape =>
    obtain ⟨r, moved, rest, follows⟩ := regular.expand fits
    exact ⟨r, moved, rest, fun _ => follows⟩
  | flip axes =>
    obtain ⟨r, moved, rest, follows⟩ := regular.flip fits
    exact ⟨r, moved, fun _ => rest, follows⟩

theorem fits_of_run (moved : x.move.run l = .ok r) : x.Fits l.shape := by
  cases x with
  | permute order => exact (Layout.permute_ok.1 moved).1
  | moveAxis source target =>
    unfold move Move.run Layout.moveAxis at moved
    rw [demand_eq_ok] at moved
    exact ⟨⟨moved.1.1, moved.1.2.1⟩, moved.1.2.2⟩
  | pad widths =>
    obtain ⟨lengths, natural, _⟩ := Layout.pad_ok.1 moved
    exact ⟨lengths, natural⟩
  | shrink ranges => exact (Layout.shrink_ok.1 moved).1
  | expand shape => exact (Layout.expand_ok.1 moved).1
  | flip axes =>
    obtain ⟨places, placed, _⟩ := Layout.flip_ok.1 moved
    exact (Layout.normalizeAxes_ok.1 placed).1

theorem run_iff_fits (regular : l.Regular) : (∃ r, x.move.run l = .ok r) ↔ x.Fits l.shape := by
  constructor
  · rintro ⟨r, moved⟩
    exact fits_of_run moved
  · intro fits
    obtain ⟨r, moved, _⟩ := run_of_fits regular fits
    exact ⟨r, moved⟩

theorem regular_run (regular : l.Regular) (natural : x.move.Natural) (moved : x.move.run l = .ok r) :
    r.Regular := by
  obtain ⟨other, same, rest, _⟩ := run_of_fits regular (fits_of_run moved)
  rw [moved] at same
  cases same
  exact rest natural

theorem follows_run (regular : l.Regular) (distinct : x.Distinct l.rank) (moved : x.move.run l = .ok r) :
    r.Follows l (x.target l.shape) (x.origin l.shape) := by
  obtain ⟨other, same, _, follows⟩ := run_of_fits regular (fits_of_run moved)
  rw [moved] at same
  cases same
  exact follows distinct

/-! ## Several of them -/

theorem rank_target {shape : List Int} (fits : x.Fits shape) : (x.target shape).length = shape.length := by
  cases x with
  | permute order => exact View.length_pick fits
  | moveAxis source target =>
    exact (Layout.relocate_perm (Layout.place_lt fits.1) (Layout.place_lt fits.2)).length_eq
  | pad widths =>
    show (padded shape widths).length = _
    rw [View.length_padded, fits.1, Nat.min_self]
  | shrink ranges =>
    show (spans ranges).length = _
    rw [spans, List.length_map]
    exact fits.length_eq
  | expand target => exact fits.length_eq.symm
  | flip axes => rfl

/-! ## Taking them back -/

theorem pick_inverse {order : List Int} (index : List Int) (lengths : index.length = order.length)
    (perm : order.Perm (axisNumbers order.length)) :
    pick (inverse order) index = unpick order index := by
  unfold pick inverse unpick
  rw [List.filterMap_map, ← List.filterMap_eq_map]
  apply List.filterMap_congr
  intro a member
  have bound : order.idxOf a < index.length := by
    rw [lengths]
    exact List.idxOf_lt_length_of_mem (perm.mem_iff.2 member)
  simp [List.getElem?_eq_getElem bound]

theorem perm_inverse {order : List Int} (perm : order.Perm (axisNumbers order.length)) :
    (inverse order).Perm (axisNumbers order.length) := by
  have distinct : order.Nodup := perm.nodup_iff.2
    ((List.nodup_range).map fun _ _ same => Int.ofNat.inj same)
  have places : order.map (fun a => (order.idxOf a : Int)) = axisNumbers order.length := by
    apply List.ext_getElem (by simp [axisNumbers])
    intro k low high
    simp [axisNumbers, distinct.idxOf_getElem]
  rw [inverse]
  conv_rhs => rw [← places]
  exact perm.symm.map _

theorem within_behindPadding {shape : List Int} {widths : List (Int × Int)}
    (extents : ∀ s ∈ shape, 0 ≤ s) (natural : ∀ w ∈ widths, 0 ≤ w.1 ∧ 0 ≤ w.2) :
    Within (behindPadding shape widths) (padded shape widths) := by
  induction shape generalizing widths with
  | nil => exact View.within_nil
  | cons s shape inductionHypothesis =>
    cases widths with
    | nil => exact View.within_nil
    | cons w widths =>
      obtain ⟨extent, others⟩ := List.forall_mem_cons.1 extents
      obtain ⟨width, rest⟩ := List.forall_mem_cons.1 natural
      refine View.within_cons.2 ⟨?_, inductionHypothesis others rest⟩
      dsimp only
      omega

theorem spans_behindPadding {shape : List Int} {widths : List (Int × Int)}
    (lengths : widths.length = shape.length) : spans (behindPadding shape widths) = shape := by
  induction shape generalizing widths with
  | nil => rfl
  | cons s shape inductionHypothesis =>
    obtain ⟨w, widths, rfl⟩ := List.exists_cons_of_length_eq_add_one lengths
    have rest := @inductionHypothesis widths (by simpa using lengths)
    unfold behindPadding at rest ⊢
    rw [List.zipWith_cons_cons, View.spans_cons, rest, add_sub_cancel_left]

theorem behind_ahead {shape index : List Int} {widths : List (Int × Int)}
    (lengths : widths.length = shape.length) (indexLength : index.length = shape.length) :
    behind (ahead index (behindPadding shape widths)) widths = index := by
  induction shape generalizing index widths with
  | nil => simp [List.length_eq_zero_iff.1 lengths, List.length_eq_zero_iff.1 indexLength]
  | cons s shape inductionHypothesis =>
    obtain ⟨w, widths, rfl⟩ := List.exists_cons_of_length_eq_add_one lengths
    obtain ⟨i, index, rfl⟩ := List.exists_cons_of_length_eq_add_one indexLength
    have rest := @inductionHypothesis index widths (by simpa using lengths)
      (by simpa using indexLength)
    unfold behindPadding at rest ⊢
    rw [List.zipWith_cons_cons, View.ahead_cons, View.behind_cons, rest, Int.add_sub_cancel]

theorem countBack_countBack {shape index : List Int} (places : List Nat)
    (lengths : index.length = shape.length) :
    countBack shape places (countBack shape places index) = index := by
  have again : (countBack shape places index).length = shape.length := by
    simp [countBack, lengths]
  apply List.ext_getElem?
  intro j
  rw [Layout.getElem?_countBack places again, Layout.getElem?_countBack places lengths]
  cases index[j]? with
  | none => rfl
  | some i =>
    rw [Option.map_some, Option.map_some]
    split
    · rw [Int.sub_sub_self]
    · rfl

/-- A movement that takes another one back is for the shapes that that one gives, and takes them and every
    multi-index back. -/
theorem undo_fits {shape : List Int} {back : Rearrangement} (fits : x.Fits shape)
    (undo : x.undo? shape = some back) (extents : ∀ s ∈ shape, 0 ≤ s) :
    back.Fits (x.target shape) ∧ back.target (x.target shape) = shape
      ∧ (x.Distinct shape.length → back.Distinct shape.length)
      ∧ ∀ index, Inside index shape →
        (back.origin (x.target shape) index).bind (x.origin shape) = some index := by
  have rank := rank_target fits
  cases x with
  | permute order =>
    cases undo
    have orderLength := View.length_of_perm fits
    have perm : order.Perm (axisNumbers order.length) := by rw [orderLength]; exact fits
    have inversePerm := perm_inverse perm
    have picked : (pick order shape).length = order.length := rank.trans orderLength.symm
    refine ⟨?_, ?_, fun _ => trivial, fun index inside => ?_⟩
    · show (inverse order).Perm (axisNumbers (target shape (.permute order)).length)
      rw [rank, ← orderLength]
      exact inversePerm
    · show pick (inverse order) (pick order shape) = shape
      rw [pick_inverse _ picked perm, View.unpick_pick fits]
    · have count : index.length = order.length := inside.length_eq.trans orderLength.symm
      have inverseLength := View.length_of_perm inversePerm
      -- `unpick` of the inverse order is `pick` of the order.
      show some (unpick order (unpick (inverse order) index)) = some index
      rw [← pick_inverse _ (by simp [unpick, axisNumbers, inverseLength]) perm,
        View.pick_unpick (by rwa [inverseLength]) (by rw [count, inverseLength])]
  | moveAxis source target =>
    cases undo
    have sourceBound := Layout.place_lt fits.1
    have targetBound := Layout.place_lt fits.2
    refine ⟨?_, ?_, fun _ => trivial, fun index inside => ?_⟩
    · show Names _ target ∧ Names _ source
      rw [rank]
      exact ⟨fits.2, fits.1⟩
    · unfold Rearrangement.target at rank ⊢
      dsimp only at rank ⊢
      rw [rank, Layout.relocate_relocate sourceBound targetBound]
    · unfold Rearrangement.origin Rearrangement.target at *
      dsimp only at rank ⊢
      rw [rank, Option.bind_some, Layout.relocate_relocate (by rwa [inside.length_eq])
        (by rwa [inside.length_eq])]
  | pad widths =>
    cases undo
    refine ⟨within_behindPadding extents fits.2, spans_behindPadding fits.1, fun _ => trivial,
      fun index inside => ?_⟩
    show (if Inside (behind (ahead index _) widths) shape then _ else none) = _
    rw [behind_ahead fits.1 inside.length_eq, if_pos inside]
  | shrink ranges => cases undo
  | expand target => cases undo
  | flip axes =>
    cases undo
    refine ⟨fits, rfl, id, fun index inside => ?_⟩
    exact congrArg some (countBack_countBack _ inside.length_eq)

theorem natural_of_undo {shape : List Int} {back : Rearrangement} (undo : x.undo? shape = some back) :
    x.move.Natural := by
  cases x with
  | expand target => cases undo
  | _ => trivial

/-- Taking a movement back leads to where every multi-index was. -/
theorem follows_undo {back : Rearrangement} (regular : l.Regular) (extents : ∀ s ∈ l.shape, 0 ≤ s)
    (distinct : x.Distinct l.rank) (moved : x.move.run l = .ok r)
    (undo : x.undo? l.shape = some back) : ∃ b, back.move.run r = .ok b ∧ b.Follows l l.shape some := by
  have fits := fits_of_run moved
  obtain ⟨backFits, target, backDistinct, origin⟩ := undo_fits fits undo extents
  have first := follows_run regular distinct moved
  have rank : r.rank = l.rank := (congrArg List.length first.shape_eq).trans (rank_target fits)
  have movedRegular : r.Regular := regular_run regular (natural_of_undo undo) moved
  rw [← first.shape_eq] at backFits
  obtain ⟨b, taken, _, second⟩ := run_of_fits movedRegular backFits
  have both := first.trans (second (rank ▸ backDistinct distinct))
  rw [first.shape_eq, target] at both
  exact ⟨b, taken, both.congr fun index inside => origin index inside⟩

end Rearrangement

/-! ## The law -/

namespace Layout

/-- A rearrangement succeeds exactly on the layouts of the shapes it is for. It gives the shape and the
    addresses that it says, and the movement that takes it back leads to where everything was. -/
theorem Regular.rearrange {l : Layout} (regular : l.Regular) {x : Rearrangement}
    (distinct : x.Distinct l.rank) :
    ((∃ r, x.move.run l = .ok r) ↔ x.Fits l.shape)
      ∧ ∀ r, x.move.run l = .ok r →
        r.Follows l (x.target l.shape) (x.origin l.shape)
          ∧ ∀ back, x.undo? l.shape = some back → (∀ s ∈ l.shape, 0 ≤ s) →
            ∃ b, back.move.run r = .ok b ∧ b.Follows l l.shape some :=
  ⟨Rearrangement.run_iff_fits regular, fun _ moved => ⟨Rearrangement.follows_run regular distinct moved,
    fun _ undo extents => Rearrangement.follows_undo regular extents distinct moved undo⟩⟩

/-- Every other of five positions, and a column of padding behind them. -/
def paddedColumns : Layout :=
  ⟨{ shape := [2, 3], strides := [2, 1], mask := some [(0, 2), (0, 2)] },
    [{ shape := [4], strides := [2], offset := 1, mask := some [(0, 2)] }]⟩

/-- Two movements of it, and the way back from each. -/
theorem rearrange_paddedColumns :
    (∃ r b, paddedColumns.flip [-1] = .ok r ∧ r.shape = [2, 3]
      ∧ r.address [0, 0] = .ok none ∧ r.address [0, 1] = .ok (some 3)
      ∧ r.flip [-1] = .ok b ∧ b.address [0, 1] = paddedColumns.address [0, 1])
    ∧ ∃ r b, paddedColumns.pad [(1, 0), (0, 2)] = .ok r ∧ r.shape = [3, 5]
      ∧ r.address [0, 1] = .ok none ∧ r.address [1, 1] = .ok (some 3)
      ∧ r.shrink [(1, 3), (0, 3)] = .ok b ∧ b.address [0, 1] = paddedColumns.address [0, 1] := by
  have regular : paddedColumns.Regular := by
    intro v member
    simp only [paddedColumns, List.mem_cons, List.not_mem_nil, or_false] at member
    rcases member with rfl | rfl
    · exact ⟨rfl, by unfold View.Enclosed; decide⟩
    · exact ⟨rfl, by unfold View.Enclosed; decide⟩
  obtain ⟨turns, turned⟩ := regular.rearrange (x := .flip [-1]) (by decide)
  obtain ⟨r, moved⟩ := turns.2 (by decide)
  obtain ⟨follows, back⟩ := turned r moved
  obtain ⟨b, taken, home⟩ := back _ rfl (by decide)
  obtain ⟨pads, padded⟩ := regular.rearrange (x := .pad [(1, 0), (0, 2)]) (by decide)
  obtain ⟨r', moved'⟩ := pads.2 ⟨rfl, by decide⟩
  obtain ⟨follows', back'⟩ := padded r' moved'
  obtain ⟨b', taken', home'⟩ := back' _ rfl (by decide)
  refine ⟨⟨r, b, moved, follows.shape_eq, ?_, ?_, taken, ?_⟩,
    r', b', moved', follows'.shape_eq, ?_, ?_, taken', ?_⟩
  · rw [follows.address_eq (by decide)]; rfl
  · rw [follows.address_eq (by decide)]; rfl
  · exact home.address_eq (by decide)
  · rw [follows'.address_eq (by decide)]; rfl
  · rw [follows'.address_eq (by decide)]; rfl
  · exact home'.address_eq (by decide)

end Layout

end StridedArray
