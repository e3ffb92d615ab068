import StridedArray.Convolution.Window
import StridedArray.Proofs.Layout.Shows

/-! # Particular orders of axes

The orders that convolutions put axes in, each with the proof that it is one of all axes, and with what
it picks from lists that are put together in the same way.

* `pick_windowOrder`, `perm_windowOrder` — windows behind their positions;
* `relocate`, `pick_moveOrder`, `perm_moveOrder` — one axis moved to another place;
* `pick_swapOrder`, `perm_swapOrder` — the first two axes exchanged. -/

namespace StridedArray

open View (pick)

namespace Layout

section Orders

variable {α β : Type}

theorem axisNumbers_add (m n : Nat) :
    axisNumbers (m + n) = axisNumbers m ++ (List.range n).map fun j => ((m + j : Nat) : Int) := by
  simp only [axisNumbers, List.range_add, List.map_append, List.map_map]
  rfl

theorem pick_front (front rest : List α) : pick (axisNumbers front.length) (front ++ rest) = front := by
  have block := View.pick_block (front ++ rest) 0 front.length
  simp only [Nat.zero_add, List.drop_zero, List.take_left] at block
  exact block

theorem getElem?_pairs (axes : List β) (f g : β → α) (j : Nat) :
    (axes.flatMap fun x => [f x, g x])[2 * j]? = axes[j]?.map f
      ∧ (axes.flatMap fun x => [f x, g x])[2 * j + 1]? = axes[j]?.map g := by
  induction axes generalizing j with
  | nil => simp
  | cons x axes inductionHypothesis =>
    cases j with
    | zero => simp
    | succ j =>
      have rest := inductionHypothesis j
      simpa [List.flatMap_cons, Nat.mul_add] using rest

theorem filterMap_getElem? (axes : List β) (f : β → α) :
    (List.range axes.length).filterMap (fun j => axes[j]?.map f) = axes.map f := by
  have whole := View.pick_axisNumbers (axes.map f)
  rw [pick, axisNumbers, List.filterMap_map, List.length_map] at whole
  refine Eq.trans (List.filterMap_congr fun j _ => ?_) whole
  show _ = Shape.entry? (axes.map f) ((j : Nat) : Int)
  rw [View.entry?_natCast, List.getElem?_map]

/-- Windows and positions in turn become positions and then windows. -/
theorem pick_windowOrder (front : List α) (axes : List β) (f g : β → α) :
    pick (windowOrder front.length axes.length) (front ++ axes.flatMap fun x => [f x, g x])
      = front ++ axes.map g ++ axes.map f := by
  have entry : ∀ k, Shape.entry? (front ++ axes.flatMap fun x => [f x, g x])
      ((front.length + k : Nat) : Int) = (axes.flatMap fun x => [f x, g x])[k]? := by
    intro k
    rw [View.entry?_natCast, List.getElem?_append_right (by omega), Nat.add_sub_cancel_left]
  have positions : pick ((List.range axes.length).map fun j => ((front.length + 2 * j + 1 : Nat) : Int))
      (front ++ axes.flatMap fun x => [f x, g x]) = axes.map g := by
    rw [pick, List.filterMap_map, ← filterMap_getElem? axes g]
    apply List.filterMap_congr
    intro j _
    exact (entry (2 * j + 1)).trans (getElem?_pairs axes f g j).2
  have windows : pick ((List.range axes.length).map fun j => ((front.length + 2 * j : Nat) : Int))
      (front ++ axes.flatMap fun x => [f x, g x]) = axes.map f := by
    rw [pick, List.filterMap_map, ← filterMap_getElem? axes f]
    apply List.filterMap_congr
    intro j _
    exact (entry (2 * j)).trans (getElem?_pairs axes f g j).1
  rw [windowOrder, View.pick_append, View.pick_append, pick_front, positions, windows]

theorem perm_windowOrder (kept m : Nat) :
    (windowOrder kept m).Perm (axisNumbers (kept + 2 * m)) := by
  rw [windowOrder, axisNumbers_add, List.append_assoc]
  apply List.Perm.append_left
  induction m with
  | zero => exact .refl _
  | succ m inductionHypothesis =>
    rw [Nat.mul_succ, List.range_succ, List.range_succ, List.range_succ]
    simp only [List.map_append, List.map_cons, List.map_nil, List.append_assoc,
      List.singleton_append]
    refine List.perm_middle.trans ?_
    rw [← List.append_assoc]
    refine ((inductionHypothesis.append_right _).cons _).trans ?_
    have last := (List.perm_append_singleton ((kept + 2 * m + 1 : Nat) : Int)
      ((List.range (2 * m)).map (fun j => ((kept + j : Nat) : Int)) ++ [((kept + 2 * m : Nat) : Int)])).symm
    rwa [List.append_assoc, List.singleton_append] at last

theorem pick_single (x : α) (front rest : List α) :
    pick [((front.length : Nat) : Int)] (front ++ x :: rest) = [x] := by
  have block := View.pick_block (front ++ x :: rest) front.length 1
  rw [List.drop_left] at block
  exact block

/-! ## One axis moved -/

def relocate (xs : List α) (source target : Nat) : List α :=
  match xs[source]? with
  | some x => (xs.eraseIdx source).insertIdx target x
  | none => xs

theorem relocate_eq {xs : List α} {source : Nat} (bound : source < xs.length) (target : Nat) :
    relocate xs source target = (xs.eraseIdx source).insertIdx target xs[source] := by
  rw [relocate, List.getElem?_eq_getElem bound]

theorem relocate_map (f : α → β) (xs : List α) (source target : Nat) :
    relocate (xs.map f) source target = (relocate xs source target).map f := by
  unfold relocate
  rw [List.getElem?_map]
  cases xs[source]? with
  | none => rfl
  | some x =>
    rw [List.map_insertIdx, ← List.eraseIdx_map]
    rfl

section Moved

variable {xs : List α} {source target : Nat}

theorem relocate_perm (sourceBound : source < xs.length) (targetBound : target < xs.length) :
    (relocate xs source target).Perm xs := by
  have room : target ≤ (xs.eraseIdx source).length := by
    rw [List.length_eraseIdx_of_lt sourceBound]
    omega
  rw [relocate_eq sourceBound]
  exact (List.perm_insertIdx _ _ room).trans (List.getElem_cons_eraseIdx_perm sourceBound)

theorem relocate_relocate (sourceBound : source < xs.length) (targetBound : target < xs.length) :
    relocate (relocate xs source target) target source = xs := by
  have bound : target < (relocate xs source target).length := by
    rwa [(relocate_perm sourceBound targetBound).length_eq]
  rw [relocate_eq bound]
  simp only [relocate_eq sourceBound, List.eraseIdx_insertIdx_self, List.getElem_insertIdx_self,
    List.insertIdx_eraseIdx_getElem]

theorem moveOrder_eq {n : Nat} (bound : source < n) :
    moveOrder n source target = relocate (axisNumbers n) source target := by
  have distinct : (axisNumbers n).Nodup :=
    List.nodup_range.map fun _ _ same => Int.ofNat.inj same
  have numberBound : source < (axisNumbers n).length := by simpa [axisNumbers] using bound
  have number : (axisNumbers n)[source] = (source : Int) := by simp [axisNumbers]
  rw [relocate_eq numberBound, ← distinct.erase_getElem source numberBound, number,
    distinct.erase_eq_filter]
  unfold moveOrder
  congr 2
  funext a
  rw [bne, Bool.beq_eq_decide_eq, ← decide_not]

theorem perm_moveOrder {n : Nat} (sourceBound : source < n) (targetBound : target < n) :
    (moveOrder n source target).Perm (axisNumbers n) := by
  have count : (axisNumbers n).length = n := by simp [axisNumbers]
  rw [moveOrder_eq sourceBound]
  exact relocate_perm (by rwa [count]) (by rwa [count])

theorem map_some_pick {order : List Int} (axes : ∀ a ∈ order, a ∈ axisNumbers xs.length) :
    (pick order xs).map some = order.map (Shape.entry? xs) := by
  induction order with
  | nil => rfl
  | cons a order inductionHypothesis =>
    obtain ⟨x, known⟩ :=
      Option.isSome_iff_exists.1 (View.entry?_isSome (axes a (List.mem_cons_self ..)))
    have rest := inductionHypothesis fun b member => axes b (List.mem_cons_of_mem _ member)
    rw [List.map_cons, known, ← rest, pick, List.filterMap_cons_some known]
    rfl

/-- What such an order picks is the list with an entry moved. -/
theorem pick_moveOrder (sourceBound : source < xs.length) (targetBound : target < xs.length) :
    pick (moveOrder xs.length source target) xs = relocate xs source target := by
  have axes := fun a => (perm_moveOrder sourceBound targetBound).mem_iff (a := a).1
  have whole := map_some_pick fun a (member : a ∈ axisNumbers xs.length) => member
  rw [View.pick_axisNumbers] at whole
  apply List.map_injective_iff.2 (Option.some_injective α)
  rw [map_some_pick axes, moveOrder_eq sourceBound, ← relocate_map, ← relocate_map, whole]

end Moved

theorem relocate_channels (b c : α) (positions window : List α) :
    relocate (b :: c :: positions ++ window) 1 (positions.length + 1)
      = b :: positions ++ c :: window := by
  have insert : ∀ front : List α, (front ++ window).insertIdx front.length c = front ++ c :: window := by
    intro front
    induction front with
    | nil => rfl
    | cons y front inductionHypothesis => simp [inductionHypothesis]
  exact insert (b :: positions)

/-! ## Two axes exchanged -/

/-- The order with the first two axes exchanged. -/
theorem pick_swapOrder (a b : α) (rest : List α) :
    pick (1 :: 0 :: (axisNumbers (2 + rest.length)).drop 2) (a :: b :: rest) = b :: a :: rest := by
  have first : pick [1] (a :: b :: rest) = [b] := pick_single b [a] _
  have second : pick [0] (a :: b :: rest) = [a] := pick_single a [] _
  have others : pick ((List.range rest.length).map fun j => ((2 + j : Nat) : Int)) (a :: b :: rest)
      = rest := by
    rw [View.pick_block]
    exact List.take_length
  rw [axisNumbers_add]
  show pick ([1] ++ ([0] ++ (List.range rest.length).map fun j => ((2 + j : Nat) : Int))) _ = _
  rw [View.pick_append, View.pick_append, first, second, others]
  rfl

theorem perm_swapOrder (n : Nat) :
    (1 :: 0 :: (axisNumbers (2 + n)).drop 2).Perm (axisNumbers (2 + n)) := by
  rw [axisNumbers_add]
  exact List.Perm.swap ..

end Orders

end Layout

end StridedArray
