import StridedArray.Proofs.Executor.Atomicity
import StridedArray.Proofs.Executor.Agreement
import StridedArray.Proofs.Layout.OffsetRange

/-! # Reads stay inside of their buffers

A kernel is accepted if the offsets that its layouts announce are inside of the buffers. What a layout announces
covers what it shows, so a read finds padding or an element of its buffer, at whatever position it is made.

* `Host.buffer_of_plan` — what a read of an accepted kernel has been checked against;
* `Expr.Stays` — reads through a layout that touch nothing else; `Layout.Grounded.stays` — why they do not;
* `Host.offsetRange?_covers` — the range covers all addresses, and the host loads nothing outside. -/

namespace StridedArray

open Shape (Inside)
open StridedArray.Expr (readAt)

/-- Whatever integer a position is that has an address: it is padding and zero, or the read gets the element at the
    address, which is one of the buffer. -/
def Expr.Stays (buffers : Buffers) (elements : Array Scalar) (slot : Int) (kind : Element) (l : Layout) : Prop :=
  ∀ place p shown, place.whole? = some p → l.addressFlat p = .ok shown →
    (shown = none ∧ readAt buffers slot kind l place = .ok kind.zero)
    ∨ ∃ offset value, shown = some offset ∧ 0 ≤ offset ∧ offset < elements.size
      ∧ elements[offset.toNat]? = some value ∧ readAt buffers slot kind l place = kind.coerce value

theorem Layout.addressFlat_eq_ok {l : Layout} {p : Int} {shown : Option Int} (known : l.addressFlat p = .ok shown) :
    (0 ≤ p ∧ p < l.size) ∧ l.address (Shape.unravel p l.shape) = .ok shown := by
  unfold addressFlat at known
  exact demand_eq_ok.1 known

/-- Reads through a layout that reaches no further than its buffer. -/
theorem Layout.Grounded.stays {l : Layout} (grounded : l.Grounded) {buffers : Buffers} {elements : Array Scalar}
    {slot : Int} (known : buffers slot = some elements) (reaches : l.ReachesInside elements.size) (kind : Element) :
    Expr.Stays buffers elements slot kind l := by
  intro place p shown whole address
  obtain ⟨⟨low, high⟩, found⟩ := Layout.addressFlat_eq_ok address
  have inside : place.within l.size = true := by
    rw [Scalar.within_whole whole, decide_eq_true low, decide_eq_true high]
    rfl
  have read : readAt buffers slot kind l place = (match shown with
      | none => .ok kind.zero
      | some offset => elementAt buffers slot (.int offset) >>= kind.coerce) := by
    unfold readAt
    rw [inside, whole]
    simp only [Bool.not_true, Bool.false_eq_true, if_false, address, ok_bind]
    cases shown <;> rfl
  cases shown with
  | none => exact .inl ⟨rfl, read⟩
  | some offset =>
    obtain ⟨least, most⟩ := grounded.address_bounds reaches (Layout.address_ok_iff.1 ⟨_, found⟩) found
    have bound : offset.toNat < elements.size := by omega
    have here := Expr.elementAt_inside known least most kind
    rw [Expr.elementOrZero, Scalar.whole?, Option.getD_some, Array.getElem?_eq_getElem bound, Option.getD_some] at here
    dsimp only at read
    rw [here] at read
    exact .inr ⟨offset, _, rfl, least, most, Array.getElem?_eq_getElem bound, read⟩

namespace Host

variable {x : Host} {exprs : List Expr} {inputs outputs : List HandleArgument} {kernel : Kernel}
  {ins outs : List (Handle × Slot Bytes)}

/-- The buffer that a read of an accepted kernel has been checked against. -/
theorem buffer_of_plan (sized : x.Sized)
    (planned : Executor.plan x.table exprs inputs outputs = .ok (kernel, ins, outs)) {e node : Expr}
    (member : e ∈ exprs) (inside : node ∈ e.postorder) (isRead : node.isRead = true) {slot : Int}
    (reads : readSlot? node = some slot) :
    ∃ bytes evaluated, kernel.buffers (ins.map fun b => b.2.content) slot = some (node.kind.decode bytes)
      ∧ checkRead node bytes.size evaluated = .ok () := by
  obtain ⟨-, resolved, -, accepted⟩ := Executor.plan_eq_ok.1 planned
  have sizes : (ins.map fun b => b.2.size) = (ins.map fun b => b.2.content).map Array.size := by
    rw [List.map_map]
    refine List.map_congr_left fun b member => ?_
    have known := Table.slot?_of_lookup (Executor.lookup_of_mapM_resolve resolved member).2
    exact (sized _ _ known).symm
  rw [sizes] at accepted
  obtain ⟨-, -, each, -⟩ := accepted_of_plan accepted
  exact (each e member).buffer inside isRead reads

/-- The range of offsets that a layout announces covers what it shows at every index, and a layout of a single view
    shows both ends. So no kernel that a host has accepted, whatever was asked of the host before, loads anything from
    outside of a buffer through such a layout. -/
theorem offsetRange?_covers [Room] {l : Layout} (grounded : l.Grounded) :
    (∀ index, Inside index l.shape → ∃ shown, l.address index = .ok shown
      ∧ (∀ low high, l.offsetRange? = some (low, high) → ∀ offset ∈ shown, low ≤ offset ∧ offset ≤ high)
      ∧ (l.offsetRange? = none → shown = none))
    ∧ (l.below = [] → ∀ low high, l.offsetRange? = some (low, high) →
      (∃ a, Inside a l.shape ∧ l.address a = .ok (some low))
        ∧ ∃ b, Inside b l.shape ∧ l.address b = .ok (some high))
    ∧ ∀ owner turns, ∃ x : Host, ((Executor.host (.fresh owner)).replay turns).2 = .host x
      ∧ ∀ exprs inputs outputs kernel ins outs,
        Executor.plan x.table exprs inputs outputs = .ok (kernel, ins, outs) →
          ∀ e ∈ exprs, ∀ slot kind index, Expr.accessor slot kind l index ∈ e.postorder →
            ∃ elements, kernel.buffers (ins.map fun b => b.2.content) slot = some elements
              ∧ (∀ index, Inside index l.shape → ∀ offset, l.address index = .ok (some offset) →
                0 ≤ offset ∧ offset < elements.size)
              ∧ Expr.Stays (kernel.buffers (ins.map fun b => b.2.content)) elements slot kind l := by
  refine ⟨fun index inside =>
      ⟨_, Layout.address_eq inside, fun low high announced offset shown => ?_, fun silent => ?_⟩,
    fun alone low high announced => grounded.address_reached alone announced, fun owner turns => ?_⟩
  · have known : l.address index = .ok (some offset) := by rw [Layout.address_eq inside, shown]
    exact grounded.address_covered inside announced known
  · exact Except.ok.inj ((Layout.address_eq inside).symm.trans (grounded.address_hidden inside silent))
  · obtain ⟨x, reached, sized⟩ := (Sized.fresh owner).replay turns
    refine ⟨x, reached, fun exprs inputs outputs kernel ins outs planned e member slot kind index node => ?_⟩
    obtain ⟨bytes, evaluated, known, checked⟩ := buffer_of_plan sized planned member node rfl rfl
    have reaches := Layout.reachesInside_of_checkReach (Layout.checkReach_of_checkRead checked)
    rw [← Element.size_decode] at reaches
    exact ⟨_, known, fun index inside offset found => grounded.address_bounds reaches inside found,
      grounded.stays known reaches kind⟩

/-- Six positions over a buffer of four elements, from the last one to the first, with padding at both ends. -/
def turnedElements : Layout := ⟨View.create [6] [-1] 4 (some [(1, 5)]), []⟩

theorem grounded_turnedElements : turnedElements.Grounded where
  regular := ⟨by decide, .cons (by decide) .nil⟩
  positive := by decide

def turnedRead : Expr := .accessor 0 .int32 turnedElements (Expr.outputPosition 6)

theorem plan_turnedRead : Kernel.plan [turnedRead] [16] [24] = .ok ⟨[turnedRead], 6, [(0, .int32)]⟩ := by
  have checked : checkRead turnedRead 16 true = .ok () := by
    show checkReach 0 turnedElements (Expr.outputPosition 6) 4 true = _
    unfold checkReach
    rw [Expr.boundsShared_eq]
    rfl
  have read : planRead [16] true [] turnedRead = .ok [(0, .int32)] := by
    show (checkRead turnedRead 16 true >>= fun _ => pure [(0, Element.int32)]) = _
    rw [checked]
    rfl
  have planned : planExpr [16] (none, []) turnedRead = .ok (some 6, [(0, .int32)]) := by
    show ((planRead [16] true [] turnedRead >>= pure) >>= fun kinds => pure (some 6, kinds)) = _
    rw [read]
    rfl
  unfold Kernel.plan
  rw [List.foldlM_cons, planned]
  rfl

/-- The offsets of the turned elements are 0 to 3, both ends are shown, and an accepted kernel reads four elements
    through the layout. -/
theorem offsetRange?_covers_turnedElements :
    (turnedElements.Grounded ∧ turnedElements.below = [] ∧ turnedElements.offsetRange? = some (0, 3))
      ∧ (∃ a, Inside a turnedElements.shape ∧ turnedElements.address a = .ok (some 0))
      ∧ (∃ b, Inside b turnedElements.shape ∧ turnedElements.address b = .ok (some 3))
      ∧ ∃ x kernel ins outs, ((Executor.host (.fresh 0)).replay
          [.caller (.allocate 16 none), .caller (.allocate 24 none)]).2 = .host x
        ∧ Executor.plan x.table [turnedRead] [.handle ⟨0, 0⟩] [.handle ⟨0, 1⟩] = .ok (kernel, ins, outs)
        ∧ turnedRead ∈ turnedRead.postorder
        ∧ ∃ elements, kernel.buffers (ins.map fun b => b.2.content) 0 = some elements ∧ elements.size = 4
          ∧ Expr.Stays (kernel.buffers (ins.map fun b => b.2.content)) elements 0 .int32 turnedElements := by
  obtain ⟨-, reached, host⟩ := offsetRange?_covers grounded_turnedElements
  have announced : turnedElements.offsetRange? = some (0, 3) := rfl
  obtain ⟨first, last⟩ := reached rfl 0 3 announced
  obtain ⟨x, replayed, inside⟩ := host 0 [.caller (.allocate 16 none), .caller (.allocate 24 none)]
  let input : Handle × Slot Bytes := (⟨0, 0⟩, ⟨16, 1, Array.replicate 16 0⟩)
  let output : Handle × Slot Bytes := (⟨0, 1⟩, ⟨24, 1, Array.replicate 24 0⟩)
  have found : ∀ b ∈ [input, output], x.table.lookup b.1 = .ok b.2 := by
    cases replayed
    rintro b (_ | ⟨_, _ | ⟨_, ⟨⟩⟩⟩) <;> rfl
  have planned := @Executor.plan_ok _ x.table [turnedRead] _ [input] [output] rfl
    (fun b member => found b (List.mem_cons.2 (.inl (List.mem_singleton.1 member))))
    (fun b member => found b (List.mem_cons_of_mem _ member)) plan_turnedRead
  have member : turnedRead ∈ turnedRead.postorder := Expr.self_mem_postorder _
  obtain ⟨elements, known, -, stays⟩ := inside _ _ _ _ _ _ planned turnedRead (List.mem_singleton_self _) 0 .int32
    (Expr.outputPosition 6) member
  have four : elements.size = 4 := by
    have read : some (Element.int32.decode input.2.content) = some elements := known
    rw [← Option.some.inj read, Element.size_decode, show input.2.content.size = 16 from Array.size_replicate]
    rfl
  exact ⟨⟨grounded_turnedElements, rfl, announced⟩, first, last, x, _, _, _, replayed, planned, member, elements,
    known, four, stays⟩

end Host

end StridedArray
