import StridedArray.Proofs.Lanes.Reads
import StridedArray.Proofs.Layout.Landing
import StridedArray.Proofs.Layout.ZeroExtents

/-! # Reads through layouts with empty views

A view without positions below others can be padded to one with positions, all of which are padding. Evaluated one by
one they are zero. For all positions at once the read is lowered first, and that stops if a constant comes to a zero
divisor; otherwise the guard is a constant, and nothing but zero is left of the read.

* `Layout.Lands.guardedLoad_eq` — the guarded read where a view hides everything; `Layout.Lands.guardedLoad_padding` —
  its value for padding, whether there are empty views or not;
* `Layout.readAt_padding`, `Layout.Lands.readAt_ok` — single positions; `Layout.Lands.readLanes_stops` — all of them
  at once. -/

namespace StridedArray

open Shape (Positive product unravel)
open StridedArray.Expr (Formed Plain Scoped Typed const guardedLoad int32 load readAt readLanes select)

namespace Layout

open StridedArray.Lanes (Place)

variable {l : Layout} {count : Int} {slot : Int} {kind : Element} {i low : Expr} {env : Environment} {buffers : Buffers}
  {position : Option Int} {p : Int} {elements : Array Scalar}

/-! ## Guarded reads -/

/-- Where a view hides everything, a guarded read is zero and reads nothing. -/
theorem Lands.guardedLoad_eq (lands : l.Lands count) {v : View} (member : v ∈ l.top :: l.below)
    (positive : Positive v.shape) (empty : ∃ r ∈ v.ranges, r.2 ≤ r.1) (typed : Typed i) (whole : i.kind = .int32)
    (built : guardedLoad slot kind l i = .ok low) : low = const kind kind.zero := by
  have plain : Plain fun _ => True := fun _ _ _ _ => trivial
  have formed : Formed (fun _ => True) .int32 i := ⟨whole, typed, fun _ _ => trivial⟩
  rcases Expr.guardedLoad_stops plain formed slot kind l (fun _ => trivial) trivial (fun _ _ _ => trivial) with
    ⟨-, failed⟩ | ⟨-, e, made, -, offset, valid, address, rfl⟩
  · rw [built] at failed
    cases failed
  · rw [built] at made
    cases made
    obtain rfl := descendExpr_empty member positive (lands.sound v member).ranges.length_eq empty address
    rfl

theorem Lands.guardedLoad_padding (lands : l.Lands count) (several : 0 < l.size)
    (small : ∀ v ∈ l.top :: l.below, product v.shape < 0x80000000) (typed : Typed i) (whole : i.kind = .int32)
    (scope : Scoped false i) (built : guardedLoad slot kind l i = .ok low)
    (known : i.evaluate env buffers = .ok (.int p)) (padding : l.addressFlat p = .ok none) :
    low.evaluate env buffers = .ok kind.zero := by
  rcases lands.addressable_or_hidden several small with addressable | ⟨v, member, positive, empty⟩
  · obtain ⟨offset, valid, place, form, -, validShape, placeShape, -, -, values⟩ :=
      Expr.guardedLoad_eq addressable typed.self.foldable whole slot kind
    cases built.symm.trans form
    have inside := inside_of_addressFlat padding
    rw [addressable.addressFlat_eq inside.1 inside.2, Except.ok.injEq] at padding
    rw [Expr.evaluate_eq_valueAt scope none] at known
    have hidden := (values p inside.1 inside.2).1.value known rfl
    rw [padding] at hidden
    have scopeGuarded : Scoped false (Expr.guarded slot kind valid place) :=
      Expr.scoped_chosen (validShape.scope scope) (Expr.scoped_load.2 (placeShape.scope scope)) Expr.scoped_const
    rw [Expr.evaluate_eq_valueAt scopeGuarded none, Expr.guarded, Expr.valueAt_chosen hidden]
    rfl
  · obtain rfl := lands.guardedLoad_eq member positive empty typed whole built
    rfl

/-! ## Positions -/

/-- A position that is padding is read as zero, without a buffer. -/
theorem readAt_padding (padding : l.addressFlat p = .ok none) :
    readAt buffers slot kind l (.int p) = .ok kind.zero := by
  obtain ⟨least, most⟩ := inside_of_addressFlat padding
  rw [readAt, Scalar.within_whole rfl, decide_eq_true least, decide_eq_true most]
  show (l.addressFlat p >>= fun address => _) = _
  rw [padding]
  rfl

/-- A single position is read: padding is zero, and everything else is an element of the buffer. -/
theorem Lands.readAt_ok (lands : l.Lands count) (buffer : buffers slot = some elements) (enough : count ≤ elements.size)
    (holds : ∀ x ∈ elements, kind.Holds x) (least : 0 ≤ p) (most : p < l.size) :
    ∃ x, readAt buffers slot kind l (.int p) = .ok x ∧ kind.Holds x := by
  have address := lands.sound.addressFlat_eq least most
  cases found : l.offsetOf? (unravel p l.shape) with
  | none =>
    rw [found] at address
    exact ⟨_, readAt_padding address, Element.holds_zero kind⟩
  | some a =>
    rw [found] at address
    obtain ⟨low, high⟩ := lands.address_bounds address
    obtain ⟨x, read⟩ := (Expr.holds_elementOrZero holds (.int a)).coerce_ok
    refine ⟨x, ?_, Element.holds_coerce read⟩
    rw [readAt, Scalar.within_whole rfl, decide_eq_true least, decide_eq_true most]
    show (l.addressFlat p >>= fun address => _) = _
    rw [address, ok_bind]
    show (elementAt buffers slot (.int a) >>= kind.coerce) = _
    rw [Expr.elementAt_inside buffer low (by omega) kind, ok_bind, read]

variable [Room]

/-- All positions are read at once unless a constant is divided by zero. -/
theorem Lands.readLanes_stops (lands : l.Lands count) (several : 0 < l.size)
    (small : ∀ v ∈ l.top :: l.below, product v.shape < 0x80000000) (buffer : buffers slot = some elements)
    (enough : count ≤ elements.size) (few : elements.size < 0x80000000) (holds : ∀ x ∈ elements, kind.Holds x)
    {R C : Nat} {index : Lanes} {v : Nat → Nat → Except Failure Scalar} (tracks : index.Tracks R C .int32 v)
    (inside : ∀ i j p, Place R C i j → v i j = .ok (.int p) → 0 ≤ p ∧ p < l.size) :
    Stops l.Stuck (fun out => ∃ w, out.Tracks R C kind w)
      (readLanes buffers slot kind l index) := by
  have plain : Plain fun _ => True := fun _ _ _ _ => trivial
  have formed : Formed (fun _ => True) .int32 (.special Expr.positionIndex l.size) :=
    ⟨rfl, Expr.every_special.2 trivial, fun _ _ => trivial⟩
  have position : Expr.lower (.special Expr.positionIndex l.size) = .ok (.special Expr.positionIndex l.size) := rfl
  have lowered := Expr.lower_accessor_stops plain position formed slot kind l (fun _ => trivial) trivial
    (fun _ _ _ => trivial)
  have read : readLanes buffers slot kind l index
      = Expr.loweredRead slot kind l >>= fun low =>
        low.lanesWith Expr.noLayoutRead buffers (Expr.atPositions index) := by
    rw [readLanes, Expr.checkPositions_ok (Int.le_of_lt several) tracks inside, ok_bind]
  rcases lowered with ⟨stuck, failed⟩ | ⟨free, low, built, -, guard⟩
  · refine .inl ⟨stuck, ?_⟩
    rw [read, Expr.loweredRead, failed]
    rfl
  · refine .of_ok free ?_
    rcases lands.addressable_or_hidden several small with addressable | ⟨view, member, positive, empty⟩
    · obtain ⟨out, known, follows⟩ := Expr.readLanes_tracks addressable (lands.sound _ l.base_mem).ranges.length_eq
        (lands.reachesInside enough) few buffer holds tracks inside
      exact ⟨out, known, _, follows⟩
    · obtain rfl := lands.guardedLoad_eq member positive empty (Expr.every_special.2 trivial) rfl guard
      refine ⟨_, ?_, _, Lanes.tracks_uniform (Element.holds_zero kind)⟩
      rw [read, Expr.loweredRead, built]
      rfl

end Layout

end StridedArray
