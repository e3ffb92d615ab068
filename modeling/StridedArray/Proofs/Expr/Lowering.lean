import StridedArray.Proofs.Layout.Symbolic

/-! # Lowered expressions

Lowering replaces every read through a layout by a guarded read at an offset. What an expression
evaluates to stays the same.

* `Expr.guarded`, `Expr.guardedLoad_eq` — the form of one guarded read, and the values of its parts;
* `Expr.ReadsInside` — every offset that an evaluation reads at is one of its buffer;
* `Expr.Lowers` — what a lowered expression has in common with the original one, for every kind of node;
  `Expr.lower_lowers` — for whole expressions, by induction;
* `Expr.lower_evaluate` — lowering succeeds, leaves no reads through layouts and keeps values. -/

namespace StridedArray

open Shape (unravel)

namespace Expr

/-! ## One guarded read -/

def guarded (slot : Int) (kind : Element) (valid place : Expr) : Expr :=
  chosen valid (load slot kind place) (const kind kind.zero)

section GuardedLoad

variable {i : Expr} {l : Layout} {slot : Int} {kind : Element}

/-- The form of a read that was lowered. For every position its condition says whether that is padding,
    and its place is the offset of the position, zero for padding. -/
theorem guardedLoad_eq (addressable : l.Addressable) (foldable : i.Foldable) (whole : i.kind = .int32)
    (slot : Int) (kind : Element) :
    ∃ offset valid place, guardedLoad slot kind l i = .ok (guarded slot kind valid place)
      ∧ l.addressExpr i = .ok (offset, valid) ∧ Arithmetic i valid ∧ Arithmetic i place
      ∧ valid.kind = .bool ∧ place.kind = .int32
      ∧ ∀ p, 0 ≤ p → p < l.size →
        Decides i p valid (l.offsetOf? (unravel p l.shape)).isSome
          ∧ Computes i p place (((l.offsetOf? (unravel p l.shape)).map wrap32).getD 0) := by
  have parts : ∀ p, 0 ≤ p → p < l.size → ∃ offset valid place, l.addressExpr i = .ok (offset, valid)
      ∧ choose valid offset (int32 0) = .ok place
      ∧ Decides i p valid (l.offsetOf? (unravel p l.shape)).isSome
      ∧ Computes i p place (((l.offsetOf? (unravel p l.shape)).map wrap32).getD 0) := by
    intro p low high
    obtain ⟨offset, valid, y, built, computes, decides, value⟩ :=
      Layout.addressExpr_computes addressable foldable whole low high
    obtain ⟨place, choice, placed⟩ := choose_computes decides computes (computes_int32 0)
    refine ⟨offset, valid, place, built, choice, decides, placed.congr ?_⟩
    cases address : l.offsetOf? (unravel p l.shape) with
    | none => rfl
    | some a => exact value a address
  obtain ⟨offset, valid, place, built, choice, decides, computes⟩ :=
    parts 0 (Int.le_refl 0) addressable.positive.product_pos
  refine ⟨offset, valid, place, ?_, built, decides.shape, computes.shape, decides.kind, computes.kind, ?_⟩
  · rw [guardedLoad, built, ok_bind]
    dsimp only
    rw [choice, ok_bind, loadAt, if_neg (not_not.2 computes.kind)]
    exact choose_eq decides.kind rfl
  · intro p low high
    -- The expressions are built from the layout alone, so they are the same for every position.
    obtain ⟨offset', valid', place', built', choice', decides', computes'⟩ := parts p low high
    rw [built] at built'
    cases built'
    rw [choice] at choice'
    cases choice'
    exact ⟨decides', computes'⟩

end GuardedLoad

/-! ## Reads inside of buffers -/

/-- Every offset that an evaluation reads at through a layout is one of its buffer. Only what is
    evaluated counts: one branch of a choice, all positions of a reduction. -/
def ReadsInside (env : Environment) (buffers : Buffers) : Expr → Option Int → Prop
  | const .., _ => True
  | special .., _ => True
  | accessor slot _ layout index, position =>
    ReadsInside env buffers index position ∧ ∀ x p offset,
      index.valueAt env buffers position = .ok x → x.whole? = some p →
      layout.addressFlat p = .ok (some offset) →
        ∃ elements, buffers slot = some elements ∧ 0 ≤ offset ∧ offset < elements.size
  | load _ _ index, position => ReadsInside env buffers index position
  | unary _ _ a, position => ReadsInside env buffers a position
  | binary _ _ a b, position => ReadsInside env buffers a position ∧ ReadsInside env buffers b position
  | select _ condition a b, position =>
    ReadsInside env buffers condition position ∧ ∀ x, condition.valueAt env buffers position = .ok x →
      if x.truthy then ReadsInside env buffers a position else ReadsInside env buffers b position
  | reduce _ _ body extent, _ => ∀ r : Nat, r < extent.toNat → ReadsInside env buffers body (some r)

def SmallBuffers (buffers : Buffers) : Prop :=
  ∀ slot elements, buffers slot = some elements → elements.size < 0x80000000

abbrev Addressed (e : Expr) : Prop :=
  Every (fun node => ∀ slot kind layout index, node = .accessor slot kind layout index →
    layout.Addressable) e

/-! ## Lowering -/

theorem elementAt_whole {buffers : Buffers} {slot : Int} {x : Scalar} {n : Int} (whole : x.whole? = some n) :
    elementAt buffers slot x = elementAt buffers slot (.int n) := by
  unfold elementAt
  rw [whole]
  rfl

/-- A read through a layout that succeeds, in terms of its position and of the address of that. -/
theorem readAt_eq_ok {buffers : Buffers} {slot : Int} {kind : Element} {l : Layout} {x v : Scalar}
    (known : readAt buffers slot kind l x = .ok v) :
    ∃ p address, x.whole? = some p ∧ 0 ≤ p ∧ p < l.size ∧ l.addressFlat p = .ok address
      ∧ (match address with
        | none => .ok kind.zero
        | some offset => elementAt buffers slot (.int offset) >>= kind.coerce) = Except.ok v := by
  unfold readAt at known
  cases inside : x.within l.size with
  | false =>
    rw [inside] at known
    cases known
  | true =>
    rw [inside] at known
    cases whole : x.whole? with
    | none =>
      rw [whole] at known
      cases known
    | some p =>
      rw [Scalar.within_whole whole, Bool.and_eq_true, decide_eq_true_eq, decide_eq_true_eq] at inside
      rw [whole] at known
      obtain ⟨address, found, rest⟩ := bind_eq_ok.1 known
      refine ⟨p, address, rfl, inside.1, inside.2, found, ?_⟩
      cases address <;> exact rest

/-- What a lowered expression has in common with the original one. -/
structure Lowers (e low : Expr) : Prop where
  kind : low.kind = e.kind
  typed : Typed low
  flat : Flat low
  scope : ∀ inside, Scoped inside e → Scoped inside low
  value : ∀ {env : Environment} {buffers : Buffers} {position : Option Int} {v : Scalar},
    SmallBuffers buffers → ReadsInside env buffers e position →
    e.valueAt env buffers position = .ok v → low.valueAt env buffers position = .ok v

theorem guardedLoad_lowers (slot : Int) (kind : Element) {l : Layout} {index i : Expr}
    (addressable : l.Addressable) (whole : index.kind = .int32) (lowers : Lowers index i) :
    ∃ low, guardedLoad slot kind l i = .ok low ∧ Lowers (accessor slot kind l index) low := by
  have kindIndex : i.kind = .int32 := lowers.kind.trans whole
  obtain ⟨-, valid, place, built, -, validShape, placeShape, validKind, placeKind, values⟩ :=
    guardedLoad_eq addressable lowers.typed.self.foldable kindIndex slot kind
  refine ⟨_, built, kind_chosen rfl, ?_, ?_, ?_, ?_⟩
  · exact every_chosen (validShape.typed lowers.typed)
      (every_load.2 ⟨placeShape.typed lowers.typed, placeKind⟩) (every_const.2 (Element.holds_zero kind))
      ⟨validKind, rfl, rfl⟩
  · exact every_chosen (validShape.flat lowers.flat) (every_load.2 ⟨placeShape.flat lowers.flat, nofun⟩)
      (every_const.2 nofun) nofun
  · intro inside scope
    have below : Scoped inside i := lowers.scope inside scope
    exact scoped_chosen (validShape.scope below) (scoped_load.2 (placeShape.scope below)) scoped_const
  · intro env buffers position v small inside known
    rw [valueAt, bind_eq_ok] at known
    obtain ⟨x, position', read⟩ := known
    obtain ⟨p, address, wholePosition, low, high, found, result⟩ := readAt_eq_ok read
    have start := lowers.value small inside.1 position'
    obtain ⟨decides, computes⟩ := values p low high
    have same := addressable.addressFlat_eq low high
    rw [found] at same
    cases same
    rw [guarded, valueAt_chosen (decides.value start wholePosition)]
    cases address : l.offsetOf? (unravel p l.shape) with
    | none =>
      rw [address] at result
      exact result
    | some offset =>
      rw [address] at result found computes
      obtain ⟨elements, buffer, least, most⟩ := inside.2 x p offset position' wholePosition found
      obtain ⟨y, placed, wholePlace⟩ := computes.value start wholePosition
      -- The offset is one of a small buffer, so 32 bits hold it.
      have few := small slot elements buffer
      have offset' : wrap32 offset = offset := wrap32_of_range (by omega) (by omega)
      rw [Option.map_some, Option.getD_some, offset'] at wholePlace
      rw [Option.isSome_some, if_pos rfl, valueAt, placed, ok_bind, loadFrom, buffer]
      dsimp only
      rw [Scalar.within_whole wholePlace, decide_eq_true least, decide_eq_true most, elementAt_whole wholePlace]
      exact result

/-! Every other node stays as it is over operands that are lowered. -/

theorem Lowers.load {index i : Expr} {slot : Int} {kind : Element} (lowers : Lowers index i)
    (kinded : Kinded (load slot kind index)) : Lowers (load slot kind index) (load slot kind i) where
  kind := rfl
  typed := every_load.2 ⟨lowers.typed, lowers.kind.trans kinded⟩
  flat := every_load.2 ⟨lowers.flat, nofun⟩
  scope := lowers.scope
  value small inside known := by
    rw [valueAt, bind_eq_ok] at known
    obtain ⟨x, position, read⟩ := known
    rw [valueAt, lowers.value small inside position, ok_bind, read]

theorem Lowers.unary {a x : Expr} {op : UnaryOp} {kind : Element} (lowers : Lowers a x)
    (kinded : Kinded (unary op kind a)) : Lowers (unary op kind a) (unary op kind x) where
  kind := rfl
  typed := every_unary.2 ⟨lowers.typed, by rw [Kinded, lowers.kind]; exact kinded⟩
  flat := every_unary.2 ⟨lowers.flat, nofun⟩
  scope := lowers.scope
  value small inside known := by
    rw [valueAt, bind_eq_ok] at known
    obtain ⟨v, operand, result⟩ := known
    rw [valueAt, lowers.value small inside operand, ok_bind, result]

theorem Lowers.binary {a b x y : Expr} {op : BinaryOp} {kind : Element} (left : Lowers a x)
    (right : Lowers b y) (kinded : Kinded (binary op kind a b)) :
    Lowers (binary op kind a b) (binary op kind x y) where
  kind := rfl
  typed := every_binary.2 ⟨left.typed, right.typed, by
    rw [Kinded, left.kind, right.kind]
    exact kinded⟩
  flat := every_binary.2 ⟨left.flat, right.flat, nofun⟩
  scope inside scope := by
    obtain ⟨scopeLeft, scopeRight⟩ := scoped_binary.1 scope
    exact scoped_binary.2 ⟨left.scope inside scopeLeft, right.scope inside scopeRight⟩
  value small inside known := by
    simp only [valueAt, bind_eq_ok] at known
    obtain ⟨v, first, w, second, result⟩ := known
    rw [valueAt, left.value small inside.1 first, ok_bind, right.value small inside.2 second, ok_bind,
      left.kind, result]

theorem Lowers.select {c a b z x y : Expr} {kind : Element} (condition : Lowers c z) (left : Lowers a x)
    (right : Lowers b y) (kinded : Kinded (select kind c a b)) :
    Lowers (select kind c a b) (select kind z x y) where
  kind := rfl
  typed := every_select.2 ⟨condition.typed, left.typed, right.typed, by
    rw [Kinded, condition.kind, left.kind, right.kind]
    exact kinded⟩
  flat := every_select.2 ⟨condition.flat, left.flat, right.flat, nofun⟩
  scope inside scope := by
    obtain ⟨scopeCondition, scopeLeft, scopeRight⟩ := scoped_select.1 scope
    exact scoped_select.2 ⟨condition.scope inside scopeCondition, left.scope inside scopeLeft,
      right.scope inside scopeRight⟩
  value small inside known := by
    rw [valueAt, bind_eq_ok] at known
    obtain ⟨v, first, taken⟩ := known
    have branch := inside.2 v first
    rw [valueAt, condition.value small inside.1 first, ok_bind]
    -- Nothing is known of the other branch, which may not even have a value.
    cases holds : v.truthy with
    | true =>
      rw [holds] at taken branch
      exact left.value small branch taken
    | false =>
      rw [holds] at taken branch
      exact right.value small branch taken

theorem Lowers.reduce {body x : Expr} {op : Reduction} {kind : Element} {extent : Int}
    (lowers : Lowers body x) (kinded : Kinded (reduce op kind body extent)) :
    Lowers (reduce op kind body extent) (reduce op kind x extent) where
  kind := rfl
  typed := every_reduce.2 ⟨lowers.typed, by rw [Kinded, lowers.kind]; exact kinded⟩
  flat := every_reduce.2 ⟨lowers.flat, nofun⟩
  scope inside scope := by
    obtain ⟨outside, scopeBody⟩ := scoped_reduce.1 scope
    exact scoped_reduce.2 ⟨outside, lowers.scope true scopeBody⟩
  value small inside known := by
    rw [valueAt, bind_eq_ok, foldBelow_eq] at known
    obtain ⟨acc, loop, result⟩ := known
    have same := foldlM_ok_congr (g := fun acc (r : Nat) => do
        op.step kind acc (← x.valueAt _ _ (some (r : Nat)))) (fun acc r next member step => by
      obtain ⟨v, value, more⟩ := bind_eq_ok.1 step
      rw [lowers.value small (inside r (List.mem_range.1 member)) value, ok_bind, more]) loop
    rw [valueAt, foldBelow_eq, same, ok_bind, result]

/-- Lowering succeeds and keeps what matters. -/
theorem lower_lowers {e : Expr} (typed : Typed e) (addressed : Addressed e) :
    ∃ low, e.lower = .ok low ∧ Lowers e low := by
  induction e with
  | const kind value d =>
    exact ⟨_, rfl, rfl, typed, every_const.2 nofun, fun _ scope => scope, fun _ _ known => known⟩
  | special name extent d =>
    exact ⟨_, rfl, rfl, typed, every_special.2 nofun, fun _ scope => scope, fun _ _ known => known⟩
  | accessor slot kind layout index ih =>
    obtain ⟨typedIndex, whole⟩ := every_accessor.1 typed
    obtain ⟨addressedIndex, here⟩ := every_accessor.1 addressed
    obtain ⟨i, built, lowers⟩ := ih typedIndex addressedIndex
    obtain ⟨low, guard, result⟩ := guardedLoad_lowers slot kind (here _ _ _ _ rfl) whole lowers
    exact ⟨low, bind_eq_ok.2 ⟨i, built, guard⟩, result⟩
  | load slot kind index ih =>
    obtain ⟨typedIndex, kinded⟩ := every_load.1 typed
    obtain ⟨i, built, lowers⟩ := ih typedIndex (every_load.1 addressed).1
    exact ⟨_, bind_eq_ok.2 ⟨i, built, rfl⟩, lowers.load kinded⟩
  | unary op kind a ih =>
    obtain ⟨typedOperand, kinded⟩ := every_unary.1 typed
    obtain ⟨x, built, lowers⟩ := ih typedOperand (every_unary.1 addressed).1
    exact ⟨_, bind_eq_ok.2 ⟨x, built, rfl⟩, lowers.unary kinded⟩
  | binary op kind a b iha ihb =>
    obtain ⟨typedLeft, typedRight, kinded⟩ := every_binary.1 typed
    obtain ⟨addressedLeft, addressedRight, -⟩ := every_binary.1 addressed
    obtain ⟨x, builtLeft, left⟩ := iha typedLeft addressedLeft
    obtain ⟨y, builtRight, right⟩ := ihb typedRight addressedRight
    exact ⟨_, bind_eq_ok.2 ⟨x, builtLeft, bind_eq_ok.2 ⟨y, builtRight, rfl⟩⟩, left.binary right kinded⟩
  | select kind c a b ihc iha ihb =>
    obtain ⟨typedCondition, typedLeft, typedRight, kinded⟩ := every_select.1 typed
    obtain ⟨addressedCondition, addressedLeft, addressedRight, -⟩ := every_select.1 addressed
    obtain ⟨z, builtCondition, condition⟩ := ihc typedCondition addressedCondition
    obtain ⟨x, builtLeft, left⟩ := iha typedLeft addressedLeft
    obtain ⟨y, builtRight, right⟩ := ihb typedRight addressedRight
    exact ⟨_, bind_eq_ok.2 ⟨z, builtCondition, bind_eq_ok.2 ⟨x, builtLeft,
      bind_eq_ok.2 ⟨y, builtRight, rfl⟩⟩⟩, condition.select left right kinded⟩
  | reduce op kind body extent ih =>
    obtain ⟨typedBody, kinded⟩ := every_reduce.1 typed
    obtain ⟨x, built, lowers⟩ := ih typedBody (every_reduce.1 addressed).1
    exact ⟨_, bind_eq_ok.2 ⟨x, built, rfl⟩, lowers.reduce kinded⟩

/-- Lowering leaves no reads through layouts, and keeps the value of every expression whose evaluation
    succeeds and reads inside of its buffers. -/
theorem lower_evaluate {e : Expr} (typed : Typed e) (scope : Scoped false e) (addressed : Addressed e) :
    ∃ low, e.lower = .ok low ∧ Flat low ∧ ∀ env buffers v, SmallBuffers buffers →
      ReadsInside env buffers e (env reductionIndex) → e.evaluate env buffers = .ok v →
        low.evaluate env buffers = .ok v := by
  obtain ⟨low, built, lowers⟩ := lower_lowers typed addressed
  refine ⟨low, built, lowers.flat, fun env buffers v small inside known => ?_⟩
  rw [evaluate_eq_valueAt scope] at known
  rw [evaluate_eq_valueAt (lowers.scope false scope), lowers.value small inside known]

def paddedSum : Expr :=
  .reduce .add .int32 (.accessor 0 .int32 Layout.paddedRows (reductionPosition 6)) 6

def fourElements : Buffers := fun slot =>
  if slot = 0 then some #[.int 1, .int 2, .int 3, .int 4] else none

theorem lower_evaluate_paddedSum :
    (Typed paddedSum ∧ Scoped false paddedSum ∧ Addressed paddedSum ∧ SmallBuffers fourElements
      ∧ ReadsInside (fun _ => none) fourElements paddedSum none
      ∧ paddedSum.evaluate (fun _ => none) fourElements = .ok (.int 10))
    ∧ ∃ low, paddedSum.lower = .ok low ∧ Flat low ∧ low.evaluate (fun _ => none) fourElements = .ok (.int 10) := by
  have typed : Typed paddedSum :=
    every_reduce.2 ⟨every_accessor.2 ⟨every_special.2 trivial, rfl⟩, rfl, nofun⟩
  have addressed : Addressed paddedSum := by
    refine every_reduce.2 ⟨every_accessor.2 ⟨every_special.2 nofun, ?_⟩, nofun⟩
    rintro slot kind layout index ⟨⟩
    exact Layout.addressable_paddedRows
  have small : SmallBuffers fourElements := by
    intro slot elements known
    unfold fourElements at known
    split at known
    · cases known
      decide
    · cases known
  have inside : ReadsInside (fun _ => none) fourElements paddedSum none := by
    refine fun r _ => ⟨trivial, fun x p offset _ _ address => ⟨_, rfl, ?_⟩⟩
    obtain ⟨index, positions, reached⟩ := Layout.addressable_paddedRows.addressFlat_base address
    exact Layout.bounds_paddedRows positions reached
  have scope : Scoped false paddedSum := by decide
  have value : paddedSum.evaluate (fun _ => none) fourElements = .ok (.int 10) := rfl
  obtain ⟨low, built, flat, same⟩ := lower_evaluate typed scope addressed
  exact ⟨⟨typed, scope, addressed, small, inside, value⟩,
    low, built, flat, same (fun _ => none) fourElements _ small inside value⟩

end Expr

end StridedArray
