import StridedArray.Proofs.Expr.ConstantFolding
import StridedArray.Proofs.Expr.Lowering

/-! # Zero extents in address arithmetic

The multi-index of a position is built by dividing it by extents and by the numbers of positions that they span, and
these vanish where an extent does. Such a division is built like any other as long as the position varies. Once the
offsets that a view reaches have become a constant it is carried out at once, and then no expression is built at all.

* `Shape.dividesByZero`, `Shape.fixedIndices` — the divisors of a shape, and the indices that do not depend on the
  position; `unravelExprFrom_stops` — the multi-index;
* `View.holdsStill` — a view with a single offset; `View.addressExpr_formed` — its address;
* `Layout.stalls`, `Layout.Stuck` — some view below such a one has a zero divisor; `Layout.addressExpr_stops` — the
  whole stack; `Layout.stalls_of_positive` — only empty views have one;
* `Expr.guardedLoad_stops`, `Expr.lower_accessor_stops` — reads through a layout. -/

namespace StridedArray

open StridedArray.Expr (Every Formed Plain int32 truth)
open Shape (Positive product)

namespace Shape

/-- Is some divisor in the arithmetic of a multi-index zero in 32 bits? An axis of extent 1 is not divided by, the
    leading one needs no remainder. -/
def dividesByZero : List Int → Bool → Bool
  | [], _ => false
  | s :: shape, leading =>
    dividesByZero shape false
      || decide (s ≠ 1 ∧ (product shape ≠ 1 ∧ wrap32 (product shape) = 0 ∨ leading = false ∧ wrap32 s = 0))

def fixedIndices : List Int → Bool → List Bool
  | [], _ => []
  | s :: shape, leading => (decide (s = 1) || !leading && decide (wrap32 s = 1)) :: fixedIndices shape false

end Shape

namespace View

/-- Do indices leave an offset where it is, given which of them are constants? -/
def still (fixed : List Bool) (strides : List Int) : Bool :=
  (fixed.zip strides).all fun (constant, stride) => constant || decide (wrap32 stride = 0)

def holdsStill (v : View) : Bool := still (Shape.fixedIndices v.shape true) v.strides

end View

namespace Layout

/-- Is a constant carried into a view with a zero divisor? The position itself may be one, or else the offset of a view
    further up. -/
def stalls : List View → Bool → Bool
  | [], _ => false
  | v :: views, fixed => fixed && Shape.dividesByZero v.shape true || stalls views (fixed || v.holdsStill)

/-- Does the address of a variable position need a constant divided by zero? -/
def Stuck (l : Layout) : Prop := stalls (l.top :: l.below) false = true

instance (l : Layout) : Decidable l.Stuck := inferInstanceAs (Decidable (_ = true))

end Layout

/-- Indices made of a position. Those of some axes are constants, and so are all of them if the position is one. -/
abbrev FormedIndices (P : Expr → Prop) (held : Bool) : List Expr → List Bool → Prop :=
  List.Forall₂ fun e fixed => Formed P .int32 e ∧ e.isFixed = (held || fixed)

variable {P : Expr → Prop} {flat offset valid : Expr} {index : List Expr} {fixed : List Bool} {held : Bool}

/-! ## Multi-indices -/

theorem digitExpr_stops (plain : Plain P) (formed : Formed P .int32 flat) (span s : Int) (leading : Bool) :
    Stops (flat.isFixed = true ∧ (span ≠ 1 ∧ wrap32 span = 0 ∨ leading = false ∧ wrap32 s = 0))
      (fun e => Formed P .int32 e ∧ e.isFixed = (flat.isFixed || (!leading && decide (wrap32 s = 1))))
      (digitExpr flat span s leading) := by
  have quotient : Stops (flat.isFixed = true ∧ span ≠ 1 ∧ wrap32 span = 0)
      (fun e => Formed P .int32 e ∧ e.isFixed = flat.isFixed)
      (if span = 1 then pure flat else flat.idivScalar (.int span)) := by
    by_cases one : span = 1
    · rw [if_pos one]
      exact .of_ok (fun stuck => stuck.2.1 one) ⟨flat, rfl, formed, rfl⟩
    · rw [if_neg one]
      exact (Expr.idivScalar_stops plain formed span).imp (by rw [and_iff_right one]) fun _ => id
  cases leading with
  | true =>
    refine (quotient.bind (t := False) fun q made => .of_ok id ⟨q, rfl, made⟩).imp ?_ fun e made => ?_
    · simp
    · simpa using made
  | false =>
    refine (quotient.bind (t := flat.isFixed = true ∧ wrap32 s = 0)
      (R := fun e => Formed P .int32 e ∧ e.isFixed = (flat.isFixed || decide (wrap32 s = 1))) ?_).imp ?_ ?_
    · intro q made
      rw [← made.2]
      exact Expr.modScalar_stops plain made.1 s
    · rw [← and_or_left, and_iff_right rfl]
    · exact fun e => id

/-- The indices of some axes are built unless a constant is divided by zero. -/
theorem unravelExprFrom_stops (plain : Plain P) (formed : Formed P .int32 flat) (shape : List Int) (leading : Bool) :
    Stops (flat.isFixed = true ∧ Shape.dividesByZero shape leading = true)
      (fun made => made.2 = product shape
        ∧ FormedIndices P flat.isFixed made.1 (Shape.fixedIndices shape leading))
      (unravelExprFrom flat shape leading) := by
  induction shape generalizing leading with
  | nil => exact .of_ok (fun stuck => Bool.false_ne_true stuck.2) ⟨_, rfl, rfl, .nil⟩
  | cons s shape inductionHypothesis =>
    rw [unravelExprFrom_cons]
    refine ((inductionHypothesis false).bind
      (t := flat.isFixed = true ∧ s ≠ 1
        ∧ (product shape ≠ 1 ∧ wrap32 (product shape) = 0 ∨ leading = false ∧ wrap32 s = 0)) ?_).imp ?_ fun _ => id
    · rintro ⟨index, span⟩ ⟨rfl, indices⟩
      by_cases one : s = 1
      · rw [if_pos one]
        refine .of_ok (fun stuck => stuck.2.1 one) ⟨_, rfl, ?_, .cons ⟨Expr.formed_int32 plain 0, ?_⟩ indices⟩
        · rw [Shape.product_cons, one, Int.one_mul]
        · rw [decide_eq_true one, Bool.true_or, Bool.or_true]
          rfl
      · rw [if_neg one]
        refine ((digitExpr_stops plain formed (product shape) s leading).bind (t := False) ?_).imp ?_ fun _ => id
        · rintro digit ⟨made, fixed⟩
          refine .of_ok id ⟨_, rfl, Int.mul_comm _ _, .cons ⟨made, ?_⟩ indices⟩
          rw [fixed, decide_eq_false one, Bool.false_or]
        · rw [or_false, and_iff_right one]
    · rw [← and_or_left, Shape.dividesByZero, Bool.or_eq_true, decide_eq_true_iff]

theorem unravelExpr_stops (plain : Plain P) (formed : Formed P .int32 flat) (shape : List Int) :
    Stops (flat.isFixed = true ∧ Shape.dividesByZero shape true = true)
      (fun index => FormedIndices P flat.isFixed index (Shape.fixedIndices shape true))
      (unravelExpr shape flat) := by
  refine ((unravelExprFrom_stops plain formed shape true).bind (t := False) ?_).imp (by rw [or_false]) fun _ => id
  exact fun made known => .of_ok id ⟨made.1, rfl, known.2⟩

/-! ## One view -/

namespace View

theorem offsetExpr_formed (plain : Plain P) (indices : FormedIndices P held index fixed)
    (start : Formed P .int32 offset) (strides : List Int) :
    ∃ e, offsetExpr offset index strides = .ok e ∧ Formed P .int32 e
      ∧ e.isFixed = (offset.isFixed && (held || still fixed strides)) := by
  induction indices generalizing offset strides with
  | nil => exact ⟨offset, rfl, start, by rw [still, List.zip_nil_left, List.all_nil, Bool.or_true, Bool.and_true]⟩
  | @cons a constant index fixed first _ inductionHypothesis =>
    obtain ⟨made, same⟩ := first
    cases strides with
    | nil => exact ⟨offset, rfl, start, by rw [still, List.zip_nil_right, List.all_nil, Bool.or_true, Bool.and_true]⟩
    | cons stride strides =>
      obtain ⟨moved, step, movedFormed, movedFixed⟩ : ∃ e,
          (if stride = 0 then pure offset else a.mulScalar (.int stride) >>= offset.add) = Except.ok e
            ∧ Formed P .int32 e
            ∧ e.isFixed = (offset.isFixed && (held || constant || decide (wrap32 stride = 0))) := by
        by_cases zero : stride = 0
        · refine ⟨offset, if_pos zero, start, ?_⟩
          rw [zero, decide_eq_true (by decide), Bool.or_true, Bool.and_true]
        · obtain ⟨scaled, multiple, scaledFormed, scaledFixed⟩ := Expr.mulScalar_formed plain made stride
          obtain ⟨e, sum, formed, sumFixed⟩ := Expr.add_formed plain start scaledFormed
          refine ⟨e, ?_, formed, by rw [sumFixed, scaledFixed, same]⟩
          rw [if_neg zero, multiple, ok_bind, sum]
      obtain ⟨e, rest, formed, restFixed⟩ := inductionHypothesis movedFormed strides
      refine ⟨e, by rw [offsetExpr_cons, step, ok_bind, rest], formed, ?_⟩
      rw [restFixed, movedFixed, Bool.and_assoc, still, still, List.zip_cons_cons, List.all_cons]
      cases held with
      | true => rfl
      | false => simp only [Bool.false_or]

theorem testedExpr_formed (plain : Plain P) (needed : Bool) {test : Except Failure Expr} (start : Formed P .bool valid)
    (tested : ∃ e, test = .ok e ∧ Formed P .bool e) :
    ∃ e, testedExpr needed valid test = .ok e ∧ Formed P .bool e := by
  cases needed with
  | false => exact ⟨valid, rfl, start⟩
  | true =>
    obtain ⟨e, built, formed⟩ := tested
    obtain ⟨both, joined, conjunction⟩ := Expr.both_formed plain start formed
    exact ⟨both, by rw [testedExpr, if_pos rfl, built, ok_bind, joined], conjunction⟩

theorem validExpr_formed (plain : Plain P) (indices : FormedIndices P held index fixed) (start : Formed P .bool valid)
    (shape : List Int) (mask : List (Int × Int)) :
    ∃ e, validExpr valid index shape mask = .ok e ∧ Formed P .bool e := by
  induction indices generalizing valid shape mask with
  | nil => exact ⟨valid, rfl, start⟩
  | @cons a constant index fixed first _ inductionHypothesis =>
    cases shape with
    | nil => exact ⟨valid, rfl, start⟩
    | cons s shape =>
      cases mask with
      | nil => exact ⟨valid, rfl, start⟩
      | cons range mask =>
        obtain ⟨low, high⟩ := range
        rw [validExpr_cons]
        by_cases empty : high ≤ low
        · exact ⟨_, if_pos empty, Expr.formed_truth plain false⟩
        · obtain ⟨above, lower, aboveFormed⟩ := testedExpr_formed plain (decide (0 < low)) start
            (Expr.compare_formed plain .cmpgt (.inr rfl) first.1 (Expr.formed_int32 plain (low - 1)))
          obtain ⟨both, upper, bothFormed⟩ := testedExpr_formed plain (decide (high < s)) aboveFormed
            (Expr.compare_formed plain .cmplt (.inl rfl) first.1 (Expr.formed_int32 plain high))
          obtain ⟨e, rest, formed⟩ := inductionHypothesis bothFormed shape mask
          refine ⟨e, ?_, formed⟩
          rw [if_neg empty, Expr.cmpgt, lower, ok_bind, Expr.cmplt, upper, ok_bind, rest]

/-- The address of one view is built from any indices, and its offset is a constant where no index moves it. -/
theorem addressExpr_formed (plain : Plain P) (v : View) (indices : FormedIndices P held index fixed) :
    ∃ offset valid, v.addressExpr index = .ok (offset, valid) ∧ Formed P .int32 offset ∧ Formed P .bool valid
      ∧ offset.isFixed = (held || still fixed v.strides) := by
  obtain ⟨offset, moved, formed, constant⟩ :=
    offsetExpr_formed plain indices (Expr.formed_int32 plain v.offset) v.strides
  unfold addressExpr
  rw [moved, ok_bind]
  cases v.mask with
  | none => exact ⟨offset, truth true, rfl, formed, Expr.formed_truth plain true, constant⟩
  | some mask =>
    obtain ⟨valid, tested, condition⟩ := validExpr_formed plain indices (Expr.formed_truth plain true) v.shape mask
    refine ⟨offset, valid, ?_, formed, condition, constant⟩
    dsimp only
    rw [tested]
    rfl

end View

/-! ## The whole stack -/

namespace Layout

/-- A position is carried down through views unless a constant comes to a zero divisor. -/
theorem descendExpr_stops (plain : Plain P) (formed : Formed P .int32 flat) (condition : Formed P .bool valid)
    (views : List View) :
    Stops (stalls views flat.isFixed = true) (fun made => Formed P .int32 made.1 ∧ Formed P .bool made.2)
      (descendExpr views (flat, valid)) := by
  induction views generalizing flat valid with
  | nil => exact .of_ok Bool.false_ne_true ⟨_, rfl, formed, condition⟩
  | cons v views inductionHypothesis =>
    refine ((unravelExpr_stops plain formed v.shape).bind
      (t := stalls views (flat.isFixed || v.holdsStill) = true) fun index indices => ?_).imp ?_ fun _ => id
    · obtain ⟨offset, here, address, moved, shown, constant⟩ := View.addressExpr_formed plain v indices
      obtain ⟨both, joined, conjunction⟩ := Expr.both_formed plain condition shown
      rw [address, ok_bind]
      dsimp only
      rw [joined, ok_bind, View.holdsStill, ← constant]
      exact inductionHypothesis moved conjunction
    · rw [stalls, Bool.or_eq_true, Bool.and_eq_true]

theorem addressExpr_stops (plain : Plain P) (formed : Formed P .int32 flat) (l : Layout) :
    Stops (stalls (l.top :: l.below) flat.isFixed = true) (fun made => Formed P .int32 made.1 ∧ Formed P .bool made.2)
      (l.addressExpr flat) :=
  descendExpr_stops plain formed (Expr.formed_truth plain true) _

theorem dividesByZero_of_positive {shape : List Int} (positive : Positive shape) (small : product shape < 0x80000000)
    (leading : Bool) : Shape.dividesByZero shape leading = false := by
  induction shape generalizing leading with
  | nil => rfl
  | cons s shape inductionHypothesis =>
    obtain ⟨someAxis, rest⟩ := Shape.positive_cons.1 positive
    have someSpan := rest.product_pos
    have longest : s ≤ product (s :: shape) := View.le_product positive (List.mem_cons_self ..)
    have fewer : product shape ≤ product (s :: shape) := by
      rw [Shape.product_cons]
      nlinarith
    have span : wrap32 (product shape) ≠ 0 := by
      rw [wrap32_of_range (by omega) (by omega)]
      omega
    have axis : wrap32 s ≠ 0 := by
      rw [wrap32_of_range (by omega) (by omega)]
      omega
    rw [Shape.dividesByZero, inductionHypothesis rest (by omega), Bool.false_or, decide_eq_false_iff_not]
    rintro ⟨-, ⟨-, zero⟩ | ⟨-, zero⟩⟩
    · exact span zero
    · exact axis zero

/-- Where all views have positions nothing is stuck. -/
theorem stalls_of_positive {views : List View} (positive : ∀ v ∈ views, Positive v.shape)
    (small : ∀ v ∈ views, product v.shape < 0x80000000) (fixed : Bool) : stalls views fixed = false := by
  induction views generalizing fixed with
  | nil => rfl
  | cons v views inductionHypothesis =>
    obtain ⟨here, below⟩ := List.forall_mem_cons.1 positive
    obtain ⟨few, fewBelow⟩ := List.forall_mem_cons.1 small
    rw [stalls, dividesByZero_of_positive here few, inductionHypothesis below fewBelow, Bool.and_false, Bool.false_or]

end Layout

namespace Expr

/-- A guarded read is built unless the address is not. -/
theorem guardedLoad_stops (plain : Plain P) {i : Expr} (formed : Formed P .int32 i) (slot : Int) (kind : Element)
    (l : Layout) (loads : ∀ place, P (load slot kind place)) (zero : P (const kind kind.zero))
    (choices : ∀ c a b, P (select kind c a b)) :
    Stops (Layout.stalls (l.top :: l.below) i.isFixed = true)
      (fun e => Formed P kind e ∧ ∃ offset valid, l.addressExpr i = .ok (offset, valid)
        ∧ e = guarded slot kind valid (chosen valid offset (int32 0)))
      (guardedLoad slot kind l i) := by
  rcases Layout.addressExpr_stops plain formed l with ⟨stuck, failed⟩ | ⟨free, ⟨offset, valid⟩, built, moved, condition⟩
  · exact .inl ⟨stuck, by rw [guardedLoad, failed]; rfl⟩
  · have place := condition.chosen moved (formed_int32 plain 0)
      (plain _ ⟨condition.kind_eq, moved.kind_eq, rfl⟩ (show Element.int32 ≠ .float32 by decide) rfl)
    have load : Formed P kind (load slot kind (chosen valid offset (int32 0))) :=
      ⟨rfl, every_load.2 ⟨place.typed, place.kind_eq⟩, every_load.2 ⟨place.nodes, loads _⟩⟩
    have padding : Formed P kind (const kind kind.zero) :=
      ⟨rfl, every_const.2 (Element.holds_zero kind), every_const.2 zero⟩
    refine .of_ok free ⟨_, ?_, condition.chosen load padding (choices ..), offset, valid, built, rfl⟩
    rw [guardedLoad, built, ok_bind]
    dsimp only
    rw [choose_eq condition.kind_eq (moved.kind_eq.trans rfl), ok_bind, loadAt,
      if_neg (not_not.2 place.kind_eq)]
    exact choose_eq condition.kind_eq rfl

/-- So is a read through a layout when it is lowered. -/
theorem lower_accessor_stops (plain : Plain P) {index i : Expr} (lowered : index.lower = .ok i)
    (formed : Formed P .int32 i) (slot : Int) (kind : Element) (l : Layout) (loads : ∀ place, P (load slot kind place))
    (zero : P (const kind kind.zero)) (choices : ∀ c a b, P (select kind c a b)) :
    Stops (Layout.stalls (l.top :: l.below) i.isFixed = true)
      (fun e => Formed P kind e ∧ guardedLoad slot kind l i = .ok e) ((accessor slot kind l index).lower) := by
  have guards : (accessor slot kind l index).lower = guardedLoad slot kind l i := by
    show (index.lower >>= guardedLoad slot kind l) = _
    rw [lowered, ok_bind]
  rw [guards]
  rcases guardedLoad_stops plain formed slot kind l loads zero choices with stuck | ⟨free, e, built, made, -⟩
  · exact .inl stuck
  · exact .inr ⟨free, e, built, made, built⟩

end Expr

end StridedArray
