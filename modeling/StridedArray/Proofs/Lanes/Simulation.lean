import StridedArray.Proofs.Lanes.Operations

/-! # All positions at once

Evaluating an expression node by node, each node for all positions together, gives at every position
what evaluating the expression there gives. Choices evaluate both of their branches, so it takes that no
branch goes wrong anywhere, evaluated at that position or not.

The induction is on the expression. It is about grids of any number of rows and columns, since the body
of a reduction is evaluated with one column for each of its positions.

* `Expr.Safe` — nothing goes wrong in any branch; `Expr.Unfailing` — nothing fails in any;
* `Lanes.Points` — the bindings of the variables at every place of a grid;
* `Expr.ReadsThrough` — what is asked of reads through layouts; `Expr.Served`, `Expr.Bound` — what is
  asked of the nodes of an expression; `Expr.Prepared` — of all of it, with its operands;
* `Expr.lanesWith_tracks` — the simulation. -/

namespace StridedArray

/-! ## Points -/

/-- The points that a grid stands for: the bindings of the variables at every place. -/
structure Lanes.Points where
  rows : Nat
  columns : Nat
  env : Nat → Nat → Environment
  position : Nat → Nat → Option Int

namespace Lanes.Points

def values (w : Points) (buffers : Buffers) (e : Expr) (i j : Nat) : Except Failure Scalar :=
  e.valueAt (w.env i j) buffers (w.position i j)

/-- The points inside of a reduction: one column for each of its positions. -/
def inside (w : Points) (n : Nat) : Points where
  rows := w.rows
  columns := n
  env i _ := w.env i 0
  position _ j := some j

end Lanes.Points

namespace Expr

open Lanes (Has Place Points Tracks pin)

/-- Nothing goes wrong in an evaluation, in branches that are not taken either: no divisor is zero, the
    least number is not divided by its opposite one, every position read at is one of its layout, and
    every offset read at one of its buffer. -/
def Safe (env : Environment) (buffers : Buffers) : Expr → Option Int → Prop
  | const .., _ => True
  | special .., _ => True
  | accessor _ _ layout index, position =>
    Safe env buffers index position ∧ ∀ p, index.valueAt env buffers position = .ok (.int p) →
      0 ≤ p ∧ p < layout.size
  | load slot _ index, position =>
    Safe env buffers index position ∧ ∃ elements, buffers slot = some elements
      ∧ ∀ p, index.valueAt env buffers position = .ok (.int p) → 0 ≤ p ∧ p < elements.size
  | unary _ _ a, position => Safe env buffers a position
  | binary op _ a b, position =>
    Safe env buffers a position ∧ Safe env buffers b position
      ∧ (op = .idiv ∨ op = .mod → ∀ m n, a.valueAt env buffers position = .ok (.int m) →
          b.valueAt env buffers position = .ok (.int n) → n ≠ 0 ∧ ¬ (m = -0x80000000 ∧ n = -1))
  | select _ condition a b, position =>
    Safe env buffers condition position ∧ Safe env buffers a position ∧ Safe env buffers b position
  | reduce _ _ body extent, _ => ∀ r : Nat, r < extent.toNat → Safe env buffers body (some r)

/-- Nothing fails in an evaluation that takes every branch. The least number may be divided by its opposite one. -/
def Unfailing (env : Environment) (buffers : Buffers) : Expr → Option Int → Prop
  | const .., _ => True
  | special .., _ => True
  | accessor _ _ layout index, position =>
    Unfailing env buffers index position ∧ ∀ p, index.valueAt env buffers position = .ok (.int p) →
      0 ≤ p ∧ p < layout.size
  | load slot _ index, position =>
    Unfailing env buffers index position ∧ ∃ elements, buffers slot = some elements
      ∧ ∀ p, index.valueAt env buffers position = .ok (.int p) → 0 ≤ p ∧ p < elements.size
  | unary _ _ a, position => Unfailing env buffers a position
  | binary op _ a b, position =>
    Unfailing env buffers a position ∧ Unfailing env buffers b position
      ∧ (op = .idiv ∨ op = .mod → ∀ m n, a.valueAt env buffers position = .ok (.int m) →
          b.valueAt env buffers position = .ok (.int n) → n ≠ 0)
  | select _ condition a b, position =>
    Unfailing env buffers condition position ∧ Unfailing env buffers a position ∧ Unfailing env buffers b position
  | reduce _ _ body extent, _ => ∀ r : Nat, r < extent.toNat → Unfailing env buffers body (some r)

theorem Safe.unfailing {env : Environment} {buffers : Buffers} {e : Expr} {position : Option Int}
    (safe : Safe env buffers e position) : Unfailing env buffers e position := by
  induction e generalizing position with
  | const => trivial
  | special => trivial
  | accessor slot kind layout index ih => exact ⟨ih safe.1, safe.2⟩
  | load slot kind index ih => exact ⟨ih safe.1, safe.2⟩
  | unary op kind a ih => exact ih safe
  | binary op kind a b iha ihb =>
    exact ⟨iha safe.1, ihb safe.2.1, fun divides m n dividend divisor => (safe.2.2 divides m n dividend divisor).1⟩
  | select kind c a b ihc iha ihb => exact ⟨ihc safe.1, iha safe.2.1, ihb safe.2.2⟩
  | reduce op kind body extent ih => exact fun r bound => ih (safe r bound)

/-- Reads through a layout follow the reads at single positions, as long as these are positions of the
    layout. -/
def ReadsThrough (readLayout : LayoutRead) (buffers : Buffers) (slot : Int) (kind : Element) (l : Layout) :
    Prop :=
  ∀ {R C : Nat} {index : Lanes} {v : Nat → Nat → Except Failure Scalar}, index.Tracks R C .int32 v →
    (∀ i j p, Place R C i j → v i j = .ok (.int p) → 0 ≤ p ∧ p < l.size) →
      ∃ out, readLayout slot kind l index = .ok out
        ∧ out.Tracks R C kind fun i j => v i j >>= readAt buffers slot kind l

/-- What a node needs from outside: reads through its layout, elements of its kind, and an extent that
    positions of 32 bits can count. -/
def Served (readLayout : LayoutRead) (buffers : Buffers) : Expr → Prop
  | accessor slot kind layout _ => ReadsThrough readLayout buffers slot kind layout
  | load slot kind _ => ∀ elements, buffers slot = some elements → ∀ x ∈ elements, kind.Holds x
  | reduce _ _ _ extent => 1 ≤ extent ∧ extent ≤ 0x80000000
  | _ => True

/-- Variables are bound to grids of their values. The reduction index is there inside of reductions
    only. -/
def Bound (env : LaneEnvironment) (buffers : Buffers) (inside : Bool) (w : Points) : Expr → Prop
  | special name extent d => (name = reductionIndex → inside = true) →
    ∃ l, env name = some l ∧ l.Tracks w.rows w.columns .int32 (w.values buffers (special name extent d))
  | _ => True

variable {readLayout : LayoutRead} {buffers : Buffers}

/-! ## Reductions -/

/-- Inside of a reduction its index is bound to the positions, everything else to what it was. -/
theorem Bound.inside {env : LaneEnvironment} {w : Points} {n : Nat} (single : w.columns = 1)
    (few : n ≤ 0x80000000) {node : Expr} (bound : Bound env buffers false w node) :
    Bound (insideReduction env n) buffers true (w.inside n) node := by
  cases node with
  | special name extent d =>
    intro _
    by_cases index : name = reductionIndex
    · subst index
      refine ⟨_, if_pos rfl, (Lanes.tracks_ofRow few).congr fun i j _ => ?_⟩
      rw [Points.values, valueAt, if_pos rfl]
      rfl
    · obtain ⟨l, found, tracks⟩ := bound fun same => absurd same index
      rw [single] at tracks
      refine ⟨l, (if_neg index).trans found, (tracks.widen n).congr fun i j _ => ?_⟩
      rw [Points.values, Points.values, valueAt, valueAt, if_neg index, if_neg index]
      rfl
  | _ => trivial

theorem reduceLanes_tracks (op : Reduction) {body : Expr} {extent : Int} (several : 1 ≤ extent) {w : Points}
    (single : w.columns = 1) {grid : Lanes}
    (tracks : grid.Tracks w.rows extent.toNat .int32 ((w.inside extent.toNat).values buffers body)) :
    ∃ l, reduceLanes op .int32 w.rows extent.toNat grid = .ok l
      ∧ l.Tracks w.rows w.columns .int32 (w.values buffers (reduce op .int32 body extent)) := by
  refine Lanes.ofFnM_tracks (.inr rfl) (.inl rfl) fun i j place => ?_
  obtain rfl : j = 0 := Nat.lt_one_iff.1 ((single ▸ place).column_lt Nat.one_pos)
  -- What the body has at the positions of this row is what the row of the grid is folded from.
  have each : ∀ r < extent.toNat, ∃ x, body.valueAt (w.env i 0) buffers (some (r : Int)) = .ok x
      ∧ Element.int32.Holds x ∧ (Has grid.rows i → Has grid.columns r → grid.get i r = x) :=
    fun r bound => tracks.value i r ⟨place.row, by omega⟩
  choose! x value holds cell using each
  obtain ⟨z, row, result, loop⟩ := op.agrees ((List.range extent.toNat).map x)
    (by
      intro y member
      obtain ⟨r, bound, rfl⟩ := List.mem_map.1 member
      exact holds r (List.mem_range.1 bound))
    (by
      have : (List.range extent.toNat).length ≠ 0 := by
        rw [List.length_range]
        omega
      exact fun none => this (by rw [List.map_eq_nil_iff.1 none]; rfl))
  refine ⟨z, ?_, result, fun hasRow _ => ?_⟩
  · obtain ⟨acc, steps, last⟩ := bind_eq_ok.1 loop
    rw [List.foldlM_map] at steps
    have same := foldlM_ok_congr (g := fun acc (r : Nat) => do
        op.step .int32 acc (← body.valueAt (w.env i 0) buffers (some (r : Int))))
      (fun acc r next member step => by rw [value r (List.mem_range.1 member), ok_bind, step]) steps
    rw [Points.values, valueAt, foldBelow_eq, same, ok_bind, last]
  · have cells : (List.range extent.toNat).map (fun r => grid.get (pin w.rows i) r)
        = (List.range extent.toNat).map x := by
      refine List.map_congr_left fun r member => ?_
      have bound := List.mem_range.1 member
      have narrow : w.rows = 1 → grid.rows = 1 := fun one => by
        rcases tracks.rows with single | all
        · exact single
        · exact all.trans one
      rw [Lanes.get_eq, Lanes.pin_pin narrow, ← Lanes.get_eq]
      exact cell r bound (Lanes.has_of_counts tracks.rows hasRow) (Lanes.has_of_counts tracks.columns (.inr bound))
    rw [cells, row]

theorem isRefused_eq_false [Room] {extent : Int} (several : 1 ≤ extent) (few : extent ≤ 0x80000000) :
    isRefused extent = false := by
  have ample := Room.ample
  unfold isRefused
  rw [Bool.or_eq_false_iff, decide_eq_false_iff_not, decide_eq_false_iff_not]
  simp only [Element.itemSize] at ample ⊢
  omega

/-! ## The simulation -/

/-- What is asked of an expression that is evaluated for some points together. Outside of reductions there is one
    column, and the output index has a row for every one of the points. -/
structure Prepared (readLayout : LayoutRead) (buffers : Buffers) (env : LaneEnvironment) (inside : Bool) (w : Points)
    (e : Expr) : Prop where
  typed : Typed e
  integral : Integral e
  served : Every (Served readLayout buffers) e
  scope : Scoped inside e
  bound : Every (Bound env buffers inside w) e
  outer : inside = false → w.columns = 1 ∧ rowCount env = w.rows

namespace Prepared

variable {env : LaneEnvironment} {inside : Bool} {w : Points} {kind : Element} {a b c : Expr}

theorem ofAccessor {slot : Int} {layout : Layout}
    (prepared : Prepared readLayout buffers env inside w (accessor slot kind layout a)) :
    Prepared readLayout buffers env inside w a :=
  ⟨(every_accessor.1 prepared.typed).1, (every_accessor.1 prepared.integral).1, (every_accessor.1 prepared.served).1,
    prepared.scope, (every_accessor.1 prepared.bound).1, prepared.outer⟩

theorem ofLoad {slot : Int} (prepared : Prepared readLayout buffers env inside w (load slot kind a)) :
    Prepared readLayout buffers env inside w a :=
  ⟨(every_load.1 prepared.typed).1, (every_load.1 prepared.integral).1, (every_load.1 prepared.served).1,
    prepared.scope, (every_load.1 prepared.bound).1, prepared.outer⟩

theorem ofUnary {op : UnaryOp} (prepared : Prepared readLayout buffers env inside w (unary op kind a)) :
    Prepared readLayout buffers env inside w a :=
  ⟨(every_unary.1 prepared.typed).1, (every_unary.1 prepared.integral).1, (every_unary.1 prepared.served).1,
    prepared.scope, (every_unary.1 prepared.bound).1, prepared.outer⟩

theorem ofBinary {op : BinaryOp} (prepared : Prepared readLayout buffers env inside w (binary op kind a b)) :
    Prepared readLayout buffers env inside w a ∧ Prepared readLayout buffers env inside w b := by
  obtain ⟨typedLeft, typedRight, -⟩ := every_binary.1 prepared.typed
  obtain ⟨integralLeft, integralRight, -⟩ := every_binary.1 prepared.integral
  obtain ⟨servedLeft, servedRight, -⟩ := every_binary.1 prepared.served
  obtain ⟨scopeLeft, scopeRight⟩ := scoped_binary.1 prepared.scope
  obtain ⟨boundLeft, boundRight, -⟩ := every_binary.1 prepared.bound
  exact ⟨⟨typedLeft, integralLeft, servedLeft, scopeLeft, boundLeft, prepared.outer⟩,
    typedRight, integralRight, servedRight, scopeRight, boundRight, prepared.outer⟩

theorem ofSelect (prepared : Prepared readLayout buffers env inside w (select kind c a b)) :
    Prepared readLayout buffers env inside w c ∧ Prepared readLayout buffers env inside w a
      ∧ Prepared readLayout buffers env inside w b := by
  obtain ⟨typedCondition, typedLeft, typedRight, -⟩ := every_select.1 prepared.typed
  obtain ⟨integralCondition, integralLeft, integralRight, -⟩ := every_select.1 prepared.integral
  obtain ⟨servedCondition, servedLeft, servedRight, -⟩ := every_select.1 prepared.served
  obtain ⟨scopeCondition, scopeLeft, scopeRight⟩ := scoped_select.1 prepared.scope
  obtain ⟨boundCondition, boundLeft, boundRight, -⟩ := every_select.1 prepared.bound
  exact ⟨⟨typedCondition, integralCondition, servedCondition, scopeCondition, boundCondition, prepared.outer⟩,
    ⟨typedLeft, integralLeft, servedLeft, scopeLeft, boundLeft, prepared.outer⟩,
    typedRight, integralRight, servedRight, scopeRight, boundRight, prepared.outer⟩

/-- The body of a reduction has a column for each position, while outside there is a single one. -/
theorem ofReduce {op : Reduction} {extent : Int}
    (prepared : Prepared readLayout buffers env inside w (reduce op kind a extent)) :
    inside = false ∧ (1 ≤ extent ∧ extent ≤ 0x80000000) ∧ w.columns = 1
      ∧ Prepared readLayout buffers (insideReduction env extent.toNat) true (w.inside extent.toNat) a := by
  obtain ⟨rfl, scopeBody⟩ := scoped_reduce.1 prepared.scope
  obtain ⟨single, -⟩ := prepared.outer rfl
  obtain ⟨servedBody, several, few⟩ := every_reduce.1 prepared.served
  exact ⟨rfl, ⟨several, few⟩, single, (every_reduce.1 prepared.typed).1, (every_reduce.1 prepared.integral).1,
    servedBody, scopeBody, (every_reduce.1 prepared.bound).1.imp fun node => Bound.inside single (by omega),
    fun outside => Bool.noConfusion outside⟩

end Prepared

/-- An expression evaluated for all points together has the values that it has at the points. -/
theorem lanesWith_tracks [Room] {e : Expr} {env : LaneEnvironment} {inside : Bool} {w : Points}
    (prepared : Prepared readLayout buffers env inside w e)
    (unfailing : ∀ i j, Place w.rows w.columns i j → Unfailing (w.env i j) buffers e (w.position i j)) :
    ∃ grid, e.lanesWith readLayout buffers env = .ok grid
      ∧ grid.Tracks w.rows w.columns e.kind (w.values buffers e) := by
  induction e generalizing inside env w with
  | const kind value d => exact ⟨_, rfl, Lanes.tracks_uniform (every_const.1 prepared.typed)⟩
  | special name extent d =>
    obtain ⟨l, found, tracks⟩ := every_special.1 prepared.bound (scoped_special.1 prepared.scope)
    refine ⟨l, ?_, tracks⟩
    rw [lanesWith, found]
    rfl
  | accessor slot kind layout index ih =>
    obtain ⟨grid, evaluated, tracks⟩ := ih prepared.ofAccessor fun i j place => (unfailing i j place).1
    rw [show index.kind = .int32 from prepared.typed.self] at tracks
    have reads : ReadsThrough readLayout buffers slot kind layout := prepared.served.self
    obtain ⟨out, read, follows⟩ := reads tracks fun i j p place known => (unfailing i j place).2 p known
    refine ⟨out, ?_, follows⟩
    rw [lanesWith, evaluated, ok_bind, read]
  | load slot kind index ih =>
    obtain ⟨grid, evaluated, tracks⟩ := ih prepared.ofLoad fun i j place => (unfailing i j place).1
    rw [show index.kind = .int32 from prepared.typed.self] at tracks
    -- The buffer is there, since even the first place reads from it.
    obtain ⟨-, elements, buffer, -⟩ := unfailing 0 0 ⟨by omega, by omega⟩
    have inRange : ∀ i j p, Place w.rows w.columns i j → w.values buffers index i j = .ok (.int p) →
        0 ≤ p ∧ p < elements.size := by
      intro i j p place known
      obtain ⟨-, elements', buffer', bounds⟩ := unfailing i j place
      rw [buffer] at buffer'
      cases buffer'
      exact bounds p known
    have holds : ∀ x ∈ elements, kind.Holds x := prepared.served.self elements buffer
    obtain ⟨out, read, follows⟩ := loadLanes_tracks buffer holds tracks inRange
    refine ⟨out, by rw [lanesWith, evaluated, ok_bind, read], follows.congr fun i j place => ?_⟩
    obtain ⟨x, known, ⟨p, rfl, -⟩, -⟩ := tracks.value i j place
    obtain ⟨low, high⟩ := inRange i j p place known
    show (w.values buffers index i j >>= _) = w.values buffers index i j >>= loadFrom buffers slot kind
    rw [known, ok_bind, ok_bind, loadFrom_inside buffer holds prepared.integral.self low high]
  | unary op kind a ih =>
    have operand := prepared.ofUnary
    obtain ⟨grid, evaluated, tracks⟩ := ih operand unfailing
    rw [lanesWith, evaluated, ok_bind]
    refine Lanes.map_tracks tracks fun i j x place known holds => ?_
    obtain ⟨z, lane, value, result⟩ :=
      UnaryOp.agrees prepared.typed.self prepared.integral.self operand.integral.self holds
    refine ⟨z, lane, ?_, result⟩
    show (w.values buffers a i j >>= applyUnary op kind) = _
    rw [known, ok_bind, value]
  | binary op kind a b iha ihb =>
    obtain ⟨preparedLeft, preparedRight⟩ := prepared.ofBinary
    obtain ⟨same, takes, rfl⟩ := prepared.typed.self
    obtain ⟨left, evaluatedLeft, tracksLeft⟩ := iha preparedLeft fun i j place => (unfailing i j place).1
    obtain ⟨right, evaluatedRight, tracksRight⟩ := ihb preparedRight fun i j place => (unfailing i j place).2.1
    rw [lanesWith, evaluatedLeft, ok_bind, evaluatedRight, ok_bind]
    refine Lanes.zip_tracks tracksLeft tracksRight
      fun i j x y place knownLeft holdsLeft knownRight holdsRight => ?_
    obtain ⟨z, lane, value, holds⟩ := BinaryOp.agrees takes preparedLeft.integral.self holdsLeft
      (same ▸ holdsRight) fun divides m n dividend divisor =>
        (unfailing i j place).2.2 divides m n (dividend ▸ knownLeft) (divisor ▸ knownRight)
    refine ⟨z, lane, ?_, holds⟩
    show (w.values buffers a i j >>= fun x => w.values buffers b i j >>= fun y => _) = _
    rw [knownLeft, ok_bind, knownRight, ok_bind, value]
  | select kind c a b ihc iha ihb =>
    obtain ⟨preparedCondition, preparedLeft, preparedRight⟩ := prepared.ofSelect
    obtain ⟨truth, kindLeft, kindRight⟩ := prepared.typed.self
    obtain ⟨condition, evaluatedCondition, tracksCondition⟩ :=
      ihc preparedCondition fun i j place => (unfailing i j place).1
    obtain ⟨left, evaluatedLeft, tracksLeft⟩ := iha preparedLeft fun i j place => (unfailing i j place).2.1
    obtain ⟨right, evaluatedRight, tracksRight⟩ := ihb preparedRight fun i j place => (unfailing i j place).2.2
    rw [lanesWith, evaluatedCondition, ok_bind, evaluatedLeft, ok_bind, evaluatedRight, ok_bind]
    refine Lanes.zip3_tracks tracksCondition tracksLeft tracksRight
      fun i j x y z place known _ knownLeft holdsLeft knownRight holdsRight => ?_
    refine ⟨if x.truthy then y else z, rfl, ?_, ?_⟩
    · show (w.values buffers c i j >>= fun x => if x.truthy then w.values buffers a i j
        else w.values buffers b i j) = _
      rw [known, ok_bind, knownLeft, knownRight]
      split <;> rfl
    · split
      · exact kindLeft ▸ holdsLeft
      · exact kindRight ▸ holdsRight
  | reduce op kind body extent ih =>
    obtain ⟨rfl, ⟨several, few⟩, single, preparedBody⟩ := prepared.ofReduce
    obtain ⟨kindBody, numeric⟩ := prepared.typed.self
    obtain rfl : kind = .int32 := by
      cases kind with
      | bool => exact absurd rfl numeric
      | int32 => rfl
      | float32 => exact absurd rfl prepared.integral.self
    obtain ⟨grid, evaluated, tracks⟩ := ih preparedBody fun i j place =>
      unfailing i 0 ⟨place.row, by omega⟩ j (place.column_lt (show 0 < extent.toNat by omega))
    rw [show body.kind = .int32 from kindBody] at tracks
    obtain ⟨out, folded, follows⟩ := reduceLanes_tracks op several single tracks
    refine ⟨out, ?_, follows⟩
    rw [lanesWith, isRefused_eq_false several few]
    show (body.lanesWith readLayout buffers (insideReduction env extent.toNat) >>= _) = _
    rw [evaluated, ok_bind, (prepared.outer rfl).2, folded]

end Expr

end StridedArray
