import StridedArray.Proofs.Lanes.Reads

/-! # Failures at all positions at once

A choice is evaluated with both of its branches, and for all positions together. So the evaluation fails as soon as
any branch fails at any position, and it succeeds in no other case than that of the simulation.

* `Lanes.Tracks.mem_cells`, `Lanes.ofFnM_each` — what a grid that was computed says of single places;
* `Expr.readLanes_inside`, `Expr.loadLanes_inside` — reads that succeed are of positions and offsets in range;
* `Expr.lanesWith_unfailing` — an evaluation that succeeds does not fail in any branch. -/

namespace StridedArray

namespace Lanes

variable {R C : Nat} {kind : Element} {l : Lanes} {v : Nat → Nat → Except Failure Scalar} {i j : Nat}

/-! ## Single places -/

theorem Tracks.covers (tracks : Tracks R C kind l v) (rows : 0 < R) (columns : 0 < C) (place : Place R C i j) :
    Has l.rows i ∧ Has l.columns j := by
  have row := place.row
  have column := place.column
  refine ⟨has_of_counts tracks.rows (.inr ?_), has_of_counts tracks.columns (.inr ?_)⟩ <;> omega

theorem Tracks.get_eq (tracks : Tracks R C kind l v) (rows : 0 < R) (columns : 0 < C) (place : Place R C i j)
    {x : Scalar} (known : v i j = .ok x) : l.get i j = x := by
  obtain ⟨hasRow, hasColumn⟩ := tracks.covers rows columns place
  obtain ⟨y, known', -, cell⟩ := tracks.value i j place
  rw [known] at known'
  cases known'
  exact cell hasRow hasColumn

/-- Every value of the function is in a cell. -/
theorem Tracks.mem_cells (tracks : Tracks R C kind l v) (rows : 0 < R) (columns : 0 < C) (place : Place R C i j)
    {x : Scalar} (known : v i j = .ok x) : x ∈ l.cells := by
  obtain ⟨hasRow, hasColumn⟩ := tracks.covers rows columns place
  have bound : pin l.rows i * l.columns + pin l.columns j < l.cells.size := by
    rw [tracks.size]
    exact cell_bound (pin_lt hasRow) (pin_lt hasColumn)
  rw [← tracks.get_eq rows columns place known, Lanes.get_eq, Array.getElem?_eq_getElem bound]
  exact Array.getElem_mem bound

theorem Tracks.isEmpty_eq (tracks : Tracks R C kind l v) (rows : 0 < R) (columns : 0 < C) : l.isEmpty = false := by
  have countRows := tracks.rows
  have countColumns := tracks.columns
  unfold isEmpty
  rw [Bool.or_eq_false_iff, decide_eq_false_iff_not, decide_eq_false_iff_not]
  omega

/-- A grid is computed only if the function does not fail anywhere. -/
theorem ofFnM_each {rows columns : Nat} {f : Nat → Nat → Except Failure Scalar}
    (built : ofFnM rows columns f = .ok l) {i j : Nat} (row : i < rows) (column : j < columns) :
    ∃ x, f i j = .ok x := by
  simp only [ofFnM, bind_eq_ok] at built
  obtain ⟨cells, computed, -⟩ := built
  rw [Array.mapM_eq_mapM_toList, Array.toList_range, map_eq_ok] at computed
  obtain ⟨listed, computed, -⟩ := computed
  obtain ⟨x, -, known⟩ := mem_mapM_ok computed (List.mem_range.2 (cell_bound row column))
  obtain ⟨sameRow, sameColumn⟩ := cell_place column i
  rw [sameRow, sameColumn] at known
  exact ⟨x, known⟩

end Lanes

namespace Expr

open Lanes (Has Place Points Tracks pin stretched)

variable {readLayout : LayoutRead} {buffers : Buffers} {slot : Int} {kind : Element} {l : Layout} {R C : Nat}
  {index out : Lanes} {v : Nat → Nat → Except Failure Scalar} {i j : Nat} {p : Int}

/-! ## Reads -/

theorem checkPositions_inside (tracks : index.Tracks R C .int32 v) (rows : 0 < R) (columns : 0 < C)
    (checked : checkPositions slot l index = .ok ()) (place : Place R C i j) (known : v i j = .ok (.int p)) :
    0 ≤ p ∧ p < l.size := by
  unfold checkPositions at checked
  rw [tracks.isEmpty_eq rows columns, if_neg Bool.false_ne_true] at checked
  have inside : ¬ (index.range.1 < 0 ∨ l.size ≤ index.range.2) := (refuse_eq_ok.1 checked).1
  obtain ⟨least, most⟩ := Lanes.mem_range (tracks.mem_cells rows columns place known) rfl
  omega

/-- Reads through a layout that succeed are of positions of the layout. -/
theorem readLanes_inside [Room] (tracks : index.Tracks R C .int32 v) (rows : 0 < R) (columns : 0 < C)
    (read : readLanes buffers slot kind l index = .ok out) (place : Place R C i j) (known : v i j = .ok (.int p)) :
    0 ≤ p ∧ p < l.size := by
  simp only [readLanes, bind_eq_ok] at read
  obtain ⟨_, checked, -⟩ := read
  exact checkPositions_inside tracks rows columns checked place known

/-- Reads at offsets that succeed are of offsets inside of the buffer. -/
theorem loadLanes_inside (tracks : index.Tracks R C .int32 v) (rows : 0 < R) (columns : 0 < C)
    (read : loadLanes buffers slot kind index = .ok out) :
    ∃ elements, buffers slot = some elements ∧ ∀ {i j p}, Place R C i j → v i j = .ok (.int p) →
      0 ≤ p ∧ p < elements.size := by
  unfold loadLanes at read
  cases buffer : buffers slot with
  | none =>
    rw [buffer] at read
    cases read
  | some elements =>
    rw [buffer] at read
    dsimp only at read
    rw [tracks.isEmpty_eq rows columns, if_neg Bool.false_ne_true] at read
    obtain ⟨inside, -⟩ := refuse_eq_ok.1 read
    refine ⟨elements, rfl, fun {i j p} place known => ?_⟩
    obtain ⟨least, most⟩ := Lanes.mem_range (tracks.mem_cells rows columns place known) rfl
    omega

/-! ## Evaluation -/

theorem divisor_of_zip {a b : Lanes} {w : Nat → Nat → Except Failure Scalar} (left : a.Tracks R C .int32 v)
    (right : b.Tracks R C .int32 w) (rows : 0 < R) (columns : 0 < C) {op : BinaryOp}
    (divides : op = .idiv ∨ op = .mod) (built : a.zip (op.onLane kind .int32) b = .ok out) (place : Place R C i j)
    {n : Int} (known : w i j = .ok (.int n)) : n ≠ 0 := by
  have row := place.row
  have column := place.column
  have hasRow : Has (stretched a.rows b.rows) i :=
    Lanes.has_of_counts (Lanes.stretched_counts left.rows right.rows) (.inr (by omega))
  have hasColumn : Has (stretched a.columns b.columns) j :=
    Lanes.has_of_counts (Lanes.stretched_counts left.columns right.columns) (.inr (by omega))
  obtain ⟨z, divided⟩ := Lanes.ofFnM_each built (Lanes.pin_lt hasRow) (Lanes.pin_lt hasColumn)
  rw [Lanes.get_pin Lanes.narrow_right Lanes.narrow_right, right.get_eq rows columns place known] at divided
  rintro rfl
  rcases divides with rfl | rfl <;> cases divided

/-- The grid of an evaluation that succeeds, where no branch fails. -/
theorem tracks_of_evaluated [Room] {e : Expr} {env : LaneEnvironment} {inside : Bool} {w : Points}
    (prepared : Prepared readLayout buffers env inside w e)
    (unfailing : ∀ i j, Place w.rows w.columns i j → Unfailing (w.env i j) buffers e (w.position i j))
    {grid : Lanes} (evaluated : e.lanesWith readLayout buffers env = .ok grid) :
    grid.Tracks w.rows w.columns e.kind (w.values buffers e) := by
  obtain ⟨_, same, tracks⟩ := lanesWith_tracks prepared unfailing
  rw [evaluated] at same
  cases same
  exact tracks

/-- An evaluation for all points that succeeds does not fail in any branch at any of them. -/
theorem lanesWith_unfailing [Room] {e : Expr} {env : LaneEnvironment} {inside : Bool} {w : Points}
    (prepared : Prepared (readLanes buffers) buffers env inside w e) (rows : 0 < w.rows) (columns : 0 < w.columns)
    {grid : Lanes} (evaluated : e.lanesWith (readLanes buffers) buffers env = .ok grid) :
    ∀ i j, Place w.rows w.columns i j → Unfailing (w.env i j) buffers e (w.position i j) := by
  induction e generalizing inside env w grid with
  | const => exact fun _ _ _ => trivial
  | special => exact fun _ _ _ => trivial
  | accessor slot kind layout index ih =>
    simp only [lanesWith, bind_eq_ok] at evaluated
    obtain ⟨positions, computed, read⟩ := evaluated
    have below := ih prepared.ofAccessor rows columns computed
    have tracks := tracks_of_evaluated prepared.ofAccessor below computed
    rw [show index.kind = .int32 from prepared.typed.self] at tracks
    exact fun i j place => ⟨below i j place, fun p known => readLanes_inside tracks rows columns read place known⟩
  | load slot kind index ih =>
    simp only [lanesWith, bind_eq_ok] at evaluated
    obtain ⟨offsets, computed, read⟩ := evaluated
    have below := ih prepared.ofLoad rows columns computed
    have tracks := tracks_of_evaluated prepared.ofLoad below computed
    rw [show index.kind = .int32 from prepared.typed.self] at tracks
    obtain ⟨elements, buffer, inRange⟩ := loadLanes_inside tracks rows columns read
    exact fun i j place => ⟨below i j place, elements, buffer, fun p known => inRange place known⟩
  | unary op kind a ih =>
    simp only [lanesWith, bind_eq_ok] at evaluated
    obtain ⟨operand, computed, -⟩ := evaluated
    exact ih prepared.ofUnary rows columns computed
  | binary op kind a b iha ihb =>
    obtain ⟨preparedLeft, preparedRight⟩ := prepared.ofBinary
    obtain ⟨alike, takes, -⟩ := prepared.typed.self
    simp only [lanesWith, bind_eq_ok] at evaluated
    obtain ⟨left, computedLeft, right, computedRight, built⟩ := evaluated
    have belowLeft := iha preparedLeft rows columns computedLeft
    have belowRight := ihb preparedRight rows columns computedRight
    refine fun i j place => ⟨belowLeft i j place, belowRight i j place, fun divides m n _ divisor => ?_⟩
    have whole : a.kind = .int32 := by
      rcases divides with rfl | rfl <;> exact takes
    have tracksLeft := tracks_of_evaluated preparedLeft belowLeft computedLeft
    have tracksRight := tracks_of_evaluated preparedRight belowRight computedRight
    rw [← alike, whole] at tracksRight
    rw [whole] at tracksLeft built
    exact divisor_of_zip tracksLeft tracksRight rows columns divides built place divisor
  | select kind c a b ihc iha ihb =>
    obtain ⟨preparedCondition, preparedLeft, preparedRight⟩ := prepared.ofSelect
    simp only [lanesWith, bind_eq_ok] at evaluated
    obtain ⟨condition, computedCondition, left, computedLeft, right, computedRight, -⟩ := evaluated
    have belowCondition := ihc preparedCondition rows columns computedCondition
    have belowLeft := iha preparedLeft rows columns computedLeft
    have belowRight := ihb preparedRight rows columns computedRight
    exact fun i j place => ⟨belowCondition i j place, belowLeft i j place, belowRight i j place⟩
  | reduce op kind body extent ih =>
    obtain ⟨rfl, ⟨several, few⟩, single, preparedBody⟩ := prepared.ofReduce
    rw [lanesWith, isRefused_eq_false several few] at evaluated
    obtain ⟨values, computed, -⟩ := bind_eq_ok.1 (show (body.lanesWith (readLanes buffers) buffers
      (insideReduction env extent.toNat) >>= reduceLanes op kind (rowCount env) extent.toNat) = _ from evaluated)
    -- The positions of the reduction are the columns of its body.
    have below := ih preparedBody rows (show 0 < extent.toNat by omega) computed
    intro i j place r bound
    obtain rfl : j = 0 := Nat.lt_one_iff.1 ((single ▸ place).column_lt Nat.one_pos)
    exact below i r ⟨place.row, Nat.lt_of_lt_of_le bound (Nat.le_max_left ..)⟩

end Expr

end StridedArray
