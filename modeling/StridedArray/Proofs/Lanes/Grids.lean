import Mathlib.Tactic.Choose
import StridedArray.Lanes
import StridedArray.Proofs.Expr.Nodes

/-! # Grids that follow values

A grid stands for a function of output positions and positions in a reduction. Its single row, or its
single column, stands for all of them.

* `Lanes.pin`, `Lanes.Has` — how a place of a grid is found;
* `Lanes.ofFnM_ok` — a grid of the values of a function;
* `Lanes.Tracks` — the values of a grid are those of a function, and of a kind;
* `Lanes.map_tracks`, `Lanes.zip_tracks`, `Lanes.zip3_tracks` — what is done with every value is done
  with the function;
* `Lanes.range_bounds`, `Lanes.mem_range` — the least and the greatest of the integers of a grid. -/

namespace StridedArray.Lanes

/-! ## Places -/

def pin (count place : Nat) : Nat := if count = 1 then 0 else place

def Has (count place : Nat) : Prop := count = 1 ∨ place < count

theorem get_eq (l : Lanes) (i j : Nat) :
    l.get i j = (l.cells[pin l.rows i * l.columns + pin l.columns j]?).getD default := rfl

theorem pin_lt {count place : Nat} (has : Has count place) : pin count place < count := by
  unfold pin
  unfold Has at has
  split <;> omega

theorem pin_of_lt {count place : Nat} (inside : place < count) : pin count place = place := by
  unfold pin
  split <;> omega

theorem lt_of_has {count place : Nat} (has : Has count place) (place_lt : place < max count 1) :
    place < count := by
  unfold Has at has
  omega

theorem has_of_counts {count other place : Nat} (counts : count = 1 ∨ count = other) (has : Has other place) :
    Has count place := by
  rcases counts with single | all
  · exact .inl single
  · exact all ▸ has

theorem pin_pin {count wider : Nat} (narrow : wider = 1 → count = 1) (place : Nat) :
    pin count (pin wider place) = pin count place := by
  unfold pin
  by_cases one : count = 1
  · rw [if_pos one, if_pos one]
  · rw [if_neg one, if_neg one, if_neg fun single => one (narrow single)]

theorem get_pin {l : Lanes} {rows columns : Nat} (narrowRows : rows = 1 → l.rows = 1)
    (narrowColumns : columns = 1 → l.columns = 1) (i j : Nat) :
    l.get (pin rows i) (pin columns j) = l.get i j := by
  rw [get_eq, get_eq, pin_pin narrowRows, pin_pin narrowColumns]

theorem cell_bound {rows columns i j : Nat} (row : i < rows) (column : j < columns) :
    i * columns + j < rows * columns := by
  calc i * columns + j < i * columns + columns := Nat.add_lt_add_left column _
    _ = (i + 1) * columns := (Nat.succ_mul i columns).symm
    _ ≤ rows * columns := Nat.mul_le_mul_right columns row

theorem cell_place {columns j : Nat} (column : j < columns) (i : Nat) :
    (i * columns + j) / columns = i ∧ (i * columns + j) % columns = j := by
  have some : 0 < columns := Nat.lt_of_le_of_lt (Nat.zero_le _) column
  rw [Nat.mul_comm, Nat.mul_add_div some, Nat.div_eq_of_lt column, Nat.mul_add_mod, Nat.mod_eq_of_lt column]
  exact ⟨rfl, rfl⟩

theorem exists_get {l : Lanes} (size : l.cells.size = l.rows * l.columns) {x : Scalar}
    (member : x ∈ l.cells) : ∃ i j, i < l.rows ∧ j < l.columns ∧ l.get i j = x := by
  obtain ⟨k, bound, rfl⟩ := Array.getElem_of_mem member
  have some : 0 < l.columns := by
    rcases Nat.eq_zero_or_pos l.columns with zero | positive
    · rw [size, zero, Nat.mul_zero] at bound
      omega
    · exact positive
  have row : k / l.columns < l.rows := Nat.div_lt_of_lt_mul (by rwa [Nat.mul_comm, ← size])
  have column : k % l.columns < l.columns := Nat.mod_lt _ some
  refine ⟨_, _, row, column, ?_⟩
  rw [get_eq, pin_of_lt row, pin_of_lt column, Nat.div_add_mod', Array.getElem?_eq_getElem bound]
  rfl

/-! ## Grids of functions -/

/-- A function that does not fail at any place gives a grid of its values. -/
theorem ofFnM_ok {rows columns : Nat} {f : Nat → Nat → Except Failure Scalar}
    (each : ∀ i < rows, ∀ j < columns, ∃ x, f i j = .ok x) :
    ∃ l, ofFnM rows columns f = .ok l ∧ l.rows = rows ∧ l.columns = columns
      ∧ l.cells.size = rows * columns
      ∧ ∀ i j, Has rows i → Has columns j → f (pin rows i) (pin columns j) = .ok (l.get i j) := by
  choose! g known using each
  have cells : (List.range (rows * columns)).mapM (fun p => f (p / columns) (p % columns))
      = .ok ((List.range (rows * columns)).map fun p => g (p / columns) (p % columns)) := by
    refine mapM_eq_map fun p member => ?_
    have bound := List.mem_range.1 member
    have some : 0 < columns := Nat.pos_of_mul_pos_left (Nat.lt_of_le_of_lt (Nat.zero_le p) bound)
    exact known _ (Nat.div_lt_of_lt_mul (by rwa [Nat.mul_comm])) _ (Nat.mod_lt _ some)
  refine ⟨⟨rows, columns, ((List.range (rows * columns)).map
    fun p => g (p / columns) (p % columns)).toArray⟩, ?_, rfl, rfl, by simp, fun i j row column => ?_⟩
  · rw [ofFnM, Array.mapM_eq_mapM_toList, Array.toList_range, cells]
    rfl
  · have rowBound := pin_lt row
    have columnBound := pin_lt column
    have bound := cell_bound rowBound columnBound
    obtain ⟨row, column⟩ := cell_place columnBound (pin rows i)
    rw [known _ rowBound _ columnBound, get_eq]
    simp only [List.getElem?_toArray, List.getElem?_map, List.getElem?_range bound, Option.map_some,
      Option.getD_some]
    rw [row, column]

/-! ## Following a function -/

/-- Is it one of the places of a function with so many rows and columns? There is always a first one. -/
structure Place (R C i j : Nat) : Prop where
  row : i < max R 1
  column : j < max C 1

theorem Place.column_lt {R C i j : Nat} (place : Place R C i j) (several : 0 < C) : j < C := by
  have := place.column
  omega

/-- A function has values of the given kind, and the grid has them at every place that it covers. The
    grid has one row or `R` of them, one column or `C`. -/
structure Tracks (R C : Nat) (kind : Element) (l : Lanes) (v : Nat → Nat → Except Failure Scalar) :
    Prop where
  rows : l.rows = 1 ∨ l.rows = R
  columns : l.columns = 1 ∨ l.columns = C
  size : l.cells.size = l.rows * l.columns
  value : ∀ i j, Place R C i j →
    ∃ x, v i j = .ok x ∧ kind.Holds x ∧ (Has l.rows i → Has l.columns j → l.get i j = x)

variable {R C : Nat} {kind result : Element} {v w : Nat → Nat → Except Failure Scalar}

theorem place_of_lt {rows columns i j : Nat} (rowCount : rows = 1 ∨ rows = R)
    (columnCount : columns = 1 ∨ columns = C) (row : i < rows) (column : j < columns) : Place R C i j :=
  ⟨by omega, by omega⟩

theorem ofFnM_tracks {rows columns : Nat} {f : Nat → Nat → Except Failure Scalar}
    (rowCount : rows = 1 ∨ rows = R) (columnCount : columns = 1 ∨ columns = C)
    (each : ∀ i j, Place R C i j → ∃ z, w i j = .ok z ∧ result.Holds z
      ∧ (Has rows i → Has columns j → f (pin rows i) (pin columns j) = .ok z)) :
    ∃ l, ofFnM rows columns f = .ok l ∧ Tracks R C result l w := by
  obtain ⟨l, built, rfl, rfl, size, value⟩ := @ofFnM_ok rows columns f (fun i row j column => by
    obtain ⟨z, -, -, known⟩ := each i j (place_of_lt rowCount columnCount row column)
    have here := known (.inr row) (.inr column)
    rw [pin_of_lt row, pin_of_lt column] at here
    exact ⟨z, here⟩)
  refine ⟨l, built, rowCount, columnCount, size, fun i j place => ?_⟩
  obtain ⟨z, follows, holds, known⟩ := each i j place
  refine ⟨z, follows, holds, fun hasRow hasColumn => ?_⟩
  have here := known hasRow hasColumn
  rw [value i j hasRow hasColumn] at here
  exact Except.ok.inj here

theorem Tracks.congr {l : Lanes} (tracks : Tracks R C kind l v)
    (same : ∀ i j, Place R C i j → v i j = w i j) : Tracks R C kind l w where
  rows := tracks.rows
  columns := tracks.columns
  size := tracks.size
  value i j place := by
    rw [← same i j place]
    exact tracks.value i j place

theorem Tracks.widen {l : Lanes} (tracks : Tracks R 1 kind l v) (n : Nat) :
    Tracks R n kind l fun i _ => v i 0 where
  rows := tracks.rows
  columns := .inl (or_self_iff.1 tracks.columns)
  size := tracks.size
  value i j place := by
    obtain ⟨x, known, holds, cell⟩ := tracks.value i 0 ⟨place.row, by decide⟩
    have single : l.columns = 1 := or_self_iff.1 tracks.columns
    refine ⟨x, known, holds, fun hasRow _ => ?_⟩
    rw [← cell hasRow (.inl single), get_eq, get_eq, pin, pin, single, if_pos rfl]
    rfl

theorem tracks_uniform {x : Scalar} (holds : kind.Holds x) :
    Tracks R C kind (uniform x) fun _ _ => .ok x :=
  ⟨.inl rfl, .inl rfl, rfl, fun _ _ _ => ⟨x, rfl, holds, fun _ _ => rfl⟩⟩

theorem getElem?_numbers {n k : Nat} (bound : k < n) : (numbers n)[k]? = some (.int (wrap32 k)) := by
  rw [numbers, Array.getElem?_map, Array.getElem?_range, if_pos bound]
  rfl

theorem getElem?_numbers_few {n k : Nat} (few : n ≤ 0x80000000) (bound : k < n) :
    (numbers n)[k]? = some (.int k) := by
  rw [getElem?_numbers bound, wrap32_of_range (by omega) (by omega)]

theorem size_numbers (n : Nat) : (numbers n).size = n := by
  simp [numbers]

theorem tracks_ofColumn (few : R ≤ 0x80000000) :
    Tracks R C .int32 (ofColumn (numbers R)) fun i _ => .ok (.int i) where
  rows := .inr (size_numbers R)
  columns := .inl rfl
  size := (Nat.mul_one _).symm
  value i j place := by
    have row := place.row
    refine ⟨_, rfl, ⟨i, rfl, by omega, by omega⟩, fun has _ => ?_⟩
    have bound : i < R := lt_of_has (size_numbers R ▸ has) row
    rw [get_eq, ofColumn, size_numbers, pin_of_lt bound]
    show ((numbers R)[i * 1 + 0]?).getD default = _
    rw [Nat.mul_one, Nat.add_zero, getElem?_numbers_few few bound]
    rfl

theorem tracks_ofRow (few : C ≤ 0x80000000) :
    Tracks R C .int32 (ofRow (numbers C)) fun _ j => .ok (.int j) where
  rows := .inl rfl
  columns := .inr (size_numbers C)
  size := (Nat.one_mul _).symm
  value i j place := by
    have column := place.column
    refine ⟨_, rfl, ⟨j, rfl, by omega, by omega⟩, fun _ has => ?_⟩
    have bound : j < C := lt_of_has (size_numbers C ▸ has) column
    rw [get_eq, ofRow, size_numbers, pin_of_lt bound]
    show ((numbers C)[0 * C + j]?).getD default = _
    rw [Nat.zero_mul, Nat.zero_add, getElem?_numbers_few few bound]
    rfl

/-! ## Stretching -/

section Stretched

variable {a b extent : Nat}

theorem narrow_left (single : stretched a b = 1) : a = 1 := by
  unfold stretched at single
  split at single <;> assumption

theorem narrow_right (single : stretched a b = 1) : b = 1 := by
  unfold stretched at single
  split at single
  · exact single
  · contradiction

theorem stretched_counts (countsLeft : a = 1 ∨ a = extent) (countsRight : b = 1 ∨ b = extent) :
    stretched a b = 1 ∨ stretched a b = extent := by
  unfold stretched
  split
  · exact countsRight
  · exact countsLeft

theorem has_left {place : Nat} (has : Has (stretched a b) place) : Has a place := by
  unfold stretched at has
  split at has
  · next one => exact .inl one
  · exact has

theorem has_right (countsLeft : a = 1 ∨ a = extent) (countsRight : b = 1 ∨ b = extent) {place : Nat}
    (has : Has (stretched a b) place) : Has b place := by
  unfold stretched at has
  split at has
  · exact has
  · next several => exact has_of_counts countsRight (countsLeft.resolve_left several ▸ has)

end Stretched

/-! ## Functions of corresponding values -/

variable {a b c : Lanes} {k₁ k₂ k₃ : Element} {v₁ v₂ v₃ : Nat → Nat → Except Failure Scalar}

theorem map_tracks {f : Scalar → Except Failure Scalar} (operand : Tracks R C k₁ a v₁)
    (each : ∀ i j x, Place R C i j → v₁ i j = .ok x → k₁.Holds x →
      ∃ z, f x = .ok z ∧ w i j = .ok z ∧ result.Holds z) :
    ∃ l, a.map f = .ok l ∧ Tracks R C result l w := by
  refine ofFnM_tracks operand.rows operand.columns fun i j place => ?_
  obtain ⟨x, known, holds, cell⟩ := operand.value i j place
  obtain ⟨z, image, follows, holds'⟩ := each i j x place known holds
  refine ⟨z, follows, holds', fun hasRow hasColumn => ?_⟩
  rw [get_pin id id, cell hasRow hasColumn, image]

theorem zip_tracks {f : Scalar → Scalar → Except Failure Scalar} (left : Tracks R C k₁ a v₁)
    (right : Tracks R C k₂ b v₂)
    (each : ∀ i j x y, Place R C i j → v₁ i j = .ok x → k₁.Holds x → v₂ i j = .ok y →
      k₂.Holds y → ∃ z, f x y = .ok z ∧ w i j = .ok z ∧ result.Holds z) :
    ∃ l, a.zip f b = .ok l ∧ Tracks R C result l w := by
  refine ofFnM_tracks (stretched_counts left.rows right.rows) (stretched_counts left.columns right.columns)
    fun i j place => ?_
  obtain ⟨x, known, holds, cell⟩ := left.value i j place
  obtain ⟨y, known', holds', cell'⟩ := right.value i j place
  obtain ⟨z, image, follows, holds''⟩ := each i j x y place known holds known' holds'
  refine ⟨z, follows, holds'', fun hasRow hasColumn => ?_⟩
  rw [get_pin narrow_left narrow_left, get_pin narrow_right narrow_right,
    cell (has_left hasRow) (has_left hasColumn),
    cell' (has_right left.rows right.rows hasRow) (has_right left.columns right.columns hasColumn), image]

theorem zip3_tracks {f : Scalar → Scalar → Scalar → Except Failure Scalar} (first : Tracks R C k₁ a v₁)
    (second : Tracks R C k₂ b v₂) (third : Tracks R C k₃ c v₃)
    (each : ∀ i j x y z, Place R C i j → v₁ i j = .ok x → k₁.Holds x → v₂ i j = .ok y →
      k₂.Holds y → v₃ i j = .ok z → k₃.Holds z →
        ∃ u, f x y z = .ok u ∧ w i j = .ok u ∧ result.Holds u) :
    ∃ l, zip3 f a b c = .ok l ∧ Tracks R C result l w := by
  have rows := stretched_counts first.rows second.rows
  have columns := stretched_counts first.columns second.columns
  refine ofFnM_tracks (stretched_counts rows third.rows) (stretched_counts columns third.columns)
    fun i j place => ?_
  obtain ⟨x, known, holds, cell⟩ := first.value i j place
  obtain ⟨y, known', holds', cell'⟩ := second.value i j place
  obtain ⟨z, known'', holds'', cell''⟩ := third.value i j place
  obtain ⟨u, image, follows, holdsResult⟩ :=
    each i j x y z place known holds known' holds' known'' holds''
  refine ⟨u, follows, holdsResult, fun hasRow hasColumn => ?_⟩
  rw [get_pin (fun one => narrow_left (narrow_left one)) (fun one => narrow_left (narrow_left one)),
    get_pin (fun one => narrow_right (narrow_left one)) (fun one => narrow_right (narrow_left one)),
    get_pin narrow_right narrow_right,
    cell (has_left (has_left hasRow)) (has_left (has_left hasColumn)),
    cell' (has_right first.rows second.rows (has_left hasRow))
      (has_right first.columns second.columns (has_left hasColumn)),
    cell'' (has_right rows third.rows hasRow) (has_right columns third.columns hasColumn), image]

theorem Tracks.cell {l : Lanes} (tracks : Tracks R C kind l v) {x : Scalar} (member : x ∈ l.cells) :
    ∃ i j, Place R C i j ∧ v i j = .ok x ∧ kind.Holds x := by
  obtain ⟨i, j, row, column, rfl⟩ := exists_get tracks.size member
  have place := place_of_lt tracks.rows tracks.columns row column
  obtain ⟨x, known, holds, cell⟩ := tracks.value i j place
  rw [cell (.inr row) (.inr column)]
  exact ⟨i, j, place, known, holds⟩

/-! ## Ranges -/

theorem mem_wholes {l : Lanes} {n : Int} :
    n ∈ l.cells.toList.filterMap Scalar.whole? ↔ ∃ x ∈ l.cells, x.whole? = some n := by
  simp only [List.mem_filterMap, Array.mem_toList_iff]

/-- The range of integers between two bounds is between them. -/
theorem range_bounds {l : Lanes} {limit : Int}
    (each : ∀ x ∈ l.cells, ∃ n, x.whole? = some n ∧ 0 ≤ n ∧ n < limit) (limited : 0 ≤ limit) :
    0 ≤ l.range.1 ∧ l.range.2 < limit := by
  have bounds : ∀ n ∈ l.cells.toList.filterMap Scalar.whole?, 0 ≤ n ∧ n < limit := by
    intro n member
    obtain ⟨x, cell, whole⟩ := mem_wholes.1 member
    obtain ⟨m, number, inside⟩ := each x cell
    rw [whole] at number
    cases number
    exact inside
  constructor
  · show 0 ≤ ((l.cells.toList.filterMap Scalar.whole?).min?).getD 0
    cases least : (l.cells.toList.filterMap Scalar.whole?).min? with
    | none => exact Int.le_refl 0
    | some n => exact (bounds n (List.min?_mem least)).1
  · show ((l.cells.toList.filterMap Scalar.whole?).max?).getD (-1) < limit
    cases greatest : (l.cells.toList.filterMap Scalar.whole?).max? with
    | none =>
      show -1 < limit
      omega
    | some n => exact (bounds n (List.max?_mem greatest)).2

/-- Every integer of a grid is in its range. -/
theorem mem_range {l : Lanes} {x : Scalar} (cell : x ∈ l.cells) {n : Int} (whole : x.whole? = some n) :
    l.range.1 ≤ n ∧ n ≤ l.range.2 := by
  have member := mem_wholes.2 ⟨x, cell, whole⟩
  constructor
  · show ((l.cells.toList.filterMap Scalar.whole?).min?).getD 0 ≤ n
    cases least : (l.cells.toList.filterMap Scalar.whole?).min? with
    | none =>
      rw [List.min?_eq_none_iff] at least
      rw [least] at member
      cases member
    | some m => exact (List.min?_eq_some_iff.1 least).2 n member
  · show n ≤ ((l.cells.toList.filterMap Scalar.whole?).max?).getD (-1)
    cases greatest : (l.cells.toList.filterMap Scalar.whole?).max? with
    | none =>
      rw [List.max?_eq_none_iff] at greatest
      rw [greatest] at member
      cases member
    | some m => exact (List.max?_eq_some_iff.1 greatest).2 n member

end StridedArray.Lanes
