import StridedArray.Proofs.Lanes.Simulation
import StridedArray.Proofs.Layout.Guard

/-! # Reads through layouts, at all positions at once

A read through a layout is lowered to a guarded read at offsets, and both branches of the guard are
evaluated for every position. Padding reads offset 0, so the buffer needs an element there, unless the
guard is a constant and the read is not built at all.

* `Expr.Arithmetic.lanesWith_tracks` — arithmetic on the positions;
* `Expr.placeOf_bounds` — the offset that a position is read at is inside of the buffer, padding or not;
* `Expr.readLanes_tracks` — reads through an accepted layout; `Expr.readsThrough_readLanes` — they follow
  the reads at single positions;
* `Expr.lower_inside` — the guard is sufficient. -/

namespace StridedArray

open Shape (unravel)

theorem Element.holds_decode {kind : Element} {bytes : Bytes} : ∀ x ∈ kind.decode bytes, kind.Holds x := by
  intro x member
  obtain ⟨k, -, rfl⟩ := Array.mem_ofFn.1 member
  cases kind with
  | bool => exact ⟨_, rfl⟩
  | int32 => exact ⟨_, rfl, word_wrap32 _⟩
  | float32 =>
    show (singleOfWord _).whole? = none
    unfold singleOfWord
    dsimp only
    split <;> rfl

namespace Expr

open Lanes (Place Points Tracks)

variable {buffers : Buffers} {slot : Int} {kind : Element} {l : Layout} {elements : Array Scalar}
  {R C : Nat} {index : Lanes} {v : Nat → Nat → Except Failure Scalar}

/-! ## Arithmetic on positions -/

theorem Arithmetic.unfailing {i e : Expr} (shape : Arithmetic i e) {env : Environment} {position : Option Int}
    (unfailing : Unfailing env buffers i position) : Unfailing env buffers e position := by
  induction shape with
  | position => exact unfailing
  | number => trivial
  | truth => trivial
  | operation op total _ _ _ _ _ left right =>
    exact ⟨left, right, fun divides => absurd divides (not_or.2 total)⟩
  | division _ positive _ _ _ left =>
    refine ⟨left, trivial, fun _ m n _ divisor => ?_⟩
    cases divisor
    omega
  | choice _ _ _ _ _ _ condition left right => exact ⟨condition, left, right⟩

/-- The points at which a lowered read is evaluated: its variable has the positions as values. -/
def positionPoints (R C : Nat) (v : Nat → Nat → Except Failure Scalar) : Points where
  rows := R
  columns := C
  env i j name :=
    if name = positionIndex then
      match v i j with
      | .ok x => x.whole?
      | .error _ => none
    else none
  position _ _ := none

theorem values_position (buffers : Buffers) (size : Int) {i j : Nat} {p : Int} (known : v i j = .ok (.int p)) :
    (positionPoints R C v).values buffers (special positionIndex size) i j = .ok (.int p) := by
  rw [Points.values, valueAt, if_neg (by decide)]
  unfold positionPoints
  dsimp only
  rw [if_pos rfl, known]
  rfl

/-- Arithmetic on positions, for all of them at once. -/
theorem Arithmetic.lanesWith_tracks [Room] {size : Int} {e : Expr} (shape : Arithmetic (special positionIndex size) e)
    (buffers : Buffers) (tracks : index.Tracks R C .int32 v) :
    ∃ grid, e.lanesWith noLayoutRead buffers (atPositions index) = .ok grid
      ∧ grid.Tracks R C e.kind ((positionPoints R C v).values buffers e) := by
  have bound : Bound (atPositions index) buffers true (positionPoints R C v) (special positionIndex size) := by
    refine fun _ => ⟨index, if_pos rfl, tracks.congr fun i j place => ?_⟩
    obtain ⟨x, known, ⟨p, rfl, -⟩, -⟩ := tracks.value i j place
    rw [known, values_position buffers size known]
  have prepared : Prepared noLayoutRead buffers (atPositions index) true (positionPoints R C v) e :=
    { typed := shape.typed (every_special.2 trivial)
      integral := shape.integral (every_special.2 nofun)
      served := shape.every (every_special.2 trivial) fun node _ _ plain => by cases node <;> trivial
      scope := shape.scope (scoped_special.2 fun _ => rfl)
      bound := shape.every (every_special.2 bound) fun node _ _ plain => by cases node <;> trivial
      outer := nofun }
  exact Expr.lanesWith_tracks prepared fun i j _ => shape.unfailing trivial

/-! ## Guarded reads -/

theorem chosen_tracks [Room] {readLayout : LayoutRead} {env : LaneEnvironment} {c a b : Expr}
    {v₁ v₂ v₃ w : Nat → Nat → Except Failure Scalar}
    (condition : ∃ grid, c.lanesWith readLayout buffers env = .ok grid ∧ grid.Tracks R C .bool v₁)
    (left : ∃ grid, a.lanesWith readLayout buffers env = .ok grid ∧ grid.Tracks R C kind v₂)
    (right : ∃ grid, b.lanesWith readLayout buffers env = .ok grid ∧ grid.Tracks R C kind v₃)
    (each : ∀ i j x y z, Place R C i j → v₁ i j = .ok x → v₂ i j = .ok y → v₃ i j = .ok z →
      w i j = .ok (if x.truthy then y else z)) :
    ∃ grid, (chosen c a b).lanesWith readLayout buffers env = .ok grid ∧ grid.Tracks R C kind w := by
  obtain ⟨gridCondition, evaluatedCondition, tracksCondition⟩ := condition
  obtain ⟨gridLeft, evaluatedLeft, tracksLeft⟩ := left
  obtain ⟨gridRight, evaluatedRight, tracksRight⟩ := right
  unfold chosen
  split
  · next k x d =>
    cases evaluatedCondition
    -- The constant is the value of the condition at every place.
    have branch : ∀ i j, Place R C i j → ∃ y z, v₂ i j = .ok y ∧ v₃ i j = .ok z
        ∧ w i j = .ok (if x.truthy then y else z) := by
      intro i j place
      obtain ⟨t, known, -, cell⟩ := tracksCondition.value i j place
      obtain ⟨y, knownLeft, -, -⟩ := tracksLeft.value i j place
      obtain ⟨z, knownRight, -, -⟩ := tracksRight.value i j place
      obtain rfl : x = t := cell (.inl rfl) (.inl rfl)
      exact ⟨y, z, knownLeft, knownRight, each i j x y z place known knownLeft knownRight⟩
    cases holds : x.truthy with
    | true =>
      refine ⟨gridLeft, evaluatedLeft, tracksLeft.congr fun i j place => ?_⟩
      obtain ⟨y, z, knownLeft, -, result⟩ := branch i j place
      rw [knownLeft, result, holds]
      rfl
    | false =>
      refine ⟨gridRight, evaluatedRight, tracksRight.congr fun i j place => ?_⟩
      obtain ⟨y, z, -, knownRight, result⟩ := branch i j place
      rw [knownRight, result, holds]
      rfl
  · rw [lanesWith, evaluatedCondition, ok_bind, evaluatedLeft, ok_bind, evaluatedRight, ok_bind]
    refine Lanes.zip3_tracks tracksCondition tracksLeft tracksRight
      fun i j x y z place known _ knownLeft holdsLeft knownRight holdsRight => ?_
    refine ⟨_, rfl, each i j x y z place known knownLeft knownRight, ?_⟩
    split
    · exact holdsLeft
    · exact holdsRight

def placeOf (l : Layout) (p : Int) : Int := ((l.offsetOf? (unravel p l.shape)).map wrap32).getD 0

/-- The offset that a position is read at is inside of the buffer, padding or not, as soon as the buffer has
    an element. -/
theorem placeOf_bounds (addressable : l.Addressable) (ranks : l.base.ranges.length = l.base.shape.length)
    {count : Nat} (reaches : l.ReachesInside count) (few : count < 0x80000000) (several : 0 < count) {p : Int}
    (low : 0 ≤ p) (high : p < l.size) :
    0 ≤ placeOf l p ∧ placeOf l p < count
      ∧ ∀ a, l.offsetOf? (unravel p l.shape) = some a → placeOf l p = a := by
  unfold placeOf
  have address := addressable.addressFlat_eq low high
  cases known : l.offsetOf? (unravel p l.shape) with
  | none => exact ⟨Int.le_refl 0, Int.natCast_pos.2 several, nofun⟩
  | some a =>
    rw [known] at address
    obtain ⟨least, most⟩ := reaches.address_bounds addressable ranks address
    have same : wrap32 a = a := wrap32_of_range (by omega) (by omega)
    rw [Option.map_some, Option.getD_some, same]
    exact ⟨least, most, fun b found => Option.some.inj found⟩

/-- What is read at a position: zero for padding, and an element of the buffer elsewhere. -/
def shownAt (elements : Array Scalar) (kind : Element) (l : Layout) (p : Int) : Scalar :=
  match l.offsetOf? (unravel p l.shape) with
  | none => kind.zero
  | some a => elementOrZero elements kind (.int a)

theorem shownAt_padding {p : Int} (padding : l.offsetOf? (unravel p l.shape) = none) :
    shownAt elements kind l p = kind.zero := by
  rw [shownAt, padding]

theorem shownAt_address {p a : Int} (address : l.offsetOf? (unravel p l.shape) = some a) :
    shownAt elements kind l p = elementOrZero elements kind (.int a) := by
  rw [shownAt, address]

theorem guarded_tracks [Room] (addressable : l.Addressable) (ranks : l.base.ranges.length = l.base.shape.length)
    (reaches : l.ReachesInside elements.size) (few : elements.size < 0x80000000)
    (buffer : buffers slot = some elements) (holds : ∀ x ∈ elements, kind.Holds x)
    (tracks : index.Tracks R C .int32 v)
    (inside : ∀ i j p, Place R C i j → v i j = .ok (.int p) → 0 ≤ p ∧ p < l.size) :
    ∃ low out, guardedLoad slot kind l (special positionIndex l.size) = .ok low
      ∧ low.lanesWith noLayoutRead buffers (atPositions index) = .ok out
      ∧ out.Tracks R C kind fun i j =>
          v i j >>= fun place => .ok (shownAt elements kind l (place.whole?.getD 0)) := by
  obtain ⟨offset, valid, place, built, address, validShape, placeShape, validKind, placeKind, values⟩ :=
    guardedLoad_eq addressable (i := special positionIndex l.size) nofun rfl slot kind
  -- At every place there is a position, where the condition and the offset have their values.
  have spots : ∀ i j, Place R C i j → ∃ p, 0 ≤ p ∧ p < l.size ∧ v i j = .ok (.int p)
      ∧ (positionPoints R C v).values buffers valid i j
        = .ok (.bool (l.offsetOf? (unravel p l.shape)).isSome)
      ∧ (positionPoints R C v).values buffers place i j = .ok (.int (placeOf l p)) := by
    intro i j spot
    obtain ⟨x, known, ⟨p, rfl, -⟩, -⟩ := tracks.value i j spot
    obtain ⟨low, high⟩ := inside i j p spot known
    have start := values_position (R := R) (C := C) buffers l.size known
    obtain ⟨decides, computes⟩ := values p low high
    obtain ⟨y, placed, whole⟩ := computes.value start rfl
    obtain ⟨n, rfl⟩ := placeShape.int_value placeKind start placed
    cases whole
    exact ⟨p, low, high, known, decides.value start rfl, placed⟩
  rcases reaches.condition_or_element addressable ranks address with rfl | several
  · -- All is padding, and the read is not built at all.
    refine ⟨_, _, built, rfl, (Lanes.tracks_uniform (Element.holds_zero kind)).congr fun i j spot => ?_⟩
    obtain ⟨p, -, -, known, condition, -⟩ := spots i j spot
    have padding : (l.offsetOf? (unravel p l.shape)).isSome = false :=
      (Scalar.bool.inj (Except.ok.inj condition)).symm
    rw [known]
    exact congrArg Except.ok (shownAt_padding (p := p) (by simpa using padding)).symm
  · obtain ⟨gridPlace, evaluatedPlace, tracksPlace⟩ := placeShape.lanesWith_tracks buffers tracks
    rw [placeKind] at tracksPlace
    obtain ⟨gridLoad, loaded, tracksLoad⟩ := loadLanes_tracks buffer holds tracksPlace
      (fun i j n spot offset => by
        obtain ⟨p, low, high, -, -, placed⟩ := spots i j spot
        rw [placed] at offset
        cases offset
        obtain ⟨least, most, -⟩ := placeOf_bounds addressable ranks reaches few several low high
        exact ⟨least, most⟩)
    have conditions := validShape.lanesWith_tracks buffers tracks
    rw [validKind] at conditions
    obtain ⟨out, evaluated, follows⟩ := chosen_tracks (a := load slot kind place)
      (b := const kind kind.zero) conditions
      ⟨gridLoad, by rw [lanesWith, evaluatedPlace, ok_bind, loaded], tracksLoad⟩
      ⟨_, rfl, Lanes.tracks_uniform (Element.holds_zero kind)⟩ (w := fun i j =>
        v i j >>= fun place => .ok (shownAt elements kind l (place.whole?.getD 0))) (by
        intro i j x y z spot condition read zero
        obtain ⟨p, low, high, known, decided, placed⟩ := spots i j spot
        rw [decided] at condition
        cases condition
        rw [placed] at read
        cases read
        cases zero
        rw [known]
        show Except.ok (shownAt elements kind l p) = _
        cases found : l.offsetOf? (unravel p l.shape) with
        | none => rw [shownAt_padding found]; rfl
        | some a =>
          obtain ⟨-, -, same⟩ := placeOf_bounds addressable ranks reaches few several low high
          rw [shownAt_address found, same a found]
          rfl)
    exact ⟨_, out, built, evaluated, follows⟩

theorem checkPositions_ok (natural : 0 ≤ l.size) (tracks : index.Tracks R C .int32 v)
    (inside : ∀ i j p, Place R C i j → v i j = .ok (.int p) → 0 ≤ p ∧ p < l.size) :
    checkPositions slot l index = .ok () := by
  unfold checkPositions
  cases index.isEmpty with
  | true => rfl
  | false =>
    obtain ⟨least, most⟩ := @Lanes.range_bounds index l.size (fun x member => by
      obtain ⟨i, j, place, here, p, rfl, -⟩ := tracks.cell member
      exact ⟨p, rfl, inside i j p place here⟩) natural
    show (if index.range.1 < 0 ∨ l.size ≤ index.range.2 then _ else _) = _
    rw [if_neg (by omega)]
    rfl

/-- Reads through an accepted layout succeed wherever the positions are in range, and give zero for padding
    and elements of the buffer elsewhere. -/
theorem readLanes_tracks [Room] (addressable : l.Addressable) (ranks : l.base.ranges.length = l.base.shape.length)
    (reaches : l.ReachesInside elements.size) (few : elements.size < 0x80000000)
    (buffer : buffers slot = some elements) (holds : ∀ x ∈ elements, kind.Holds x)
    (tracks : index.Tracks R C .int32 v)
    (inside : ∀ i j p, Place R C i j → v i j = .ok (.int p) → 0 ≤ p ∧ p < l.size) :
    ∃ out, readLanes buffers slot kind l index = .ok out
      ∧ out.Tracks R C kind fun i j =>
          v i j >>= fun place => .ok (shownAt elements kind l (place.whole?.getD 0)) := by
  obtain ⟨low, out, lowered, evaluated, follows⟩ :=
    guarded_tracks addressable ranks reaches few buffer holds tracks inside
  refine ⟨out, ?_, follows⟩
  rw [readLanes, checkPositions_ok (Int.le_of_lt addressable.positive.product_pos) tracks inside, ok_bind,
    show loweredRead slot kind l = .ok low from lowered, ok_bind, evaluated]

/-- Reads through an accepted layout follow the reads at single positions. -/
theorem readsThrough_readLanes [Room] (addressable : l.Addressable) (ranks : l.base.ranges.length = l.base.shape.length)
    (reaches : l.ReachesInside elements.size) (few : elements.size < 0x80000000)
    (buffer : buffers slot = some elements) (holds : ∀ x ∈ elements, kind.Holds x)
    (integral : kind ≠ .float32) : ReadsThrough (readLanes buffers) buffers slot kind l := by
  intro R C index v tracks inside
  obtain ⟨out, read, follows⟩ := readLanes_tracks addressable ranks reaches few buffer holds tracks inside
  refine ⟨out, read, follows.congr fun i j place => ?_⟩
  obtain ⟨x, known, ⟨p, rfl, -⟩, -⟩ := tracks.value i j place
  obtain ⟨low, high⟩ := inside i j p place known
  have address := addressable.addressFlat_eq low high
  rw [known, ok_bind, ok_bind, readAt, Scalar.within_whole rfl, decide_eq_true low, decide_eq_true high]
  show Except.ok (shownAt elements kind l p) = (l.addressFlat p >>= fun address => _)
  rw [address, ok_bind]
  cases found : l.offsetOf? (unravel p l.shape) with
  | none => rw [shownAt_padding found]; rfl
  | some a =>
    rw [found] at address
    obtain ⟨least, most⟩ := reaches.address_bounds addressable ranks address
    show _ = (elementAt buffers slot (.int a) >>= kind.coerce)
    rw [shownAt_address found, elementAt_inside buffer least most kind, ok_bind,
      (holds_elementOrZero holds _).coerce_eq integral]

/-! ## The guard -/

/-- The nodes of a guarded read: what reads at an offset was there before, or is the read itself, with an
    offset inside of the buffer at every position. -/
theorem guarded_loads {i low : Expr} (typed : Typed i) (whole : i.kind = .int32) (addressable : l.Addressable)
    (ranks : l.base.ranges.length = l.base.shape.length) {count : Nat} (reaches : l.ReachesInside count)
    (few : count < 0x80000000) (built : guardedLoad slot kind l i = .ok low) :
    Every (fun node => ∀ slot' kind' place, node = load slot' kind' place → node ∈ i.postorder
      ∨ slot' = slot ∧ ∀ env buffers position p, i.valueAt env buffers position = .ok (.int p) → 0 ≤ p →
          p < l.size → ∃ n, place.valueAt env buffers position = .ok (.int n) ∧ 0 ≤ n ∧ n < count) low := by
  obtain ⟨offset, valid, place, form, address, validShape, placeShape, -, placeKind, values⟩ :=
    guardedLoad_eq addressable typed.self.foldable whole slot kind
  rw [form] at built
  cases built
  rcases reaches.condition_or_element addressable ranks address with rfl | several
  -- Under a condition that does not hold, zero is left of the read.
  · exact every_const.2 nofun
  · refine every_chosen (validShape.every (fun node member _ _ _ _ => .inl member) ?_)
      (every_load.2 ⟨placeShape.every (fun node member _ _ _ _ => .inl member) ?_, ?_⟩)
      (every_const.2 nofun) nofun
    · rintro node - - plain slot' kind' place' rfl
      cases plain
    · rintro node - - plain slot' kind' place' rfl
      cases plain
    · rintro slot' kind' place' ⟨⟩
      refine .inr ⟨rfl, fun env buffers position p known low high => ?_⟩
      obtain ⟨least, most, -⟩ := placeOf_bounds addressable ranks reaches few several low high
      obtain ⟨y, placed, number⟩ := (values p low high).2.value known rfl
      obtain ⟨n, rfl⟩ := placeShape.int_value placeKind known placed
      cases number
      exact ⟨_, placed, least, most⟩

theorem tracks_of_checkPositions {grid : Lanes} (addressable : l.Addressable)
    (size : grid.cells.size = grid.rows * grid.columns) (integers : ∀ x ∈ grid.cells, ∃ n, x = .int n)
    (accepted : checkPositions slot l grid = .ok ()) :
    ∃ v, grid.Tracks grid.rows grid.columns .int32 v
      ∧ ∀ i j p, Place grid.rows grid.columns i j → v i j = .ok (.int p) → 0 ≤ p ∧ p < l.size := by
  have positive : 0 < l.size := addressable.positive.product_pos
  have small : l.size < 0x80000000 := (addressable.views l.top (List.mem_cons_self ..)).small
  have positions : ∀ i j, i < grid.rows → j < grid.columns →
      ∃ n, grid.get i j = .int n ∧ 0 ≤ n ∧ n < l.size := by
    intro i j row column
    have member : grid.get i j ∈ grid.cells := by
      have bound := Lanes.cell_bound row column
      rw [Lanes.get_eq, Lanes.pin_of_lt row, Lanes.pin_of_lt column,
        Array.getElem?_eq_getElem (by rwa [size])]
      exact Array.getElem_mem _
    obtain ⟨n, known⟩ := integers _ member
    have several : grid.isEmpty = false := by
      rw [Lanes.isEmpty, Bool.or_eq_false_iff, decide_eq_false_iff_not, decide_eq_false_iff_not]
      omega
    obtain ⟨least, most⟩ := Lanes.mem_range member (show (grid.get i j).whole? = some n by rw [known]; rfl)
    rw [checkPositions, several] at accepted
    change (if grid.range.1 < 0 ∨ l.size ≤ grid.range.2 then _ else _) = _ at accepted
    split at accepted
    · cases accepted
    · exact ⟨n, known, by omega, by omega⟩
  -- Beyond the grid the function may be anything, say the first position.
  refine ⟨fun i j => .ok (if i < grid.rows ∧ j < grid.columns then grid.get i j else .int 0),
    ⟨.inr rfl, .inr rfl, size, fun i j place => ?_⟩, fun i j p _ known => ?_⟩
  · refine ⟨_, rfl, ?_, fun hasRow hasColumn => ?_⟩
    · split
      · next covered =>
        obtain ⟨n, known, low, high⟩ := positions i j covered.1 covered.2
        exact ⟨n, known, by omega, by omega⟩
      · exact ⟨0, rfl, by decide⟩
    · rw [if_pos ⟨Lanes.lt_of_has hasRow place.row, Lanes.lt_of_has hasColumn place.column⟩]
  · have cell := Except.ok.inj known
    split at cell
    · next covered =>
      obtain ⟨n, number, bounds⟩ := positions i j covered.1 covered.2
      rw [number] at cell
      cases cell
      exact bounds
    · cases cell
      exact ⟨Int.le_refl 0, positive⟩

/-- The guard of a read is sufficient. If the read is accepted for a buffer, then after lowering every offset
    that it reads at is inside of the buffer for every position in range, padding or not; and at all
    positions at once it succeeds as soon as these are checked. -/
theorem lower_inside [Room] {index : Expr} {bytes : Bytes} {evaluated : Bool}
    (typed : Typed (accessor slot kind l index)) (addressable : l.Addressable)
    (ranks : l.base.ranges.length = l.base.shape.length) (addressed : Addressed index)
    (accepted : checkRead (accessor slot kind l index) bytes.size evaluated = .ok ())
    (few : bytes.size / kind.itemSize < 0x80000000) :
    ∃ i low, index.lower = .ok i ∧ (accessor slot kind l index).lower = .ok low
      ∧ (∀ slot' kind' place, load slot' kind' place ∈ low.postorder → load slot' kind' place ∈ i.postorder
          ∨ slot' = slot ∧ ∀ env buffers position p, i.valueAt env buffers position = .ok (.int p) →
              0 ≤ p → p < l.size → ∃ n, place.valueAt env buffers position = .ok (.int n)
                ∧ 0 ≤ n ∧ n < (bytes.size / kind.itemSize : Nat))
      ∧ ∀ buffers grid, buffers slot = some (kind.decode bytes) →
          grid.cells.size = grid.rows * grid.columns → (∀ x ∈ grid.cells, ∃ n, x = .int n) →
          checkPositions slot l grid = .ok () → ∃ out, readLanes buffers slot kind l grid = .ok out := by
  obtain ⟨typedIndex, whole⟩ := every_accessor.1 typed
  obtain ⟨i, lowered, lowers⟩ := lower_lowers typedIndex addressed
  obtain ⟨low, built, -⟩ := guardedLoad_lowers slot kind addressable whole lowers
  have reaches := Layout.reachesInside_of_checkReach (Layout.checkReach_of_checkRead accepted)
  refine ⟨i, low, lowered, bind_eq_ok.2 ⟨i, lowered, built⟩, fun slot' kind' place member => ?_,
    fun buffers grid buffer size integers positions => ?_⟩
  · exact guarded_loads lowers.typed (lowers.kind.trans whole) addressable ranks reaches few built _ member _ _
      _ rfl
  · obtain ⟨v, tracks, inside⟩ := tracks_of_checkPositions addressable size integers positions
    rw [← Element.size_decode] at reaches few
    obtain ⟨out, read, -⟩ :=
      readLanes_tracks addressable ranks reaches few buffer Element.holds_decode tracks inside
    exact ⟨out, read⟩

/-- All six positions of the padded rows are read inside of four elements, the first and the last one too. -/
theorem lower_inside_paddedRows :
    (Typed (accessor 0 .int32 Layout.paddedRows (outputPosition 6)) ∧ Layout.paddedRows.Addressable
      ∧ Layout.paddedRows.base.ranges.length = Layout.paddedRows.base.shape.length
      ∧ Addressed (outputPosition 6)
      ∧ checkRead (accessor 0 .int32 Layout.paddedRows (outputPosition 6)) (bytesOf [1, 2, 3, 4]).size true
        = .ok ()
      ∧ (bytesOf [1, 2, 3, 4]).size / Element.int32.itemSize < 0x80000000)
    ∧ ∃ low, (accessor 0 .int32 Layout.paddedRows (outputPosition 6)).lower = .ok low
      ∧ (∀ place, load 0 .int32 place ∈ low.postorder → ∀ p : Nat, p < 6 →
          ∃ n, place.valueAt (atOutput p) (fun _ => none) none = .ok (.int n) ∧ 0 ≤ n ∧ n < 4)
      ∧ ∃ out, readLanes (fun _ => some (Element.int32.decode (bytesOf [1, 2, 3, 4]))) 0 .int32
          Layout.paddedRows (.ofColumn (Lanes.numbers 6)) = .ok out := by
  have typed : Typed (accessor 0 .int32 Layout.paddedRows (outputPosition 6)) :=
    every_accessor.2 ⟨every_special.2 trivial, rfl⟩
  have addressed : Addressed (outputPosition 6) := every_special.2 nofun
  have accepted : checkRead (accessor 0 .int32 Layout.paddedRows (outputPosition 6))
      (bytesOf [1, 2, 3, 4]).size true = .ok () := by
    rw [size_bytesOf]
    show checkReach 0 Layout.paddedRows (outputPosition 6) 4 true = _
    unfold checkReach
    rw [boundsShared_eq]
    rfl
  have few : (bytesOf [1, 2, 3, 4]).size / Element.int32.itemSize < 0x80000000 := by
    rw [size_bytesOf]
    decide
  obtain ⟨i, low, lowered, built, loads, reads⟩ :=
    lower_inside typed Layout.addressable_paddedRows rfl addressed accepted few
  cases lowered
  refine ⟨⟨typed, Layout.addressable_paddedRows, rfl, addressed, accepted, few⟩, low, built, ?_,
    reads _ _ rfl (Nat.mul_one _).symm ?_ (checkPositions_ok (by decide)
      (@Lanes.tracks_ofColumn 6 1 (by decide)) ?_)⟩
  · intro place member p bound
    rcases loads 0 .int32 place member with before | ⟨-, inside⟩
    · cases List.mem_singleton.1 before
    · obtain ⟨n, placed, least, most⟩ :=
        inside (atOutput p) (fun _ => none) none p rfl (Int.natCast_nonneg p)
          (show (p : Int) < 6 from Int.ofNat_lt.2 bound)
      rw [size_bytesOf] at most
      exact ⟨n, placed, least, most⟩
  · intro x member
    obtain ⟨k, -, rfl⟩ := Array.mem_map.1 member
    exact ⟨wrap32 k, rfl⟩
  · rintro i j p place ⟨⟩
    exact ⟨Int.natCast_nonneg i, show (i : Int) < 6 from Int.ofNat_lt.2 place.row⟩

end Expr

end StridedArray
