import StridedArray.Expr.Evaluate
import StridedArray.Proofs.Expr.Arithmetic
import StridedArray.Proofs.Lanes.Grids

/-! # Operations of the two executors

The host brings results back to their kind where they can leave it, the accelerator does so everywhere.
On values of integer kinds it makes no difference.

* `UnaryOp.agrees`, `BinaryOp.agrees` — operations on one value and on two;
* `Reduction.agrees` — a row of values folded, sums being exact until the end in both;
* `Expr.loadLanes_tracks` — reads at offsets, all of them inside of the buffer. -/

namespace StridedArray

open StridedArray.Expr (applyUnary applyBinary)

theorem Element.Holds.whole {kind : Element} {x : Scalar} (holds : kind.Holds x)
    (integral : kind ≠ .float32) : ∃ n, x.whole? = some n := by
  cases kind with
  | bool =>
    obtain ⟨b, rfl⟩ := holds
    exact ⟨_, rfl⟩
  | int32 =>
    obtain ⟨n, rfl, -⟩ := holds
    exact ⟨n, rfl⟩
  | float32 => exact absurd rfl integral

/-! ## Operations -/

theorem Element.convert_whole {kind : Element} {x : Scalar} {n : Int} (whole : x.whole? = some n) :
    kind.convert x = kind.coerce x := by
  cases x with
  | bool b => cases kind <;> rfl
  | int n => cases kind <;> rfl
  | float x => cases whole
  | nan negative fraction => cases whole

theorem UnaryOp.agrees {op : UnaryOp} {operand kind : Element} (takes : op.Takes operand kind)
    (integral : kind ≠ .float32) (wholeOperand : operand ≠ .float32) {x : Scalar} (holds : operand.Holds x) :
    ∃ z, op.onLane kind x = .ok z ∧ applyUnary op kind x = .ok z ∧ kind.Holds z := by
  cases op with
  | neg =>
    obtain ⟨rfl, numeric⟩ := takes
    cases operand with
    | bool => exact absurd rfl numeric
    | int32 =>
      obtain ⟨n, rfl, -⟩ := holds
      exact ⟨.int (wrap32 (-n)), rfl, rfl, _, rfl, word_wrap32 _⟩
    | float32 => exact absurd rfl integral
  | sin => exact absurd takes.2 integral
  | cos => exact absurd takes.2 integral
  | cast =>
    obtain ⟨n, whole⟩ := holds.whole wholeOperand
    obtain ⟨z, coerced⟩ : ∃ z, kind.coerce x = .ok z := by
      cases kind with
      | bool => exact ⟨_, rfl⟩
      | int32 => exact ⟨_, Scalar.coerce_whole whole⟩
      | float32 => exact absurd rfl integral
    exact ⟨z, (Element.convert_whole whole).trans coerced, coerced, Element.holds_coerce coerced⟩

theorem word_larger {m n : Int} (left : Word m) (right : Word n) :
    ∃ k, Word k ∧ (Scalar.int m).larger (.int n) = .int k := by
  unfold Scalar.larger
  split
  · exact ⟨n, right, rfl⟩
  · exact ⟨m, left, rfl⟩

theorem BinaryOp.agrees {op : BinaryOp} {kind : Element} (takes : op.Takes kind) (integral : kind ≠ .float32)
    {x y : Scalar} (left : kind.Holds x) (right : kind.Holds y)
    (divisor : op = .idiv ∨ op = .mod → ∀ m n, x = .int m → y = .int n → n ≠ 0) :
    ∃ z, op.onLane (op.resultKind kind) kind x y = .ok z
      ∧ applyBinary op (op.resultKind kind) kind x y = .ok z ∧ (op.resultKind kind).Holds z := by
  cases kind with
  | bool =>
    obtain ⟨a, rfl⟩ := left
    obtain ⟨b, rfl⟩ := right
    cases op with
    | idiv => cases takes
    | mod => cases takes
    | _ => cases a <;> cases b <;> exact ⟨_, rfl, rfl, _, rfl⟩
  | int32 =>
    obtain ⟨m, rfl, wordLeft⟩ := left
    obtain ⟨n, rfl, wordRight⟩ := right
    cases op with
    | add => exact ⟨.int (wrap32 (m + n)), rfl, rfl, _, rfl, word_wrap32 _⟩
    | mul => exact ⟨.int (wrap32 (m * n)), rfl, rfl, _, rfl, word_wrap32 _⟩
    | idiv =>
      have nonzero := divisor (.inl rfl) m n rfl rfl
      have quotient := Scalar.floorDivide_int m n nonzero
      refine ⟨.int (wrap32 (m.fdiv n)), ?_, ?_, _, rfl, word_wrap32 _⟩
      · rw [onLane, Scalar.sameNumber_whole rfl rfl, decide_eq_false nonzero, apply, quotient]
        rfl
      · rw [applyBinary, apply, quotient]
        rfl
    | mod =>
      have nonzero := divisor (.inr rfl) m n rfl rfl
      have remainder := Scalar.floorModulo_int m n nonzero
      refine ⟨.int (wrap32 (m.fmod n)), ?_, ?_, _, rfl, word_wrap32 _⟩
      · rw [onLane, Scalar.sameNumber_whole rfl rfl, decide_eq_false nonzero, apply, remainder]
        rfl
      · rw [applyBinary, apply, remainder]
        rfl
    | max =>
      -- The accelerator does not bring the result back, which is one of the operands.
      obtain ⟨k, word, larger⟩ := word_larger wordLeft wordRight
      refine ⟨.int k, ?_, ?_, k, rfl, word⟩
      · exact congrArg Except.ok larger
      · show Element.int32.coerce ((Scalar.int m).larger (.int n)) = _
        rw [larger, Element.coerce_int32_int, word.wrap32_eq]
    | cmplt => exact ⟨_, rfl, rfl, _, rfl⟩
    | cmpgt => exact ⟨_, rfl, rfl, _, rfl⟩
    | and => cases takes
  | float32 => exact absurd rfl integral

/-! ## Reductions -/

theorem foldlM_larger {xs : List Scalar} (words : ∀ x ∈ xs, Element.int32.Holds x) {m : Int} (word : Word m) :
    ∃ k, Word k ∧ xs.foldlM (Reduction.max.step .int32) (.int m) = .ok (.int k)
      ∧ xs.foldl Scalar.largerOrNone (.int m) = .int k := by
  induction xs generalizing m with
  | nil => exact ⟨m, word, rfl, rfl⟩
  | cons x xs inductionHypothesis =>
    obtain ⟨n, rfl, wordHead⟩ := words _ (List.mem_cons_self ..)
    obtain ⟨k, wordStep, larger⟩ := word_larger word wordHead
    obtain ⟨last, wordLast, loop, fold⟩ :=
      inductionHypothesis (fun x member => words x (List.mem_cons_of_mem _ member)) wordStep
    refine ⟨last, wordLast, ?_, ?_⟩
    · rw [List.foldlM_cons, Reduction.step, larger]
      exact loop
    · rw [List.foldl_cons]
      show xs.foldl Scalar.largerOrNone ((Scalar.int m).larger (.int n)) = _
      rw [larger, fold]

theorem foldlM_add {xs : List Scalar} (words : ∀ x ∈ xs, Element.int32.Holds x) (m : Int) :
    ∃ k, xs.foldlM (Reduction.add.step .int32) (.int m) = .ok (.int k)
      ∧ xs.foldlM (fun (acc x : Scalar) => do
          let s ← acc.add x
          if Element.int32 = Element.float32 then Element.int32.coerce s else return s) (.int m) = .ok (.int k) := by
  induction xs generalizing m with
  | nil => exact ⟨m, rfl, rfl⟩
  | cons x xs inductionHypothesis =>
    obtain ⟨n, rfl, -⟩ := words _ (List.mem_cons_self ..)
    exact inductionHypothesis (fun x member => words x (List.mem_cons_of_mem _ member)) (m + n)

theorem Reduction.agrees (op : Reduction) (xs : List Scalar) (words : ∀ x ∈ xs, Element.int32.Holds x)
    (some : xs ≠ []) :
    ∃ z, op.onRow .int32 xs = .ok z ∧ Element.int32.Holds z
      ∧ (xs.foldlM (op.step .int32) (op.start .int32) >>= op.finish .int32) = .ok z := by
  cases op with
  | add =>
    obtain ⟨k, loop, row⟩ := foldlM_add words 0
    refine ⟨.int (wrap32 k), ?_, ⟨_, rfl, word_wrap32 _⟩, ?_⟩
    · rw [onRow, Element.zero, row]
      rfl
    · rw [start, Element.zero, loop]
      rfl
  | max =>
    cases xs with
    | nil => exact absurd rfl some
    | cons x xs =>
      obtain ⟨n, rfl, word⟩ := words _ (List.mem_cons_self ..)
      obtain ⟨k, wordLast, loop, fold⟩ :=
        foldlM_larger (fun x member => words x (List.mem_cons_of_mem _ member)) word
      refine ⟨.int k, congrArg Except.ok fold, ⟨k, rfl, wordLast⟩, ?_⟩
      rw [List.foldlM_cons, step, start, Scalar.larger_negativeInfinity]
      show (xs.foldlM (max.step .int32) (.int n) >>= max.finish .int32) = _
      rw [loop]
      rfl

/-! ## Reads at offsets -/

namespace Expr

variable {buffers : Buffers} {slot : Int} {kind : Element} {elements : Array Scalar}

def elementOrZero (elements : Array Scalar) (kind : Element) (place : Scalar) : Scalar :=
  (elements[(place.whole?.getD 0).toNat]?).getD kind.zero

theorem elementAt_inside (known : buffers slot = some elements) {p : Int} (low : 0 ≤ p)
    (high : p < elements.size) (kind : Element) :
    elementAt buffers slot (.int p) = .ok (elementOrZero elements kind (.int p)) := by
  have place : Shape.place? elements.size p = some p.toNat := by
    unfold Shape.place?
    simp only [if_neg (show ¬ p < 0 by omega)]
    exact if_pos ⟨low, high⟩
  have bound : p.toNat < elements.size := by omega
  unfold elementAt elementOrZero
  simp only [known, place, Scalar.whole?, Option.getD_some, Array.getElem?_eq_getElem bound]
  rfl

theorem holds_elementOrZero (holds : ∀ x ∈ elements, kind.Holds x) (place : Scalar) :
    kind.Holds (elementOrZero elements kind place) := by
  unfold elementOrZero
  cases found : elements[(place.whole?.getD 0).toNat]? with
  | none => exact Element.holds_zero kind
  | some x => exact holds x (Array.mem_of_getElem? found)

theorem loadFrom_inside (known : buffers slot = some elements) (holds : ∀ x ∈ elements, kind.Holds x)
    (integral : kind ≠ .float32) {p : Int} (low : 0 ≤ p) (high : p < elements.size) :
    loadFrom buffers slot kind (.int p) = .ok (elementOrZero elements kind (.int p)) := by
  unfold loadFrom
  rw [known]
  dsimp only
  rw [Scalar.within_whole rfl, decide_eq_true low, decide_eq_true high, elementAt_inside known low high kind]
  exact (holds_elementOrZero holds _).coerce_eq integral

variable {R C : Nat} {index : Lanes} {v : Nat → Nat → Except Failure Scalar}

/-- Reads at offsets that are all inside of a buffer give its elements. -/
theorem loadLanes_tracks (known : buffers slot = some elements) (holds : ∀ x ∈ elements, kind.Holds x)
    (tracks : index.Tracks R C .int32 v)
    (inside : ∀ i j p, Lanes.Place R C i j → v i j = .ok (.int p) → 0 ≤ p ∧ p < elements.size) :
    ∃ l, loadLanes buffers slot kind index = .ok l
      ∧ l.Tracks R C kind fun i j => v i j >>= fun place => .ok (elementOrZero elements kind place) := by
  have value : ∀ i j, Lanes.Place R C i j → ∃ z,
      (v i j >>= fun place => .ok (elementOrZero elements kind place)) = Except.ok z ∧ kind.Holds z := by
    intro i j place
    obtain ⟨x, here, -, -⟩ := tracks.value i j place
    exact ⟨elementOrZero elements kind x, by rw [here]; rfl, holds_elementOrZero holds x⟩
  unfold loadLanes
  rw [known]
  dsimp only
  cases empty : index.isEmpty with
  | true =>
    have none : index.rows = 0 ∨ index.columns = 0 := by simpa [Lanes.isEmpty] using empty
    refine ⟨_, rfl, tracks.rows, tracks.columns, ?_, fun i j place => ?_⟩
    · rcases none with zero | zero <;> simp [zero]
    · obtain ⟨z, follows, holdsResult⟩ := value i j place
      refine ⟨z, follows, holdsResult, fun hasRow hasColumn => ?_⟩
      -- A grid without rows or without columns covers no place.
      unfold Lanes.Has at hasRow hasColumn
      dsimp only at hasRow hasColumn
      omega
  | false =>
    obtain ⟨least, most⟩ := @Lanes.range_bounds index elements.size (fun x member => by
      obtain ⟨i, j, place, here, p, rfl, -⟩ := tracks.cell member
      exact ⟨p, rfl, inside i j p place here⟩) (Int.natCast_nonneg _)
    rw [if_neg (by simp), if_neg (by omega)]
    refine Lanes.map_tracks tracks fun i j x _ here _ => ?_
    refine ⟨elementOrZero elements kind x, rfl, ?_, holds_elementOrZero holds x⟩
    rw [here]
    rfl

end Expr

end StridedArray
