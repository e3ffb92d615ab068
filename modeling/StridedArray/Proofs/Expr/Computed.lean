import StridedArray.Proofs.Expr.Arithmetic
import StridedArray.Proofs.Kernel.Inputs
import StridedArray.Tensor.Elementwise

/-! # Expressions of numbers

What is built for elementwise operations computes a number at each position of the output, whatever was folded on
the way: no operand may be left of the two, and no variable.

* `BinaryOp.outcome` — the number that an operation makes of two numbers; `BinaryOp.apply_number` — it does;
* `Expr.Elementary` — the nodes of such expressions: constants, operations, and reads of inputs at the position
  itself;
* `Expr.Tabulates` — an expression that has a given number at each position; `accepted_of_elementary` — kernels
  accept it;
* `tabulates_read`, `Tabulates.cast`, `Tabulates.combine`, `Tabulates.add`, `Tabulates.mul`, `Tabulates.negateCounted`,
  `Tabulates.choose` — what the constructors build computes. -/

namespace StridedArray

open Shape (Inside product ravel unravel)

/-! ## Operations on numbers -/

namespace BinaryOp

def Elementwise : BinaryOp → Prop
  | idiv | mod | and => False
  | _ => True

/-- The number that an operation makes of two numbers of a kind. Sum and product of truth values are disjunction
    and conjunction. -/
def outcome (kind : Element) (m n : Int) : BinaryOp → Int
  | add => if kind = .bool then (if m ≠ 0 ∨ n ≠ 0 then 1 else 0) else wrap32 (m + n)
  | mul => if kind = .bool then (if m ≠ 0 ∧ n ≠ 0 then 1 else 0) else wrap32 (m * n)
  | idiv => wrap32 (m.fdiv n)
  | mod => wrap32 (m.fmod n)
  | max => Max.max m n
  | cmplt => if m < n then 1 else 0
  | cmpgt => if n < m then 1 else 0
  | and => if m ≠ 0 ∧ n ≠ 0 then 1 else 0

variable {op : BinaryOp} {kind : Element} {m n : Int}

/-- The operation on elements of a kind, as a constant and as a value. -/
theorem apply_number (elementwise : op.Elementwise) (whole : kind ≠ .float32) (left : kind.Fits m)
    (right : kind.Fits n) :
    (op.resultKind kind).Fits (op.outcome kind m n)
      ∧ Expr.applyBinary op (op.resultKind kind) kind (kind.number m) (kind.number n)
        = .ok ((op.resultKind kind).number (op.outcome kind m n))
      ∧ (op.apply kind (kind.number m) (kind.number n) >>= Expr.constant (op.resultKind kind))
        = .ok (.const (op.resultKind kind) ((op.resultKind kind).number (op.outcome kind m n))) := by
  cases kind with
  | bool =>
    cases op with
    | idiv => exact elementwise.elim
    | mod => exact elementwise.elim
    | and => exact elementwise.elim
    | _ =>
      -- Two truth values: each of the four cases is computed.
      rcases left with rfl | rfl <;> rcases right with rfl | rfl <;>
        exact ⟨by first | exact .inl rfl | exact .inr rfl, rfl, rfl⟩
  | int32 =>
    cases op with
    | idiv => exact elementwise.elim
    | mod => exact elementwise.elim
    | and => exact elementwise.elim
    | add => exact ⟨word_wrap32 _, rfl, rfl⟩
    | mul => exact ⟨word_wrap32 _, rfl, rfl⟩
    | max =>
      have word : Word (Max.max m n) := by
        rcases max_choice m n with first | second
        · rw [first]
          exact left
        · rw [second]
          exact right
      have result : Element.int32.coerce ((Scalar.int m).larger (.int n)) = .ok (.int (Max.max m n)) := by
        rw [Scalar.larger_int, Element.coerce_int32_int, word.wrap32_eq]
      refine ⟨word, result, ?_⟩
      show (do return Expr.const .int32 (← Element.int32.coerce ((Scalar.int m).larger (.int n)))) = _
      rw [result]
      rfl
    | cmplt =>
      by_cases below : m < n
      · simp [Element.Fits, outcome, below, resultKind, Expr.applyBinary, apply, Element.number, Expr.constant,
          pure, Except.pure]
      · simp [Element.Fits, outcome, below, resultKind, Expr.applyBinary, apply, Element.number, Expr.constant,
          pure, Except.pure]
    | cmpgt =>
      by_cases below : n < m
      · simp [Element.Fits, outcome, below, resultKind, Expr.applyBinary, apply, Element.number, Expr.constant,
          pure, Except.pure]
      · simp [Element.Fits, outcome, below, resultKind, Expr.applyBinary, apply, Element.number, Expr.constant,
          pure, Except.pure]
  | float32 => exact absurd rfl whole

end BinaryOp

namespace Expr

/-! ## Nodes -/

/-- A node of an expression over so many positions: it is evaluated at a position, and all that is read is the element
    of an input there. -/
def Elementary (rows : Int) (inputs : List Input) : Expr → Prop
  | special name extent _ => name = outputIndex ∧ extent = rows
  | accessor slot kind layout index =>
    ∃ (k : Nat) (input : Input), slot = k ∧ inputs[k]? = some input ∧ kind = input.kind
      ∧ index = outputPosition rows ∧ layout.size = rows ∧ input.bytes.size % kind.itemSize = 0
      ∧ ∀ range, layout.offsetRange? = some range →
        ¬ (range.1 < 0 ∨ ((input.bytes.size / kind.itemSize : Nat) : Int) ≤ range.2)
  | load .. | reduce .. => False
  | _ => True

/-- An expression that has a given number of a kind at each position. -/
structure Tabulates (rows : Int) (inputs : List Input) (e : Expr) (kind : Element) (v : Nat → Int) : Prop where
  kind_eq : e.kind = kind
  whole : kind ≠ .float32
  typed : Typed e
  nodes : Every (Elementary rows inputs) e
  value : ∀ k : Nat, (k : Int) < rows →
    e.valueAt (atOutput k) (Input.buffers inputs) none = .ok (kind.number (v k))
  fits : ∀ k : Nat, (k : Int) < rows → kind.Fits (v k)

variable {rows : Int} {inputs : List Input} {e a b c : Expr} {kind other : Element} {u v w : Nat → Int}

theorem scoped_of_elementary (nodes : Every (Elementary rows inputs) e) : Scoped false e :=
  scoped_of_every <| nodes.imp fun node known =>
    ⟨fun op kind body n same => by rw [same] at known; exact known,
      fun name extent d same => by rw [same] at known; rw [known.1]; decide⟩

/-- Kernels accept such an expression. Where there are no positions nothing is evaluated. -/
theorem accepted_of_elementary (natural : 0 ≤ rows) (nodes : Every (Elementary rows inputs) e) :
    e.Accepted inputs rows where
  scope := scoped_of_elementary nodes
  bound := by
    intro name extent d member
    obtain ⟨rfl, rfl⟩ := nodes _ member
    exact .inl rfl
  reads := by
    intro node member isRead
    cases node with
    | accessor slot kind layout index =>
      obtain ⟨k, input, rfl, known, same, rfl, size, elements, offsets⟩ := nodes _ member
      refine ⟨k, input, rfl, known, same, ?_⟩
      have whole : ¬ input.bytes.size % kind.itemSize ≠ 0 := fun partly => partly elements
      unfold checkRead
      dsimp only
      rw [if_neg (show ¬ input.bytes.size % (accessor k kind layout _).kind.itemSize ≠ 0 from whole)]
      refine checkReach_ok offsets fun busy range bounded => ?_
      obtain rfl := Option.some.inj bounded
      -- An evaluated expression has a position, since its position would have extent zero otherwise.
      have some : rows ≠ 0 := by
        rintro rfl
        have index : special outputIndex 0 ∈ (accessor k kind layout (outputPosition 0)).postorder := by
          simp [postorder, outputPosition]
        have inside := @Every.below (· ∈ e.postorder) e _ (fun _ node => node) member _ index
        have idle : e.idle = true := idle_of_zero inside fun extent d node => (nodes _ node).2
        rw [idle] at busy
        cases busy
      have last : Max.max (rows - 1) 0 = rows - 1 := max_eq_left (by omega)
      dsimp only
      rw [size, last]
      omega
    | load slot kind index => exact (nodes _ member).elim
    | _ => cases isRead

theorem Tabulates.congr (tabulates : Tabulates rows inputs e kind v)
    (same : ∀ k : Nat, (k : Int) < rows → v k = w k) : Tabulates rows inputs e kind w where
  kind_eq := tabulates.kind_eq
  whole := tabulates.whole
  typed := tabulates.typed
  nodes := tabulates.nodes
  value := fun k bound => by rw [tabulates.value k bound, same k bound]
  fits := fun k bound => same k bound ▸ tabulates.fits k bound

theorem Tabulates.append (tabulates : Tabulates rows inputs e kind v) (more : List Input) :
    Tabulates rows (inputs ++ more) e kind v where
  kind_eq := tabulates.kind_eq
  whole := tabulates.whole
  typed := tabulates.typed
  nodes := tabulates.nodes.imp fun node elementary => by
    cases node with
    | accessor slot kind layout index =>
      obtain ⟨k, input, rfl, known, rest⟩ := elementary
      obtain ⟨bound, -⟩ := List.getElem?_eq_some_iff.1 known
      exact ⟨k, input, rfl, (List.getElem?_append_left bound).trans known, rest⟩
    | _ => exact elementary
  value := by
    intro k bound
    refine (valueAt_congr (fun node member slot reads => ?_) none).trans (tabulates.value k bound)
    cases node with
    | accessor slot' kind layout index =>
      obtain ⟨k, input, rfl, known, -⟩ := tabulates.nodes _ member
      obtain rfl := Option.some.inj reads
      obtain ⟨bound, -⟩ := List.getElem?_eq_some_iff.1 known
      unfold Input.buffers
      rw [View.entry?_natCast, View.entry?_natCast, List.getElem?_append_left bound]
    | load slot' kind index => exact (tabulates.nodes _ member).elim
    | _ => cases reads
  fits := tabulates.fits

/-! ## Leaves -/

theorem tabulates_const {n : Int} (fits : kind.Fits n) (whole : kind ≠ .float32) :
    Tabulates rows inputs (.const kind (kind.number n)) kind fun _ => n where
  kind_eq := rfl
  whole := whole
  typed := every_const.2 (by
    cases kind with
    | bool => exact ⟨_, rfl⟩
    | int32 => exact ⟨n, rfl, fits⟩
    | float32 => exact absurd rfl whole)
  nodes := every_const.2 trivial
  value := fun _ _ => rfl
  fits := fun _ _ => fits

theorem Tabulates.of_const {value : Scalar} {d : Nat} (tabulates : Tabulates rows inputs (.const other value d) kind v) :
    other = kind ∧ ∃ n, value = kind.number n ∧ kind.Fits n ∧ ∀ k : Nat, (k : Int) < rows → v k = n := by
  obtain rfl : other = kind := tabulates.kind_eq
  obtain ⟨n, rfl, fits⟩ := (every_const.1 tabulates.typed : Element.Holds other value).eq_number tabulates.whole
  refine ⟨rfl, n, rfl, fits, fun k bound => ?_⟩
  exact (Element.number_injective fits (tabulates.fits k bound) (Except.ok.inj (tabulates.value k bound))).symm

theorem Tabulates.of_isConstant {n : Int} (tabulates : Tabulates rows inputs e kind v) (known : e.isConstant n = true) :
    ∀ k : Nat, (k : Int) < rows → v k = n := by
  cases e with
  | const other value d =>
    obtain ⟨rfl, m, rfl, fits, same⟩ := tabulates.of_const
    have number : (other.number m).sameNumber (.int n) = true := known
    rw [Scalar.sameNumber_whole (Element.whole?_number fits) rfl, decide_eq_true_iff] at number
    exact fun k bound => (same k bound).trans number
  | _ => cases known

/-- A read of an input through a layout of as many positions, as far as that is in the buffer. -/
theorem tabulates_read {k : Nat} {input : Input} {l : Layout} (known : inputs[k]? = some input)
    (whole : input.kind ≠ .float32) (elements : input.bytes.size % input.kind.itemSize = 0) (size : l.size = rows)
    (contained : l.Contained (input.bytes.size / input.kind.itemSize : Nat)) :
    Tabulates rows inputs (.accessor k input.kind l (outputPosition rows)) input.kind
      fun position => l.entry (input.kind.numberAt input.bytes) (unravel position l.shape) where
  kind_eq := rfl
  whole := whole
  typed := every_accessor.2 ⟨every_special.2 trivial, rfl⟩
  nodes := by
    refine every_accessor.2 ⟨every_special.2 ⟨rfl, rfl⟩, k, input, rfl, known, rfl, rfl, size, elements, ?_⟩
    intro range announced
    have := contained.announced range.1 range.2 announced
    omega
  value := by
    intro position bound
    have count : product l.shape = rows := size
    have positive := Shape.positive_of_product_pos contained.natural (by omega)
    have inside := Shape.inside_unravel positive (position : Int)
    have place := @Shape.ravel_unravel l.shape positive position (by omega) (by omega)
    have buffer : Input.buffers inputs k = some (input.kind.decode input.bytes) := by
      unfold Input.buffers
      rw [View.entry?_natCast, known]
      rfl
    have read := readAt_number whole buffer inside fun offset => contained.shown _ offset inside
    rw [place] at read
    exact read
  fits := fun position _ => fits_entry whole input.bytes l (unravel position l.shape)

/-! ## Operations -/

theorem Tabulates.castNode (tabulates : Tabulates rows inputs a kind v) (whole : other ≠ .float32) :
    Tabulates rows inputs (.unary .cast other a) other fun k => other.image (v k) where
  kind_eq := rfl
  whole := whole
  typed := every_unary.2 ⟨tabulates.typed, trivial⟩
  nodes := every_unary.2 ⟨tabulates.nodes, trivial⟩
  value := by
    intro k bound
    rw [valueAt, tabulates.value k bound]
    exact Element.coerce_number (tabulates.fits k bound) whole
  fits := fun k _ => Element.fits_image other (v k)

theorem Tabulates.cast (tabulates : Tabulates rows inputs a kind v) (whole : other ≠ .float32) :
    ∃ e, a.cast other = .ok e ∧ Tabulates rows inputs e other fun k => other.image (v k) := by
  unfold Expr.cast
  by_cases same : a.kind = other
  · obtain rfl : kind = other := tabulates.kind_eq.symm.trans same
    rw [if_pos same]
    exact ⟨a, rfl, tabulates.congr fun k bound => ((tabulates.fits k bound).image_eq whole).symm⟩
  · rw [if_neg same]
    cases a with
    | const given value d =>
      obtain ⟨rfl, n, rfl, fits, same⟩ := tabulates.of_const
      refine ⟨.const other (other.number (other.image n)), ?_, ?_⟩
      · show (do return Expr.const other (← other.coerce (given.number n))) = _
        rw [Element.coerce_number fits whole]
        rfl
      · exact (tabulates_const (Element.fits_image other n) whole).congr fun k bound => by rw [same k bound]
    | _ => exact ⟨_, rfl, tabulates.castNode whole⟩

theorem Tabulates.promote (tabulates : Tabulates rows inputs a kind v) (whole : other ≠ .float32) :
    ∃ e, a.cast (kind.promote other) = .ok e ∧ Tabulates rows inputs e (kind.promote other) v := by
  have common := Element.promote_whole tabulates.whole whole
  obtain ⟨e, built, image⟩ := tabulates.cast common
  exact ⟨e, built, image.congr fun k bound => ((tabulates.fits k bound).promote other).image_eq common⟩

theorem combine_promoted {op : BinaryOp} {x y : Expr} (first : a.cast (a.kind.promote b.kind) = .ok x)
    (second : b.cast (a.kind.promote b.kind) = .ok y) :
    (∃ k m d k' n d', x = .const k m d ∧ y = .const k' n d'
        ∧ combine op a b = (op.apply (a.kind.promote b.kind) m n >>= constant (op.resultKind (a.kind.promote b.kind))))
      ∨ combine op a b = .ok (.binary op (op.resultKind (a.kind.promote b.kind)) x y) := by
  unfold combine
  simp only [first, second, ok_bind]
  split
  · exact .inl ⟨_, _, _, _, _, _, rfl, rfl, rfl⟩
  · exact .inr rfl

theorem Tabulates.combine {op : BinaryOp} (elementwise : op.Elementwise) (left : Tabulates rows inputs a kind v)
    (right : Tabulates rows inputs b other w) :
    ∃ e, combine op a b = .ok e ∧ Tabulates rows inputs e (op.resultKind (kind.promote other))
      fun k => op.outcome (kind.promote other) (v k) (w k) := by
  obtain ⟨x, first, inCommon⟩ := left.promote right.whole
  obtain ⟨y, second, others⟩ := right.promote left.whole
  rw [Element.promote_comm] at second others
  have common := inCommon.whole
  have made := fun k bound => BinaryOp.apply_number elementwise common (inCommon.fits k bound) (others.fits k bound)
  have kinds : a.kind.promote b.kind = kind.promote other := by rw [left.kind_eq, right.kind_eq]
  have result : op.resultKind (kind.promote other) ≠ .float32 := by
    unfold BinaryOp.resultKind
    split <;> first | decide | exact common
  rcases @combine_promoted a b op x y (kinds ▸ first) (kinds ▸ second) with
    ⟨_, _, _, _, _, _, rfl, rfl, folded⟩ | built
  · obtain ⟨rfl, m, rfl, fitsLeft, sameLeft⟩ := inCommon.of_const
    obtain ⟨-, n, rfl, fitsRight, sameRight⟩ := others.of_const
    obtain ⟨fits, -, constant⟩ := BinaryOp.apply_number elementwise common fitsLeft fitsRight
    rw [kinds, constant] at folded
    refine ⟨_, folded, (tabulates_const fits result).congr fun k bound => ?_⟩
    rw [sameLeft k bound, sameRight k bound]
  · rw [kinds] at built
    refine ⟨_, built, rfl, result, ?_, ?_, ?_, fun k bound => (made k bound).1⟩
    · refine every_binary.2 ⟨inCommon.typed, others.typed, ?_⟩
      rw [Kinded, inCommon.kind_eq, others.kind_eq]
      refine ⟨rfl, ?_, rfl⟩
      cases op <;> first | exact trivial | exact elementwise.elim
    · exact every_binary.2 ⟨inCommon.nodes, others.nodes, trivial⟩
    · intro k bound
      simp only [valueAt, inCommon.value k bound, others.value k bound, ok_bind, inCommon.kind_eq]
      exact (made k bound).2.1

theorem outcome_add_zero {n : Int} (fits : kind.Fits n) (whole : kind ≠ .float32) :
    BinaryOp.add.outcome kind 0 n = n ∧ BinaryOp.add.outcome kind n 0 = n := by
  cases kind with
  | bool => rcases fits with rfl | rfl <;> exact ⟨rfl, rfl⟩
  | int32 =>
    refine ⟨?_, ?_⟩
    · show wrap32 (0 + n) = n
      rw [Int.zero_add, fits.wrap32_eq]
    · show wrap32 (n + 0) = n
      rw [Int.add_zero, fits.wrap32_eq]
  | float32 => exact absurd rfl whole

theorem Tabulates.add (left : Tabulates rows inputs a kind v) (right : Tabulates rows inputs b other w) :
    ∃ e, a.add b = .ok e ∧ Tabulates rows inputs e (kind.promote other)
      fun k => BinaryOp.add.outcome (kind.promote other) (v k) (w k) := by
  have kinds : a.kind.promote b.kind = kind.promote other := by rw [left.kind_eq, right.kind_eq]
  unfold Expr.add
  dsimp only
  rw [kinds]
  by_cases zeroLeft : a.isConstant 0 = true
  · rw [if_pos zeroLeft]
    obtain ⟨e, built, same⟩ := right.promote left.whole
    rw [Element.promote_comm] at built same
    refine ⟨e, built, same.congr fun k bound => ?_⟩
    rw [left.of_isConstant zeroLeft k bound, (outcome_add_zero (same.fits k bound) same.whole).1]
  rw [if_neg zeroLeft]
  by_cases zeroRight : b.isConstant 0 = true
  · rw [if_pos zeroRight]
    obtain ⟨e, built, same⟩ := left.promote right.whole
    refine ⟨e, built, same.congr fun k bound => ?_⟩
    rw [right.of_isConstant zeroRight k bound, (outcome_add_zero (same.fits k bound) same.whole).2]
  · rw [if_neg zeroRight]
    exact left.combine trivial right

theorem outcome_mul_one {n : Int} (fits : kind.Fits n) (whole : kind ≠ .float32) :
    BinaryOp.mul.outcome kind 1 n = n ∧ BinaryOp.mul.outcome kind n 1 = n := by
  cases kind with
  | bool => rcases fits with rfl | rfl <;> exact ⟨rfl, rfl⟩
  | int32 =>
    refine ⟨?_, ?_⟩
    · show wrap32 (1 * n) = n
      rw [Int.one_mul, fits.wrap32_eq]
    · show wrap32 (n * 1) = n
      rw [Int.mul_one, fits.wrap32_eq]
  | float32 => exact absurd rfl whole

theorem Tabulates.mul (left : Tabulates rows inputs a kind v) (right : Tabulates rows inputs b other w) :
    ∃ e, a.mul b = .ok e ∧ Tabulates rows inputs e (kind.promote other)
      fun k => BinaryOp.mul.outcome (kind.promote other) (v k) (w k) := by
  have kinds : a.kind.promote b.kind = kind.promote other := by rw [left.kind_eq, right.kind_eq]
  unfold Expr.mul
  dsimp only
  rw [kinds]
  by_cases oneLeft : a.isConstant 1 = true
  · rw [if_pos oneLeft]
    obtain ⟨e, built, same⟩ := right.promote left.whole
    rw [Element.promote_comm] at built same
    refine ⟨e, built, same.congr fun k bound => ?_⟩
    rw [left.of_isConstant oneLeft k bound, (outcome_mul_one (same.fits k bound) same.whole).1]
  rw [if_neg oneLeft]
  by_cases oneRight : b.isConstant 1 = true
  · rw [if_pos oneRight]
    obtain ⟨e, built, same⟩ := left.promote right.whole
    refine ⟨e, built, same.congr fun k bound => ?_⟩
    rw [right.of_isConstant oneRight k bound, (outcome_mul_one (same.fits k bound) same.whole).2]
  rw [if_neg oneRight]
  by_cases nothing : (kind.promote other = .int32 && (a.isConstant 0 || b.isConstant 0)) = true
  -- A product with zero needs no variable any more.
  · rw [if_pos nothing]
    simp only [Bool.and_eq_true, decide_eq_true_eq, Bool.or_eq_true] at nothing
    obtain ⟨common, zero⟩ := nothing
    rw [common]
    have none : Element.int32.Fits 0 := (by decide : Word 0)
    refine ⟨_, rfl, (tabulates_const none (by decide)).congr fun k bound => ?_⟩
    rcases zero with zero | zero
    · rw [left.of_isConstant zero k bound]
      show 0 = wrap32 (0 * w k)
      rw [Int.zero_mul]
      rfl
    · rw [right.of_isConstant zero k bound]
      show 0 = wrap32 (v k * 0)
      rw [Int.mul_zero]
      rfl
  · rw [if_neg nothing]
    exact left.combine trivial right

theorem Tabulates.neg (tabulates : Tabulates rows inputs a .int32 v) :
    ∃ e, a.neg = .ok e ∧ Tabulates rows inputs e .int32 fun k => wrap32 (-v k) := by
  unfold Expr.neg
  rw [if_neg (by rw [tabulates.kind_eq]; decide)]
  cases a with
  | const given value d =>
    obtain ⟨rfl, n, rfl, fits, same⟩ := tabulates.of_const
    have opposite : Tabulates rows inputs (.const .int32 (.int (wrap32 (-n)))) .int32 fun _ => wrap32 (-n) :=
      tabulates_const (show Element.int32.Fits (wrap32 (-n)) from word_wrap32 (-n)) (by decide)
    exact ⟨_, rfl, opposite.congr fun k bound => by rw [same k bound]⟩
  | _ =>
    refine ⟨_, rfl, tabulates.kind_eq, by decide, ?_, every_unary.2 ⟨tabulates.nodes, trivial⟩, ?_,
      fun k _ => word_wrap32 _⟩
    · refine every_unary.2 ⟨tabulates.typed, rfl, ?_⟩
      rw [tabulates.kind_eq]
      decide
    · intro k bound
      rw [valueAt, tabulates.value k bound, tabulates.kind_eq]
      rfl

/-- The opposite numbers, truth values being counted. -/
theorem Tabulates.negateCounted (tabulates : Tabulates rows inputs a kind v) :
    ∃ e, a.negateCounted = .ok e ∧ Tabulates rows inputs e .int32 fun k => wrap32 (-v k) := by
  have counted : ∃ x, a.cast .int32 = .ok x ∧ Tabulates rows inputs x .int32 v := by
    have promoted := @Tabulates.promote rows inputs a kind .int32 v tabulates (by decide)
    rwa [Element.promote_int32 tabulates.whole] at promoted
  obtain ⟨x, cast, same⟩ := counted
  obtain ⟨e, built, opposite⟩ := same.neg
  refine ⟨e, ?_, opposite⟩
  unfold Expr.negateCounted
  split
  · rw [cast, ok_bind, built]
  · next other =>
    have whole : a.kind = .int32 := by
      have here := tabulates.whole
      rw [← tabulates.kind_eq] at here
      cases known : a.kind <;> simp_all
    have self : a.cast .int32 = .ok a := if_pos whole
    obtain rfl := Except.ok.inj (cast.symm.trans self)
    exact built

theorem Tabulates.choose (condition : Tabulates rows inputs c .bool u) (left : Tabulates rows inputs a kind v)
    (right : Tabulates rows inputs b other w) :
    ∃ e, Expr.choose c a b = .ok e ∧ Tabulates rows inputs e (kind.promote other)
      fun k => if u k ≠ 0 then v k else w k := by
  have kinds : a.kind.promote b.kind = kind.promote other := by rw [left.kind_eq, right.kind_eq]
  obtain ⟨x, first, inCommon⟩ := left.promote right.whole
  obtain ⟨y, second, others⟩ := right.promote left.whole
  rw [Element.promote_comm] at second others
  have truth : ∀ k : Nat, (k : Int) < rows → (Element.bool.number (u k)).truthy = decide (u k ≠ 0) :=
    fun k _ => Element.truthy_number .bool (u k)
  unfold Expr.choose
  rw [if_neg (not_not.2 condition.kind_eq)]
  dsimp only
  rw [kinds, first, second]
  -- A constant condition is decided now, for all positions alike.
  cases c with
  | const given value d =>
    obtain ⟨rfl, n, rfl, fits, same⟩ := condition.of_const
    show ∃ e, (pure (if (Element.bool.number n).truthy then x else y) : Except Failure Expr) = .ok e ∧ _
    rw [Element.truthy_number]
    by_cases holds : n ≠ 0
    · refine ⟨x, by simp [holds, pure, Except.pure], inCommon.congr fun k bound => ?_⟩
      rw [same k bound, if_pos holds]
    · refine ⟨y, by simp [holds, pure, Except.pure], others.congr fun k bound => ?_⟩
      rw [same k bound, if_neg holds]
  | _ =>
    refine ⟨_, rfl, rfl, inCommon.whole, ?_, every_select.2 ⟨condition.nodes, inCommon.nodes, others.nodes, trivial⟩,
      ?_, ?_⟩
    · exact every_select.2 ⟨condition.typed, inCommon.typed, others.typed, condition.kind_eq, inCommon.kind_eq,
        others.kind_eq⟩
    · intro k bound
      rw [valueAt, condition.value k bound, ok_bind, truth k bound]
      by_cases holds : u k ≠ 0
      · simp only [holds, ne_eq, not_false_eq_true, decide_true, if_true, inCommon.value k bound]
      · simp only [holds, decide_false, Bool.false_eq_true, if_false, others.value k bound]
    · intro k bound
      split
      · exact inCommon.fits k bound
      · exact others.fits k bound

end Expr

end StridedArray
