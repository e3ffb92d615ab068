import StridedArray.Proofs.Expr.Arithmetic
import StridedArray.Proofs.Kernel.Products

/-! # Addresses as expressions

The address arithmetic of a layout, built as expressions of a position, gives the addresses of the
layout. It is done in 32 bits and goes on below padding with whatever numbers come out there, so the
invariant on the way down is about the condition first: only where it holds so far does the number
stand for a position.

* `View.Addressable`, `View.LandsIn`, `Layout.Addressable` — views and stacks of views small enough
  for it; `View.addressable_of_within` — masks inside of the extents are small enough;
* `Expr.Divisible`, `unravelExpr_divisible` — the multi-index, for every way to have a number that division
  keeps;
* `unravelExpr_computes`, `View.addressExpr_computes`, `Layout.descendExpr_computes` — the multi-index,
  one view, several views;
* `Layout.addressExpr_computes` — the whole stack; `Layout.addressExpr_evaluate` — the same for the
  values of the expressions. -/

namespace StridedArray

open Shape (Inside Positive dot product unravel)
open StridedArray.Expr (Computes Decides Foldable Scoped int32 truth)

namespace View

/-- A view with positions, all of them counted in 32 bits, and valid ranges that end at such numbers. -/
structure Addressable (v : View) : Prop where
  positive : Positive v.shape
  small : product v.shape < 0x80000000
  ends : ∀ r ∈ v.ranges, Word r.1 ∧ Word r.2

/-- The offsets of one view that are not padding are positions of another one. -/
def LandsIn (v w : View) : Prop :=
  ∀ index offset, Inside index v.shape → v.offsetOf? index = some offset →
    0 ≤ offset ∧ offset < product w.shape

theorem le_product {shape : List Int} (positive : Positive shape) {s : Int} (member : s ∈ shape) :
    s ≤ product shape := by
  induction shape with
  | nil => cases member
  | cons e shape inductionHypothesis =>
    obtain ⟨head, rest⟩ := Shape.positive_cons.1 positive
    rw [Shape.product_cons]
    rcases List.mem_cons.1 member with rfl | member
    · nlinarith [rest.product_pos]
    · nlinarith [inductionHypothesis rest member, rest.product_pos]

/-- Valid ranges inside of the extents end at numbers of 32 bits. -/
theorem addressable_of_within {v : View} (positive : Positive v.shape)
    (small : product v.shape < 0x80000000) (within : Within v.ranges v.shape) : v.Addressable where
  positive := positive
  small := small
  ends := by
    intro r member
    obtain ⟨k, bound, rfl⟩ := List.getElem_of_mem member
    have least := List.Forall₂.get within bound (within.length_eq ▸ bound)
    have most := le_product positive (List.getElem_mem (within.length_eq ▸ bound))
    simp only [List.get_eq_getElem] at least
    unfold Word
    omega

end View

namespace Layout

/-- A stack of addressable views, each of them over the positions of the next one. -/
structure Addressable (l : Layout) : Prop where
  views : ∀ v ∈ l.top :: l.below, v.Addressable
  lands : (l.top :: l.below).IsChain View.LandsIn

end Layout

/-! ## Multi-indices -/

section Unravel

variable {i flat : Expr} {m x : Int} {P : Expr → Int → Prop}

/-- A way for expressions to have numbers that quotients and remainders by positive constants share. -/
structure Expr.Divisible (P : Expr → Int → Prop) : Prop where
  zero : P (int32 0) 0
  quotient : ∀ {e : Expr} {n k : Int}, P e n → Word k → 0 < k →
    ∃ q, e.idivScalar (.int k) = .ok q ∧ P q (n.fdiv k)
  remainder : ∀ {e : Expr} {n k : Int}, P e n → Word k → 0 < k →
    ∃ r, e.modScalar (.int k) = .ok r ∧ P r (n.fmod k)

theorem Expr.divisible_computes (foldable : i.Foldable) : Divisible (Computes i m) where
  zero := computes_int32 0
  quotient known word positive := idivScalar_computes foldable known word positive
  remainder known word positive := modScalar_computes foldable known word positive

def digitExpr (flat : Expr) (span s : Int) (leading : Bool) : Except Failure Expr :=
  (if span = 1 then pure flat else flat.idivScalar (.int span)) >>= fun quotient =>
    if leading then pure quotient else quotient.modScalar (.int s)

theorem unravelExprFrom_cons (flat : Expr) (s : Int) (shape : List Int) (leading : Bool) :
    unravelExprFrom flat (s :: shape) leading
      = unravelExprFrom flat shape false >>= fun below =>
        if s = 1 then pure (int32 0 :: below.1, below.2)
        else digitExpr flat below.2 s leading >>= fun digit => pure (digit :: below.1, below.2 * s) := by
  rw [unravelExprFrom]
  cases unravelExprFrom flat shape false with
  | error => rfl
  | ok below =>
    obtain ⟨index, span⟩ := below
    rw [ok_bind, ok_bind, digitExpr]
    dsimp only
    by_cases one : span = 1
    · rw [if_pos one, if_pos one]
      cases leading <;> rfl
    · rw [if_neg one, if_neg one]
      cases flat.idivScalar (.int span) with
      | error => rfl
      | ok => cases leading <;> rfl

theorem digitExpr_divisible (divisible : Expr.Divisible P) (known : P flat x) {span s : Int}
    (someSpan : 0 < span) (smallSpan : span < 0x80000000) (someAxis : 0 < s) (smallAxis : s < 0x80000000)
    (leading : Bool) :
    ∃ e n, digitExpr flat span s leading = .ok e ∧ P e n
      ∧ ((leading = true → 0 ≤ x ∧ x < s * span) → n = x / span % s) := by
  obtain ⟨q, divided, quotient⟩ : ∃ q, (if span = 1 then pure flat else flat.idivScalar (.int span))
      = Except.ok q ∧ P q (x / span) := by
    by_cases one : span = 1
    · subst one
      exact ⟨flat, rfl, by rwa [Int.ediv_one]⟩
    · obtain ⟨q, built, quotient⟩ := divisible.quotient known ⟨by omega, smallSpan⟩ someSpan
      rw [Int.fdiv_eq_ediv_of_nonneg _ (Int.le_of_lt someSpan)] at quotient
      exact ⟨q, by rw [if_neg one, built], quotient⟩
  rw [digitExpr, divided, ok_bind]
  -- The leading quotient of a position is less than its extent already, and no remainder is built.
  cases leading with
  | true =>
    refine ⟨q, _, rfl, quotient, fun inRange => ?_⟩
    obtain ⟨low, high⟩ := inRange rfl
    exact (Int.emod_eq_of_lt (Int.ediv_nonneg low (Int.le_of_lt someSpan))
      (Int.ediv_lt_of_lt_mul someSpan high)).symm
  | false =>
    obtain ⟨e, built, remainder⟩ := divisible.remainder quotient ⟨by omega, smallAxis⟩ someAxis
    rw [Int.fmod_eq_emod_of_nonneg _ (Int.le_of_lt someAxis)] at remainder
    exact ⟨e, _, built, remainder, fun _ => rfl⟩

/-- The indices of some axes. The leading one is right for positions of the shape only, all others are
    remainders and always right. -/
theorem unravelExprFrom_divisible (divisible : Expr.Divisible P) (known : P flat x) {shape : List Int}
    (positive : Positive shape) (small : product shape < 0x80000000) (leading : Bool) :
    ∃ index ns, unravelExprFrom flat shape leading = .ok (index, product shape) ∧ List.Forall₂ P index ns
      ∧ ((leading = true → 0 ≤ x ∧ x < product shape) → ns = unravel x shape) := by
  induction shape generalizing leading with
  | nil => exact ⟨[], [], rfl, .nil, fun _ => rfl⟩
  | cons s shape inductionHypothesis =>
    obtain ⟨someAxis, rest⟩ := Shape.positive_cons.1 positive
    have someSpan := rest.product_pos
    have longest : s ≤ product (s :: shape) := View.le_product positive (List.mem_cons_self ..)
    have fewer : product shape ≤ product (s :: shape) := by
      rw [Shape.product_cons]
      nlinarith
    obtain ⟨index, ns, built, indices, right⟩ := inductionHypothesis rest (by omega) false
    obtain rfl := right nofun
    rw [unravelExprFrom_cons, built, ok_bind]
    by_cases one : s = 1
    · subst one
      refine ⟨int32 0 :: index, 0 :: unravel x shape, ?_, .cons divisible.zero indices, fun _ => ?_⟩
      · rw [if_pos rfl, Shape.product_cons, Int.one_mul]
        rfl
      · rw [Shape.unravel_cons positive, Int.emod_one]
    · obtain ⟨e, n, digit, computed, value⟩ :=
        digitExpr_divisible divisible known someSpan (by omega) someAxis (by omega) leading
      refine ⟨e :: index, n :: unravel x shape, ?_, .cons computed indices, fun inRange => ?_⟩
      · rw [if_neg one, digit, ok_bind, Shape.product_cons, Int.mul_comm]
        rfl
      · rw [Shape.unravel_cons positive, value inRange]

theorem unravelExpr_divisible (divisible : Expr.Divisible P) (known : P flat x) {shape : List Int}
    (positive : Positive shape) (small : product shape < 0x80000000) :
    ∃ index ns, unravelExpr shape flat = .ok index ∧ List.Forall₂ P index ns
      ∧ (0 ≤ x → x < product shape → ns = unravel x shape) := by
  obtain ⟨index, ns, built, indices, right⟩ := unravelExprFrom_divisible divisible known positive small true
  refine ⟨index, ns, ?_, indices, fun low high => right fun _ => ⟨low, high⟩⟩
  rw [unravelExpr, built]
  rfl

theorem unravelExpr_computes (foldable : i.Foldable) (computes : Computes i m flat x) {shape : List Int}
    (positive : Positive shape) (small : product shape < 0x80000000) :
    ∃ index ns, unravelExpr shape flat = .ok index ∧ List.Forall₂ (Computes i m) index ns
      ∧ (0 ≤ x → x < product shape → ns = unravel x shape) :=
  unravelExpr_divisible (Expr.divisible_computes foldable) computes positive small

end Unravel

/-! ## One view -/

namespace View

variable {i offset valid : Expr} {m : Int} {index : List Expr} {ns : List Int}

theorem offsetExpr_cons (offset a : Expr) (index : List Expr) (stride : Int) (strides : List Int) :
    offsetExpr offset (a :: index) (stride :: strides)
      = (if stride = 0 then pure offset else a.mulScalar (.int stride) >>= offset.add)
        >>= fun moved => offsetExpr moved index strides := by
  rw [offsetExpr]
  by_cases still : stride = 0
  · rw [if_pos still, if_pos still]
  · rw [if_neg still, if_neg still]
    cases a.mulScalar (.int stride) <;> rfl

theorem offsetExpr_computes (foldable : i.Foldable) (indices : List.Forall₂ (Computes i m) index ns) {g : Int}
    (start : Computes i m offset (wrap32 g)) (strides : List Int) :
    ∃ e, offsetExpr offset index strides = .ok e ∧ Computes i m e (wrap32 (g + dot ns strides)) := by
  induction indices generalizing offset g strides with
  | nil => exact ⟨offset, rfl, by rwa [dot_nil_index, Int.add_zero]⟩
  | @cons a n index ns first _ inductionHypothesis =>
    cases strides with
    | nil => exact ⟨offset, rfl, by rwa [dot_nil, Int.add_zero]⟩
    | cons stride strides =>
      obtain ⟨moved, step, computes⟩ : ∃ e,
          (if stride = 0 then pure offset else a.mulScalar (.int stride) >>= offset.add) = Except.ok e
            ∧ Computes i m e (wrap32 (g + n * stride)) := by
        by_cases still : stride = 0
        · subst still
          exact ⟨offset, rfl, by rwa [Int.mul_zero, Int.add_zero]⟩
        · obtain ⟨scaled, product, factor⟩ := Expr.mulScalar_computes foldable first stride
          obtain ⟨e, sum, computes⟩ := Expr.add_computes foldable start factor
          -- The sum so far is known modulo `2 ^ 32` only, which is enough for the sums to come.
          have same : wrap32 (wrap32 g + wrap32 (n * stride)) = wrap32 (g + n * stride) :=
            wrap32_eq_iff.2 ((wrap32_modEq g).add (wrap32_modEq (n * stride)))
          exact ⟨e, by rw [if_neg still, product, ok_bind, sum], computes.congr same⟩
      obtain ⟨e, rest, value⟩ := inductionHypothesis computes strides
      refine ⟨e, ?_, value.congr (by rw [dot_cons, Int.add_assoc])⟩
      rw [offsetExpr_cons, step, ok_bind, rest]

/-- A condition with one more test, or without it where it is not needed. -/
def testedExpr (needed : Bool) (valid : Expr) (test : Except Failure Expr) : Except Failure Expr :=
  if needed then test >>= valid.both else pure valid

theorem validExpr_cons (valid a : Expr) (index : List Expr) (s : Int) (shape : List Int) (low high : Int)
    (mask : List (Int × Int)) :
    validExpr valid (a :: index) (s :: shape) ((low, high) :: mask)
      = if high ≤ low then pure (truth false)
        else testedExpr (decide (0 < low)) valid (a.cmpgt (int32 (low - 1))) >>= fun above =>
          testedExpr (decide (high < s)) above (a.cmplt (int32 high)) >>= fun both =>
            validExpr both index shape mask := by
  have testUpper : ∀ above : Expr, (if high < s then do
      let test ← a.cmplt (int32 high)
      let both ← above.both test
      validExpr both index shape mask
    else do
      let both ← pure above
      validExpr both index shape mask)
      = testedExpr (decide (high < s)) above (a.cmplt (int32 high)) >>= fun both =>
        validExpr both index shape mask := by
    intro above
    by_cases short : high < s
    · rw [testedExpr, if_pos short, if_pos (decide_eq_true short)]
      cases a.cmplt (int32 high) <;> rfl
    · rw [testedExpr, if_neg short, if_neg (by simpa using short)]
  rw [validExpr]
  by_cases empty : high ≤ low
  · rw [if_pos empty, if_pos empty]
  · rw [if_neg empty, if_neg empty]
    simp only [testUpper]
    by_cases late : 0 < low
    · rw [testedExpr, if_pos late, if_pos (decide_eq_true late)]
      cases a.cmpgt (int32 (low - 1)) <;> rfl
    · rw [if_neg late, testedExpr.eq_def (decide (0 < low)), if_neg (by simpa using late)]

theorem testedExpr_decides (needed : Bool) {holds b : Bool} {test : Except Failure Expr}
    (decides : Decides i m valid b) (tested : ∃ e, test = .ok e ∧ Decides i m e holds) :
    ∃ e, testedExpr needed valid test = .ok e ∧ Decides i m e (b && (!needed || holds)) := by
  cases needed with
  | false =>
    refine ⟨valid, rfl, ?_⟩
    rwa [Bool.not_false, Bool.true_or, Bool.and_true]
  | true =>
    obtain ⟨e, built, condition⟩ := tested
    obtain ⟨both, joined, decided⟩ := Expr.both_decides decides condition
    exact ⟨both, by rw [testedExpr, if_pos rfl, built, ok_bind, joined], decided⟩

/-- An index of an axis is in its valid range if it passes the tests that are made. A lower end that
    is tested is positive, so that its predecessor is a number of 32 bits as well. -/
theorem tests_eq {low high s n : Int} (wordLow : Word low) (wordHigh : Word high) (inside : 0 ≤ n ∧ n < s) :
    ((!decide (0 < low) || decide (wrap32 (low - 1) < n)) && (!decide (high < s) || decide (n < wrap32 high)))
      = decide (low ≤ n ∧ n < high) := by
  rw [wordHigh.wrap32_eq]
  obtain ⟨-, top⟩ := wordLow
  by_cases late : 0 < low
  · rw [wrap32_of_range (by omega) (by omega), Bool.eq_iff_iff]
    simp only [Bool.and_eq_true, Bool.or_eq_true, Bool.not_eq_true', decide_eq_true_eq,
      decide_eq_false_iff_not]
    omega
  · rw [Bool.eq_iff_iff]
    simp only [Bool.and_eq_true, Bool.or_eq_true, Bool.not_eq_true', decide_eq_true_eq,
      decide_eq_false_iff_not]
    omega

/-- The condition fails where the earlier one does, and elsewhere inside of the shape it says whether the
    multi-index is in the valid ranges. -/
theorem validExpr_decides (foldable : i.Foldable) (indices : List.Forall₂ (Computes i m) index ns)
    {mask : List (Int × Int)} (ends : ∀ r ∈ mask, Word r.1 ∧ Word r.2) {b : Bool}
    (decides : Decides i m valid b) (shape : List Int) :
    ∃ e holds, validExpr valid index shape mask = .ok e ∧ Decides i m e holds
      ∧ (holds = true → b = true) ∧ (Inside ns shape → holds = (b && admits mask ns)) := by
  induction indices generalizing valid b shape mask with
  | nil => exact ⟨valid, b, rfl, decides, id, fun _ => by rw [admits_nil_index, Bool.and_true]⟩
  | @cons a n index ns first _ inductionHypothesis =>
    cases shape with
    | nil => exact ⟨valid, b, rfl, decides, id, fun inside => by cases inside⟩
    | cons s shape =>
      cases mask with
      | nil => exact ⟨valid, b, rfl, decides, id, fun _ => by rw [admits_nil, Bool.and_true]⟩
      | cons r mask =>
        obtain ⟨low, high⟩ := r
        obtain ⟨wordLow, wordHigh⟩ := ends _ (List.mem_cons_self ..)
        rw [validExpr_cons]
        by_cases empty : high ≤ low
        -- An empty valid range ends the construction, whatever was tested before.
        · refine ⟨truth false, false, if_pos empty, Expr.decides_truth false, nofun, fun _ => ?_⟩
          rw [admits_cons, decide_eq_false (by dsimp only; omega), Bool.false_and, Bool.and_false]
        · obtain ⟨above, tested, lower⟩ := testedExpr_decides (decide (0 < low)) decides
            (Expr.cmpgt_decides foldable first (Expr.computes_int32 (low - 1)))
          obtain ⟨both, tested', upper⟩ := testedExpr_decides (decide (high < s)) lower
            (Expr.cmplt_decides foldable first (Expr.computes_int32 high))
          obtain ⟨e, holds, rest, condition, weaker, exact⟩ :=
            inductionHypothesis (fun r member => ends r (List.mem_cons_of_mem _ member)) upper shape
          rw [Bool.and_assoc] at weaker
          refine ⟨e, holds, ?_, condition, fun valid => (Bool.and_eq_true_iff.1 (weaker valid)).1,
            fun inside => ?_⟩
          · rw [if_neg empty, tested, ok_bind, tested', ok_bind, rest]
          · obtain ⟨bounds, others⟩ := Shape.inside_cons.1 inside
            have tests := tests_eq wordLow wordHigh bounds
            dsimp only at tests
            rw [exact others, admits_cons, ← tests]
            simp only [Bool.and_assoc]

/-- The offset of a multi-index in 32 bits, and whether it is padding if it is one of the shape. -/
theorem addressExpr_computes {v : View} (foldable : i.Foldable) (ends : ∀ r ∈ v.ranges, Word r.1 ∧ Word r.2)
    (indices : List.Forall₂ (Computes i m) index ns) :
    ∃ offset valid holds, v.addressExpr index = .ok (offset, valid)
      ∧ Computes i m offset (wrap32 (v.offset + dot ns v.strides)) ∧ Decides i m valid holds
      ∧ (Inside ns v.shape → v.offsetOf? ns = if holds then some (v.offset + dot ns v.strides) else none) := by
  obtain ⟨offset, moved, computes⟩ := offsetExpr_computes foldable indices (Expr.computes_int32 v.offset) v.strides
  unfold addressExpr
  rw [moved, ok_bind]
  cases known : v.mask with
  | none =>
    refine ⟨offset, truth true, true, rfl, computes, Expr.decides_truth true, fun _ => ?_⟩
    rw [offsetOf?, known]
    rfl
  | some mask =>
    have range : v.ranges = mask := by rw [ranges, known]; rfl
    obtain ⟨valid, holds, built, decides, -, exact⟩ :=
      validExpr_decides foldable indices (range ▸ ends) (Expr.decides_truth true) v.shape
    refine ⟨offset, valid, holds, ?_, computes, decides, fun inside => ?_⟩
    · dsimp only
      rw [built]
      rfl
    · rw [offsetOf?, known, exact inside, Bool.true_and]

end View

/-! ## Several views -/

namespace Layout

variable {i flat valid : Expr} {m x : Int}

/-- An offset carried down. Where the condition holds so far it is a position of the next view; where
    it does not, nothing is known of the number, and the condition stays false. -/
theorem descendExpr_computes (foldable : i.Foldable) {views : List View} (addressable : ∀ v ∈ views, v.Addressable)
    (lands : views.IsChain View.LandsIn) {b : Bool} (computes : Computes i m flat (wrap32 x))
    (decides : Decides i m valid b) (start : b = true → ∀ v ∈ views.head?, 0 ≤ x ∧ x < product v.shape) :
    ∃ offset holds y, descendExpr views (flat, valid) = .ok (offset, holds) ∧ Computes i m offset y
      ∧ Decides i m holds (b && (descend views x).isSome)
      ∧ (b = true → ∀ a, descend views x = some a → y = wrap32 a) := by
  induction views generalizing flat valid x b with
  | nil =>
    refine ⟨flat, valid, wrap32 x, rfl, computes, ?_, fun _ a known => by cases known; rfl⟩
    rwa [descend, Option.isSome_some, Bool.and_true]
  | cons v views inductionHypothesis =>
    have here := addressable v (List.mem_cons_self ..)
    obtain ⟨index, ns, unraveled, indices, exact⟩ :=
      unravelExpr_computes foldable computes here.positive here.small
    obtain ⟨offset, condition, shown, built, moved, decided, address⟩ :=
      View.addressExpr_computes foldable here.ends indices
    obtain ⟨both, joined, narrowed⟩ := Expr.both_decides decides decided
    -- As long as the condition holds, the number is the position, and the next offset one of the next view.
    have inside : b = true → ns = unravel x v.shape ∧ Inside ns v.shape := by
      intro holds
      obtain ⟨low, high⟩ := start holds v rfl
      have word : wrap32 x = x := wrap32_of_range (by omega) (by have := here.small; omega)
      rw [word] at exact
      rw [exact low high]
      exact ⟨rfl, Shape.inside_unravel here.positive x⟩
    have next : (b && shown) = true → ∀ w ∈ views.head?,
        0 ≤ v.offset + dot ns v.strides ∧ v.offset + dot ns v.strides < product w.shape := by
      intro holds w member
      obtain ⟨valid, rfl⟩ := Bool.and_eq_true_iff.1 holds
      obtain ⟨-, positions⟩ := inside valid
      exact (List.isChain_cons.1 lands).1 w member ns _ positions (by rw [address positions]; rfl)
    obtain ⟨last, holds, y, rest, computed, conditions, value⟩ :=
      inductionHypothesis (fun w member => addressable w (List.mem_cons_of_mem _ member))
        lands.tail moved narrowed next
    refine ⟨last, holds, y, ?_, computed, ?_, ?_⟩
    · rw [descendExpr, unraveled, ok_bind, built, ok_bind]
      dsimp only
      rw [joined, ok_bind, rest]
    · cases b with
      | false => exact conditions
      | true =>
        obtain ⟨rfl, positions⟩ := inside rfl
        rw [descend, address positions]
        cases shown <;> exact conditions
    · rintro rfl a known
      obtain ⟨rfl, positions⟩ := inside rfl
      rw [descend, address positions] at known
      cases shown with
      | false => cases known
      | true => exact value rfl a known

/-- The offset of a position in 32 bits, and whether it is padding. -/
theorem addressExpr_computes {l : Layout} (addressable : l.Addressable) (foldable : i.Foldable)
    (kind : i.kind = .int32) {p : Int} (low : 0 ≤ p) (high : p < l.size) :
    ∃ offset valid y, l.addressExpr i = .ok (offset, valid) ∧ Computes i p offset y
      ∧ Decides i p valid (l.offsetOf? (unravel p l.shape)).isSome
      ∧ ∀ a, l.offsetOf? (unravel p l.shape) = some a → y = wrap32 a := by
  have small := (addressable.views l.top (List.mem_cons_self ..)).small
  have word : Word p := ⟨by omega, show p < 0x80000000 from Int.lt_trans high small⟩
  obtain ⟨offset, valid, y, built, computes, decides, value⟩ :=
    descendExpr_computes foldable addressable.views addressable.lands (x := p)
      ((Expr.computes_position kind word).congr word.wrap32_eq.symm) (Expr.decides_truth true)
      (fun _ v member => by
        cases member
        exact ⟨low, high⟩)
  exact ⟨offset, valid, y, built, computes, decides, value rfl⟩

theorem descend_base {top : View} {below : List View} (positive : Positive (Layout.mk top below).base.shape) {x a : Int}
    (known : descend (top :: below) x = some a) :
    ∃ index, Inside index (Layout.mk top below).base.shape
      ∧ (Layout.mk top below).base.offsetOf? index = some a := by
  induction below generalizing top x with
  | nil =>
    rw [descend, Option.bind_eq_some_iff] at known
    obtain ⟨offset, address, ⟨⟩⟩ := known
    exact ⟨_, Shape.inside_unravel positive x, address⟩
  | cons v below inductionHypothesis =>
    rw [descend, Option.bind_eq_some_iff] at known
    obtain ⟨offset, -, rest⟩ := known
    rw [base_cons] at positive ⊢
    exact inductionHypothesis positive rest

theorem Addressable.positive {l : Layout} (addressable : l.Addressable) : Positive l.shape :=
  (addressable.views l.top (List.mem_cons_self ..)).positive

theorem Addressable.addressFlat_eq {l : Layout} (addressable : l.Addressable) {p : Int} (low : 0 ≤ p)
    (high : p < l.size) : l.addressFlat p = .ok (l.offsetOf? (unravel p l.shape)) := by
  unfold addressFlat
  rw [if_pos ⟨low, high⟩, address_eq (Shape.inside_unravel addressable.positive p)]

theorem Addressable.addressFlat_base {l : Layout} (addressable : l.Addressable) {p a : Int}
    (known : l.addressFlat p = .ok (some a)) :
    ∃ index, Inside index l.base.shape ∧ l.base.offsetOf? index = some a := by
  unfold addressFlat at known
  split at known
  · rw [address_eq (Shape.inside_unravel addressable.positive p)] at known
    exact descend_base (addressable.views _ l.base_mem).positive (Except.ok.inj known)
  · cases known

/-- Wherever an index has a position of the layout as its value, the expressions of its address have the
    address as their values: the condition says whether there is one, the offset which one it is. -/
theorem addressExpr_evaluate {l : Layout} (addressable : l.Addressable)
    (fits : ∀ index offset, Inside index l.base.shape → l.base.offsetOf? index = some offset → Word offset)
    {e : Expr} (kind : e.kind = .int32) (scope : Scoped false e) {env : Environment} {buffers : Buffers}
    {p : Int} (known : e.evaluate env buffers = .ok (.int p)) (low : 0 ≤ p) (high : p < l.size) :
    ∃ offset valid address n, l.addressExpr e = .ok (offset, valid) ∧ l.addressFlat p = .ok address
      ∧ valid.evaluate env buffers = .ok (.bool address.isSome)
      ∧ offset.evaluate env buffers = .ok (.int n) ∧ ∀ a, address = some a → n = a := by
  rw [Expr.evaluate_eq_valueAt scope none] at known
  obtain ⟨offset, valid, y, built, computes, decides, value⟩ :=
    addressExpr_computes addressable (Expr.foldable_of_value known rfl) kind low high
  obtain ⟨x, evaluated, whole⟩ := computes.value known rfl
  obtain ⟨n, rfl⟩ := computes.shape.int_value computes.kind known evaluated
  cases whole
  refine ⟨offset, valid, _, y, built, addressable.addressFlat_eq low high, ?_, ?_, fun a address => ?_⟩
  · rw [Expr.evaluate_eq_valueAt (decides.shape.scope scope) none, decides.value known rfl]
  · rw [Expr.evaluate_eq_valueAt (computes.shape.scope scope) none, evaluated]
  · obtain ⟨index, inside, reached⟩ :=
      addressable.addressFlat_base ((addressable.addressFlat_eq low high).trans (congrArg _ address))
    rw [value a address, (fits index a inside reached).wrap32_eq]

theorem landsIn_rowMajor {shape : List Int} {w : View} (size : product shape = product w.shape) :
    (View.rowMajor shape).LandsIn w := by
  intro index offset inside known
  rw [View.rowMajor_shape] at inside
  rw [View.offsetOf?_rowMajor inside] at known
  cases known
  rw [← size]
  exact inside.ravel_bounds

/-- Two rows of three positions over four elements, with padding in front of them and behind. -/
def paddedRows : Layout :=
  ⟨View.rowMajor [2, 3], [View.create [6] [1] (-1) (some [(1, 5)])]⟩

theorem addressable_paddedRows : paddedRows.Addressable where
  views := by
    intro v member
    simp only [paddedRows, List.mem_cons, List.not_mem_nil, or_false] at member
    rcases member with rfl | rfl
    · exact ⟨by decide, by decide, by decide⟩
    · exact ⟨by decide, by decide, by decide⟩
  lands := .cons_cons (landsIn_rowMajor rfl) (.singleton _)

theorem bounds_paddedRows {index : List Int} {offset : Int} (inside : Inside index paddedRows.base.shape)
    (known : paddedRows.base.offsetOf? index = some offset) : 0 ≤ offset ∧ offset < 4 := by
  obtain ⟨i, rest, rfl, -, -⟩ := Shape.inside_cons_right.1 (show Inside index [6] from inside)
  change (if View.admits [(1, 5)] (i :: rest) then some (-1 + dot (i :: rest) [1]) else none) = _ at known
  split at known
  · next admitted =>
    simp only [View.admits_cons, View.admits_nil, Bool.and_true, decide_eq_true_eq] at admitted
    cases known
    rw [View.dot_cons, View.dot_nil]
    omega
  · cases known

/-- The third position of the padded rows is the second element. -/
theorem addressExpr_evaluate_padded :
    (paddedRows.Addressable
      ∧ (∀ index offset, Inside index paddedRows.base.shape →
          paddedRows.base.offsetOf? index = some offset → Word offset)
      ∧ (Expr.outputPosition 6).kind = .int32 ∧ Scoped false (Expr.outputPosition 6)
      ∧ (Expr.outputPosition 6).evaluate (atOutput 2) (fun _ => none) = .ok (.int 2)
      ∧ (0 : Int) ≤ 2 ∧ 2 < paddedRows.size)
    ∧ ∃ offset valid address n, paddedRows.addressExpr (Expr.outputPosition 6) = .ok (offset, valid)
      ∧ paddedRows.addressFlat 2 = .ok address
      ∧ valid.evaluate (atOutput 2) (fun _ => none) = .ok (.bool address.isSome)
      ∧ offset.evaluate (atOutput 2) (fun _ => none) = .ok (.int n) ∧ ∀ a, address = some a → n = a := by
  have fits : ∀ index offset, Inside index paddedRows.base.shape →
      paddedRows.base.offsetOf? index = some offset → Word offset := by
    intro index offset inside known
    obtain ⟨low, high⟩ := bounds_paddedRows inside known
    constructor <;> omega
  have value : (Expr.outputPosition 6).evaluate (atOutput 2) (fun _ => none) = .ok (.int 2) := rfl
  have scope : Scoped false (Expr.outputPosition 6) := by decide
  exact ⟨⟨addressable_paddedRows, fits, rfl, scope, value, by decide, by decide⟩,
    addressExpr_evaluate addressable_paddedRows fits rfl scope value (by decide) (by decide)⟩

end Layout

end StridedArray
