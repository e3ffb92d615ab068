import StridedArray.Proofs.Expr.Lowering

/-! # The reach of the lowest view

A layout is accepted for a buffer if the least and the greatest offset that it announces are inside of
it. A layout that announces none has an empty valid range, and then the condition of its address is
built as a constant that does not hold.

* `View.reach_bounds`, `View.exists_empty` — the two ends of the announced range, and why there may be
  none;
* `Layout.ReachesInside` — an accepted layout; `ReachesInside.address_bounds` — its addresses are inside
  of the buffer;
* `ReachesInside.condition_or_element` — the condition is the constant that does not hold, or the buffer has
  an element. -/

namespace StridedArray

open Shape (Inside dot)
open StridedArray.Expr (truth)

namespace View

/-! ## The announced range -/

/-- Offsets of multi-indices in the valid ranges are between the two ends that are announced. -/
theorem reach_bounds {ranges : List (Int × Int)} {strides : List Int} {start reach : Int × Int}
    (known : (strides.zip ranges).foldlM Layout.widen? start = some reach) (ordered : start.1 ≤ start.2) :
    reach.1 ≤ reach.2 ∧ ∀ (g : Int) (index : List Int), start.1 ≤ g → g ≤ start.2 →
      index.length = ranges.length → admits ranges index = true →
        reach.1 ≤ g + dot index strides ∧ g + dot index strides ≤ reach.2 := by
  induction ranges generalizing strides start with
  | nil =>
    rw [List.zip_nil_right] at known
    cases known
    refine ⟨ordered, fun g index least most length _ => ?_⟩
    rw [List.length_eq_zero_iff.1 length, dot_nil_index, Int.add_zero]
    exact ⟨least, most⟩
  | cons r ranges inductionHypothesis =>
    cases strides with
    | nil =>
      cases known
      refine ⟨ordered, fun g index least most _ _ => ?_⟩
      rw [dot_nil, Int.add_zero]
      exact ⟨least, most⟩
    | cons stride strides =>
      rw [List.zip_cons_cons, List.foldlM_cons, Option.bind_eq_bind, Option.bind_eq_some_iff] at known
      obtain ⟨next, widened, rest⟩ := known
      -- One axis moves both ends as far as an index of its valid range can.
      have step : next.1 ≤ next.2 ∧ ∀ g i : Int, start.1 ≤ g → g ≤ start.2 → r.1 ≤ i → i < r.2 →
          next.1 ≤ g + i * stride ∧ g + i * stride ≤ next.2 := by
        unfold Layout.widen? at widened
        dsimp only at widened
        split at widened
        · cases widened
        · next several =>
          split at widened
          · cases widened
            exact ⟨by nlinarith, fun g i _ _ _ _ => ⟨by nlinarith, by nlinarith⟩⟩
          · cases widened
            exact ⟨by nlinarith, fun g i _ _ _ _ => ⟨by nlinarith, by nlinarith⟩⟩
      obtain ⟨ends, between⟩ := inductionHypothesis rest step.1
      refine ⟨ends, fun g index least most length admitted => ?_⟩
      obtain ⟨i, index, rfl⟩ := List.exists_cons_of_length_eq_add_one length
      rw [admits_cons, Bool.and_eq_true, decide_eq_true_eq] at admitted
      obtain ⟨⟨low, high⟩, others⟩ := admitted
      obtain ⟨least', most'⟩ := step.2 g i least most low high
      rw [dot_cons, ← Int.add_assoc]
      exact between _ index least' most' (Nat.succ.inj length) others

/-- Where no range of offsets is announced, one of the valid ranges is empty. -/
theorem exists_empty {ranges : List (Int × Int)} {strides : List Int} {start : Int × Int}
    (none : (strides.zip ranges).foldlM Layout.widen? start = none) : ∃ r ∈ ranges, r.2 ≤ r.1 := by
  induction ranges generalizing strides start with
  | nil =>
    rw [List.zip_nil_right] at none
    cases none
  | cons r ranges inductionHypothesis =>
    by_cases empty : r.2 ≤ r.1
    · exact ⟨r, List.mem_cons_self .., empty⟩
    · cases strides with
      | nil => cases none
      | cons stride strides =>
        rw [List.zip_cons_cons, List.foldlM_cons] at none
        obtain ⟨next, widened⟩ : ∃ next, Layout.widen? start (stride, r) = some next := by
          unfold Layout.widen?
          dsimp only
          rw [if_neg empty]
          split <;> exact ⟨_, rfl⟩
        rw [widened] at none
        obtain ⟨r', member, found⟩ := inductionHypothesis none
        exact ⟨r', List.mem_cons_of_mem _ member, found⟩

theorem admits_bounds {ranges : List (Int × Int)} {index : List Int} (length : index.length = ranges.length)
    (admitted : admits ranges index = true) : ∀ r ∈ ranges, r.1 < r.2 := by
  induction ranges generalizing index with
  | nil => exact nofun
  | cons r ranges inductionHypothesis =>
    obtain ⟨i, index, rfl⟩ := List.exists_cons_of_length_eq_add_one length
    rw [admits_cons, Bool.and_eq_true, decide_eq_true_eq] at admitted
    obtain ⟨⟨low, high⟩, others⟩ := admitted
    exact List.forall_mem_cons.2
      ⟨Int.lt_of_le_of_lt low high, inductionHypothesis (Nat.succ.inj length) others⟩

/-! ## Conditions that do not hold -/

theorem validExpr_empty {mask : List (Int × Int)} (empty : ∃ r ∈ mask, r.2 ≤ r.1) {index : List Expr}
    {shape : List Int} (ranks : index.length = mask.length) (extents : shape.length = mask.length)
    {valid e : Expr} (built : validExpr valid index shape mask = .ok e) : e = truth false := by
  induction mask generalizing index shape valid with
  | nil =>
    obtain ⟨r, member, -⟩ := empty
    cases member
  | cons r mask inductionHypothesis =>
    obtain ⟨low, high⟩ := r
    obtain ⟨i, index, rfl⟩ := List.exists_cons_of_length_eq_add_one ranks
    obtain ⟨s, shape, rfl⟩ := List.exists_cons_of_length_eq_add_one extents
    rw [validExpr_cons] at built
    split at built
    · cases built
      rfl
    · next several =>
      simp only [bind_eq_ok] at built
      obtain ⟨above, -, both, -, rest⟩ := built
      refine inductionHypothesis ?_ (Nat.succ.inj ranks) (Nat.succ.inj extents) rest
      obtain ⟨r, member, found⟩ := empty
      rcases List.mem_cons.1 member with rfl | member
      · exact absurd found several
      · exact ⟨r, member, found⟩

theorem addressExpr_empty {v : View} (positive : Shape.Positive v.shape)
    (ranks : v.ranges.length = v.shape.length) (empty : ∃ r ∈ v.ranges, r.2 ≤ r.1) {index : List Expr}
    (length : index.length = v.shape.length) {offset valid : Expr}
    (built : v.addressExpr index = .ok (offset, valid)) : valid = truth false := by
  cases known : v.mask with
  | none =>
    -- Without a mask the valid ranges are whole axes.
    obtain ⟨r, member, found⟩ := empty
    rw [ranges, known] at member
    obtain ⟨s, axis, rfl⟩ := List.mem_map.1 member
    exact absurd (positive s axis) (Int.not_lt.2 found)
  | some mask =>
    have range : v.ranges = mask := by rw [ranges, known]; rfl
    rw [range] at ranks empty
    simp only [addressExpr, known, bind_eq_ok, pure_eq_ok, Prod.mk.injEq] at built
    obtain ⟨_, -, _, condition, -, rfl⟩ := built
    exact validExpr_empty empty (length.trans ranks.symm) ranks.symm condition

end View

/-! ## The whole stack -/

theorem length_unravelExprFrom {shape : List Int} {flat : Expr} {leading : Bool} {index : List Expr}
    {span : Int} (built : unravelExprFrom flat shape leading = .ok (index, span)) :
    index.length = shape.length := by
  induction shape generalizing leading index span with
  | nil =>
    cases built
    rfl
  | cons s shape inductionHypothesis =>
    rw [unravelExprFrom_cons, bind_eq_ok] at built
    obtain ⟨⟨below, more⟩, rest, built⟩ := built
    have length := inductionHypothesis rest
    dsimp only at built
    split at built
    · cases built
      rw [List.length_cons, List.length_cons, length]
    · simp only [bind_eq_ok, pure_eq_ok, Prod.mk.injEq] at built
      obtain ⟨digit, -, rfl, -⟩ := built
      rw [List.length_cons, List.length_cons, length]

theorem Expr.both_false {a e : Expr} (built : a.both (truth false) = .ok e) : e = truth false := by
  unfold both at built
  split at built
  · cases built
  · next conditions =>
    split at built
    · cases built
      split <;> rfl
    · next same =>
      cases same
      cases built
      rfl
    · next other => exact absurd rfl (other _ _ _)

theorem Expr.false_both {a e : Expr} (built : (truth false).both a = .ok e) : e = truth false := by
  unfold both at built
  split at built
  · cases built
  · cases built
    rfl

namespace Layout

theorem descendExpr_false {views : List View} {flat offset valid : Expr}
    (built : descendExpr views (flat, truth false) = .ok (offset, valid)) : valid = truth false := by
  induction views generalizing flat with
  | nil =>
    cases built
    rfl
  | cons v views inductionHypothesis =>
    simp only [descendExpr, bind_eq_ok, Prod.exists] at built
    obtain ⟨_, -, _, _, -, both, joined, rest⟩ := built
    obtain rfl := Expr.false_both joined
    exact inductionHypothesis rest

theorem descendExpr_empty {views : List View} {v : View} (member : v ∈ views) (positive : Shape.Positive v.shape)
    (ranks : v.ranges.length = v.shape.length) (empty : ∃ r ∈ v.ranges, r.2 ≤ r.1) {flat condition offset valid : Expr}
    (built : descendExpr views (flat, condition) = .ok (offset, valid)) : valid = truth false := by
  induction views generalizing flat condition with
  | nil => cases member
  | cons u views inductionHypothesis =>
    simp only [descendExpr, bind_eq_ok, Prod.exists] at built
    obtain ⟨index, unraveled, _, here, address, both, joined, rest⟩ := built
    rcases List.mem_cons.1 member with rfl | member
    · obtain ⟨⟨_, _⟩, axes, rfl⟩ := map_eq_ok.1 (show Prod.fst <$> _ = Except.ok index from unraveled)
      obtain rfl := View.addressExpr_empty positive ranks empty (length_unravelExprFrom axes) address
      obtain rfl := Expr.both_false joined
      exact descendExpr_false rest
    · exact inductionHypothesis member rest

def ReachesInside (l : Layout) (count : Nat) : Prop :=
  ∀ low high, l.offsetRange? = some (low, high) → 0 ≤ low ∧ high < count

theorem reachesInside_of_checkReach {l : Layout} {slot : Int} {index : Expr} {count : Nat} {evaluated : Bool}
    (accepted : checkReach slot l index count evaluated = .ok ()) : l.ReachesInside count := by
  intro low high known
  unfold checkReach at accepted
  rw [known] at accepted
  by_cases outside : low < 0 ∨ (count : Int) ≤ high
  · simp [outside] at accepted
  · omega

theorem checkReach_of_checkRead {l : Layout} {slot : Int} {kind : Element} {index : Expr} {bytes : Nat}
    {evaluated : Bool} (accepted : checkRead (.accessor slot kind l index) bytes evaluated = .ok ()) :
    checkReach slot l index (bytes / kind.itemSize) evaluated = .ok () := by
  unfold checkRead at accepted
  dsimp only at accepted
  by_cases odd : bytes % kind.itemSize ≠ 0
  · rw [Expr.kind, if_pos odd] at accepted
    cases accepted
  · rwa [Expr.kind, if_neg odd] at accepted

variable {l : Layout} {count : Nat}

theorem offsetRange?_eq (addressable : l.Addressable) :
    l.offsetRange? = (l.base.strides.zip l.base.ranges).foldlM widen? (l.base.offset, l.base.offset) := by
  have base := (addressable.views _ l.base_mem).positive.product_pos
  have top : 0 < l.size := addressable.positive.product_pos
  unfold offsetRange?
  exact if_neg (by omega)

/-- Every address of an accepted layout is inside of the buffer. -/
theorem ReachesInside.address_bounds (reaches : l.ReachesInside count) (addressable : l.Addressable)
    (ranks : l.base.ranges.length = l.base.shape.length) {p a : Int}
    (known : l.addressFlat p = .ok (some a)) : 0 ≤ a ∧ a < count := by
  obtain ⟨index, inside, address⟩ := addressable.addressFlat_base known
  rw [View.offsetOf?_ranges inside] at address
  split at address
  · next admitted =>
    cases address
    have length := inside.length_eq.trans ranks.symm
    cases announced : l.offsetRange? with
    | none =>
      -- There is no address at all then.
      rw [offsetRange?_eq addressable] at announced
      obtain ⟨r, member, empty⟩ := View.exists_empty announced
      exact absurd (View.admits_bounds length admitted r member) (Int.not_lt.2 empty)
    | some reach =>
      obtain ⟨low, high⟩ := reach
      obtain ⟨bottom, top⟩ := reaches low high announced
      rw [offsetRange?_eq addressable] at announced
      obtain ⟨least, most⟩ := (View.reach_bounds announced (Int.le_refl _)).2 l.base.offset index
        (Int.le_refl _) (Int.le_refl _) length admitted
      exact ⟨by dsimp only at least; omega, by dsimp only at most; omega⟩
  · cases address

/-- Either the condition of the address of a position is the constant that does not hold, or the buffer has
    an element that padding can be read at. -/
theorem ReachesInside.condition_or_element (reaches : l.ReachesInside count) (addressable : l.Addressable)
    (ranks : l.base.ranges.length = l.base.shape.length) {i offset valid : Expr}
    (built : l.addressExpr i = .ok (offset, valid)) : valid = truth false ∨ 0 < count := by
  cases announced : l.offsetRange? with
  | none =>
    rw [offsetRange?_eq addressable] at announced
    exact .inl (descendExpr_empty l.base_mem (addressable.views _ l.base_mem).positive ranks
      (View.exists_empty announced) built)
  | some reach =>
    obtain ⟨low, high⟩ := reach
    obtain ⟨bottom, top⟩ := reaches low high announced
    rw [offsetRange?_eq addressable] at announced
    have ordered := (View.reach_bounds announced (Int.le_refl _)).1
    dsimp only at ordered
    exact .inr (by omega)

end Layout

end StridedArray
