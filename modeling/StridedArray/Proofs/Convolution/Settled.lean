import StridedArray.Proofs.Convolution.Axes
import StridedArray.Proofs.Datum
import StridedArray.Tensor.Convolution

/-! # Parameters that stand for integers

Accepted parameters need not be written as integers: a truth value counts as padding. They stand for
integers all the same, and everything that is done with them is what is done with those.

* `LooseConvParams.StandsFor` — parameters and the integers that they stand for;
* `StandsFor.outputShape`, `StandsFor.prepareConvolution`, `StandsFor.transposeInput`,
  `StandsFor.transposeFilter` — what is done with them;
* `exists_standsFor` — accepted parameters stand for accepted ones. -/

namespace StridedArray

namespace LooseConvParams

open Loose (entryOf dilated covered)

def IsPair (item : Datum) (pair : Int × Int) : Prop :=
  ∃ a b, item.items = .ok [a, b] ∧ a.exact = .ok pair.1 ∧ b.exact = .ok pair.2

/-- Parameters stand for integers if they are these integers, padding possibly being written in another
    way. -/
structure StandsFor (p : LooseConvParams) (q : ConvParams) : Prop where
  strides : p.strides.items = .ok (Datum.ints q.strides)
  padding : ∃ items, p.padding.items = .ok items ∧ List.Forall₂ IsPair items q.padding
  inputDilation : p.inputDilation.items = .ok (Datum.ints q.inputDilation)
  filterDilation : p.filterDilation.items = .ok (Datum.ints q.filterDilation)

theorem isPair_ofPair (pair : Int × Int) : IsPair (Loose.ofPair pair) pair :=
  ⟨.int pair.1, .int pair.2, rfl, rfl, rfl⟩

theorem standsFor_ofParams (q : ConvParams) : (ofParams q).StandsFor q where
  strides := rfl
  padding := ⟨_, rfl, by
    rw [List.forall₂_map_left_iff, List.forall₂_same]
    exact fun pair _ => isPair_ofPair pair⟩
  inputDilation := rfl
  filterDilation := rfl

theorem isPair_of_plainPairs? {items : List Datum} {pairs : List (Int × Int)}
    (plain : Loose.plainPairs? items = some pairs) : List.Forall₂ IsPair items pairs := by
  induction items generalizing pairs with
  | nil =>
    cases plain
    exact .nil
  | cons d items inductionHypothesis =>
    unfold Loose.plainPairs? at plain inductionHypothesis
    rw [List.mapM_cons, Option.bind_eq_bind, Option.bind_eq_some_iff] at plain
    obtain ⟨pair, first, plain⟩ := plain
    rw [Option.bind_eq_bind, Option.bind_eq_some_iff] at plain
    obtain ⟨rest, others, ⟨⟩⟩ := plain
    refine .cons ?_ (inductionHypothesis others)
    split at first
    · cases first
      exact ⟨_, _, rfl, rfl, rfl⟩
    · cases first

theorem items_of_plain? {d : Datum} {ns : List Int} (plain : Loose.plain? d = some ns) :
    d.items = .ok (Datum.ints ns) := by
  cases d with
  | list items => rw [Datum.ints_of_plainInts? plain, Datum.items_list]
  | none => cases plain
  | scalar value => cases plain
  | text s => cases plain
  | slice start stop step => cases plain

theorem standsFor_of_plain? {p : LooseConvParams} {q : ConvParams} (plain : p.plain? = some q) :
    p.StandsFor q := by
  obtain ⟨strides, padding, inputDilation, filterDilation⟩ := p
  unfold plain? at plain
  dsimp only at plain
  cases padding with
  | list items =>
    simp only [Option.bind_eq_bind, Option.bind_eq_some_iff] at plain
    obtain ⟨ss, first, pads, second, ds, third, es, fourth, ⟨⟩⟩ := plain
    exact ⟨items_of_plain? first, ⟨items, rfl, isPair_of_plainPairs? second⟩, items_of_plain? third,
      items_of_plain? fourth⟩
  | none => cases plain
  | scalar value => cases plain
  | text s => cases plain
  | slice start stop step => cases plain

theorem two_of_items {d a b : Datum} (known : d.items = .ok [a, b]) : d.two = .ok (a, b) := by
  unfold Datum.two
  rw [known]
  rfl

theorem StandsFor.settle {p : LooseConvParams} {q : ConvParams} (stands : p.StandsFor q) :
    p.settle = .ok q := by
  obtain ⟨items, paddingItems, pairs⟩ := stands.padding
  have exacts : ∀ ns : List Int, (Datum.ints ns).mapM Datum.exact = .ok ns := fun ns =>
    Datum.exacts_ints ns
  unfold LooseConvParams.settle Datum.exacts
  rw [stands.strides, ok_bind, exacts, ok_bind, paddingItems, ok_bind,
    (@mapM_eq_ok _ _ _ _ items q.padding).2, ok_bind, stands.inputDilation, ok_bind, exacts, ok_bind,
    stands.filterDilation, ok_bind, exacts]
  · rfl
  · refine pairs.imp fun item pair isPair => ?_
    obtain ⟨a, b, known, low, high⟩ := isPair
    rw [two_of_items known, ok_bind]
    dsimp only
    rw [low, ok_bind, high]
    rfl

theorem StandsFor.eq_of_plain? {p : LooseConvParams} {q other : ConvParams} (stands : p.StandsFor q)
    (plain : p.plain? = some other) : other = q :=
  Except.ok.inj ((standsFor_of_plain? plain).settle.symm.trans stands.settle)

/-! ## What is done with parameters -/

section Same

variable {p : LooseConvParams} {q : ConvParams}

theorem axisEntry_ints (ns : List Int) (axis : Nat) :
    axisEntry (Datum.ints ns) axis = Datum.int <$> axisEntry ns axis := by
  unfold axisEntry Datum.ints
  rw [List.getElem?_map]
  cases ns[axis]? <;> rfl

theorem entryOf_ints {given : Datum} {ns : List Int} (known : given.items = .ok (Datum.ints ns))
    (axis : Nat) : entryOf given axis = Datum.int <$> axisEntry ns axis := by
  unfold Loose.entryOf
  rw [known, ok_bind, axisEntry_ints]

theorem StandsFor.padding_entry (stands : p.StandsFor q) (axis : Nat) :
    (∃ item a b low high, entryOf p.padding axis = .ok item ∧ item.two = .ok (a, b)
      ∧ axisEntry q.padding axis = .ok (low, high) ∧ a.exact = .ok low ∧ b.exact = .ok high)
    ∨ (entryOf p.padding axis = throw .noElement ∧ axisEntry q.padding axis = throw .noElement) := by
  obtain ⟨items, known, pairs⟩ := stands.padding
  unfold Loose.entryOf axisEntry
  rw [known, ok_bind]
  by_cases bound : axis < items.length
  · have other : axis < q.padding.length := by rwa [← pairs.length_eq]
    obtain ⟨a, b, two, low, high⟩ := (List.forall₂_iff_get.1 pairs).2 axis bound other
    rw [List.getElem?_eq_getElem bound, List.getElem?_eq_getElem other]
    exact .inl ⟨_, a, b, _, _, rfl, two_of_items two, rfl, low, high⟩
  · rw [List.getElem?_eq_none (by omega), List.getElem?_eq_none (by rw [← pairs.length_eq]; omega)]
    exact .inr ⟨rfl, rfl⟩

theorem covered_int (k : Int) (e : Except Failure Int) :
    covered (.int k) (Datum.int <$> e) = (fun d => Datum.int (windowReach k d)) <$> e := by
  cases e <;> rfl

theorem dilated_int (x : Int) (e : Except Failure Int) :
    dilated (.int x) (Datum.int <$> e) = (fun d => Datum.int (dilatedExtent x d)) <$> e := by
  cases e with
  | error f => rfl
  | ok d => exact Datum.larger_int _ _

theorem StandsFor.outputExtents (stands : p.StandsFor q) (axis : Nat) (xs ks : List Int) :
    p.outputExtents axis (Datum.ints xs) (Datum.ints ks)
      = Datum.ints <$> q.outputExtents axis xs ks := by
  induction xs generalizing axis ks with
  | nil => rfl
  | cons x xs inductionHypothesis =>
    cases ks with
    | nil => rfl
    | cons k ks =>
      have tail := inductionHypothesis (axis + 1) ks
      have window := entryOf_ints stands.filterDilation axis
      have gaps := entryOf_ints stands.inputDilation axis
      have strides := entryOf_ints stands.strides axis
      simp only [Datum.ints, List.map_cons] at tail ⊢
      unfold LooseConvParams.outputExtents ConvParams.outputExtents
      simp only [tail, window, gaps, strides, covered_int, dilated_int]
      rcases stands.padding_entry axis with
        ⟨item, a, b, low, high, entry, two, pair, first, second⟩ | ⟨entry, pair⟩
      · simp only [entry, two, pair, ok_bind]
        cases axisEntry q.filterDilation axis with
        | error f => rfl
        | ok e =>
          cases axisEntry q.inputDilation axis with
          | error f => rfl
          | ok d =>
            simp only [ok_map, ok_bind, Datum.add_of_exact (Datum.exact_int _) first,
              Datum.add_of_exact (Datum.exact_int _) second,
              Datum.less_of_exact (Datum.exact_int _) (Datum.exact_int _), Datum.subtract_int,
              Datum.add_int]
            by_cases large : dilatedExtent x d + low + high < windowReach k e
            · simp only [large, decide_true, if_true, throw_bind]
              rfl
            · simp only [large, decide_false, if_false, Bool.false_eq_true]
              cases axisEntry q.strides axis with
              | error f => rfl
              | ok s =>
                simp only [ok_map, ok_bind, Datum.ceilDivide_int]
                cases Shape.ceilDivide (dilatedExtent x d + low + high - windowReach k e + 1) s with
                | error f => rfl
                | ok extent =>
                  cases q.outputExtents (axis + 1) xs ks <;> rfl
      · simp only [entry, pair, throw_bind]
        rfl

theorem drop_ints (ns : List Int) (k : Nat) : (Datum.ints ns).drop k = Datum.ints (ns.drop k) :=
  List.map_drop.symm

theorem plainWith?_ints (xs ks : List Int) :
    p.plainWith? (.list (Datum.ints xs)) (.list (Datum.ints ks))
      = p.plain?.map fun q => (q, xs, ks) := by
  unfold plainWith? Loose.plain?
  simp only [Datum.plainInts?_ints]
  cases p.plain? <;> rfl

/-- The shape of the result is the one for the integers. -/
theorem StandsFor.outputShape (stands : p.StandsFor q) (xs ks : List Int) :
    p.outputShape (.list (Datum.ints xs)) (.list (Datum.ints ks))
      = Datum.ints <$> q.outputShape xs ks := by
  unfold LooseConvParams.outputShape
  rw [plainWith?_ints]
  cases plain : p.plain? with
  | some other =>
    rw [stands.eq_of_plain? plain]
    rfl
  | none =>
    have batch := @entryOf_ints (.list (Datum.ints xs)) xs rfl 0
    have outputs := @entryOf_ints (.list (Datum.ints ks)) ks rfl 0
    simp only [Option.map_none, batch, outputs, Datum.items_list, ok_bind, drop_ints,
      stands.outputExtents]
    unfold ConvParams.outputShape
    cases axisEntry xs 0 with
    | error f => rfl
    | ok b =>
      cases axisEntry ks 0 with
      | error f => rfl
      | ok c =>
        simp only [ok_bind, ok_map]
        cases q.outputExtents 0 (xs.drop 2) (ks.drop 2) <;> rfl

theorem wholePair_of_exact {a b : Datum} {m n : Int} (first : a.exact = .ok m)
    (second : b.exact = .ok n) : (Datum.list [a, b]).wholePair = .ok (m, n) := by
  unfold Datum.wholePair
  rw [two_of_items (Datum.items_list _), ok_bind]
  dsimp only
  rw [Datum.whole_of_exact first, ok_bind, Datum.whole_of_exact second]
  rfl

/-- Pairs of integers with a pair of zeros for each of the first two axes. -/
theorem pairs_behind {items : List Datum} {front pairs : List (Int × Int)} {bare : List Datum}
    (first : bare.mapM Datum.wholePair = .ok front) (others : items.mapM Datum.wholePair = .ok pairs) :
    (Datum.list (bare ++ items)).pairs = .ok (front ++ pairs) := by
  unfold Datum.pairs
  rw [Datum.items_list, ok_bind, mapM_eq_ok]
  exact List.rel_append (mapM_eq_ok.1 first) (mapM_eq_ok.1 others)

def Exact (d : Datum × Datum) (pair : Int × Int) : Prop :=
  d.1.exact = .ok pair.1 ∧ d.2.exact = .ok pair.2

theorem exists_twos {items : List Datum} {pairs : List (Int × Int)}
    (related : List.Forall₂ IsPair items pairs) :
    ∃ twos, items.mapM Datum.two = .ok twos ∧ List.Forall₂ Exact twos pairs := by
  induction related with
  | nil => exact ⟨[], rfl, .nil⟩
  | cons first _ inductionHypothesis =>
    obtain ⟨a, b, known, low, high⟩ := first
    obtain ⟨twos, rest, others⟩ := inductionHypothesis
    refine ⟨(a, b) :: twos, ?_, .cons ⟨low, high⟩ others⟩
    rw [List.mapM_cons, two_of_items known, ok_bind, rest]
    rfl

theorem widths_ok {twos : List (Datum × Datum)} {pairs : List (Int × Int)}
    (related : List.Forall₂ Exact twos pairs) :
    ∃ widths, twos.mapM (fun (low, high) => do
        return Datum.list [← low.larger (.int 0), ← high.larger (.int 0)]) = .ok widths
      ∧ widths.mapM Datum.wholePair = .ok (pairs.map fun p => (max p.1 0, max p.2 0)) := by
  induction related with
  | nil => exact ⟨[], rfl, rfl⟩
  | @cons d pair _ _ first _ inductionHypothesis =>
    obtain ⟨x, y⟩ := d
    obtain ⟨low, high⟩ := first
    obtain ⟨a, front, front'⟩ := Datum.larger_of_exact low (Datum.exact_int 0)
    obtain ⟨b, back, back'⟩ := Datum.larger_of_exact high (Datum.exact_int 0)
    obtain ⟨widths, rest, others⟩ := inductionHypothesis
    refine ⟨Datum.list [a, b] :: widths, ?_, ?_⟩
    · rw [List.mapM_cons]
      dsimp only at front back ⊢
      rw [front, ok_bind, back, ok_bind, rest]
      rfl
    · rw [List.mapM_cons, wholePair_of_exact front' back', ok_bind, others]
      rfl

theorem cuts_ok {twos : List (Datum × Datum)} {pairs : List (Int × Int)}
    (related : List.Forall₂ Exact twos pairs) (extents : List Int) :
    ∃ cuts, (twos.zip extents).mapM (fun ((low, high), s) => do
        let first ← (← low.negate).larger (.int 0)
        return Datum.list [first, ← (Datum.int s).subtract (← (← high.negate).larger (.int 0))])
          = .ok cuts
      ∧ cuts.mapM Datum.wholePair
        = .ok (pairs.zipWith (fun p s => (max (-p.1) 0, s - max (-p.2) 0)) extents) := by
  induction related generalizing extents with
  | nil => exact ⟨[], rfl, rfl⟩
  | @cons d pair _ _ first _ inductionHypothesis =>
    obtain ⟨x, y⟩ := d
    obtain ⟨low, high⟩ := first
    cases extents with
    | nil => exact ⟨[], rfl, rfl⟩
    | cons s extents =>
      obtain ⟨cuts, rest, others⟩ := inductionHypothesis extents
      refine ⟨Datum.list [.int (max (-pair.1) 0), .int (s - max (-pair.2) 0)] :: cuts, ?_, ?_⟩
      · rw [List.zip_cons_cons, List.mapM_cons]
        dsimp only
        simp only [Datum.negate_of_exact low, Datum.negate_of_exact high, Datum.larger_int, ok_bind,
          Datum.subtract_int, rest]
        rfl
      · rw [List.mapM_cons, wholePair_of_exact (Datum.exact_int _) (Datum.exact_int _), ok_bind, others]
        rfl

theorem StandsFor.padOrCut (stands : p.StandsFor q) (l : Layout) :
    l.loosePadOrCut p.padding = l.padOrCut q.padding := by
  obtain ⟨items, known, pairs⟩ := stands.padding
  obtain ⟨twos, two, exacts⟩ := exists_twos pairs
  obtain ⟨widths, wide, widthPairs⟩ := widths_ok exacts
  have widthsOk : (Datum.list (.list [.int 0, .int 0] :: .list [.int 0, .int 0] :: widths)).pairs
      = .ok ((0, 0) :: (0, 0) :: q.padding.map fun p => (max p.1 0, max p.2 0)) :=
    @pairs_behind _ _ _ [.list [.int 0, .int 0], .list [.int 0, .int 0]] rfl widthPairs
  unfold Layout.loosePadOrCut Layout.padOrCut Layout.requestPad
  simp only [known, ok_bind, two, wide, widthsOk]
  cases l.pad ((0, 0) :: (0, 0) :: q.padding.map fun p => (max p.1 0, max p.2 0)) with
  | error f => rfl
  | ok m =>
    obtain ⟨cuts, cut, cutPairs⟩ := cuts_ok exacts (m.shape.drop 2)
    simp only [ok_bind, cut]
    cases axisEntry m.shape 0 with
    | error f => rfl
    | ok a =>
      cases axisEntry m.shape 1 with
      | error f => rfl
      | ok b =>
        have cutsOk : (Datum.list (Loose.upTo (.int a) :: Loose.upTo (.int b) :: cuts)).pairs
            = .ok ((0, a) :: (0, b) :: q.padding.zipWith
              (fun p s => (max (-p.1) 0, s - max (-p.2) 0)) (m.shape.drop 2)) :=
          @pairs_behind _ _ _ [Loose.upTo (.int a), Loose.upTo (.int b)] rfl cutPairs
        simp only [ok_bind, Layout.requestShrink, cutsOk]

theorem perAxis_ok {given : Datum} {ns : List Int} (known : given.items = .ok (Datum.ints ns))
    (name : String) (n : Nat) :
    Loose.perAxis name n given
      = (do Layout.requireCount name ns.length n; return Datum.ints ns) := by
  have counted : (do
      let items ← given.items
      if items.length ≠ n then throw (.convolution (.poolParameterCount name items.length n))
      return items) = (do Layout.requireCount name ns.length n; return Datum.ints ns) := by
    unfold Layout.requireCount
    simp only [known, ok_bind, Datum.length_ints]
    by_cases count : ns.length = n
    · simp [count]
    · simp only [count, ne_eq, not_false_eq_true, if_true, if_false]
  cases given with
  | list items => exact counted
  | text s => exact counted
  | none => cases known
  | scalar value => cases known
  | slice start stop step => cases known

theorem StandsFor.requestPool (stands : p.StandsFor q) (l : Layout) (extents : List Int) :
    l.requestPool (.list (Datum.ints extents)) p.strides p.filterDilation
      = l.pool extents q.strides q.filterDilation := by
  unfold Layout.requestPool
  simp only [Datum.items_list, ok_bind, Datum.length_ints, perAxis_ok stands.strides,
    perAxis_ok stands.filterDilation]
  by_cases rank : l.rank < extents.length
  · unfold Layout.pool
    simp only [rank, if_true, throw_bind]
  · by_cases strides : q.strides.length = extents.length
    · by_cases dilation : q.filterDilation.length = extents.length
      · simp [rank, strides, dilation, Layout.requireCount]
      · unfold Layout.pool
        simp only [rank, strides, dilation, Layout.requireCount, if_true, if_false]
        rfl
    · unfold Layout.pool
      simp only [rank, strides, Layout.requireCount, if_false]
      rfl

/-- The layouts of both operands are those for the integers. -/
theorem StandsFor.prepareConvolution (stands : p.StandsFor q) (input filter : Layout) :
    Loose.prepareConvolution input filter p = StridedArray.prepareConvolution input filter q := by
  unfold Loose.prepareConvolution
  cases plain : p.plain? with
  | some other => rw [stands.eq_of_plain? plain]
  | none =>
    unfold StridedArray.prepareConvolution Layout.requestDilate
    simp only [stands.inputDilation, ok_bind, Datum.plainInts?_ints, stands.padOrCut,
      stands.requestPool]

/-! ## Transposed convolutions -/

/-- The sizes of an axis are the integers that padding is worked out from. -/
structure AxisSizes.Are (a : AxisSizes) (low reach input output : Int) : Prop where
  low : a.low.exact = .ok low
  reach : a.reach = .int reach
  input : a.input = .int input
  output : a.output = .int output

theorem AxisSizes.Are.before {a : AxisSizes} {low reach input output : Int}
    (are : a.Are low reach input output) : a.before = .ok (.int (reach - low - 1)) := by
  unfold AxisSizes.before
  rw [are.reach, Datum.subtract_of_exact (Datum.exact_int _) are.low, ok_bind, Datum.subtract_int]

theorem AxisSizes.Are.inputPadding {a : AxisSizes} {low x k o s d e : Int}
    (are : a.Are low (windowReach k e) (dilatedExtent x d) (dilatedExtent o s)) :
    ∃ item, a.inputPadding = .ok item
      ∧ IsPair item (ConvParams.inputGradientPadding x k o low s d e) := by
  refine ⟨.list [.int _, .int _], ?_, _, _, rfl, rfl, rfl⟩
  unfold AxisSizes.inputPadding
  rw [are.before, are.input, are.reach, are.output]
  rfl

theorem AxisSizes.Are.filterPadding {a : AxisSizes} {low x k o s d e : Int}
    (are : a.Are low (windowReach k e) (dilatedExtent x d) (dilatedExtent o s)) :
    ∃ item, a.filterPadding = .ok item
      ∧ IsPair item (ConvParams.filterGradientPadding x k o low s d e) := by
  refine ⟨.list [a.low, .int _], ?_, _, _, rfl, are.low, rfl⟩
  unfold AxisSizes.filterPadding
  rw [are.before, are.input, are.output]
  rfl

theorem StandsFor.axisSizes (stands : p.StandsFor q) {axis : Nat} {x k o d e s : Int}
    {pair : Int × Int} (padding : axisEntry q.padding axis = .ok pair)
    (filterDilation : axisEntry q.filterDilation axis = .ok e)
    (inputDilation : axisEntry q.inputDilation axis = .ok d)
    (stride : axisEntry q.strides axis = .ok s) :
    ∃ a, p.axisSizes axis (.int x) (.int k) (.int o) = .ok a
      ∧ a.Are pair.1 (windowReach k e) (dilatedExtent x d) (dilatedExtent o s) := by
  rcases stands.padding_entry axis with
    ⟨item, a, b, low, high, entry, two, known, first, _⟩ | ⟨_, missing⟩
  · rw [padding] at known
    cases known
    refine ⟨⟨a, .int _, .int _, .int _⟩, ?_, first, rfl, rfl, rfl⟩
    unfold LooseConvParams.axisSizes
    rw [entry, ok_bind, two, ok_bind, entryOf_ints stands.filterDilation,
      entryOf_ints stands.inputDilation, entryOf_ints stands.strides, covered_int, dilated_int,
      dilated_int, filterDilation, inputDilation, stride]
    rfl
  · rw [padding] at missing
    cases missing

theorem StandsFor.transposedPadding (stands : p.StandsFor q) {f : AxisSizes → Except Failure Datum}
    {g : ConvParams.AxisPadding}
    (each : ∀ {a : AxisSizes} {low x k o s d e : Int},
      a.Are low (windowReach k e) (dilatedExtent x d) (dilatedExtent o s) →
      ∃ item, f a = .ok item ∧ IsPair item (g x k o low s d e))
    {axis : Nat} {xs ks os : List Int} {pads : List (Int × Int)}
    (known : q.transposedPadding g axis xs ks os = .ok pads) :
    ∃ items, p.transposedPadding f axis (Datum.ints xs) (Datum.ints ks) (Datum.ints os) = .ok items
      ∧ List.Forall₂ IsPair items pads := by
  induction xs generalizing axis ks os pads with
  | nil =>
    cases known
    exact ⟨[], rfl, .nil⟩
  | cons x xs inductionHypothesis =>
    cases ks with
    | nil =>
      cases known
      exact ⟨[], rfl, .nil⟩
    | cons k ks =>
      cases os with
      | nil =>
        cases known
        exact ⟨[], rfl, .nil⟩
      | cons o os =>
        unfold ConvParams.transposedPadding at known
        simp only [bind_eq_ok, pure_eq_ok] at known
        obtain ⟨pair, padding, e, filterDilation, d, inputDilation, s, stride, others, rest, rfl⟩ :=
          known
        obtain ⟨a, sizes, are⟩ := stands.axisSizes padding filterDilation inputDilation stride
        obtain ⟨item, first, isPair⟩ := each are
        obtain ⟨items, tail, pairs⟩ := inductionHypothesis rest
        refine ⟨item :: items, ?_, .cons isPair pairs⟩
        simp only [Datum.ints] at tail
        simp only [Datum.ints, List.map_cons, LooseConvParams.transposedPadding, sizes, ok_bind, first,
          tail]
        rfl

theorem StandsFor.paddingFor (stands : p.StandsFor q) {f : AxisSizes → Except Failure Datum}
    {g : ConvParams.AxisPadding}
    (each : ∀ {a : AxisSizes} {low x k o s d e : Int},
      a.Are low (windowReach k e) (dilatedExtent x d) (dilatedExtent o s) →
      ∃ item, f a = .ok item ∧ IsPair item (g x k o low s d e))
    {xs ks output : List Int} {pads : List (Int × Int)} (shape : q.outputShape xs ks = .ok output)
    (known : q.transposedPadding g 0 (xs.drop 2) (ks.drop 2) (output.drop 2) = .ok pads) :
    ∃ items, p.paddingFor f (.list (Datum.ints xs)) (.list (Datum.ints ks)) = .ok (.list items)
      ∧ List.Forall₂ IsPair items pads := by
  obtain ⟨items, ok, pairs⟩ := stands.transposedPadding each known
  refine ⟨items, ?_, pairs⟩
  unfold LooseConvParams.paddingFor
  rw [stands.outputShape, shape, ok_map, ok_bind, Datum.items_list, ok_bind, Datum.items_list, ok_bind,
    drop_ints, drop_ints, drop_ints, ok, ok_bind]
  rfl

/-- The parameters for the gradient of the input stand for those of the integers. -/
theorem StandsFor.transposeInput (stands : p.StandsFor q) {xs ks : List Int} {r : ConvParams}
    (known : q.transposeInput xs ks = .ok r) :
    ∃ t, p.transposeInput (.list (Datum.ints xs)) (.list (Datum.ints ks)) = .ok t
      ∧ t.StandsFor r := by
  unfold LooseConvParams.transposeInput
  rw [plainWith?_ints]
  cases plain : p.plain? with
  | some other =>
    rw [stands.eq_of_plain? plain]
    refine ⟨ofParams r, ?_, standsFor_ofParams r⟩
    show ofParams <$> q.transposeInput xs ks = _
    rw [known]
    rfl
  | none =>
    unfold ConvParams.transposeInput at known
    simp only [bind_eq_ok, pure_eq_ok] at known
    obtain ⟨output, shape, pads, padding, rfl⟩ := known
    obtain ⟨items, ok, pairs⟩ := stands.paddingFor AxisSizes.Are.inputPadding shape padding
    refine ⟨{ p with strides := p.inputDilation, inputDilation := p.strides, padding := .list items }, ?_, ?_⟩
    · show (p.paddingFor AxisSizes.inputPadding _ _ >>= _) = _
      rw [ok]
      rfl
    · exact ⟨stands.inputDilation, ⟨items, rfl, pairs⟩, stands.strides, stands.filterDilation⟩

/-- The parameters for the gradient of the filter stand for those of the integers. -/
theorem StandsFor.transposeFilter (stands : p.StandsFor q) {xs ks : List Int} {r : ConvParams}
    (known : q.transposeFilter xs ks = .ok r) :
    ∃ t, p.transposeFilter (.list (Datum.ints xs)) (.list (Datum.ints ks)) = .ok t
      ∧ t.StandsFor r := by
  unfold LooseConvParams.transposeFilter
  rw [plainWith?_ints]
  cases plain : p.plain? with
  | some other =>
    rw [stands.eq_of_plain? plain]
    refine ⟨ofParams r, ?_, standsFor_ofParams r⟩
    show ofParams <$> q.transposeFilter xs ks = _
    rw [known]
    rfl
  | none =>
    unfold ConvParams.transposeFilter at known
    simp only [bind_eq_ok, pure_eq_ok] at known
    obtain ⟨output, shape, pads, padding, rfl⟩ := known
    obtain ⟨items, ok, pairs⟩ := stands.paddingFor AxisSizes.Are.filterPadding shape padding
    refine ⟨{ p with strides := p.filterDilation, filterDilation := p.strides, padding := .list items }, ?_, ?_⟩
    · show (p.paddingFor AxisSizes.filterPadding _ _ >>= _) = _
      rw [ok]
      rfl
    · exact ⟨stands.filterDilation, ⟨items, rfl, pairs⟩, stands.inputDilation, stands.strides⟩

end Same

/-! ## Accepted parameters -/

theorem int_of_isPositive {d : Datum} (positive : isPositive d = true) : ∃ n, d = .int n ∧ 0 < n := by
  unfold isPositive at positive
  split at positive
  · exact ⟨_, rfl, of_decide_eq_true positive⟩
  · cases positive

theorem exact_of_isWidth {d : Datum} (width : isWidth d = true) : ∃ n, d.exact = .ok n ∧ 0 ≤ n := by
  unfold isWidth at width
  split at width
  · split at width
    · next n whole => exact ⟨n, Datum.exact_eq_ok.2 ⟨_, rfl, whole⟩, of_decide_eq_true width⟩
    · cases width
  · cases width

theorem isPair_of_widths {item : Datum} {pad : List Datum} (known : item.items = .ok pad)
    (count : pad.length = 2) (widths : pad.all isWidth = true) :
    ∃ pair, IsPair item pair ∧ 0 ≤ pair.1 ∧ 0 ≤ pair.2 := by
  obtain ⟨a, b, rfl⟩ := List.length_eq_two.1 count
  simp only [List.all_cons, List.all_nil, Bool.and_true, Bool.and_eq_true] at widths
  obtain ⟨m, low, lowBound⟩ := exact_of_isWidth widths.1
  obtain ⟨n, high, highBound⟩ := exact_of_isWidth widths.2
  exact ⟨(m, n), ⟨a, b, known, low, high⟩, lowBound, highBound⟩

theorem exists_pairs {items : List Datum} {holds : Int × Int → Prop}
    (each : ∀ item ∈ items, ∃ pair, IsPair item pair ∧ holds pair) :
    ∃ pairs, List.Forall₂ IsPair items pairs ∧ ∀ pair ∈ pairs, holds pair := by
  induction items with
  | nil => exact ⟨[], .nil, by simp⟩
  | cons item items inductionHypothesis =>
    obtain ⟨pair, isPair, first⟩ := each item (List.mem_cons_self ..)
    obtain ⟨pairs, rest, others⟩ := inductionHypothesis fun e member =>
      each e (List.mem_cons_of_mem _ member)
    exact ⟨pair :: pairs, .cons isPair rest, List.forall_mem_cons.2 ⟨first, others⟩⟩

theorem forall_mem_of_axes {α : Type} {items : List α} {n : Nat} {holds : α → Prop}
    (count : items.length = n) (each : ∀ j < n, ∀ x, items[j]? = some x → holds x) :
    ∀ x ∈ items, holds x := by
  intro x member
  obtain ⟨j, bound, rfl⟩ := List.getElem_of_mem member
  exact each j (by omega) _ (List.getElem?_eq_getElem bound)

theorem checkAxis_ok {p : LooseConvParams} {ks : List Int} {ss pads ds es : List Datum}
    (strides : p.strides.items = .ok ss) (padding : p.padding.items = .ok pads)
    (inputDilation : p.inputDilation.items = .ok ds) (filterDilation : p.filterDilation.items = .ok es)
    {axis : Nat} (checked : p.checkAxis (Datum.ints ks) axis = .ok ()) :
    (∀ d, ss[axis]? = some d → isPositive d = true)
      ∧ (∀ item, pads[axis]? = some item → ∃ pair, IsPair item pair ∧ 0 ≤ pair.1 ∧ 0 ≤ pair.2)
      ∧ (∀ d, ds[axis]? = some d → isPositive d = true)
      ∧ (∀ d, es[axis]? = some d → isPositive d = true)
      ∧ ∃ k, axisEntry ks (axis + 2) = .ok k ∧ 0 < k := by
  simp only [LooseConvParams.checkAxis, Loose.entryOf, strides, padding, inputDilation,
    filterDilation, ok_bind, throw_bind, refuse_eq_ok, bind_eq_ok, axisEntry_ints, map_eq_ok,
    axisEntry_eq_ok, Bool.not_eq_true', Bool.not_eq_false] at checked
  obtain ⟨s, stride, sPositive, item, pad, items, known, widths, d, inDilation, dPositive, e, outDilation,
    ePositive, _, ⟨k, kernel, rfl⟩, small, most, large, _⟩ := checked
  rw [Datum.atMost_int] at most
  cases most
  rw [stride, pad, inDilation, outDilation]
  simp only [Bool.or_eq_true, decide_eq_true_eq, not_or, not_not, Bool.not_eq_true',
    Bool.not_eq_false] at widths
  refine ⟨?_, ?_, ?_, ?_, k, axisEntry_eq_ok.2 kernel, by simpa using large⟩
  · rintro _ ⟨⟩
    exact sPositive
  · rintro _ ⟨⟩
    exact isPair_of_widths known widths.1 widths.2
  · rintro _ ⟨⟩
    exact dPositive
  · rintro _ ⟨⟩
    exact ePositive

theorem checkAxis_of_bounds {q : ConvParams} {ks : List Int} {axis : Nat}
    (strides : axis < q.strides.length) (padding : axis < q.padding.length)
    (inputDilation : axis < q.inputDilation.length) (filterDilation : axis < q.filterDilation.length)
    (stridesPositive : ∀ s ∈ q.strides, 0 < s) (natural : ∀ w ∈ q.padding, 0 ≤ w.1 ∧ 0 ≤ w.2)
    (inputPositive : ∀ d ∈ q.inputDilation, 0 < d) (filterPositive : ∀ d ∈ q.filterDilation, 0 < d)
    (kernel : ∃ k, axisEntry ks (axis + 2) = .ok k ∧ 0 < k) : q.checkAxis ks axis = .ok () := by
  obtain ⟨k, known, positive⟩ := kernel
  have entry : ∀ {α : Type} {xs : List α} (bound : axis < xs.length),
      axisEntry xs axis = .ok xs[axis] := fun bound =>
    axisEntry_eq_ok.2 (List.getElem?_eq_getElem bound)
  have stride := stridesPositive _ (List.getElem_mem strides)
  have width := natural _ (List.getElem_mem padding)
  have inside := inputPositive _ (List.getElem_mem inputDilation)
  have outside := filterPositive _ (List.getElem_mem filterDilation)
  unfold ConvParams.checkAxis
  simp only [entry strides, entry padding, entry inputDilation, entry filterDilation, known, ok_bind,
    throw_bind, refuse_eq_ok, pure_eq_ok, and_true]
  omega

/-- Accepted parameters stand for accepted integers. -/
theorem exists_standsFor {p : LooseConvParams} {xs ks : List Int} {out : List Datum}
    (accepted : p.check (.list (Datum.ints xs)) (.list (Datum.ints ks)) = .ok out) :
    ∃ q outs, p.StandsFor q ∧ q.check xs ks = .ok outs ∧ out = Datum.ints outs := by
  unfold LooseConvParams.check at accepted
  rw [plainWith?_ints] at accepted
  cases plain : p.plain? with
  | some q =>
    rw [plain] at accepted
    simp only [Option.map_some, map_eq_ok] at accepted
    obtain ⟨outs, known, rfl⟩ := accepted
    exact ⟨q, outs, standsFor_of_plain? plain, known, rfl⟩
  | none =>
    rw [plain] at accepted
    simp only [Option.map_none, Datum.items_list, ok_bind, LooseConvParams.checkItems,
      throw_bind, refuse_eq_ok, bind_eq_ok, ConvParams.requireEntries_eq_ok, axisEntry_ints, map_eq_ok,
      ConvParams.forM_eq_ok, Datum.length_ints, not_not] at accepted
    obtain ⟨ranks, rank, ss, strides, _, strideCount, pads, padding, _, padCount, ds, inputDilation, _,
      inputCount, es, filterDilation, _, filterCount, _, ⟨c, left, rfl⟩, _, ⟨d, right, rfl⟩, channels,
      _, axisChecks, shape⟩ := accepted
    -- Not all data is integers as it stands, but what passes the checks of an axis is.
    have each := fun j bound => checkAxis_ok strides padding inputDilation filterDilation
      (axisChecks j (List.mem_range.2 bound))
    obtain ⟨ns, rfl, stridePositive⟩ := Datum.exists_ints (forall_mem_of_axes strideCount
      fun j bound d known => int_of_isPositive ((each j bound).1 d known))
    obtain ⟨pairs, isPair, natural⟩ := exists_pairs (forall_mem_of_axes padCount
      fun j bound item known => (each j bound).2.1 item known)
    obtain ⟨ms, rfl, inputPositive⟩ := Datum.exists_ints (forall_mem_of_axes inputCount
      fun j bound d known => int_of_isPositive ((each j bound).2.2.1 d known))
    obtain ⟨os, rfl, filterPositive⟩ := Datum.exists_ints (forall_mem_of_axes filterCount
      fun j bound d known => int_of_isPositive ((each j bound).2.2.2.1 d known))
    have stands : p.StandsFor ⟨ns, pairs, ms, os⟩ := ⟨strides, ⟨pads, padding, isPair⟩, inputDilation,
      filterDilation⟩
    rw [stands.outputShape, map_eq_ok] at shape
    obtain ⟨outs, known, rfl⟩ := shape
    rw [Datum.length_ints] at strideCount inputCount filterCount
    rw [isPair.length_eq] at padCount
    have same : c = d := by simpa [Datum.same, Datum.sameNumber_int] using channels
    refine ⟨⟨ns, pairs, ms, os⟩, outs, stands, ?_, rfl⟩
    simp only [ConvParams.check, throw_bind, refuse_eq_ok, bind_eq_ok,
      ConvParams.requireEntries_eq_ok, ConvParams.forM_eq_ok, not_not]
    refine ⟨ranks, rank, (), strideCount, (), padCount, (), inputCount, (), filterCount, c, left, d,
      right, same, (), fun j member => ?_, known⟩
    have bound := List.mem_range.1 member
    exact checkAxis_of_bounds (by simpa [strideCount] using bound) (by simpa [padCount] using bound)
      (by simpa [inputCount] using bound) (by simpa [filterCount] using bound) stridePositive natural
      inputPositive filterPositive (each j bound).2.2.2.2

end LooseConvParams

end StridedArray
