import StridedArray.Datum.Operators
import StridedArray.Proofs.Outcome
import StridedArray.Shape

/-! # Integers as data

Data that stands for integers behaves like them, whether it is written as integers or as truth values.

* `exact_eq_ok` — which data stands for an integer;
* `add_of_exact`, `subtract_of_exact`, `negate_of_exact`, `less_of_exact`, `larger_of_exact` —
  arithmetic and order;
* `ceilDivide_int`, `atMost_int`, `sameAll_ints` — the same for integers that are written as such;
* `exists_ints`, `ints_of_plainInts?` — sequences of integers. -/

namespace StridedArray

namespace Datum

variable {a b : Datum} {m n : Int}

theorem exact_eq_ok {d : Datum} : d.exact = .ok n ↔ ∃ value, d = scalar value ∧ value.whole? = some n := by
  cases d with
  | scalar value =>
    simp only [exact, scalar.injEq, exists_eq_left']
    cases value.whole? <;> simp
  | none => simp [exact]
  | text s => simp [exact]
  | list items => simp [exact]
  | slice start stop step => simp [exact]

theorem whole_of_exact (known : a.exact = .ok m) : a.whole = .ok m := by
  obtain ⟨value, rfl, whole⟩ := exact_eq_ok.1 known
  cases value with
  | bool b => simpa [Scalar.whole?, Datum.whole, Scalar.toInt] using whole
  | int k => simpa [Scalar.whole?, Datum.whole, Scalar.toInt] using whole
  | float x => cases whole
  | nan negative fraction => cases whole

theorem add_of_exact (left : a.exact = .ok m) (right : b.exact = .ok n) :
    a.add b = .ok (int (m + n)) := by
  obtain ⟨x, rfl, first⟩ := exact_eq_ok.1 left
  obtain ⟨y, rfl, second⟩ := exact_eq_ok.1 right
  simp [add, Scalar.add, Scalar.combine, first, second, pure, Except.pure]

theorem subtract_of_exact (left : a.exact = .ok m) (right : b.exact = .ok n) :
    a.subtract b = .ok (int (m - n)) := by
  obtain ⟨x, rfl, first⟩ := exact_eq_ok.1 left
  obtain ⟨y, rfl, second⟩ := exact_eq_ok.1 right
  simp [subtract, Scalar.subtract, Scalar.combine, first, second, pure, Except.pure]

theorem negate_of_exact (known : a.exact = .ok m) : a.negate = .ok (int (-m)) := by
  obtain ⟨value, rfl, whole⟩ := exact_eq_ok.1 known
  cases value with
  | bool b =>
    rw [← Option.some_inj.1 whole]
    cases b <;> rfl
  | int k => simp_all [Scalar.whole?, negate, Scalar.negate, pure, Except.pure]
  | float x => cases whole
  | nan negative fraction => cases whole

theorem less_of_exact (left : a.exact = .ok m) (right : b.exact = .ok n) :
    a.less b = .ok (decide (m < n)) := by
  obtain ⟨x, rfl, first⟩ := exact_eq_ok.1 left
  obtain ⟨y, rfl, second⟩ := exact_eq_ok.1 right
  have order : x.compare? y = some (compare m n) := by
    cases x <;> cases y <;> simp_all [Scalar.whole?, Scalar.compare?]
  show Except.ok (x.compare? y == some .lt) = _
  rw [order]
  congr 1
  rw [Bool.eq_iff_iff, beq_iff_eq, Option.some_inj, decide_eq_true_iff]
  exact Int.compare_eq_lt

theorem larger_of_exact (left : a.exact = .ok m) (right : b.exact = .ok n) :
    ∃ d, a.larger b = .ok d ∧ d.exact = .ok (Max.max m n) := by
  unfold larger
  rw [less_of_exact left right, ok_bind]
  by_cases below : m < n
  · exact ⟨b, by simp [below, pure, Except.pure], by rw [right, Int.max_eq_right (Int.le_of_lt below)]⟩
  · exact ⟨a, by simp [below, pure, Except.pure], by rw [left, Int.max_eq_left (by omega)]⟩

theorem larger_int (m n : Int) : (int m).larger (int n) = .ok (int (Max.max m n)) := by
  unfold larger
  rw [less_of_exact (exact_int m) (exact_int n), ok_bind]
  by_cases below : m < n
  · simp [below, pure, Except.pure, Int.max_eq_right (Int.le_of_lt below)]
  · simp [below, pure, Except.pure, Int.max_eq_left (Int.not_lt.1 below)]

theorem ceilDivide_int (m n : Int) : (int m).ceilDivide (int n) = int <$> Shape.ceilDivide m n := by
  by_cases zero : n = 0
  · subst zero
    rfl
  · have quotient : (int (-m)).floorDivide (int n) = .ok (int ((-m).fdiv n)) := by
      show scalar <$> Scalar.floorDivide _ _ = _
      rw [Scalar.floorDivide_int _ _ zero]
      rfl
    unfold ceilDivide Shape.ceilDivide
    rw [negate_of_exact (exact_int m), ok_bind, quotient, ok_bind, negate_of_exact (exact_int _),
      if_neg zero]
    rfl

theorem sameNumber_int (m n : Int) : Scalar.sameNumber (.int m) (.int n) = decide (m = n) := by
  unfold Scalar.sameNumber Scalar.compare?
  rw [Bool.eq_iff_iff, beq_iff_eq, Option.some_inj, decide_eq_true_iff]
  exact Int.compare_eq_eq

theorem atMost_int (m n : Int) : (int m).atMost (int n) = .ok (decide (m ≤ n)) := by
  show Except.ok (Scalar.less (.int m) (.int n) || Scalar.sameNumber (.int m) (.int n)) = _
  rw [Scalar.less_int, sameNumber_int, ← Bool.decide_or]
  simp only [Int.le_iff_lt_or_eq]

theorem sameAll_ints (ns : List Int) : sameAll (ints ns) (ints ns) = true := by
  induction ns with
  | nil => rfl
  | cons n rest inductionHypothesis =>
    show (Scalar.sameNumber (.int n) (.int n) && sameAll (ints rest) (ints rest)) = true
    rw [sameNumber_int, inductionHypothesis]
    simp

theorem ints_injective {ms ns : List Int} (same : ints ms = ints ns) : ms = ns :=
  Except.ok.inj ((wholes_ints ms).symm.trans (same ▸ wholes_ints ns))

theorem length_ints (ns : List Int) : (ints ns).length = ns.length := List.length_map ..

/-- Items that are all integers are the integers of a list. -/
theorem exists_ints {items : List Datum} {holds : Int → Prop}
    (each : ∀ d ∈ items, ∃ n, d = int n ∧ holds n) : ∃ ns, items = ints ns ∧ ∀ n ∈ ns, holds n := by
  induction items with
  | nil => exact ⟨[], rfl, by simp⟩
  | cons d items inductionHypothesis =>
    obtain ⟨n, rfl, first⟩ := each d (List.mem_cons_self ..)
    obtain ⟨ns, rfl, others⟩ := inductionHypothesis fun e member => each e (List.mem_cons_of_mem _ member)
    exact ⟨n :: ns, rfl, List.forall_mem_cons.2 ⟨first, others⟩⟩

theorem ints_of_plainInts? {items : List Datum} {ns : List Int} (plain : plainInts? items = some ns) :
    items = ints ns := by
  induction items generalizing ns with
  | nil =>
    cases plain
    rfl
  | cons d items inductionHypothesis =>
    unfold plainInts? at plain inductionHypothesis
    rw [List.mapM_cons] at plain
    cases d with
    | scalar value =>
      cases value with
      | int n =>
        simp only [Option.bind_eq_bind, Option.bind_some, Option.bind_eq_some_iff] at plain
        obtain ⟨rest, others, ⟨⟩⟩ := plain
        rw [inductionHypothesis others]
        rfl
      | bool b => cases plain
      | float x => cases plain
      | nan negative fraction => cases plain
    | none => cases plain
    | text s => cases plain
    | list items => cases plain
    | slice start stop step => cases plain

end Datum

end StridedArray
