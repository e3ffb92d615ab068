import StridedArray.Proofs.Convolution.Settled

/-! # Invalid parameters

What can be wrong with the parameters of a convolution, and what becomes of it.

* `ConvParams.Invalid` — ways in which parameters do not fit their operands;
* `check_ok_iff` — they are refused just if they are invalid; `failsWith_check` — always with a message about
  the convolution;
* `samePadding_ok_iff`, `failsWith_samePadding` — padding by name is worked out before anything is checked,
  and divides by strides as they are given. -/

namespace StridedArray

def Failure.IsConvolution (f : Failure) : Prop := ∃ fault, f = .convolution fault

theorem FailsWith.forM {ε α : Type} {P : ε → Prop} {f : α → Except ε Unit} {xs : List α}
    (each : ∀ x ∈ xs, FailsWith P (f x)) : FailsWith P (xs.forM f) := by
  induction xs with
  | nil => exact FailsWith.pure ()
  | cons x xs inductionHypothesis =>
    exact FailsWith.bind (each x (List.mem_cons_self ..)) fun _ _ =>
      inductionHypothesis fun y member => each y (List.mem_cons_of_mem _ member)

theorem exists_front {shape : List Int} (rank : ¬ shape.length < 2) : ∃ b c rest, shape = b :: c :: rest := by
  match shape with
  | b :: c :: rest => exact ⟨b, c, rest, rfl⟩
  | [_] | [] => simp at rank

namespace ConvParams

/-- What can be wrong with parameters, for operands of the given shapes. -/
inductive Invalid (p : ConvParams) (xs ks : List Int) : Prop
  | ranks (different : xs.length ≠ ks.length)
  | rank (small : xs.length < 2)
  | strides (count : p.strides.length ≠ xs.length - 2)
  | padding (count : p.padding.length ≠ xs.length - 2)
  | inputDilation (count : p.inputDilation.length ≠ xs.length - 2)
  | filterDilation (count : p.filterDilation.length ≠ xs.length - 2)
  | channels (different : xs[1]? ≠ ks[1]?)
  | stride {s : Int} (member : s ∈ p.strides) (notPositive : s ≤ 0)
  | inputGap {d : Int} (member : d ∈ p.inputDilation) (notPositive : d ≤ 0)
  | filterGap {d : Int} (member : d ∈ p.filterDilation) (notPositive : d ≤ 0)
  | pad {w : Int × Int} (member : w ∈ p.padding) (negative : w.1 < 0 ∨ w.2 < 0)
  | kernel {k : Int} (member : k ∈ ks.drop 2) (notPositive : k ≤ 0)
  /-- The dilated kernel is larger than the dilated and padded input. -/
  | window {axis : Nat} {x k d e : Int} {w : Int × Int} (input : xs[axis + 2]? = some x)
      (kernel : ks[axis + 2]? = some k) (padding : p.padding[axis]? = some w)
      (inputDilation : p.inputDilation[axis]? = some d) (filterDilation : p.filterDilation[axis]? = some e)
      (large : dilatedExtent x d + w.1 + w.2 < windowReach k e)

variable {p : ConvParams} {xs ks : List Int}

theorem not_invalid_ofAxes {axes : List ConvAxis} {b c co : Int}
    (each : ∀ a ∈ axes, a.Roomy ∧ 0 ≤ a.low ∧ 0 ≤ a.high) :
    ¬ (ofAxes axes).Invalid (b :: c :: axes.map ConvAxis.input) (co :: c :: axes.map ConvAxis.kernel) := by
  have forall_map : ∀ {f : ConvAxis → Int} {m : Int}, m ∈ axes.map f → ∃ a ∈ axes, f a = m :=
    fun member => List.mem_map.1 member
  intro invalid
  cases invalid with
  | ranks different => simp at different
  | rank small =>
    simp only [List.length_cons] at small
    omega
  | strides count => simp [ofAxes] at count
  | padding count => simp [ofAxes] at count
  | inputDilation count => simp [ofAxes] at count
  | filterDilation count => simp [ofAxes] at count
  | channels different => simp at different
  | stride member notPositive =>
    obtain ⟨a, known, rfl⟩ := forall_map member
    have := (each a known).1.stride
    omega
  | inputGap member notPositive =>
    obtain ⟨a, known, rfl⟩ := forall_map member
    have := (each a known).1.inputDilation
    omega
  | filterGap member notPositive =>
    obtain ⟨a, known, rfl⟩ := forall_map member
    have := (each a known).1.filterDilation
    omega
  | pad member negative =>
    obtain ⟨a, known, rfl⟩ := List.mem_map.1 member
    have := (each a known).2
    omega
  | kernel member notPositive =>
    obtain ⟨a, known, rfl⟩ := forall_map (f := ConvAxis.kernel) member
    have := (each a known).1.kernel
    omega
  | @window axis x k d e w input kernel padding inputDilation filterDilation large =>
    simp only [List.getElem?_cons_succ, List.getElem?_map, ofAxes, Option.map_eq_some_iff] at *
    obtain ⟨a, known, rfl⟩ := input
    simp only [known, Option.some.injEq, exists_eq_left'] at kernel padding inputDilation filterDilation
    subst kernel padding inputDilation filterDilation
    -- A kernel that is too large would leave no start for a window.
    have starts := (each a (List.mem_of_getElem? known)).1.starts
    rw [a.starts_eq] at starts
    dsimp only at large
    omega

/-- Parameters are accepted just if nothing is wrong with them. -/
theorem check_ok_iff : (∃ out, p.check xs ks = .ok out) ↔ ¬ p.Invalid xs ks := by
  constructor
  · rintro ⟨out, accepted⟩
    have counts := accepted
    simp only [check, throw_bind, refuse_eq_ok, bind_eq_ok, not_not] at counts
    obtain ⟨ranks, rank, -⟩ := counts
    obtain ⟨b, c, inputs, rfl⟩ := exists_front rank
    obtain ⟨co, d, kernels, rfl⟩ := exists_front (ranks ▸ rank)
    obtain ⟨rfl, axes, rfl, rfl, rfl, each, -⟩ := check_eq_ok.1 accepted
    exact not_invalid_ofAxes each
  · intro valid
    have ranks : xs.length = ks.length := by_contra fun wrong => valid (.ranks wrong)
    have rank : ¬ xs.length < 2 := fun wrong => valid (.rank wrong)
    obtain ⟨b, c, inputs, rfl⟩ := exists_front rank
    obtain ⟨co, d, kernels, rfl⟩ := exists_front (ranks ▸ rank)
    obtain ⟨axes, rfl, rfl, rfl⟩ := @exists_axes p inputs kernels inputs.length rfl
      (Nat.succ.inj (Nat.succ.inj ranks.symm))
      (by_contra fun wrong => valid (.strides wrong)) (by_contra fun wrong => valid (.padding wrong))
      (by_contra fun wrong => valid (.inputDilation wrong))
      (by_contra fun wrong => valid (.filterDilation wrong))
    -- Every other condition is a clause of `Invalid`, to be refuted axis by axis.
    have channels : c = d := by_contra fun wrong => valid (.channels (by simpa using wrong))
    have member : ∀ {f : ConvAxis → Int} {a : ConvAxis}, a ∈ axes → f a ∈ axes.map f := List.mem_map_of_mem
    refine ⟨_, check_ofAxes.2 ⟨channels, fun a known => ⟨⟨⟨?_, ?_, ?_, ?_⟩, ?_⟩, ?_, ?_⟩, rfl⟩⟩
    · exact not_le.1 fun wrong => valid (.kernel (member known) wrong)
    · exact not_le.1 fun wrong => valid (.stride (member known) wrong)
    · exact not_le.1 fun wrong => valid (.inputGap (member known) wrong)
    · exact not_le.1 fun wrong => valid (.filterGap (member known) wrong)
    · obtain ⟨axis, entry⟩ := List.getElem?_of_mem known
      have every : ∀ {β : Type} (f : ConvAxis → β), (axes.map f)[axis]? = some (f a) := fun f => by
        rw [List.getElem?_map, entry, Option.map_some]
      refine not_le.1 fun wrong => valid (.window (every _) (every _) (every _) (every _) (every _) ?_)
      rw [a.starts_eq] at wrong
      dsimp only
      omega
    · exact not_lt.1 fun wrong => valid (.pad (List.mem_map_of_mem known) (.inl wrong))
    · exact not_lt.1 fun wrong => valid (.pad (List.mem_map_of_mem known) (.inr wrong))

/-- The check of parameters fails with messages about the convolution only: by the time that an entry is
    looked at it is there, and by the time that a stride is divided by it is positive. -/
theorem failsWith_check (p : ConvParams) (xs ks : List Int) :
    FailsWith Failure.IsConvolution (p.check xs ks) := by
  have counted : ∀ name given expected, FailsWith Failure.IsConvolution (requireEntries name given expected) := by
    intro name given expected
    unfold requireEntries
    split
    · exact .pure _
    · exact .throw ⟨_, rfl⟩
  unfold check
  simp only [throw_bind]
  refine .refuse ⟨_, rfl⟩ fun ranks => .refuse ⟨_, rfl⟩ fun rank => ?_
  obtain ⟨b, c, inputs, rfl⟩ := exists_front rank
  obtain ⟨co, d, kernels, rfl⟩ := exists_front (not_not.1 ranks ▸ rank)
  refine .bind (counted _ _ _) fun _ strides => .bind (counted _ _ _) fun _ padding =>
    .bind (counted _ _ _) fun _ inputDilation => .bind (counted _ _ _) fun _ filterDilation => ?_
  rw [requireEntries_eq_ok] at strides padding inputDilation filterDilation
  obtain ⟨axes, rfl, rfl, rfl⟩ := @exists_axes p inputs kernels inputs.length rfl
    (Nat.succ.inj (Nat.succ.inj (not_not.1 ranks).symm)) strides padding inputDilation filterDilation
  show FailsWith _ (if c ≠ d then _ else _)
  refine .refuse ⟨_, rfl⟩ fun _ => .bind (.forM fun axis member => ?_) fun _ axisChecks => ?_
  · obtain ⟨before, a, rest, rfl, rfl⟩ := exists_split (by simpa using member)
    simp only [checkAxis, ofAxes, axisEntry_map, axisEntry_kernel, ok_bind, throw_bind]
    exact .refuse ⟨_, rfl⟩ fun _ => .refuse ⟨_, rfl⟩ fun _ => .refuse ⟨_, rfl⟩ fun _ =>
      .refuse ⟨_, rfl⟩ fun _ => .refuse ⟨_, rfl⟩ fun _ => .pure _
  · simp only [List.length_cons, List.length_map] at axisChecks
    have strides := fun a member => (forM_checkAxis.1 axisChecks a member).1.stride
    obtain room | ⟨roomy, a, rest, rfl, room, full⟩ := forall_or_first (0 < ·.sliding.starts) axes
    · rw [(outputShape_ofAxes_iff strides).2 ⟨room, rfl⟩]
      exact .pure _
    · rw [outputShape_of_full (fun other member => strides other (by simp [member])) room (not_lt.1 full)]
      exact .throw ⟨_, rfl⟩

end ConvParams

/-! ## Padding by name -/

section SamePadding

variable {strides inputDilation filterDilation : List Int}

/-- Padding by name needs a stride that is not zero, and two dilations. -/
def Undetermined (strides inputDilation filterDilation : List Int) (axis : Nat) : Prop :=
  strides[axis]? = none ∨ inputDilation[axis]? = none ∨ filterDilation[axis]? = none ∨ strides[axis]? = some 0

theorem failsWith_axisEntry {P : Failure → Prop} (allowed : P .noElement) {α : Type} (xs : List α) (axis : Nat) :
    FailsWith P (axisEntry xs axis) := by
  unfold axisEntry
  split
  · exact .pure _
  · exact .throw allowed

/-- Padding by name fails where an entry is not there or a stride is zero. -/
theorem failsWith_samePadding (axis : Nat) (xs ks : List Int) :
    FailsWith (fun f => f = .noElement ∨ f = .divisionByZero)
      (samePadding strides inputDilation filterDilation axis xs ks) := by
  induction xs generalizing axis ks with
  | nil => exact .pure _
  | cons x xs inductionHypothesis =>
    cases ks with
    | nil => exact .pure _
    | cons k ks =>
      unfold samePadding
      refine .bind (failsWith_axisEntry (.inl rfl) _ _) fun _ _ => .bind (failsWith_axisEntry (.inl rfl) _ _)
        fun _ _ => .bind (failsWith_axisEntry (.inl rfl) _ _) fun _ _ => .bind ?_ fun _ _ =>
          .bind (inductionHypothesis _ _) fun _ _ => .pure _
      unfold Shape.ceilDivide
      exact .refuse (.inr rfl) fun _ => .pure _

/-- Padding by name is worked out just if it is determined for every axis. -/
theorem samePadding_ok_iff {axis : Nat} {xs ks : List Int} (count : xs.length = ks.length) :
    (∃ pads, samePadding strides inputDilation filterDilation axis xs ks = .ok pads)
      ↔ ∀ i < xs.length, ¬ Undetermined strides inputDilation filterDilation (axis + i) := by
  induction xs generalizing axis ks with
  | nil => exact ⟨fun _ => nofun, fun _ => ⟨[], rfl⟩⟩
  | cons x xs inductionHypothesis =>
    obtain ⟨k, ks, rfl⟩ := List.exists_cons_of_length_eq_add_one count.symm
    have tail := @inductionHypothesis (axis + 1) ks (Nat.succ.inj count)
    have later : ∀ i, axis + 1 + i = axis + (i + 1) := fun i => by omega
    simp only [samePadding, bind_eq_ok, axisEntry_eq_ok, Shape.ceilDivide, refuse_eq_ok, pure_eq_ok]
    constructor
    · rintro ⟨_, d, inDilation, e, outDilation, s, stride, _, ⟨divisible, rfl⟩, pads, rest, rfl⟩ i bound
      cases i with
      | zero => simp [Undetermined, inDilation, outDilation, stride, divisible]
      | succ i =>
        rw [← later]
        exact tail.1 ⟨pads, rest⟩ i (Nat.lt_of_succ_lt_succ bound)
    · intro determined
      have here := determined 0 (Nat.succ_pos _)
      simp only [Undetermined, Nat.add_zero, not_or, ← ne_eq, Option.ne_none_iff_exists'] at here
      obtain ⟨⟨s, stride⟩, ⟨d, inDilation⟩, ⟨e, outDilation⟩, divisible⟩ := here
      obtain ⟨pads, rest⟩ := tail.2 fun i bound => by
        rw [later]
        exact determined (i + 1) (Nat.succ_lt_succ bound)
      refine ⟨_, d, inDilation, e, outDilation, s, stride, _, ⟨?_, rfl⟩, pads, rest, rfl⟩
      rintro rfl
      exact divisible stride

end SamePadding

end StridedArray
