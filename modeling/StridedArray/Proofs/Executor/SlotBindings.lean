import StridedArray.Proofs.Executor.Agreement
import StridedArray.Proofs.Executor.Atomicity
import StridedArray.Proofs.Executor.Schedules
import StridedArray.Proofs.Kernel.Validation

/-! # Slots and the inputs that they are bound to

Executing binds every slot that is read to an input with a whole number of elements, or fails at once. Slots are told
apart by their numbers as written, though, and negative numbers count back from the last input: the same input can be
read as one kind under its number, and as another kind under a negative one.

* `Reads`, `SlotsBound` — what is read, and how it should be bound; `SlotsCounted` — how it is bound;
* `slotsBound_iff` — the two differ in negative numbers;
* `slotsCounted_of_plan`, `Executor.plan_rejects` — validation;
* `Executor.execute_bindsSlots` — executing; `Executor.execute_readsTwice` — one input as two kinds. -/

namespace StridedArray

open StridedArray.Expr (Every)

/-! ## Bindings -/

def Reads (exprs : List Expr) (slot : Int) (kind : Element) : Prop :=
  ∃ e ∈ exprs, ∃ node ∈ e.postorder, readSlot? node = some slot ∧ node.kind = kind

/-- Slots are the numbers of inputs, which are whole numbers of elements, and of one kind each. -/
structure SlotsBound (sizes : List Nat) (exprs : List Expr) : Prop where
  inside : ∀ slot kind, Reads exprs slot kind → 0 ≤ slot ∧ slot < sizes.length
  agree : ∀ slot other kind kind', Reads exprs slot kind → Reads exprs other kind' →
    Shape.place? sizes.length slot = Shape.place? sizes.length other → kind = kind'
  elements : ∀ slot kind bytes, Reads exprs slot kind → Shape.entry? sizes slot = some bytes →
    bytes % kind.itemSize = 0

/-- The same with numbers of inputs counted from either end, and one kind for each number as written. -/
structure SlotsCounted (sizes : List Nat) (exprs : List Expr) : Prop where
  inside : ∀ slot kind, Reads exprs slot kind → -(sizes.length : Int) ≤ slot ∧ slot < sizes.length
  agree : ∀ slot kind kind', Reads exprs slot kind → Reads exprs slot kind' → kind = kind'
  elements : ∀ slot kind bytes, Reads exprs slot kind → Shape.entry? sizes slot = some bytes →
    bytes % kind.itemSize = 0

theorem Shape.range_of_entry? {α : Type} {xs : List α} {k : Int} {x : α} (found : entry? xs k = some x) :
    -(xs.length : Int) ≤ k ∧ k < xs.length := by
  obtain ⟨n, place, -⟩ := Option.bind_eq_some_iff.1 found
  unfold place? at place
  dsimp only at place
  have inside := (Option.ite_none_right_eq_some.1 place).1
  split at inside <;> omega

theorem Shape.place?_of_range {length : Nat} {k : Int} (nonneg : 0 ≤ k) (below : k < length) :
    place? length k = some k.toNat := by
  unfold place?
  rw [if_neg (Int.not_lt.2 nonneg)]
  exact if_pos ⟨nonneg, below⟩

/-- Only with negative numbers is it a difference from which end inputs are counted. -/
theorem slotsBound_iff {sizes : List Nat} {exprs : List Expr} :
    SlotsBound sizes exprs ↔ SlotsCounted sizes exprs ∧ ∀ slot kind, Reads exprs slot kind → 0 ≤ slot := by
  constructor
  · intro bound
    refine ⟨⟨fun slot kind reads => ?_, fun slot kind kind' first second => ?_, bound.elements⟩,
      fun slot kind reads => (bound.inside slot kind reads).1⟩
    · have := bound.inside slot kind reads
      omega
    · exact bound.agree slot slot kind kind' first second rfl
  · rintro ⟨counted, nonneg⟩
    refine ⟨fun slot kind reads => ⟨nonneg slot kind reads, (counted.inside slot kind reads).2⟩, ?_, counted.elements⟩
    intro slot other kind kind' first second same
    have least := nonneg slot kind first
    have least' := nonneg other kind' second
    rw [Shape.place?_of_range least (counted.inside slot kind first).2,
      Shape.place?_of_range least' (counted.inside other kind' second).2, Option.some.injEq] at same
    obtain rfl : slot = other := by omega
    exact counted.agree slot kind kind' first second

/-! ## Validation -/

theorem elements_of_checkRead {node : Expr} {bytes : Nat} {evaluated : Bool}
    (checked : checkRead node bytes evaluated = .ok ()) : bytes % node.kind.itemSize = 0 := by
  unfold checkRead at checked
  simp only [throw_bind] at checked
  exact not_not.1 (refuse_eq_ok.1 checked).1

/-- The slots of an accepted kernel are bound. -/
theorem slotsCounted_of_plan {exprs : List Expr} {inputSizes outputSizes : List Nat} {kernel : Kernel}
    (planned : Kernel.plan exprs inputSizes outputSizes = .ok kernel) : SlotsCounted inputSizes exprs := by
  obtain ⟨-, -, accepted, -⟩ := accepted_of_plan planned
  have noted : ∀ slot kind, Reads exprs slot kind → ∃ bytes, Shape.entry? inputSizes slot = some bytes
      ∧ kernel.kinds.lookup slot = some kind ∧ bytes % kind.itemSize = 0 := by
    rintro slot _ ⟨e, member, node, among, reads, rfl⟩
    have isRead : node.isRead = true := by cases node <;> first | rfl | cases reads
    obtain ⟨bytes, evaluated, entry, kind, checked⟩ := (accepted e member).reads node among isRead slot reads
    exact ⟨bytes, entry, kind, elements_of_checkRead checked⟩
  refine ⟨fun slot kind reads => ?_, fun slot kind kind' first second => ?_, fun slot kind bytes reads found => ?_⟩
  · obtain ⟨bytes, entry, -⟩ := noted slot kind reads
    exact Shape.range_of_entry? entry
  · obtain ⟨-, -, one, -⟩ := noted slot kind first
    obtain ⟨-, -, other, -⟩ := noted slot kind' second
    exact Option.some.inj (one.symm.trans other)
  · obtain ⟨_, entry, -, whole⟩ := noted slot kind reads
    cases entry.symm.trans found
    exact whole

namespace Executor

/-- Where the table knows all handles, a plan is refused by a check of validation. -/
theorem plan_rejects {σ : Type} {t : Table σ} {exprs : List Expr} {inputs outputs : List HandleArgument}
    {ins outs : List (Handle × Slot σ)} (first : inputs.mapM t.resolve = .ok ins)
    (second : outputs.mapM t.resolve = .ok outs) :
    FailsWith (Failure.IsRejection · (∀ e ∈ exprs, Every (Named inputs.length) e)) (plan t exprs inputs outputs) := by
  have count : (ins.map fun b => b.2.size).length = inputs.length := by
    rw [List.length_map, (mapM_eq_ok.1 first).length_eq]
  unfold plan
  simp only [throw_bind]
  refine .refuse (.inl ⟨_, rfl⟩) fun _ => ?_
  rw [first, second, ← count]
  exact (Kernel.plan_rejects exprs _ _).bind fun _ _ => .pure _

end Executor

/-! ## Plans without contents -/

namespace Table

variable {σ : Type}

theorem resolve_forget (t : Table σ) (given : HandleArgument) :
    t.forget.resolve given = (fun b => (b.1, b.2.forget)) <$> t.resolve given := by
  cases given with
  | other typeName => rfl
  | handle h =>
    show (do return (h, ← t.forget.lookup h)) = (fun b => (b.1, b.2.forget)) <$> do return (h, ← t.lookup h)
    rw [lookup_forget]
    cases t.lookup h <;> rfl

theorem mapM_resolve_forget (t : Table σ) (given : List HandleArgument) :
    given.mapM t.forget.resolve = List.map (fun b => (b.1, b.2.forget)) <$> given.mapM t.resolve := by
  induction given with
  | nil => rfl
  | cons one given inductionHypothesis =>
    rw [List.mapM_cons, List.mapM_cons, inductionHypothesis, resolve_forget]
    cases t.resolve one with
    | error f => rfl
    | ok b => cases given.mapM t.resolve <;> rfl

end Table

namespace Executor

theorem plan_forget {σ : Type} (t : Table σ) (exprs : List Expr) (inputs outputs : List HandleArgument) :
    plan t.forget exprs inputs outputs
      = (fun p => (p.1, p.2.1.map fun b => (b.1, b.2.forget), p.2.2.map fun b => (b.1, b.2.forget)))
        <$> plan t exprs inputs outputs := by
  unfold plan
  by_cases other : exprs.length ≠ outputs.length
  · rw [if_pos other, if_pos other]
    rfl
  rw [if_neg other, if_neg other, t.mapM_resolve_forget inputs, t.mapM_resolve_forget outputs]
  cases inputs.mapM t.resolve with
  | error f => rfl
  | ok ins =>
    cases outputs.mapM t.resolve with
    | error f => rfl
    | ok outs =>
      have sizes : ∀ found : List (Handle × Slot σ),
          (found.map fun b => (b.1, b.2.forget)).map (fun b => b.2.size) = found.map fun b => b.2.size := by
        intro found
        rw [List.map_map]
        rfl
      simp only [ok_map, ok_bind, sizes]
      cases Kernel.plan exprs (ins.map fun b => b.2.size) (outs.map fun b => b.2.size) <;> rfl

theorem execute_of_refused {x : Executor} {exprs : List Expr} {inputs outputs : List HandleArgument} {f : Failure}
    (refused : plan x.counts exprs inputs outputs = .error f) : x.execute exprs inputs outputs = (.error f, x) := by
  have same : ∀ {σ : Type} (t : Table σ), plan t.forget exprs inputs outputs = .error f →
      plan t exprs inputs outputs = .error f := by
    intro σ t refused
    rw [plan_forget] at refused
    cases planned : plan t exprs inputs outputs with
    | error g =>
      rw [planned] at refused
      cases refused
      rfl
    | ok found =>
      rw [planned] at refused
      cases refused
  cases x with
  | host y => exact Host.execute_of_plan_failed (same y.table refused)
  | deferred y => exact Deferred.execute_of_plan_error (same y.table refused)

/-! ## Executing -/

/-- Either executor accepts a kernel, knows all of its buffers and binds every slot to one of them, of a whole number of
    elements and with one kind for each number as written, or it refuses the kernel, fails at once and nothing is begun.
    The failure is that of a check, or of a negative number beyond the first input. That an input is read as one kind,
    by its number, is only sure if no number is negative. -/
theorem execute_bindsSlots (x : Executor) (exprs : List Expr) (inputs outputs : List HandleArgument) :
    (∃ kernel ins outs, plan x.counts exprs inputs outputs = .ok (kernel, ins, outs)
      ∧ inputs.mapM x.counts.resolve = .ok ins ∧ outputs.mapM x.counts.resolve = .ok outs
      ∧ SlotsCounted (ins.map fun b => b.2.size) exprs
      ∧ (SlotsBound (ins.map fun b => b.2.size) exprs ↔ ∀ slot kind, Reads exprs slot kind → 0 ≤ slot))
    ∨ ∃ f, plan x.counts exprs inputs outputs = .error f ∧ x.execute exprs inputs outputs = (.error f, x)
      ∧ ∀ ins outs, inputs.mapM x.counts.resolve = .ok ins → outputs.mapM x.counts.resolve = .ok outs →
        f.IsExecution ∨ f = .noElement ∧ ∃ slot kind, Reads exprs slot kind ∧ slot < -(inputs.length : Int) := by
  cases planned : plan x.counts exprs inputs outputs with
  | ok found =>
    obtain ⟨kernel, ins, outs⟩ := found
    obtain ⟨-, first, second, accepted⟩ := plan_eq_ok.1 planned
    have counted := slotsCounted_of_plan accepted
    exact .inl ⟨kernel, ins, outs, rfl, first, second, counted, by rw [slotsBound_iff, and_iff_right counted]⟩
  | error f =>
    refine .inr ⟨f, rfl, execute_of_refused planned, fun ins outs first second => ?_⟩
    refine (plan_rejects first second f planned).imp_right fun ⟨missing, unnamed⟩ => ⟨missing, ?_⟩
    by_contra none
    refine unnamed fun e member node among slot reads => Int.not_lt.1 fun beyond => none ?_
    exact ⟨slot, node.kind, ⟨e, member, node, among, reads, rfl⟩, beyond⟩

/-- A number and a truth value, both read from the one input that there is. -/
def lastInput : List Expr := [.load (-1) .int32 (.outputPosition 1), .load 0 .bool (.outputPosition 1)]

/-- Either executor accepts reads of the same input as two kinds, one of which has a negative number. -/
theorem execute_readsTwice :
    let buffers := [bytesOf [7], bytesOf [0], #[0]]
    let accepts := fun x : Executor =>
      (x.execute lastInput [.handle ⟨0, 0⟩] [.handle ⟨0, 1⟩, .handle ⟨0, 2⟩]).1 = .ok ()
    accepts (.host (.holding buffers)) ∧ accepts (.deferred (.holding buffers)) ∧ ¬ SlotsBound [4] lastInput := by
  refine ⟨rfl, rfl, fun bound => ?_⟩
  have reads : Reads lastInput (-1) .int32 := ⟨_, List.mem_cons_self .., _, Expr.self_mem_postorder _, rfl, rfl⟩
  exact absurd (bound.inside _ _ reads).1 (by decide)

end Executor

end StridedArray
