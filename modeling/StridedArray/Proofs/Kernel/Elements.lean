import StridedArray.Executor.Deferred
import StridedArray.Executor.Host
import StridedArray.Proofs.Executor.Atomicity
import StridedArray.Proofs.Kernel.Validation
import StridedArray.Proofs.Lanes.Bindings

/-! # The elements of an output

All positions of an output may well be evaluated under one environment that reductions write to: what an accepted
expression leaves in it is not seen at the next position. So every element is the value of the expression at its
position, and nothing else that is computed matters.

* `outputBytesSharing`, `outputBytesSharing_eq` — an output whose positions share the environment;
* `HoldsValues`, `holdsValues_of_outputBytes` — the elements of an output;
* `Kernel.Bound`, `Kernel.bound_of_plan` — accepted kernels find what they look up, on either executor. -/

namespace StridedArray

open StridedArray.Expr (Binds Scoped)

/-! ## One environment for all positions -/

/-- The bytes of an output, its positions evaluated one after the other under one environment. Each of them starts with
    the binding of the reduction index that the one before has left. -/
def outputBytesSharing (e : Expr) (buffers : Buffers) (size : Int) : Except Failure Bytes := do
  if size < 0 then throw .malformed
  let out := (List.range size.toNat).foldlM
    (fun (state : Bytes × Option Int) position => do
      let (x, bound) ← e.evaluateFrom (atOutput position) buffers state.2
      return (state.1 ++ (← e.kind.encode x).toArray, bound))
    (#[], none)
  Prod.fst <$> out.mapError whileRunning

/-- A loop whose steps do not depend on a part of the state is the loop without it. -/
theorem foldlM_fst {ε α β γ : Type} {f : β × γ → α → Except ε (β × γ)} {g : β → α → Except ε β}
    (each : ∀ state x, Prod.fst <$> f state x = g state.1 x) (xs : List α) (state : β × γ) :
    Prod.fst <$> xs.foldlM f state = xs.foldlM g state.1 := by
  induction xs generalizing state with
  | nil => rfl
  | cons x xs inductionHypothesis =>
    rw [List.foldlM_cons, List.foldlM_cons, ← each]
    cases f state x with
    | error e => rfl
    | ok next => exact inductionHypothesis next

/-- What a position leaves of the environment makes no difference to the next one. -/
theorem outputBytesSharing_eq {e : Expr} (scope : Scoped false e) (buffers : Buffers) (size : Int) :
    outputBytesSharing e buffers size = outputBytes e buffers size := by
  have each : ∀ (state : Bytes × Option Int) (position : Nat), Prod.fst <$> (do
      let (x, bound) ← e.evaluateFrom (atOutput position) buffers state.2
      return (state.1 ++ (← e.kind.encode x).toArray, bound) : Except Failure (Bytes × Option Int))
      = (do return state.1 ++ (← elementBytes e buffers position).toArray) := by
    intro state position
    have same := @Expr.fst_evaluateFrom (atOutput position) buffers e false scope state.2
    rw [← Expr.evaluate_eq_valueAt scope] at same
    rw [elementBytes, ← same]
    cases e.evaluateFrom (atOutput position) buffers state.2 with
    | error f => rfl
    | ok result =>
      obtain ⟨x, bound⟩ := result
      rw [ok_bind, ok_map, ok_bind]
      dsimp only
      cases e.kind.encode x <;> rfl
  have loops := foldlM_fst (g := fun (out : Bytes) position => do
    return out ++ (← elementBytes e buffers position).toArray) each (List.range size.toNat) (#[], none)
  dsimp only at loops
  unfold outputBytesSharing outputBytes
  simp only [throw_bind]
  refine if_congr Iff.rfl rfl ?_
  rw [← loops]
  cases (List.range size.toNat).foldlM (fun (state : Bytes × Option Int) position => do
    let (x, bound) ← e.evaluateFrom (atOutput position) buffers state.2
    return (state.1 ++ (← e.kind.encode x).toArray, bound)) (#[], none) <;> rfl

/-! ## The elements -/

/-- Some bytes are the values of an expression at the positions below a bound, one after the other, as elements of
    its kind. -/
structure HoldsValues (e : Expr) (buffers : Buffers) (count : Nat) (bytes : Bytes) : Prop where
  size : bytes.size = count * e.kind.itemSize
  element : ∀ i < count, ∃ v encoded, e.evaluate (atOutput i) buffers = .ok v ∧ e.kind.encode v = .ok encoded
    ∧ ∀ k < e.kind.itemSize, bytes[i * e.kind.itemSize + k]? = encoded[k]?

theorem holdsValues_of_foldlM {e : Expr} {buffers : Buffers} {count : Nat} {bytes : Bytes}
    (computed : (List.range count).foldlM (fun (out : Bytes) position => do
      return out ++ (← elementBytes e buffers position).toArray) #[] = .ok bytes) :
    HoldsValues e buffers count bytes := by
  induction count generalizing bytes with
  | zero =>
    cases computed
    exact ⟨(Nat.zero_mul _).symm, nofun⟩
  | succ count inductionHypothesis =>
    rw [List.range_succ, List.foldlM_append, bind_eq_ok] at computed
    obtain ⟨front, before, last⟩ := computed
    simp only [List.foldlM_cons, List.foldlM_nil, bind_eq_ok, pure_eq_ok, elementBytes] at last
    obtain ⟨_, ⟨encoded, ⟨v, value, element⟩, rfl⟩, rfl⟩ := last
    have known := inductionHypothesis before
    have length := Element.length_encode element
    refine ⟨?_, fun i bound => ?_⟩
    · rw [Array.size_append, known.size, List.size_toArray, length, Nat.succ_mul]
    · rcases Nat.lt_succ_iff_lt_or_eq.1 bound with earlier | rfl
      · -- The elements before are in front of the last one.
        obtain ⟨v, encoded, value, element, there⟩ := known.element i earlier
        refine ⟨v, encoded, value, element, fun k inside => ?_⟩
        have before : (i + 1) * e.kind.itemSize ≤ front.size := known.size ▸ Nat.mul_le_mul_right _ earlier
        rw [Nat.succ_mul] at before
        rw [Array.getElem?_append_left (by omega), there k inside]
      · refine ⟨v, encoded, value, element, fun k inside => ?_⟩
        rw [Array.getElem?_append_right (by rw [known.size]; omega), known.size, Nat.add_sub_cancel_left,
          List.getElem?_toArray]

theorem holdsValues_of_outputBytes {e : Expr} {buffers : Buffers} {size : Int} {bytes : Bytes}
    (computed : outputBytes e buffers size = .ok bytes) : HoldsValues e buffers size.toNat bytes := by
  unfold outputBytes at computed
  simp only [throw_bind, refuse_eq_ok, mapError_eq_ok] at computed
  exact holdsValues_of_foldlM computed.2

/-! ## Bindings -/

theorem Accepted.binds {inputSizes : List Nat} {kinds : List (Int × Element)} {e : Expr}
    (accepted : Accepted inputSizes kinds e) (position : Nat) : Binds (atOutput position) e := by
  intro node member name extent d same
  rcases accepted.indices (same ▸ member) with output | reduction
  · exact .inr (by rw [output]; rfl)
  · exact .inl reduction

theorem whileRunning_ne {f : Failure} (known : f ≠ .unbound) : whileRunning f ≠ .unbound := by
  unfold whileRunning
  split
  · nofun
  · nofun
  · exact known

variable [Room]

/-- Evaluation of the expressions of a kernel finds all names: on the host at every position over whatever buffers,
    on the accelerator for any number of positions over the buffers of whatever job it is given. -/
structure Kernel.Bound (kernel : Kernel) : Prop where
  host : ∀ e ∈ kernel.exprs, ∀ (position : Nat) buffers, Finds (e.evaluate (atOutput position) buffers)
  accelerator : ∀ e ∈ kernel.exprs, ∀ (job : Job) memory size, job.kernel = kernel →
    Finds (e.lanes (job.buffers memory) size)

theorem Kernel.bound_of_plan {exprs : List Expr} {inputSizes outputSizes : List Nat} {kernel : Kernel}
    (planned : Kernel.plan exprs inputSizes outputSizes = .ok kernel) : kernel.Bound := by
  obtain ⟨same, -, accepted, -⟩ := accepted_of_plan planned
  rw [← same] at accepted
  constructor
  · intro e member position buffers
    exact Expr.finds_evaluate (accepted e member).scope ((accepted e member).binds position)
  · rintro e member job memory size rfl
    refine Expr.finds_lanes (accepted e member).scope (fun node among slot reads => ?_) (accepted e member).indices size
    have isRead : node.isRead = true := by
      cases node <;> first | rfl | cases reads
    obtain ⟨_, _, -, kind, -⟩ := (accepted e member).reads node among isRead slot reads
    have decoded := lookup_map_values (fun slot (kind : Element) =>
      kind.decode (((job.sources.lookup slot).bind fun m => memory[m]?).getD #[])) job.kernel.kinds slot
    rw [kind, Option.map_some] at decoded
    exact Option.isSome_of_eq_some decoded

namespace Kernel

variable {kernel : Kernel} (bound : kernel.Bound)
include bound

theorem Bound.outputBytes {e : Expr} (member : e ∈ kernel.exprs) (buffers : Buffers) (size : Int) :
    Finds (outputBytes e buffers size) := by
  refine .refuse nofun fun _ => .mapError (fun f => whileRunning_ne) (.foldlM (fun out position _ => ?_) _)
  refine .bind ?_ fun encoded _ => .pure _
  exact .bind (bound.host e member position buffers) fun v _ => e.kind.finds_encode v

theorem Bound.run {job : Job} (same : job.kernel = kernel) (memory : Array Bytes) : Finds (job.run memory) := by
  refine .bind (.mapM fun e member => .refuse nofun fun _ => ?_) fun results _ => .pure _
  rw [Expr.lanesShared_eq]
  refine .bind (bound.accelerator e (same ▸ member) job memory _ same) fun l _ => ?_
  unfold Element.encodeAll
  rw [← Array.foldlM_toList]
  exact .foldlM (fun out value _ => .bind (e.kind.finds_encode value) fun encoded _ => .pure _) _

end Kernel

end StridedArray
