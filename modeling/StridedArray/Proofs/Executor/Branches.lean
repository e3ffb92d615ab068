import StridedArray.Proofs.Executor.Agreement
import StridedArray.Proofs.Executor.Atomicity
import StridedArray.Proofs.Expr.TypeSoundness
import StridedArray.Proofs.Lanes.Failures

/-! # Branches that are not taken

A choice takes one of its branches at each position. The host evaluates no other one there, so what would fail in
the other is not noticed. The deferred executor evaluates both of them at all positions, and fails if either does.

* `outputBytes_ok_iff` — when an output of the host is computed; `Expr.stored_of_evaluate` — what can be stored;
* `lanes_ok_iff`, `Job.outputBytes_ok_iff` — when an output of the deferred executor is;
* `Host.execute_ok_iff` — when the host executes a kernel; `jobOf_ok_iff`, `Deferred.execute_readable_iff` — when
  the outputs of the deferred executor can be read;
* `Executor.execute_branches` — both. -/

namespace StridedArray

open StridedArray.Expr (Peaked SmallBuffers Typed Unfailing)

/-! ## One output -/

/-- The host computes an output just if it can be evaluated at every position, each choice taking one branch, and its
    values can be stored. -/
theorem outputBytes_ok_iff {e : Expr} {buffers : Buffers} {size : Int} (nonneg : 0 ≤ size) :
    (∃ bytes, outputBytes e buffers size = .ok bytes)
      ↔ ∀ i : Nat, i < size → ∃ value bytes, e.evaluate (atOutput i) buffers = .ok value
        ∧ e.kind.encode value = .ok bytes := by
  unfold outputBytes
  simp only [throw_bind, refuse_eq_ok, mapError_eq_ok, Int.not_lt.2 nonneg, not_false_eq_true, true_and]
  constructor
  · rintro ⟨bytes, done⟩ i bound
    obtain ⟨out, next, step⟩ := foldlM_step done (List.mem_range.2 (show i < size.toNat by omega))
    simp only [bind_eq_ok, elementBytes] at step
    obtain ⟨encoded, ⟨value, known, stored⟩, -⟩ := step
    exact ⟨value, encoded, known, stored⟩
  · intro each
    refine foldlM_ok (fun out i member => ?_) #[]
    have bound := List.mem_range.1 member
    obtain ⟨value, bytes, known, stored⟩ := each i (by omega)
    exact ⟨out ++ bytes.toArray, by rw [elementBytes, known, ok_bind, stored]; rfl⟩

/-- As long as 32 bits count the positions, whatever can be evaluated can be stored. -/
theorem Expr.stored_of_evaluate {e : Expr} (typed : Typed e) (peaked : Peaked e) (counted : e.Counted)
    {buffers : Buffers} {i : Nat} (few : i < 0x80000000) {value : Scalar}
    (known : e.evaluate (atOutput i) buffers = .ok value) : ∃ bytes, e.kind.encode value = .ok bytes := by
  have words : ∀ name n, atOutput i name = some n → Word n := by
    intro name n bound
    obtain ⟨-, ⟨⟩⟩ := Option.ite_none_right_eq_some.1 bound
    exact ⟨by omega, by omega⟩
  obtain ⟨after, value⟩ := evaluate_eq_ok.1 known
  exact Element.encode_ok
    (holds_of_evaluateFrom typed peaked (wordsAt_of_words words counted (words reductionIndex)) value)

section Output

variable [Room] {inputs : List Bytes} {kernel : Kernel} {e : Expr}

/-- An output is evaluated for all positions just if no branch fails at any of them. -/
theorem lanes_ok_iff (accepted : Accepted (inputs.map Array.size) kernel.kinds e) (portable : e.Portable)
    (counted : e.Counted) (small : SmallBuffers (kernel.buffers inputs)) {n : Nat} (several : 0 < n)
    (few : n ≤ 0x80000000) :
    (∃ l, e.lanes (kernel.buffers inputs) n = .ok l)
      ↔ ∀ i < n, Unfailing (atOutput i) (kernel.buffers inputs) e none := by
  constructor
  · rintro ⟨l, evaluated⟩ i bound
    exact Expr.lanesWith_unfailing (accepted.prepared portable counted small few) several Nat.one_pos evaluated
      i 0 ⟨Nat.lt_of_lt_of_le bound (Nat.le_max_left ..), Nat.one_pos⟩
  · intro unfailing
    obtain ⟨l, evaluated, -⟩ := lanes_ok accepted portable counted small several few unfailing
    exact ⟨l, evaluated⟩

/-- A job computes an output just if no branch fails at any position. -/
theorem Job.outputBytes_ok_iff (accepted : Accepted (inputs.map Array.size) kernel.kinds e) (portable : e.Portable)
    (counted : e.Counted) (small : SmallBuffers (kernel.buffers inputs)) (several : 1 ≤ kernel.size)
    (few : kernel.size ≤ 0x80000000) {job : Job} (same : job.kernel = kernel) :
    (∃ bytes, job.outputBytes (kernel.buffers inputs) e = .ok bytes)
      ↔ ∀ i : Nat, i < kernel.size → Unfailing (atOutput i) (kernel.buffers inputs) e none := by
  have positions : ∀ i : Nat, i < kernel.size.toNat ↔ (i : Int) < kernel.size := fun i => by omega
  constructor
  · rintro ⟨bytes, computed⟩
    unfold outputBytes at computed
    simp only [throw_bind, refuse_eq_ok, bind_eq_ok, same, Expr.lanesShared_eq] at computed
    obtain ⟨-, l, evaluated, -⟩ := computed
    simp only [← positions]
    exact (lanes_ok_iff accepted portable counted small (by omega) (by omega)).1 ⟨l, evaluated⟩
  · intro unfailing
    obtain ⟨bytes, -, device⟩ := outputBytes_agree accepted portable counted small several few unfailing same
    exact ⟨bytes, device⟩

end Output

/-! ## Kernels -/

theorem Job.run_ok_iff [Room] {job : Job} {memory : Array Bytes} :
    (∃ after, job.run memory = .ok after)
      ↔ ∃ results, job.kernel.exprs.mapM (job.outputBytes (job.buffers memory)) = .ok results := by
  simp [run]

section Twins

variable [Room] {x : Host} {y : Deferred} {ins outs : List (Twin x y)} {kernel : Kernel} {exprs : List Expr}

/-- The host executes an accepted kernel just if its outputs can be evaluated at all positions, and stored. -/
theorem Host.execute_ok_iff (count : exprs.length = outs.length)
    (accepted : Kernel.plan exprs (ins.map fun b => b.bytes.size) (outs.map fun b => b.bytes.size) = .ok kernel)
    (nonneg : 0 ≤ kernel.size) :
    (∃ x', (Executor.host x).execute exprs (ins.map fun b => .handle b.onHost)
        (outs.map fun b => .handle b.onHost) = (.ok (), .host x'))
      ↔ ∀ e ∈ exprs, ∀ i : Nat, i < kernel.size → ∃ value bytes,
        e.evaluate (atOutput i) (kernel.buffers (ins.map Twin.bytes)) = .ok value
          ∧ e.kind.encode value = .ok bytes := by
  have each : (∃ results, kernel.exprs.mapM (fun e =>
      outputBytes e (kernel.buffers (ins.map Twin.bytes)) kernel.size) = .ok results)
      ↔ ∀ e ∈ exprs, ∀ i : Nat, i < kernel.size → ∃ value bytes,
        e.evaluate (atOutput i) (kernel.buffers (ins.map Twin.bytes)) = .ok value
          ∧ e.kind.encode value = .ok bytes := by
    rw [mapM_ok_iff, (accepted_of_plan accepted).1]
    exact forall₂_congr fun e _ => outputBytes_ok_iff nonneg
  have executed := Host.execute_of_plan (plan_host count accepted)
  rw [show (ins.map Twin.hostSlot).map (fun b => b.2.content) = ins.map Twin.bytes from List.map_map] at executed
  rw [← each]
  cases computed : kernel.exprs.mapM fun e =>
      outputBytes e (kernel.buffers (ins.map Twin.bytes)) kernel.size with
  | error f =>
    rw [computed] at executed
    simp [executed]
  | ok results =>
    rw [computed] at executed
    exact ⟨fun _ => ⟨results, rfl⟩, fun _ => ⟨_, executed⟩⟩

/-- A job for an accepted kernel succeeds just if no branch of its outputs fails at any position. -/
theorem jobOf_ok_iff
    (accepted : Kernel.plan exprs (ins.map fun b => b.bytes.size) (outs.map fun b => b.bytes.size) = .ok kernel)
    (several : 1 ≤ kernel.size) (few : kernel.size ≤ 0x80000000) (portable : ∀ e ∈ exprs, e.Portable)
    (counted : ∀ e ∈ exprs, e.Counted) (small : SmallBuffers (kernel.buffers (ins.map Twin.bytes))) :
    (∃ memory, (jobOf kernel ins outs).run y.settled.memory = .ok memory)
      ↔ ∀ e ∈ exprs, ∀ i : Nat, i < kernel.size →
        Unfailing (atOutput i) (kernel.buffers (ins.map Twin.bytes)) e none := by
  obtain ⟨same, noted, known, -⟩ := accepted_of_plan accepted
  have sizes : (ins.map Twin.bytes).map Array.size = ins.map fun b => b.bytes.size := List.map_map
  rw [Job.run_ok_iff, mapM_ok_iff, buffers_jobOf noted]
  show (∀ e ∈ kernel.exprs, _) ↔ _
  rw [same]
  exact forall₂_congr fun e member => Job.outputBytes_ok_iff (sizes ▸ known e member) (portable e member)
    (counted e member) small several few rfl

/-- What a deferred executor was given to execute can be read just if its job succeeds. -/
theorem Deferred.execute_readable_iff (opened : y.closed = false) (count : exprs.length = outs.length)
    (accepted : Kernel.plan exprs (ins.map fun b => b.bytes.size) (outs.map fun b => b.bytes.size) = .ok kernel) :
    ∃ y', (Executor.deferred y).execute exprs (ins.map fun b => .handle b.onDevice)
        (outs.map fun b => .handle b.onDevice) = (.ok (), .deferred y')
      ∧ ∀ b ∈ outs, (∃ bytes, ((Executor.deferred y').read b.onDevice).1 = .ok bytes)
        ↔ ∃ memory, (jobOf kernel ins outs).run y.settled.memory = .ok memory := by
  obtain ⟨y', submitted, executed, answers⟩ := execute_device opened count accepted
  refine ⟨y', executed, fun b member => ?_⟩
  rw [answers b member]
  exact Deferred.readBuffer_ok_iff submitted rfl

/-- A kernel that is accepted for buffers with the same contents. On the host it succeeds just if every output can be
    evaluated at every position, each choice taking one of its branches, and its values can be stored; they all can as
    long as 32 bits count the positions. The deferred executor takes a kernel of integers and truth values, and then
    its outputs can be read just if no branch of a choice fails at any position, whether it is taken there or not. -/
theorem Executor.execute_branches (count : exprs.length = outs.length)
    (accepted : Kernel.plan exprs (ins.map fun b => b.bytes.size) (outs.map fun b => b.bytes.size) = .ok kernel)
    (nonneg : 0 ≤ kernel.size) (typed : ∀ e ∈ exprs, Typed e) (peaked : ∀ e ∈ exprs, Peaked e) :
    ((∃ x', (Executor.host x).execute exprs (ins.map fun b => .handle b.onHost)
        (outs.map fun b => .handle b.onHost) = (.ok (), .host x'))
      ↔ ∀ e ∈ exprs, ∀ i : Nat, i < kernel.size → ∃ value bytes,
        e.evaluate (atOutput i) (kernel.buffers (ins.map Twin.bytes)) = .ok value
          ∧ e.kind.encode value = .ok bytes)
    ∧ (kernel.size ≤ 0x80000000 → (∀ e ∈ exprs, e.Counted) →
      ((∃ x', (Executor.host x).execute exprs (ins.map fun b => .handle b.onHost)
          (outs.map fun b => .handle b.onHost) = (.ok (), .host x'))
        ↔ ∀ e ∈ exprs, ∀ i : Nat, i < kernel.size →
          ∃ value, e.evaluate (atOutput i) (kernel.buffers (ins.map Twin.bytes)) = .ok value))
    ∧ (y.closed = false → 1 ≤ kernel.size → kernel.size ≤ 0x80000000 → (∀ e ∈ exprs, e.Portable) →
      (∀ e ∈ exprs, e.Counted) → SmallBuffers (kernel.buffers (ins.map Twin.bytes)) →
      ∃ y', (Executor.deferred y).execute exprs (ins.map fun b => .handle b.onDevice)
          (outs.map fun b => .handle b.onDevice) = (.ok (), .deferred y')
        ∧ ((∀ b ∈ outs, ∃ bytes, ((Executor.deferred y').read b.onDevice).1 = .ok bytes)
          ↔ ∀ e ∈ exprs, ∀ i : Nat, i < kernel.size →
            Unfailing (atOutput i) (kernel.buffers (ins.map Twin.bytes)) e none)) := by
  have host := Host.execute_ok_iff count accepted nonneg
  refine ⟨host, fun few counted => host.trans (forall₂_congr fun e member => forall₂_congr fun i bound => ?_),
    fun opened several few portable counted small => ?_⟩
  · constructor
    · rintro ⟨value, -, known, -⟩
      exact ⟨value, known⟩
    · rintro ⟨value, known⟩
      obtain ⟨bytes, stored⟩ :=
        Expr.stored_of_evaluate (typed e member) (peaked e member) (counted e member) (by omega) known
      exact ⟨value, bytes, known, stored⟩
  obtain ⟨y', executed, readable⟩ := Deferred.execute_readable_iff opened count accepted
  refine ⟨y', executed, ?_⟩
  have succeeds := jobOf_ok_iff accepted several few portable counted small
  rw [← succeeds]
  refine ⟨fun all => ?_, fun ran b member => (readable b member).2 ran⟩
  cases outs with
  | nil =>
    -- Without outputs there are no expressions, of which none fails.
    obtain rfl : exprs = [] := List.length_eq_zero_iff.1 count
    exact succeeds.2 nofun
  | cons b outs => exact (readable b (List.mem_cons_self ..)).1 (all b (List.mem_cons_self ..))

end Twins

def Expr.guardedQuotient : Expr :=
  .select .int32 (.binary .cmplt .bool (.const .int32 (.int 0)) (.outputPosition 2))
    (.binary .idiv .int32 (.const .int32 (.int 6)) (.outputPosition 2)) (.const .int32 (.int 0))

theorem Expr.portable_guardedQuotient : guardedQuotient.Portable := by
  have position := portable_special outputIndex 2
  have six := portable_const 6 (by decide)
  have zero := portable_const 0 (by decide)
  constructor
  · exact every_select.2 ⟨every_binary.2 ⟨zero.typed, position.typed, rfl, trivial, rfl⟩,
      every_binary.2 ⟨six.typed, position.typed, rfl, rfl, rfl⟩, zero.typed, rfl, rfl, rfl⟩
  · exact every_select.2 ⟨every_binary.2 ⟨zero.integral, position.integral, nofun⟩,
      every_binary.2 ⟨six.integral, position.integral, nofun⟩, zero.integral, nofun⟩
  all_goals simp [guardedQuotient, Expr.outputPosition]

/-- The host computes the guarded quotient, which never divides by zero. The deferred executor takes it and then
    divides by zero at the first position. -/
theorem Executor.execute_branches_guardedQuotient :
    (Kernel.plan [Expr.guardedQuotient] [] [8] = .ok ⟨[Expr.guardedQuotient], 2, []⟩
      ∧ Expr.guardedQuotient.Portable ∧ Peaked Expr.guardedQuotient ∧ Expr.guardedQuotient.Counted
      ∧ SmallBuffers (Kernel.buffers ⟨[Expr.guardedQuotient], 2, []⟩ []))
    ∧ (∃ x, (Executor.host (.holding [bytesOf [0, 0]])).execute [Expr.guardedQuotient] [] [.handle ⟨0, 0⟩]
        = (.ok (), .host x))
    ∧ ∃ y, (Executor.deferred (.holding [bytesOf [0, 0]])).execute [Expr.guardedQuotient] [] [.handle ⟨0, 0⟩]
        = (.ok (), .deferred y)
      ∧ ¬ ∃ bytes, ((Executor.deferred y).read ⟨0, 0⟩).1 = .ok bytes := by
  have accepted : Kernel.plan [Expr.guardedQuotient] [] [8] = .ok ⟨[Expr.guardedQuotient], 2, []⟩ := rfl
  have peaked : Peaked Expr.guardedQuotient := by simp [Expr.guardedQuotient, Expr.outputPosition]
  have counted : Expr.guardedQuotient.Counted := by simp [Expr.guardedQuotient, Expr.outputPosition]
  have small : SmallBuffers (Kernel.buffers ⟨[Expr.guardedQuotient], 2, []⟩ []) :=
    small_buffers (List.forall_mem_nil _) _
  have portable := Expr.portable_guardedQuotient
  let quotients : Twin (.holding [bytesOf [0, 0]]) (.holding [bytesOf [0, 0]]) := .number 0 rfl
  have branches := @Executor.execute_branches _ _ _ [] [quotients] ⟨[Expr.guardedQuotient], 2, []⟩
    [Expr.guardedQuotient] rfl (by
      show Kernel.plan _ _ [(bytesOf [0, 0]).size] = _
      rw [size_bytesOf]
      exact accepted)
    (by decide) (List.forall_mem_singleton.2 portable.typed) (List.forall_mem_singleton.2 peaked)
  obtain ⟨-, host, device⟩ := branches
  obtain ⟨y, executed, answered⟩ := device rfl (by decide) (by decide) (List.forall_mem_singleton.2 portable)
    (List.forall_mem_singleton.2 counted) small
  have onHost := host (by decide) (List.forall_mem_singleton.2 counted)
  refine ⟨⟨accepted, portable, peaked, counted, small⟩, onHost.2 (List.forall_mem_singleton.2 fun i bound => ?_), y,
    executed, fun readable => ?_⟩
  · obtain rfl | rfl : i = 0 ∨ i = 1 := by
      have below : (i : Int) < 2 := bound
      omega
    · exact ⟨.int 0, rfl⟩
    · exact ⟨.int 6, rfl⟩
  · obtain ⟨-, ⟨-, -, divided⟩, -⟩ := answered.1 (List.forall_mem_singleton.2 readable) _
      (List.mem_singleton_self _) 0 (by decide)
    exact divided (.inl rfl) 6 0 rfl rfl rfl

end StridedArray
