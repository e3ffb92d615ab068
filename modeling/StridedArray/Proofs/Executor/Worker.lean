import StridedArray.Executor
import StridedArray.Proofs.Kernel.Host

/-! # What the worker does with a job

A job is handed over behind those that wait already. It runs on the memory that these leave, and whoever
reads one of its outputs waits until it is done.

* `Table.lookup_modifyContent`, `Table.lookup_modifyContents` — slots whose content is changed;
* `Deferred.settled` — the executor once the worker has nothing left to do;
* `Deferred.submit_ok`, `Deferred.settled_submitted` — one job more; `Deferred.settled_of_run_ok`,
  `Deferred.settled_of_run_error` — how it ends;
* `Deferred.readBuffer_of_run_ok`, `Deferred.readBuffer_of_run_error` — what is read of its outputs;
* `Deferred.execute_awaited` — a kernel that is accepted. -/

namespace StridedArray

/-! ## Tables -/

namespace Table

variable {σ : Type} {t : Table σ} {h : Handle} {s : Slot σ}

theorem slot?_modifyContent (n m : Nat) (f : σ → σ) :
    (t.modifyContent n f).slot? m
      = (t.slot? m).map fun s => if m = n then { s with content := f s.content } else s := by
  unfold modifyContent
  cases found : t.slot? n with
  | none =>
    cases other : t.slot? m with
    | none => rfl
    | some s =>
      have different : m ≠ n := by
        rintro rfl
        rw [found] at other
        cases other
      exact congrArg some (if_neg different).symm
  | some s =>
    by_cases same : m = n
    · subst same
      show (t.put m _).slot? m = _
      rw [slot?_put_same (slot?_lt found), found]
      exact congrArg some (if_pos rfl).symm
    · show (t.put n _).slot? m = _
      rw [slot?_put_other same]
      cases t.slot? m with
      | none => rfl
      | some s => exact congrArg some (if_neg same).symm

theorem owner_modifyContent (n : Nat) (f : σ → σ) : (t.modifyContent n f).owner = t.owner := by
  unfold modifyContent
  split <;> rfl

theorem owner_of_lookup (known : t.lookup h = .ok s) : h.owner = t.owner := by
  unfold lookup at known
  split at known
  · cases known
  · next same => exact not_not.1 same

theorem lookup_modifyContent (known : t.lookup h = .ok s) (n : Nat) (f : σ → σ) :
    (t.modifyContent n f).lookup h
      = .ok (if h.slot = n then { s with content := f s.content } else s) := by
  refine lookup_ok ?_ ?_
  · rw [owner_modifyContent]
    exact owner_of_lookup known
  · rw [slot?_modifyContent, slot?_of_lookup known]
    rfl

/-- Several slots are given the same content. -/
theorem lookup_modifyContents (known : t.lookup h = .ok s) (slots : List Nat) (content : σ) :
    (slots.foldl (fun t n => t.modifyContent n fun _ => content) t).lookup h
      = .ok { s with content := if h.slot ∈ slots then content else s.content } := by
  induction slots generalizing t s with
  | nil => exact known
  | cons n slots inductionHypothesis =>
    rw [List.foldl_cons, inductionHypothesis (lookup_modifyContent known n _)]
    by_cases here : h.slot = n
    · simp [here]
    · simp [here]

end Table

/-! ## The worker -/

namespace Deferred

variable {x y : Deferred} {job : Job} {memory : Array Bytes}

variable [Room]

/-- The executor once the worker has nothing left to do. -/
def settled (x : Deferred) : Deferred := x.advance x.queue.length

theorem queue_step (x : Deferred) : x.step.queue = x.queue.tail := by
  unfold step
  split
  · next none => rw [none]; rfl
  · next job rest several =>
    rw [several]
    split <;> rfl

theorem outcomes_step (x : Deferred) :
    x.step.outcomes.size + x.step.queue.length = x.outcomes.size + x.queue.length := by
  unfold step
  split
  · rfl
  · next job rest several =>
    rw [several]
    split <;> simp only [Array.size_push, List.length_cons] <;> omega

theorem readback_step (x : Deferred) : x.step.readback = x.readback := by
  unfold step
  split
  · rfl
  · split <;> rfl

theorem queue_advance (x : Deferred) (n : Nat) : (x.advance n).queue = x.queue.drop n := by
  induction n generalizing x with
  | zero => rfl
  | succ n inductionHypothesis => rw [advance, inductionHypothesis, queue_step, List.drop_tail]

theorem outcomes_advance (x : Deferred) (n : Nat) :
    (x.advance n).outcomes.size + (x.advance n).queue.length = x.outcomes.size + x.queue.length := by
  induction n generalizing x with
  | zero => rfl
  | succ n inductionHypothesis => rw [advance, inductionHypothesis, outcomes_step]

theorem readback_advance (x : Deferred) (n : Nat) : (x.advance n).readback = x.readback := by
  induction n generalizing x with
  | zero => rfl
  | succ n inductionHypothesis => rw [advance, inductionHypothesis, readback_step]

theorem advance_submitted (x : Deferred) (later : List Job) (outstanding : List Nat)
    (table : Table (Option Nat)) :
    { x with queue := x.queue ++ later, outstanding := outstanding, table := table }.advance x.queue.length
      = { x.settled with queue := later, outstanding := outstanding, table := table } := by
  obtain ⟨table₀, memory, queue, outcomes, outstanding₀, closed, readback⟩ := x
  -- By induction on the queue, for any memory, since every job leaves another one to the next.
  induction queue generalizing memory outcomes with
  | nil => rfl
  | cons first queue inductionHypothesis =>
    unfold settled
    simp only [List.cons_append, List.length_cons, advance, step]
    cases first.run memory with
    | ok next => exact inductionHypothesis next (outcomes.push none)
    | error f => exact inductionHypothesis memory (outcomes.push (some f))

theorem advance_add (x : Deferred) (m n : Nat) : x.advance (m + n) = (x.advance m).advance n := by
  induction m generalizing x with
  | zero => rw [Nat.zero_add]; rfl
  | succ m inductionHypothesis => rw [Nat.succ_add, advance, advance, inductionHypothesis]

theorem outcomes_settled (x : Deferred) : x.settled.outcomes.size = x.outcomes.size + x.queue.length := by
  have all := x.outcomes_advance x.queue.length
  rw [queue_advance, List.drop_length] at all
  exact all

theorem await_eq {n : Nat} {outcome : Option Failure}
    (done : (x.advance (n + 1 - x.outcomes.size)).outcomes[n]? = some outcome) :
    x.await n = (outcome.elim (.ok ()) .error, x.advance (n + 1 - x.outcomes.size)) := by
  unfold await
  simp only [done]
  cases outcome <;> rfl

/-! ## One job more -/

theorem run_ok {results : List Bytes}
    (computed : job.kernel.exprs.mapM (job.outputBytes (job.buffers memory)) = .ok results) :
    job.run memory = .ok ((job.targets.zip results).foldl
      (fun m write => m.modify write.1 fun old => storeFront old write.2) memory) := by
  unfold Job.run
  dsimp only
  rw [computed]
  rfl

omit [Room] in
theorem execute_deferred {exprs : List Expr} {inputs outputs : List HandleArgument} {kernel : Kernel}
    {ins outs : List (Handle × Slot (Option Nat))}
    (planned : Executor.plan x.table exprs inputs outputs = .ok (kernel, ins, outs))
    (submitted : x.submit ⟨kernel, Executor.sources kernel ins, outs.map fun b => b.1.slot⟩ = .ok y) :
    (Executor.deferred x).execute exprs inputs outputs = (.ok (), .deferred y) := by
  have result : (Executor.plan x.table exprs inputs outputs >>= fun planned =>
      x.submit ⟨planned.1, Executor.sources planned.1 planned.2.1, planned.2.2.map fun b => b.1.slot⟩)
      = .ok y := by
    rw [planned, ok_bind]
    exact submitted
  unfold Executor.execute
  simp only [result]
  rfl

omit [Room] in
/-- The outputs of a job wait for it from now on. -/
theorem submit_ok (opened : x.closed = false) (job : Job) : ∃ y, x.submit job = .ok y
    ∧ y.table = job.targets.foldl (fun t slot => t.modifyContent slot fun _ =>
      some (x.outcomes.size + x.queue.length)) x.table := by
  unfold submit
  rw [opened]
  exact ⟨_, rfl, rfl⟩

/-- A job runs on what the jobs before it leave. -/
theorem settled_submitted (submitted : x.submit job = .ok y) :
    y.settled = step { x.settled with queue := [job], outstanding := y.outstanding, table := y.table }
      ∧ y.settled = y.advance (x.outcomes.size + x.queue.length + 1 - y.outcomes.size) := by
  unfold submit at submitted
  split at submitted
  · cases submitted
  cases submitted
  have steps : x.outcomes.size + x.queue.length + 1 - x.outcomes.size = x.queue.length + 1 := by omega
  -- The worker gets through the jobs before, which do not notice, and then takes the new one.
  constructor
  · rw [settled, List.length_append, advance_add, advance_submitted]
    rfl
  · rw [settled, List.length_append, steps]
    rfl

/-- A job that succeeds has written its outputs in the end. -/
theorem settled_of_run_ok (submitted : x.submit job = .ok y) (ran : job.run x.settled.memory = .ok memory) :
    y.settled.memory = memory ∧ y.settled.readback = x.readback
      ∧ y.await (x.outcomes.size + x.queue.length) = (.ok (), y.settled) := by
  obtain ⟨last, reached⟩ := settled_submitted submitted
  simp only [step, ran] at last
  have outcome : y.settled.outcomes[x.outcomes.size + x.queue.length]? = some none := by
    rw [last, ← outcomes_settled]
    exact Array.getElem?_push_size
  refine ⟨by rw [last], by rw [last]; exact readback_advance x _, ?_⟩
  rw [reached] at outcome ⊢
  exact await_eq outcome

/-- A job that fails has written nothing, and its failure is raised. -/
theorem settled_of_run_error (submitted : x.submit job = .ok y) {f : Failure}
    (ran : job.run x.settled.memory = .error f) :
    y.settled.memory = x.settled.memory
      ∧ y.await (x.outcomes.size + x.queue.length) = (.error f, y.settled) := by
  obtain ⟨last, reached⟩ := settled_submitted submitted
  simp only [step, ran] at last
  have outcome : y.settled.outcomes[x.outcomes.size + x.queue.length]? = some (some f) := by
    rw [last, ← outcomes_settled]
    exact Array.getElem?_push_size
  refine ⟨by rw [last], ?_⟩
  rw [reached] at outcome ⊢
  exact await_eq outcome

variable {h : Handle} {s : Slot (Option Nat)}

/-- No output of a job that fails can be read. -/
theorem readBuffer_of_run_error (submitted : x.submit job = .ok y) {f : Failure}
    (ran : job.run x.settled.memory = .error f)
    (pending : s.content = some (x.outcomes.size + x.queue.length)) : (y.readBuffer h s).1 = .error f := by
  rw [readBuffer, pending]
  dsimp only
  rw [(settled_of_run_error submitted ran).2]
  rfl

/-- The worker is handed what is accepted, and to read an output is to wait for it. -/
theorem execute_awaited {exprs : List Expr} {inputs outputs : List HandleArgument} {kernel : Kernel}
    {ins outs : List (Handle × Slot (Option Nat))} (opened : x.closed = false)
    (planned : Executor.plan x.table exprs inputs outputs = .ok (kernel, ins, outs)) :
    ∃ y, x.submit ⟨kernel, Executor.sources kernel ins, outs.map fun b => b.1.slot⟩ = .ok y
      ∧ (Executor.deferred x).execute exprs inputs outputs = (.ok (), .deferred y)
      ∧ ∀ h s, x.table.lookup h = .ok s → h.slot ∈ outs.map (fun b => b.1.slot) →
        ((Executor.deferred y).read h).1
          = (y.readBuffer h { s with content := some (x.outcomes.size + x.queue.length) }).1 := by
  obtain ⟨y, submitted, table⟩ :=
    submit_ok opened ⟨kernel, Executor.sources kernel ins, outs.map fun b => b.1.slot⟩
  refine ⟨y, submitted, execute_deferred planned submitted, fun h s known written => ?_⟩
  have pending := Table.lookup_modifyContents known (outs.map fun b => b.1.slot)
    (some (x.outcomes.size + x.queue.length))
  rw [if_pos written, ← table] at pending
  unfold Executor.read
  simp only [pending]

theorem readBuffer_ok_iff (submitted : x.submit job = .ok y)
    (pending : s.content = some (x.outcomes.size + x.queue.length)) :
    (∃ bytes, (y.readBuffer h s).1 = .ok bytes) ↔ ∃ memory, job.run x.settled.memory = .ok memory := by
  cases ran : job.run x.settled.memory with
  | error f => simp [readBuffer_of_run_error submitted ran pending]
  | ok memory =>
    refine ⟨fun _ => ⟨memory, rfl⟩, fun _ => ?_⟩
    rw [readBuffer, pending]
    dsimp only
    rw [(settled_of_run_ok submitted ran).2.2]
    exact ⟨_, rfl⟩

end Deferred

end StridedArray
