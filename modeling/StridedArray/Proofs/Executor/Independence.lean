import StridedArray.Proofs.Executor.Atomicity
import StridedArray.Proofs.Kernel.Elements

/-! # Every element is computed on its own

Whatever else a call computes, an element of an output is the value of its expression at its position, over the
contents that the buffers had before the call. And what was accepted never fails for lack of a binding, neither on the
host nor when the worker of a deferred executor gets to it.

* `Host.executeSharing` — executing with one environment for all positions of an output;
* `Host.Wrote` — what a call has written;
* `Deferred.Finding`, `Executor.finds_perform`, `Executor.finds_replay` — one command, and whole schedules;
* `Host.execute_independent` — all of it. -/

namespace StridedArray

/-! ## What is written -/

namespace Host

/-- Execute expressions with one environment for all positions of an output. -/
def executeSharing (x : Host) (exprs : List Expr) (inputs outputs : List HandleArgument) : Executor.Step Unit :=
  match Executor.plan x.table exprs inputs outputs with
  | .error f => (throw f, .host x)
  | .ok (kernel, ins, outs) =>
    let buffers := kernel.buffers (ins.map fun b => b.2.content)
    match kernel.exprs.mapM fun e => outputBytesSharing e buffers kernel.size with
    | .error f => (throw f, .host x)
    | .ok results => (pure (), .host (((outs.map fun b => b.1.slot).zip results).foldl
        (fun x write => x.stored write.1 write.2) x))

/-- What a kernel has written: for each output the values of its expression at all positions, over the contents that
    the inputs had before. Its buffer begins with them, unless it is a later output as well. -/
structure Wrote (x y : Host) (kernel : Kernel) (ins outs : List (Handle × Slot Bytes)) (results : List Bytes) :
    Prop where
  values : List.Forall₂ (fun e bytes => HoldsValues e (kernel.buffers (ins.map fun b => b.2.content)) kernel.size.toNat
    bytes) kernel.exprs results
  stored : ∀ (j : Nat) (out : Handle × Slot Bytes) (bytes : Bytes), outs[j]? = some out → results[j]? = some bytes →
    (∀ (k : Nat) (other : Handle × Slot Bytes), j < k → outs[k]? = some other → other.1.slot ≠ out.1.slot) →
      ∃ s, y.table.slot? out.1.slot = some s ∧ ∀ i < bytes.size, s.content[i]? = bytes[i]?

variable {x y : Host} {exprs : List Expr} {inputs outputs : List HandleArgument} {kernel : Kernel}
  {ins outs : List (Handle × Slot Bytes)} {slot : Nat} {bytes : Bytes} {s : Slot Bytes}

theorem executeSharing_eq (x : Host) (exprs : List Expr) (inputs outputs : List HandleArgument) :
    x.executeSharing exprs inputs outputs = (Executor.host x).execute exprs inputs outputs := by
  unfold executeSharing
  cases planned : Executor.plan x.table exprs inputs outputs with
  | error f => exact (execute_of_plan_failed planned).symm
  | ok found =>
    obtain ⟨kernel, ins, outs⟩ := found
    obtain ⟨-, -, -, accepted⟩ := Executor.plan_eq_ok.1 planned
    obtain ⟨same, -, each, -⟩ := accepted_of_plan accepted
    have alike : (kernel.exprs.mapM fun e =>
          outputBytesSharing e (kernel.buffers (ins.map fun b => b.2.content)) kernel.size)
        = kernel.exprs.mapM fun e => outputBytes e (kernel.buffers (ins.map fun b => b.2.content)) kernel.size := by
      refine mapM_congr fun e member => ?_
      exact outputBytesSharing_eq (each e (same ▸ member)).scope _ _
    rw [execute_of_plan planned, ← alike]
    rfl

theorem slot?_stored (x : Host) (slot n : Nat) (bytes : Bytes) : (x.stored slot bytes).table.slot? n
    = (x.table.slot? n).map fun s => if n = slot then { s with content := storeFront s.content bytes } else s :=
  Table.slot?_modifyContent ..

theorem slot?_foldl_stored {writes : List (Nat × Bytes)} (others : ∀ write ∈ writes, write.1 ≠ slot) :
    (writes.foldl (fun x write => x.stored write.1 write.2) x).table.slot? slot = x.table.slot? slot := by
  induction writes generalizing x with
  | nil => rfl
  | cons write writes inductionHypothesis =>
    obtain ⟨here, rest⟩ := List.forall_mem_cons.1 others
    rw [List.foldl_cons, inductionHypothesis rest, slot?_stored]
    simp only [if_neg (Ne.symm here), Option.map_id']

theorem begins_foldl_stored (known : x.table.slot? slot = some s) {front rest : List (Nat × Bytes)}
    (others : ∀ write ∈ rest, write.1 ≠ slot) :
    ∃ t, ((front ++ (slot, bytes) :: rest).foldl (fun x write => x.stored write.1 write.2) x).table.slot? slot = some t
      ∧ ∀ i < bytes.size, t.content[i]? = bytes[i]? := by
  induction front generalizing x s with
  | nil =>
    rw [List.nil_append, List.foldl_cons, slot?_foldl_stored others, slot?_stored, known, Option.map_some, if_pos rfl]
    exact ⟨_, rfl, fun i bound => Array.getElem?_append_left bound⟩
  | cons write front inductionHypothesis =>
    refine inductionHypothesis (x := x.stored write.1 write.2) (s := if slot = write.1 then
      { s with content := storeFront s.content write.2 } else s) ?_
    rw [slot?_stored, known, Option.map_some]

theorem wrote_of_plan (planned : Executor.plan x.table exprs inputs outputs = .ok (kernel, ins, outs))
    {results : List Bytes}
    (computed : (kernel.exprs.mapM fun e => outputBytes e (kernel.buffers (ins.map fun b => b.2.content)) kernel.size)
      = .ok results) :
    x.Wrote (((outs.map fun b => b.1.slot).zip results).foldl (fun x write => x.stored write.1 write.2) x) kernel ins
      outs results where
  values := (mapM_eq_ok.1 computed).imp fun _ _ => holdsValues_of_outputBytes
  stored j out bytes output result last := by
    have resolved := (Executor.lookup_of_plan planned).2
    have known := Table.slot?_of_lookup (Executor.lookup_of_mapM_resolve resolved (List.mem_of_getElem? output)).2
    -- The writes in front of this one may be to the same buffer, those behind it are not.
    have split : (outs.map fun b => b.1.slot).zip results
        = ((outs.map fun b => b.1.slot).zip results).take j
          ++ (out.1.slot, bytes) :: ((outs.map fun b => b.1.slot).zip results).drop (j + 1) := by
      obtain ⟨bound, here⟩ := List.getElem?_eq_some_iff.1 (show ((outs.map fun b => b.1.slot).zip results)[j]?
        = some (out.1.slot, bytes) by rw [List.getElem?_zip_eq_some, List.getElem?_map, output]; exact ⟨rfl, result⟩)
      rw [← here, List.getElem_cons_drop, List.take_append_drop]
    rw [split]
    refine begins_foldl_stored known fun write later => ?_
    obtain ⟨k, found⟩ := List.mem_iff_getElem?.1 later
    rw [List.getElem?_drop, List.getElem?_zip_eq_some, List.getElem?_map] at found
    obtain ⟨other, there, same⟩ := Option.map_eq_some_iff.1 found.1
    rw [← same]
    exact last _ other (by omega) there

end Host

/-! ## What is found -/

theorem Table.finds_lookup {σ : Type} (t : Table σ) (h : Handle) : Finds (t.lookup h) := by
  refine .refuse nofun fun _ => ?_
  split
  · exact .pure _
  · exact .throw nofun

theorem Table.finds_resolve {σ : Type} (t : Table σ) (given : HandleArgument) : Finds (t.resolve given) := by
  cases given with
  | other typeName => exact .throw nofun
  | handle h => exact .bind (x := t.lookup h) (t.finds_lookup h) fun s _ => .pure (h, s)

theorem finds_plan {σ : Type} (t : Table σ) (exprs : List Expr) (inputs outputs : List HandleArgument) :
    Finds (Executor.plan t exprs inputs outputs) := by
  refine .refuse nofun fun _ => .bind (.mapM fun given _ => t.finds_resolve given) fun ins _ =>
    .bind (.mapM fun given _ => t.finds_resolve given) fun outs _ => .bind ?_ fun kernel _ => .pure _
  rintro f failed rfl
  rcases Kernel.plan_rejects exprs _ _ _ failed with ⟨fault, same⟩ | ⟨same, -⟩ <;> cases same

namespace Deferred

variable [Room]

/-- No job has failed for lack of a binding, and none is going to. -/
structure Finding (x : Deferred) : Prop where
  jobs : ∀ job ∈ x.queue, ∀ memory, Finds (job.run memory)
  outcomes : ∀ f, some f ∈ x.outcomes → f ≠ .unbound

variable {x : Deferred}

theorem Finding.fresh (owner : Nat) (device : String) (readback : Readback) :
    (Deferred.fresh owner device readback).Finding :=
  ⟨nofun, fun _ member => absurd member (Array.not_mem_empty _)⟩

theorem Finding.step (finding : x.Finding) : x.step.Finding := by
  unfold Deferred.step
  split
  · exact finding
  · next job rest queue =>
    obtain ⟨here, later⟩ := List.forall_mem_cons.1 (queue ▸ finding.jobs)
    split
    · refine ⟨later, fun f member => ?_⟩
      rcases Array.mem_push.1 member with earlier | now
      · exact finding.outcomes f earlier
      · cases now
    · next failed =>
      refine ⟨later, fun f member => ?_⟩
      rcases Array.mem_push.1 member with earlier | now
      · exact finding.outcomes f earlier
      · cases now
        exact here _ _ failed

theorem Finding.advance (finding : x.Finding) (n : Nat) : (x.advance n).Finding := by
  induction n generalizing x with
  | zero => exact finding
  | succ n inductionHypothesis => exact inductionHypothesis finding.step

theorem Finding.await (finding : x.Finding) (job : Nat) : Finds (x.await job).1 ∧ (x.await job).2.Finding := by
  have later := finding.advance (job + 1 - x.outcomes.size)
  unfold Deferred.await
  dsimp only
  split
  · next f outcome =>
    refine ⟨.throw (later.outcomes f ?_), later⟩
    exact Array.mem_of_getElem? (Option.join_eq_some_iff.1 outcome)
  · exact ⟨.pure (), later⟩

theorem Finding.awaitAll (finding : x.Finding) (jobs : List Nat) :
    Finds (x.awaitAll jobs).1 ∧ (x.awaitAll jobs).2.Finding := by
  induction jobs generalizing x with
  | nil => exact ⟨.pure (), finding⟩
  | cons job jobs inductionHypothesis =>
    obtain ⟨found, later⟩ := finding.await job
    unfold Deferred.awaitAll
    split
    · next y waited =>
      rw [waited] at later
      exact inductionHypothesis later
    · exact ⟨found, later⟩

theorem Finding.readBuffer (finding : x.Finding) (h : Handle) (s : Slot (Option Nat)) :
    Finds (x.readBuffer h s).1 ∧ (x.readBuffer h s).2.Finding := by
  unfold Deferred.readBuffer
  cases s.content with
  | none =>
    -- A buffer that no job writes is not waited for.
    exact ⟨.pure _, finding.jobs, finding.outcomes⟩
  | some job =>
    obtain ⟨found, later⟩ := finding.await job
    dsimp only
    split
    · next f failed => exact ⟨.throw (found f failed), later⟩
    · exact ⟨.pure _, later.jobs, later.outcomes⟩

theorem Finding.submit (finding : x.Finding) {job : Job} (runs : ∀ memory, Finds (job.run memory)) {y : Deferred}
    (submitted : x.submit job = .ok y) : y.Finding := by
  obtain ⟨-, rfl⟩ := submit_eq_ok.1 submitted
  refine ⟨fun other member => ?_, finding.outcomes⟩
  rcases List.mem_append.1 member with earlier | here
  · exact finding.jobs other earlier
  · rw [List.mem_singleton.1 here]
    exact runs

end Deferred

/-! ## Commands and schedules -/

namespace Executor

variable [Room]

/-- Nothing fails for lack of a binding, now or later. The host has nothing left to do between commands. -/
def Finding : Executor → Prop
  | host _ => True
  | deferred x => x.Finding

variable {x : Executor}

theorem Finding.withTable (finding : x.Finding) {f : {σ : Type} → Table σ → Except Failure (Table σ)}
    (found : ∀ {σ : Type} (t : Table σ), Finds (f t)) : Finds (x.withTable f).1 ∧ (x.withTable f).2.Finding := by
  cases x with
  | host y =>
    unfold Executor.withTable
    dsimp only
    split
    · exact ⟨.pure (), trivial⟩
    · next failed => exact ⟨.throw (found _ _ failed), trivial⟩
  | deferred y =>
    unfold Executor.withTable
    dsimp only
    split
    · exact ⟨.pure (), finding.jobs, finding.outcomes⟩
    · next failed => exact ⟨.throw (found _ _ failed), finding⟩

theorem Finding.allocate (finding : x.Finding) (size : Int) (initial : Option Bytes) :
    Finds (x.allocate size initial).1 ∧ (x.allocate size initial).2.Finding := by
  unfold Executor.allocate
  split
  · cases x with
    | host y => exact ⟨.throw (by unfold noRoom; dsimp only; split <;> nofun), trivial⟩
    | deferred y => exact ⟨.throw (by unfold noRoom; dsimp only; split <;> nofun), finding.jobs, finding.outcomes⟩
  · have content : Finds (initialBytes size initial) := by
      refine .refuse nofun fun _ => ?_
      split
      · exact .pure _
      · exact .ite (fun _ => .pure _) fun _ => .throw nofun
    split
    · next f failed => exact ⟨.throw (content f failed), finding⟩
    · cases x with
      | host y => exact ⟨.pure _, trivial⟩
      | deferred y => exact ⟨.pure _, finding.jobs, finding.outcomes⟩

theorem Finding.execute (finding : x.Finding) (exprs : List Expr) (inputs outputs : List HandleArgument) :
    Finds (x.execute exprs inputs outputs).1 ∧ (x.execute exprs inputs outputs).2.Finding := by
  cases x with
  | host y =>
    cases planned : plan y.table exprs inputs outputs with
    | error f =>
      rw [Host.execute_of_plan_failed planned]
      exact ⟨.throw (finds_plan _ _ _ _ f planned), trivial⟩
    | ok found =>
      obtain ⟨kernel, ins, outs⟩ := found
      have bound := Kernel.bound_of_plan (plan_eq_ok.1 planned).2.2.2
      rw [Host.execute_of_plan planned]
      split
      · next f failed =>
        exact ⟨.throw (FailsWith.mapM (fun e member => bound.outputBytes member _ _) f failed), trivial⟩
      · exact ⟨.pure (), trivial⟩
  | deferred y =>
    rcases Deferred.execute_cases y exprs inputs outputs with
      ⟨f, refused, failed⟩ | ⟨kernel, ins, outs, planned, ⟨-, failed⟩ | ⟨-, z, submitted, executed⟩⟩
    · rw [failed]
      exact ⟨.throw (finds_plan _ _ _ _ f refused), finding⟩
    · rw [failed]
      exact ⟨.throw nofun, finding⟩
    · have bound := Kernel.bound_of_plan (plan_eq_ok.1 planned).2.2.2
      rw [executed]
      exact ⟨.pure (), Deferred.Finding.submit finding (fun memory => bound.run rfl memory) submitted⟩

/-- No command is answered with a failure for lack of a binding. -/
theorem finds_perform (finding : x.Finding) (c : Command) :
    (x.perform c).1 ≠ .failed .unbound ∧ (x.perform c).2.Finding := by
  have answered : ∀ {α : Type} {good : α → Reply} {answer : Except Failure α}, (∀ a, good a ≠ .failed .unbound) →
      Finds answer → Reply.of good answer ≠ .failed .unbound :=
    fun good_ne found same => found _ (Reply.of_failed good_ne same) rfl
  cases c with
  | allocate size initial => exact ⟨answered nofun (finding.allocate size initial).1, (finding.allocate size initial).2⟩
  | retain h =>
    have result := finding.withTable (f := fun t => t.retain h) fun t => .bind (t.finds_lookup h) fun s _ => .pure _
    exact ⟨answered nofun result.1, result.2⟩
  | release h =>
    have result := finding.withTable (f := fun t => t.release h) fun t =>
      .bind (t.finds_lookup h) fun s _ => .ite (fun _ => .pure _) fun _ => .pure _
    exact ⟨answered nofun result.1, result.2⟩
  | refcount h =>
    refine ⟨answered nofun ?_, finding⟩
    cases x <;> exact .map (Table.finds_lookup _ h)
  | size h =>
    refine ⟨answered nofun ?_, finding⟩
    cases x <;> exact .map (Table.finds_lookup _ h)
  | live => exact ⟨nofun, finding⟩
  | execute exprs inputs outputs =>
    exact ⟨answered nofun (finding.execute exprs inputs outputs).1, (finding.execute exprs inputs outputs).2⟩
  | read h =>
    cases x with
    | host y => exact ⟨answered nofun (.map (y.table.finds_lookup h)), trivial⟩
    | deferred y =>
      have result : Finds ((Executor.deferred y).read h).1 ∧ ((Executor.deferred y).read h).2.Finding := by
        cases known : y.table.lookup h with
        | error f =>
          rw [Deferred.read_of_error known]
          exact ⟨.throw (y.table.finds_lookup h f known), finding⟩
        | ok s =>
          rw [Deferred.read_of_ok known]
          exact Deferred.Finding.readBuffer finding h s
      exact ⟨answered nofun result.1, result.2⟩
  | synchronize =>
    cases x with
    | host y => exact ⟨nofun, trivial⟩
    | deferred y =>
      have waited : Deferred.Finding { y with outstanding := [] } := ⟨finding.jobs, finding.outcomes⟩
      exact ⟨answered nofun (waited.awaitAll y.outstanding).1, (waited.awaitAll y.outstanding).2⟩
  | close =>
    cases x with
    | host y => exact ⟨nofun, trivial⟩
    | deferred y =>
      have done := Deferred.Finding.advance finding y.queue.length
      exact ⟨nofun, done.jobs, done.outcomes⟩

theorem finds_replay (finding : x.Finding) (turns : List Turn) : .failed .unbound ∉ (x.replay turns).1 := by
  induction turns generalizing x with
  | nil => exact nofun
  | cons turn turns inductionHypothesis =>
    cases turn with
    | worker =>
      refine inductionHypothesis ?_
      cases x with
      | host y => trivial
      | deferred y => exact Deferred.Finding.step finding
    | caller c =>
      obtain ⟨answer, later⟩ := finds_perform finding c
      exact List.not_mem_cons_of_ne_of_not_mem (Ne.symm answer) (inductionHypothesis later)

end Executor

/-! ## Every call -/

variable [Room]

/-- The expressions find all names that they look up, whatever buffers they are accepted for. -/
def BoundIfAccepted (exprs : List Expr) : Prop :=
  ∀ inputSizes outputSizes kernel, Kernel.plan exprs inputSizes outputSizes = .ok kernel → kernel.Bound

/-- A call of the host fails and leaves it as it was, or else every element that it writes is the value of its
    expression at its position over the contents before, whatever is computed beside it. The positions of an output may
    share their environment. For lack of a binding neither this call fails nor any evaluation of accepted expressions,
    on the host or on the accelerator, nor any command in whatever schedule. -/
theorem Host.execute_independent (x : Host) (exprs : List Expr) (inputs outputs : List HandleArgument) :
    x.executeSharing exprs inputs outputs = (Executor.host x).execute exprs inputs outputs
      ∧ ((∃ f, f ≠ .unbound ∧ (Executor.host x).execute exprs inputs outputs = (.error f, .host x))
        ∨ ∃ kernel ins outs y results, Executor.plan x.table exprs inputs outputs = .ok (kernel, ins, outs)
          ∧ (Executor.host x).execute exprs inputs outputs = (.ok (), .host y) ∧ x.Wrote y kernel ins outs results)
      ∧ BoundIfAccepted exprs
      ∧ ∀ turns owner device readback, .failed .unbound ∉ ((Executor.host x).replay turns).1
        ∧ .failed .unbound ∉ ((Executor.deferred (.fresh owner device readback)).replay turns).1 := by
  refine ⟨x.executeSharing_eq exprs inputs outputs, ?_, fun _ _ _ => Kernel.bound_of_plan, ?_⟩
  · obtain ⟨found, -⟩ := Executor.Finding.execute (x := .host x) trivial exprs inputs outputs
    cases planned : Executor.plan x.table exprs inputs outputs with
    | error f => exact .inl ⟨f, finds_plan _ _ _ _ f planned, execute_of_plan_failed planned⟩
    | ok plan =>
      obtain ⟨kernel, ins, outs⟩ := plan
      have executed := execute_of_plan planned
      cases computed : kernel.exprs.mapM fun e =>
          outputBytes e (kernel.buffers (ins.map fun b => b.2.content)) kernel.size with
      | error f =>
        rw [computed] at executed
        exact .inl ⟨f, found f (by rw [executed]), executed⟩
      | ok results =>
        rw [computed] at executed
        exact .inr ⟨kernel, ins, outs, _, results, rfl, executed, wrote_of_plan planned computed⟩
  · intro turns owner device readback
    exact ⟨Executor.finds_replay (x := .host x) trivial turns,
      Executor.finds_replay (x := .deferred (.fresh owner device readback)) (Deferred.Finding.fresh ..) turns⟩

end StridedArray
