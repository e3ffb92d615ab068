import StridedArray.Proofs.Executor.Commands

/-! # Where a deferred executor ends up

The worker runs jobs whenever it likes. What the executor looks like once the worker is through does not
depend on that, and callers can change everything but the queue without the worker noticing.

* `Job.Within`, `Job.run_push` — jobs work on the memory that is there and do not notice more of it;
* `Deferred.settled_advance`, `Deferred.outcome_awaited`, `Deferred.memory_advance` — progress changes neither
  the end, nor outcomes that are waited for, nor buffers that no job writes;
* `Deferred.eventual`, `Deferred.atOnce`, `Deferred.eventual_of_submit` — the end, and one job more;
* `Deferred.Ready` — every buffer waits for the last job that writes it; `Ready.memory_late` — after that wait
  it is as it is in the end. -/

namespace StridedArray

/-! ## Tables -/

namespace Table

variable {σ : Type}

theorem slot?_modifyContents (t : Table σ) (slots : List Nat) (content : σ) (n : Nat) :
    (slots.foldl (fun t slot => t.modifyContent slot fun _ => content) t).slot? n
      = (t.slot? n).map fun s => if n ∈ slots then { s with content := content } else s := by
  induction slots generalizing t with
  | nil => simp
  | cons slot slots inductionHypothesis =>
    rw [List.foldl_cons, inductionHypothesis, slot?_modifyContent, Option.map_map]
    congr 1
    funext s
    by_cases here : n = slot <;> by_cases there : n ∈ slots <;> simp [here, there]

theorem handle_inj {t : Table σ} {g h : Handle} {r s : Slot σ} (first : t.lookup g = .ok r)
    (second : t.lookup h = .ok s) (same : g.slot = h.slot) : g = h := by
  have owners := (owner_of_lookup first).trans (owner_of_lookup second).symm
  cases g
  cases h
  exact congrArg₂ Handle.mk owners same

theorem size_modifyContents (t : Table σ) (slots : List Nat) (content : σ) :
    (slots.foldl (fun t slot => t.modifyContent slot fun _ => content) t).slots.size = t.slots.size := by
  rw [← size_forget, forget_foldl slots (fun slot => slot) (fun _ _ => content), size_forget]

end Table

/-! ## Jobs -/

section Stores

variable {memory : Array Bytes} {writes : List (Nat × Bytes)}

def storeAll (writes : List (Nat × Bytes)) (memory : Array Bytes) : Array Bytes :=
  writes.foldl (fun memory write => memory.modify write.1 fun old => storeFront old write.2) memory

theorem size_storeAll (writes : List (Nat × Bytes)) (memory : Array Bytes) :
    (storeAll writes memory).size = memory.size := by
  induction writes generalizing memory with
  | nil => rfl
  | cons write writes inductionHypothesis =>
    exact (inductionHypothesis _).trans (Array.size_modify ..)

theorem getElem?_storeAll {n : Nat} (others : ∀ write ∈ writes, write.1 ≠ n) :
    (storeAll writes memory)[n]? = memory[n]? := by
  induction writes generalizing memory with
  | nil => rfl
  | cons write writes inductionHypothesis =>
    have rest := @inductionHypothesis (memory.modify write.1 fun old => storeFront old write.2)
      fun w member => others w (List.mem_cons_of_mem _ member)
    rw [Array.getElem?_modify, if_neg (others write (List.mem_cons_self ..))] at rest
    exact rest

theorem storeAll_push (bounds : ∀ write ∈ writes, write.1 < memory.size) (bytes : Bytes) :
    storeAll writes (memory.push bytes) = (storeAll writes memory).push bytes := by
  induction writes generalizing memory with
  | nil => rfl
  | cons write writes inductionHypothesis =>
    have bound := bounds write (List.mem_cons_self ..)
    have pushed : (memory.push bytes).modify write.1 (fun old => storeFront old write.2)
        = (memory.modify write.1 fun old => storeFront old write.2).push bytes := by
      apply Array.ext_getElem?
      intro n
      simp only [Array.getElem?_modify, Array.getElem?_push, Array.size_modify]
      by_cases same : write.1 = n
      · rw [if_pos same, if_neg (by omega), if_neg (by omega), if_pos same]
      · rw [if_neg same, if_neg same]
    show storeAll writes ((memory.push bytes).modify write.1 _) = _
    rw [pushed]
    exact inductionHypothesis fun w member => by
      rw [Array.size_modify]
      exact bounds w (List.mem_cons_of_mem _ member)

end Stores

namespace Job

variable {job : Job} {memory next : Array Bytes}

structure Within (job : Job) (count : Nat) : Prop where
  sources : ∀ source ∈ job.sources, source.2 < count
  targets : ∀ target ∈ job.targets, target < count

theorem Within.mono {count more : Nat} (within : job.Within count) (le : count ≤ more) : job.Within more :=
  ⟨fun source member => lt_of_lt_of_le (within.sources source member) le,
    fun target member => lt_of_lt_of_le (within.targets target member) le⟩

variable [Room]

theorem run_eq (job : Job) (memory : Array Bytes) :
    job.run memory = (fun results => storeAll (job.targets.zip results) memory)
      <$> job.kernel.exprs.mapM (job.outputBytes (job.buffers memory)) := by
  unfold run
  dsimp only
  cases job.kernel.exprs.mapM (job.outputBytes (job.buffers memory)) <;> rfl

theorem size_of_run (ran : job.run memory = .ok next) : next.size = memory.size := by
  rw [run_eq, map_eq_ok] at ran
  obtain ⟨results, _, rfl⟩ := ran
  exact size_storeAll _ _

theorem getElem?_of_run (ran : job.run memory = .ok next) {n : Nat} (other : n ∉ job.targets) :
    next[n]? = memory[n]? := by
  rw [run_eq, map_eq_ok] at ran
  obtain ⟨results, _, rfl⟩ := ran
  apply getElem?_storeAll
  rintro ⟨target, bytes⟩ member rfl
  exact other (List.of_mem_zip member).1

omit [Room] in
theorem buffers_push (within : job.Within memory.size) (bytes : Bytes) :
    job.buffers (memory.push bytes) = job.buffers memory := by
  have same : ∀ slot, ((job.sources.lookup slot).bind fun m => (memory.push bytes)[m]?)
      = (job.sources.lookup slot).bind fun m => memory[m]? := by
    intro slot
    cases found : job.sources.lookup slot with
    | none => rfl
    | some m =>
      have member : (slot, m) ∈ job.sources := by
        obtain ⟨before, after, split, _⟩ := List.lookup_eq_some_iff.1 found
        rw [split]
        simp
      have bound : m < memory.size := within.sources _ member
      simp [Array.getElem?_push, Nat.ne_of_lt bound]
  unfold buffers
  simp only [same]

theorem run_push (within : job.Within memory.size) (bytes : Bytes) :
    job.run (memory.push bytes) = (fun next => next.push bytes) <$> job.run memory := by
  rw [run_eq, run_eq, buffers_push within, Functor.map_map]
  congr 1
  funext results
  exact storeAll_push (fun write member => within.targets _ (List.of_mem_zip member).1) bytes

end Job

/-! ## What the worker leaves alone -/

namespace Deferred

variable {x y : Deferred} {job : Job}

variable [Room]

theorem outstanding_step (x : Deferred) : x.step.outstanding = x.outstanding := by
  unfold step
  split
  · rfl
  · split <;> rfl

theorem closed_step (x : Deferred) : x.step.closed = x.closed := by
  unfold step
  split
  · rfl
  · split <;> rfl

theorem outstanding_advance (x : Deferred) (n : Nat) : (x.advance n).outstanding = x.outstanding := by
  induction n generalizing x with
  | zero => rfl
  | succ n inductionHypothesis => rw [advance, inductionHypothesis, outstanding_step]

theorem closed_advance (x : Deferred) (n : Nat) : (x.advance n).closed = x.closed := by
  induction n generalizing x with
  | zero => rfl
  | succ n inductionHypothesis => rw [advance, inductionHypothesis, closed_step]

theorem step_of_idle (idle : x.queue = []) : x.step = x := by
  unfold step
  rw [idle]

theorem settled_step (x : Deferred) : x.step.settled = x.settled := by
  cases waiting : x.queue with
  | nil => rw [step_of_idle waiting]
  | cons job rest =>
    unfold settled
    rw [queue_step, waiting]
    rfl

theorem settled_advance (x : Deferred) (n : Nat) : (x.advance n).settled = x.settled := by
  induction n generalizing x with
  | zero => rfl
  | succ n inductionHypothesis => rw [advance, inductionHypothesis, settled_step]

theorem queue_settled (x : Deferred) : x.settled.queue = [] := by
  rw [settled, queue_advance, List.drop_length]

theorem getElem?_outcomes_step (x : Deferred) {n : Nat} (bound : n < x.outcomes.size) :
    x.step.outcomes[n]? = x.outcomes[n]? := by
  unfold step
  split
  · rfl
  · split <;> exact Array.getElem?_push_lt bound ▸ (Array.getElem?_eq_getElem bound).symm

theorem size_le_outcomes_step (x : Deferred) : x.outcomes.size ≤ x.step.outcomes.size := by
  have all := x.outcomes_step
  rw [queue_step, List.length_tail] at all
  omega

theorem getElem?_outcomes_advance (x : Deferred) (k : Nat) {n : Nat} (bound : n < x.outcomes.size) :
    (x.advance k).outcomes[n]? = x.outcomes[n]? := by
  induction k generalizing x with
  | zero => rfl
  | succ k inductionHypothesis =>
    rw [advance, inductionHypothesis _ (lt_of_lt_of_le bound x.size_le_outcomes_step),
      getElem?_outcomes_step x bound]

omit [Room] in
theorem succeeded_iff {n : Nat} : x.succeeded n = true ↔ x.outcomes[n]? = some none := by
  unfold succeeded
  split
  · next known => simp [known]
  · next other => simpa using other

theorem succeeded_advance {k n : Nat} (done : x.succeeded n = true) : (x.advance k).succeeded n = true := by
  rw [succeeded_iff] at done ⊢
  rw [getElem?_outcomes_advance x k (Array.getElem?_eq_some_iff.1 done).1, done]

theorem advance_of_idle (idle : x.queue = []) (k : Nat) : x.advance k = x := by
  induction k with
  | zero => rfl
  | succ k inductionHypothesis => rw [advance, step_of_idle idle, inductionHypothesis]

theorem advance_of_le {k : Nat} (through : x.queue.length ≤ k) : x.advance k = x.settled := by
  obtain ⟨more, rfl⟩ := Nat.exists_eq_add_of_le through
  rw [advance_add]
  exact advance_of_idle x.queue_settled more

/-- Whoever waits for a job learns how it ends. -/
theorem outcome_awaited (x : Deferred) (n : Nat) :
    (x.advance (n + 1 - x.outcomes.size)).outcomes[n]? = x.settled.outcomes[n]? := by
  -- Either the worker is through by then, or the job is done by then and its outcome is final.
  rcases Nat.le_total x.queue.length (n + 1 - x.outcomes.size) with through | before
  · rw [advance_of_le through]
  · have all := x.outcomes_advance (n + 1 - x.outcomes.size)
    rw [queue_advance, List.length_drop] at all
    have done : n < (x.advance (n + 1 - x.outcomes.size)).outcomes.size := by omega
    have last := getElem?_outcomes_advance _ (x.advance (n + 1 - x.outcomes.size)).queue.length done
    rw [← last]
    exact congrArg (fun y : Deferred => y.outcomes[n]?) (x.settled_advance _)

theorem verdict_reached (x : Deferred) (pending : Option Nat) :
    (x.reached pending).verdict pending = x.settled.verdict pending := by
  cases pending with
  | none => rfl
  | some job => exact congrArg Option.join (x.outcome_awaited job)

theorem length_queue_advance (x : Deferred) (k : Nat) : (x.advance k).queue.length ≤ x.queue.length := by
  rw [queue_advance, List.length_drop]
  exact Nat.sub_le _ _

theorem length_queue_reached (x : Deferred) (pending : Option Nat) :
    (x.reached pending).queue.length ≤ x.queue.length := by
  cases pending with
  | none => exact Nat.le_refl _
  | some job => exact x.length_queue_advance _

theorem settled_reached (x : Deferred) (pending : Option Nat) : (x.reached pending).settled = x.settled := by
  cases pending with
  | none => rfl
  | some job => exact x.settled_advance _

theorem readback_reached (x : Deferred) (pending : Option Nat) :
    (x.reached pending).readback = x.readback := by
  cases pending with
  | none => rfl
  | some job => exact x.readback_advance _

theorem await_settled (x : Deferred) (job : Nat) :
    x.await job = ((x.settled.verdict (some job)).elim (.ok ()) .error,
      x.advance (job + 1 - x.outcomes.size)) := by
  unfold await verdict
  dsimp only [Option.bind_some]
  rw [outcome_awaited]
  cases (x.settled.outcomes[job]?).join <;> rfl

/-- The worker does not touch what no job writes. -/
theorem memory_advance {n : Nat} (unwritten : ∀ job ∈ x.queue, n ∉ job.targets) (k : Nat) :
    (x.advance k).memory[n]? = x.memory[n]? := by
  induction k generalizing x with
  | zero => rfl
  | succ k inductionHypothesis =>
    rw [advance, inductionHypothesis fun job member =>
      unwritten job (List.mem_of_mem_tail (by rwa [queue_step] at member))]
    unfold step
    split
    · rfl
    · next job rest waiting =>
      split
      · next next ran =>
        exact Job.getElem?_of_run ran (unwritten job (waiting ▸ List.mem_cons_self ..))
      · rfl

theorem step_with (x : Deferred) (table : Table (Option Nat)) (outstanding : List Nat) (closed : Bool)
    (readback : Readback) :
    step { x with table := table, outstanding := outstanding, closed := closed, readback := readback }
      = { x.step with
          table := table, outstanding := outstanding, closed := closed, readback := readback } := by
  obtain ⟨_, memory, queue, _, _, _, _⟩ := x
  cases queue with
  | nil => rfl
  | cons job rest =>
    unfold step
    dsimp only
    cases job.run memory <;> rfl

theorem step_outstanding (x : Deferred) (outstanding : List Nat) :
    step { x with outstanding := outstanding } = { x.step with outstanding := outstanding } := by
  refine (x.step_with x.table outstanding x.closed x.readback).trans ?_
  rw [← x.table_step, ← x.closed_step, ← x.readback_step]

theorem advance_with (x : Deferred) (table : Table (Option Nat)) (outstanding : List Nat) (closed : Bool)
    (readback : Readback) (k : Nat) :
    { x with table := table, outstanding := outstanding, closed := closed, readback := readback }.advance k
      = { x.advance k with
          table := table, outstanding := outstanding, closed := closed, readback := readback } := by
  induction k generalizing x with
  | zero => rfl
  | succ k inductionHypothesis => rw [advance, advance, step_with, inductionHypothesis]

theorem advance_outstanding (x : Deferred) (outstanding : List Nat) (k : Nat) :
    { x with outstanding := outstanding }.advance k = { x.advance k with outstanding := outstanding } := by
  induction k generalizing x with
  | zero => rfl
  | succ k inductionHypothesis => rw [advance, advance, step_outstanding, inductionHypothesis]

theorem settled_outstanding (x : Deferred) (outstanding : List Nat) :
    { x with outstanding := outstanding }.settled = { x.settled with outstanding := outstanding } :=
  x.advance_outstanding outstanding _

theorem size_memory_step (x : Deferred) : x.step.memory.size = x.memory.size := by
  unfold step
  split
  · rfl
  · split
    · next ran => exact Job.size_of_run ran
    · rfl

theorem within_step (within : ∀ job ∈ x.queue, job.Within x.memory.size) :
    ∀ job ∈ x.step.queue, job.Within x.step.memory.size := by
  intro job member
  rw [queue_step] at member
  rw [size_memory_step]
  exact within job (List.mem_of_mem_tail member)

theorem step_push (within : ∀ job ∈ x.queue, job.Within x.memory.size) (bytes : Bytes) :
    step { x with memory := x.memory.push bytes } = { x.step with memory := x.step.memory.push bytes } := by
  obtain ⟨_, memory, queue, _, _, _, _⟩ := x
  cases queue with
  | nil => rfl
  | cons job rest =>
    have first := Job.run_push (within job (List.mem_cons_self ..)) bytes
    unfold step
    dsimp only at first ⊢
    rw [first]
    cases job.run memory <;> rfl

theorem advance_push {k : Nat} (within : ∀ job ∈ x.queue, job.Within x.memory.size) (bytes : Bytes) :
    { x with memory := x.memory.push bytes }.advance k
      = { x.advance k with memory := (x.advance k).memory.push bytes } := by
  induction k generalizing x with
  | zero => rfl
  | succ k inductionHypothesis =>
    rw [advance, advance, step_push within, inductionHypothesis (within_step within)]

/-! ## Where an executor ends up -/

/-- The executor once the worker is through, with nothing outstanding but failures. -/
def eventual (x : Deferred) : Deferred :=
  { x.settled with outstanding := x.outstanding.filter fun n => !x.settled.succeeded n }

/-- The executor after a job that is run while no other waits. -/
def alone (x : Deferred) (job : Job) : Deferred :=
  let table := job.targets.foldl (fun t slot => t.modifyContent slot fun _ => some x.outcomes.size) x.table
  step { x with queue := [job], table := table }

def atOnce (x : Deferred) (job : Job) : Deferred :=
  { x.alone job with
    outstanding := (x.outstanding ++ [x.outcomes.size]).filter fun n => !(x.alone job).succeeded n }

theorem table_eventual (x : Deferred) : x.eventual.table = x.table := x.table_advance _

theorem closed_eventual (x : Deferred) : x.eventual.closed = x.closed := x.closed_advance _

theorem readback_eventual (x : Deferred) : x.eventual.readback = x.readback := x.readback_advance _

omit [Room] in
theorem filter_unsucceeded {later : Nat → Bool} (keeps : ∀ n, x.succeeded n = true → later n = true)
    (jobs : List Nat) :
    (jobs.filter fun n => !x.succeeded n).filter (fun n => !later n) = jobs.filter fun n => !later n := by
  rw [List.filter_filter]
  apply List.filter_congr
  intro n _
  cases done : x.succeeded n with
  | false => simp
  | true => simp [keeps n done]

theorem eventual_advance (x : Deferred) (k : Nat) : (x.advance k).eventual = x.eventual := by
  unfold eventual
  rw [settled_advance, outstanding_advance]

theorem eventual_reached (x : Deferred) (pending : Option Nat) :
    (x.reached pending).eventual = x.eventual := by
  cases pending with
  | none => rfl
  | some job => exact x.eventual_advance _

theorem eventual_with (x : Deferred) (table : Table (Option Nat)) (closed : Bool) (readback : Readback) :
    { x with table := table, closed := closed, readback := readback }.eventual
      = { x.eventual with table := table, closed := closed, readback := readback } := by
  unfold eventual settled
  rw [x.advance_with table x.outstanding closed readback]
  rfl

theorem eventual_table (x : Deferred) (table : Table (Option Nat)) :
    { x with table := table }.eventual = { x.eventual with table := table } := by
  refine (x.eventual_with table x.closed x.readback).trans ?_
  rw [← x.closed_eventual, ← x.readback_eventual]

theorem eventual_closed (x : Deferred) (closed : Bool) :
    { x with closed := closed }.eventual = { x.eventual with closed := closed } := by
  refine (x.eventual_with x.table closed x.readback).trans ?_
  rw [← x.table_eventual, ← x.readback_eventual]

theorem eventual_readback (x : Deferred) (readback : Readback) :
    { x with readback := readback }.eventual = { x.eventual with readback := readback } := by
  refine (x.eventual_with x.table x.closed readback).trans ?_
  rw [← x.table_eventual, ← x.closed_eventual]

theorem eventual_push (within : ∀ job ∈ x.queue, job.Within x.memory.size) (table : Table (Option Nat))
    (bytes : Bytes) :
    { x with table := table, memory := x.memory.push bytes }.eventual
      = { x.eventual with table := table, memory := x.eventual.memory.push bytes } := by
  rw [eventual_table { x with memory := x.memory.push bytes }]
  unfold eventual settled
  rw [advance_push within]
  rfl

omit [Room] in
theorem submit_eq_ok : x.submit job = .ok y ↔ x.closed = false ∧ y = { x with
    queue := x.queue ++ [job]
    outstanding := x.outstanding.filter (fun n => !x.succeeded n) ++ [x.outcomes.size + x.queue.length]
    table := job.targets.foldl (fun t slot => t.modifyContent slot fun _ =>
      some (x.outcomes.size + x.queue.length)) x.table } := by
  unfold submit
  rw [refuse_eq_ok, pure_eq_ok, Bool.not_eq_true, eq_comm (b := y)]

theorem alone_outstanding (x : Deferred) (job : Job) (outstanding : List Nat) :
    { x with outstanding := outstanding }.alone job = { x.alone job with outstanding := outstanding } :=
  step_outstanding { x with queue := [job], table := _ } _

theorem settled_of_submit (submitted : x.submit job = .ok y) :
    y.settled = { x.settled.alone job with outstanding := y.outstanding } := by
  have last := (settled_submitted submitted).1
  obtain ⟨_, rfl⟩ := submit_eq_ok.1 submitted
  rw [last, ← alone_outstanding]
  unfold alone
  dsimp only
  rw [x.outcomes_settled, settled, x.table_advance]

/-- A job that waits ends like one that is run where it is handed over. -/
theorem eventual_of_submit (submitted : x.submit job = .ok y) : y.eventual = x.eventual.atOnce job := by
  have last := settled_of_submit submitted
  have succeeded : ∀ n, x.settled.succeeded n = true → (x.settled.alone job).succeeded n = true :=
    fun n done => @succeeded_advance { x.settled with queue := [job], table := _ } _ 1 n done
  -- Jobs that are dropped when this one is handed over would be dropped in the end as well.
  have outstanding : (y.outstanding.filter fun n => !(x.settled.alone job).succeeded n)
      = (x.eventual.outstanding ++ [x.settled.outcomes.size]).filter
        fun n => !(x.settled.alone job).succeeded n := by
    obtain ⟨_, rfl⟩ := submit_eq_ok.1 submitted
    rw [outcomes_settled, List.filter_append, List.filter_append]
    congr 1
    rw [filter_unsucceeded fun n done => succeeded n (succeeded_advance done)]
    exact (filter_unsucceeded succeeded x.outstanding).symm
  unfold eventual at outstanding ⊢
  unfold atOnce
  rw [alone_outstanding, last]
  exact congrArg (fun outstanding => { x.settled.alone job with outstanding := outstanding }) outstanding

/-! ## Executors that work as they should -/

/-- Jobs work on memory that is there, and every buffer waits for the last job that writes it. -/
structure Ready (x : Deferred) : Prop where
  size : x.memory.size = x.table.slots.size
  within : ∀ job ∈ x.queue, job.Within x.memory.size
  awaited : ∀ {n s}, x.table.slot? n = some s → ∀ {i job}, x.queue[i]? = some job →
    n ∈ job.targets → ∃ last, s.content = some last ∧ x.outcomes.size + i ≤ last
  begun : ∀ {n s}, x.table.slot? n = some s → ∀ {last}, s.content = some last →
    last < x.outcomes.size + x.queue.length

namespace Ready

omit [Room] in
theorem fresh (owner : Nat) (device : String) (readback : Readback) :
    (Deferred.fresh owner device readback).Ready where
  size := rfl
  within := fun _ member => absurd member List.not_mem_nil
  awaited := fun _ => by simp [Deferred.fresh]
  begun := fun known => by simp [Deferred.fresh, Table.slot?] at known

theorem step (ready : x.Ready) : x.step.Ready where
  size := by rw [size_memory_step, table_step]; exact ready.size
  within := within_step ready.within
  awaited := by
    intro n s known i job waiting target
    rw [table_step] at known
    rw [queue_step, List.getElem?_tail] at waiting
    obtain ⟨last, content, le⟩ := ready.awaited known waiting target
    have all := x.outcomes_step
    rw [queue_step, List.length_tail] at all
    have some_job := (List.getElem?_eq_some_iff.1 waiting).1
    exact ⟨last, content, by omega⟩
  begun := by
    intro n s known last content
    rw [table_step] at known
    rw [outcomes_step]
    exact ready.begun known content

theorem advance (ready : x.Ready) (k : Nat) : (x.advance k).Ready := by
  induction k generalizing x with
  | zero => exact ready
  | succ k inductionHypothesis => exact inductionHypothesis ready.step

theorem reached (ready : x.Ready) (pending : Option Nat) : (x.reached pending).Ready := by
  cases pending with
  | none => exact ready
  | some job => exact ready.advance _

omit [Room] in
theorem put (ready : x.Ready) {h : Handle} {s : Slot (Option Nat)} (known : x.table.lookup h = .ok s)
    {entry : Option (Slot (Option Nat))} (content : ∀ s', entry = some s' → s'.content = s.content) :
    Ready { x with table := x.table.put h.slot entry } := by
  have old : ∀ {n s'}, (x.table.put h.slot entry).slot? n = some s' →
      ∃ s, x.table.slot? n = some s ∧ s'.content = s.content := by
    intro n s' found
    by_cases same : n = h.slot
    · subst same
      rw [Table.slot?_put_same (Table.slot?_lt (Table.slot?_of_lookup known))] at found
      exact ⟨s, Table.slot?_of_lookup known, content s' found⟩
    · rw [Table.slot?_put_other same] at found
      exact ⟨s', found, rfl⟩
  refine ⟨by simpa [Table.put] using ready.size, ready.within, ?_, ?_⟩
  · intro n s' found
    obtain ⟨s, found, same⟩ := old found
    rw [same]
    exact ready.awaited found
  · intro n s' found
    obtain ⟨s, found, same⟩ := old found
    rw [same]
    exact ready.begun found

omit [Room] in
theorem push (ready : x.Ready) {table : Table (Option Nat)} {bytes : Bytes}
    (size : table.slots.size = x.table.slots.size + 1)
    (old : ∀ n s, table.slot? n = some s →
      x.table.slot? n = some s ∨ (n = x.table.slots.size ∧ s.content = none)) :
    Ready { x with table := table, memory := x.memory.push bytes } where
  size := by rw [Array.size_push, size, ready.size]
  within := fun job member => (ready.within job member).mono (by simp)
  awaited := by
    intro n s found i job waiting target
    have bound := (ready.within job (List.mem_of_getElem? waiting)).targets n target
    rw [ready.size] at bound
    rcases old n s found with found | ⟨last, _⟩
    · exact ready.awaited found waiting target
    · exact absurd last (Nat.ne_of_lt bound)
  begun := by
    intro n s found last content
    rcases old n s found with found | ⟨_, none⟩
    · exact ready.begun found content
    · rw [none] at content
      cases content

omit [Room] in
theorem submit (ready : x.Ready) (within : job.Within x.memory.size) (submitted : x.submit job = .ok y) :
    y.Ready := by
  obtain ⟨_, rfl⟩ := submit_eq_ok.1 submitted
  refine ⟨by rw [Table.size_modifyContents]; exact ready.size, ?_, ?_, ?_⟩
  · intro other member
    rcases List.mem_append.1 member with before | last
    · exact ready.within other before
    · rw [List.mem_singleton.1 last]
      exact within
  · intro n s known i other waiting target
    rw [Table.slot?_modifyContents, Option.map_eq_some_iff] at known
    obtain ⟨s, known, rfl⟩ := known
    have bound := (List.getElem?_eq_some_iff.1 waiting).1
    rw [List.length_append, List.length_singleton] at bound
    -- Outputs wait for the new job, which is behind all others; the rest is as before.
    by_cases written : n ∈ job.targets
    · exact ⟨x.outcomes.size + x.queue.length, by rw [if_pos written], by dsimp only; omega⟩
    · rw [if_neg written]
      rw [List.getElem?_append] at waiting
      split at waiting
      · exact ready.awaited known waiting target
      · obtain rfl := List.mem_singleton.1 (List.mem_of_getElem? waiting)
        exact absurd target written
  · intro n s known last content
    rw [Table.slot?_modifyContents, Option.map_eq_some_iff] at known
    obtain ⟨s, known, rfl⟩ := known
    rw [List.length_append, List.length_singleton]
    by_cases written : n ∈ job.targets
    · rw [if_pos written] at content
      cases content
      dsimp only
      omega
    · rw [if_neg written] at content
      have before := ready.begun known content
      dsimp only
      omega

/-- After waiting for it, a buffer stays as it is in the end, however far the worker gets meanwhile. -/
theorem memory_late (ready : x.Ready) {h : Handle} {s : Slot (Option Nat)} (known : x.table.lookup h = .ok s)
    (k : Nat) : ((x.reached s.content).advance k).memory[h.slot]? = x.settled.memory[h.slot]? := by
  have unwritten : ∀ job ∈ (x.reached s.content).queue, h.slot ∉ job.targets := by
    intro job member target
    obtain ⟨i, waiting⟩ := List.mem_iff_getElem?.1 member
    cases pending : s.content with
    | none =>
      rw [pending] at waiting
      obtain ⟨last, content, _⟩ := ready.awaited (Table.slot?_of_lookup known) waiting target
      rw [pending] at content
      cases content
    | some last =>
      rw [pending] at waiting
      have behind : x.queue[last + 1 - x.outcomes.size + i]? = some job := by
        rw [← List.getElem?_drop, ← queue_advance]
        exact waiting
      obtain ⟨last', content, le⟩ := ready.awaited (Table.slot?_of_lookup known) behind target
      rw [pending] at content
      cases content
      omega
  rw [memory_advance unwritten, ← x.settled_reached s.content, settled, memory_advance unwritten]

theorem memory_reached (ready : x.Ready) {h : Handle} {s : Slot (Option Nat)}
    (known : x.table.lookup h = .ok s) :
    (x.reached s.content).memory[h.slot]? = x.settled.memory[h.slot]? :=
  ready.memory_late known 0

end Ready

end Deferred

end StridedArray
