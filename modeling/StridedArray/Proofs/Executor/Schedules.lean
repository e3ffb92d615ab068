import StridedArray.Proofs.Executor.Progress

/-! # The worker is not seen

Whenever the worker of a deferred executor runs its jobs, callers get the same answers: each command is
answered, and leads where it leads, as can be told from where the executor ends up without it.

* `Deferred.Foreseen`, `Deferred.foreseen` — this of every command;
* `Deferred.Steady`, `Deferred.FailsCleanly` — progress during a read, and kernels that fail;
* `Executor.replay`, `prompt` — whole schedules, and the one that runs every job at once;
* `Executor.replay_prompt` — all schedules are answered like that one. -/

namespace StridedArray

namespace Deferred

variable {x y : Deferred} {job : Job}

/-! ## What commands answer -/

variable [Room]

/-- A command is answered, and the executor ends up as said. One job waits more than before, at most. -/
def Yields (x : Deferred) (c : Command) (r : Reply) (last : Deferred) : Prop :=
  ∃ y, (Executor.deferred x).perform c = (r, .deferred y) ∧ y.Ready ∧ y.eventual = last
    ∧ y.queue.length ≤ x.queue.length + 1

/-- Answer and end of a command can be told from where the executor ends up without it. -/
def Foreseen (c : Command) : Prop :=
  ∃ (r : Deferred → Reply) (last : Deferred → Deferred),
    ∀ x : Deferred, x.Ready → x.Yields c (r x.eventual) (last x.eventual)

variable {c : Command}

theorem foreseen_of_table (r : Table (Option Nat) → Reply)
    (answer : ∀ x, (Executor.deferred x).perform c = (r x.table, .deferred x)) : Foreseen c :=
  ⟨fun e => r e.table, id, fun x ready =>
    ⟨x, (answer x).trans (by rw [← x.table_eventual]), ready, rfl, Nat.le_succ _⟩⟩

theorem foreseen_of_push (r : Table (Option Nat) → Reply) (next : Table (Option Nat) → Table (Option Nat))
    (bytes : Bytes) (size : ∀ t, (next t).slots.size = t.slots.size + 1)
    (old : ∀ t n s, (next t).slot? n = some s →
      t.slot? n = some s ∨ (n = t.slots.size ∧ s.content = none))
    (answer : ∀ x, (Executor.deferred x).perform c
      = (r x.table, .deferred { x with table := next x.table, memory := x.memory.push bytes })) :
    Foreseen c :=
  ⟨fun e => r e.table, fun e => { e with table := next e.table, memory := e.memory.push bytes },
    fun x ready => ⟨_, (answer x).trans (by rw [← x.table_eventual]),
      ready.push (size _) (old _),
      (eventual_push ready.within _ _).trans (by rw [← x.table_eventual]), Nat.le_succ _⟩⟩

theorem foreseen_allocate (size : Int) (initial : Option Bytes) : Foreseen (.allocate size initial) := by
  have unfolded : ∀ x, (Executor.deferred x).perform (.allocate size initial)
      = ((Executor.deferred x).allocate size initial).map (Reply.of .handle) id := fun _ => rfl
  unfold Executor.allocate at unfolded
  by_cases room : initial.isNone ∧ Room.limit ≤ size
  · simp only [if_pos room] at unfolded
    exact foreseen_of_push (fun _ => .failed (if fitsSigned 64 size then .refused else .operand))
      Table.skip #[] (fun t => by simp [Table.skip]) (fun t n s known => .inl (t.slot?_skip n ▸ known)) unfolded
  · simp only [if_neg room] at unfolded
    cases content : initialBytes size initial with
    | error f =>
      exact foreseen_of_table (fun _ => .failed f) fun x => (unfolded x).trans (by rw [content]; rfl)
    | ok bytes =>
      exact foreseen_of_push (fun t => .handle (t.allocate bytes.size none).1)
        (fun t => (t.allocate bytes.size none).2) bytes (fun t => by simp [Table.allocate])
        (fun t n s known => by
          rw [Table.slot?_allocate_eq] at known
          split at known
          · next last =>
            cases known
            exact .inr ⟨last, rfl⟩
          · exact .inl known)
        fun x => (unfolded x).trans (by rw [content]; rfl)

theorem foreseen_of_put {h : Handle} {f : {σ : Type} → Table σ → Except Failure (Table σ)}
    {entry : {σ : Type} → Slot σ → Option (Slot σ)}
    (each : ∀ {σ : Type} (t : Table σ), f t = (fun s => t.put h.slot (entry s)) <$> t.lookup h)
    (keeps : ∀ s s' : Slot (Option Nat), entry s = some s' → s'.content = s.content)
    (answer : ∀ x, (Executor.deferred x).perform c
      = ((Executor.deferred x).withTable f).map (Reply.of fun _ => .done) id) : Foreseen c := by
  refine ⟨fun e => Reply.of (fun _ => .done) (e.table.lookup h), fun e => match e.table.lookup h with
    | .ok s => { e with table := e.table.put h.slot (entry s) }
    | .error _ => e, fun x ready => ?_⟩
  dsimp only
  unfold Yields
  rw [answer]
  unfold Executor.withTable
  simp only [each, x.table_eventual]
  cases known : x.table.lookup h with
  | error e => exact ⟨x, rfl, ready, rfl, Nat.le_succ _⟩
  | ok s => exact ⟨_, rfl, ready.put known (keeps s), x.eventual_table _, Nat.le_succ _⟩

theorem foreseen_retain (h : Handle) : Foreseen (.retain h) :=
  foreseen_of_put (fun t => t.retain_eq h) (fun s s' same => by cases same; rfl) fun _ => rfl

theorem foreseen_release (h : Handle) : Foreseen (.release h) := by
  refine foreseen_of_put (fun t => t.release_eq h) (fun s s' same => ?_) fun _ => rfl
  unfold Slot.released at same
  split at same
  · cases same
  · cases same
    rfl

theorem read_of_error {h : Handle} {f : Failure} (unknown : x.table.lookup h = .error f) :
    (Executor.deferred x).read h = (.error f, .deferred x) := by
  unfold Executor.read
  simp only [unknown]
  rfl

theorem read_of_ok {h : Handle} {s : Slot (Option Nat)} (known : x.table.lookup h = .ok s) :
    (Executor.deferred x).read h = ((x.readBuffer h s).1, .deferred (x.readBuffer h s).2) := by
  unfold Executor.read
  simp only [known]

/-- A buffer is read once its last job is done, and stays as it is after that. -/
theorem Ready.readBuffer (ready : x.Ready) {h : Handle} {s : Slot (Option Nat)}
    (known : x.table.lookup h = .ok s) :
    ∃ y, y.Ready ∧ y.queue.length ≤ x.queue.length + 1
      ∧ ((∃ f, x.settled.verdict s.content = some f ∧ x.readBuffer h s = (.error f, y)
          ∧ y.eventual = x.eventual)
        ∨ (x.settled.verdict s.content = none
          ∧ x.readBuffer h s = (.ok (x.readback.read (x.settled.memory[h.slot]?.getD #[])).1, y)
          ∧ y.eventual = { x.eventual with
              readback := (x.readback.read (x.settled.memory[h.slot]?.getD #[])).2 })) := by
  have reached := ready.reached s.content
  have shorter := Nat.le_succ_of_le (x.length_queue_reached s.content)
  cases outcome : x.settled.verdict s.content with
  | some f =>
    exact ⟨_, reached, shorter, .inl ⟨f, rfl, readBuffer_of_failed ((x.verdict_reached _).trans outcome),
      x.eventual_reached _⟩⟩
  | none =>
    rw [readBuffer_of_done ((x.verdict_reached _).trans outcome), ready.memory_reached known,
      readback_reached]
    refine ⟨_, ?_, ?_, .inr ⟨rfl, rfl, ?_⟩⟩
    · exact ⟨reached.size, reached.within, reached.awaited, reached.begun⟩
    · exact shorter
    · rw [eventual_readback, eventual_reached]

theorem Ready.answer (ready : x.Ready) {h : Handle} {s : Slot (Option Nat)}
    (known : x.table.lookup h = .ok s) :
    ((Executor.deferred x).read h).1 = (x.settled.verdict s.content).elim
      (.ok (x.readback.read (x.settled.memory[h.slot]?.getD #[])).1) .error := by
  rw [read_of_ok known]
  obtain ⟨y, _, _, ⟨f, outcome, answer, _⟩ | ⟨outcome, answer, _⟩⟩ := ready.readBuffer known
  · rw [outcome, answer]
    rfl
  · rw [outcome, answer]
    rfl

theorem foreseen_read (h : Handle) : Foreseen (.read h) := by
  refine ⟨fun e => Reply.of .bytes (e.table.lookup h >>= fun s =>
      (e.verdict s.content).elim (.ok (e.readback.read (e.memory[h.slot]?.getD #[])).1) .error),
    fun e => (e.table.lookup h).toOption.elim e fun s =>
      (e.verdict s.content).elim { e with readback := (e.readback.read (e.memory[h.slot]?.getD #[])).2 }
        fun _ => e,
    fun x ready => ?_⟩
  have asked : (Executor.deferred x).perform (.read h)
      = ((Executor.deferred x).read h).map (Reply.of .bytes) id := rfl
  dsimp only
  unfold Yields
  rw [asked, x.table_eventual, x.readback_eventual]
  cases known : x.table.lookup h with
  | error f => exact ⟨x, by rw [read_of_error known]; rfl, ready, rfl, Nat.le_succ _⟩
  | ok s =>
    have same : x.eventual.verdict s.content = x.settled.verdict s.content := rfl
    rw [read_of_ok known, ok_bind, same]
    obtain ⟨y, fine, shorter, ⟨f, outcome, answer, last⟩ | ⟨outcome, answer, last⟩⟩ :=
      ready.readBuffer known
    · exact ⟨y, by rw [answer, outcome]; rfl, fine,
        last.trans (by simp [Except.toOption, same, outcome]), shorter⟩
    · refine ⟨y, by rw [answer, outcome]; rfl, fine, last.trans ?_, shorter⟩
      simp only [Except.toOption, Option.elim_some, same, outcome, Option.elim_none]
      rw [← x.table_eventual]
      rfl

omit [Room] in
theorem Ready.within_of_plan (ready : x.Ready) {exprs : List Expr} {inputs outputs : List HandleArgument}
    {kernel : Kernel} {ins outs : List (Handle × Slot (Option Nat))}
    (planned : Executor.plan x.table exprs inputs outputs = .ok (kernel, ins, outs)) :
    Job.Within ⟨kernel, Executor.sources kernel ins, outs.map fun b => b.1.slot⟩ x.memory.size := by
  obtain ⟨first, second⟩ := Executor.lookup_of_plan planned
  have bound : ∀ {h s}, x.table.lookup h = .ok s → h.slot < x.memory.size := fun known => by
    rw [ready.size]
    exact Table.slot?_lt (Table.slot?_of_lookup known)
  constructor
  · rintro ⟨slot, memory⟩ member
    unfold Executor.sources at member
    obtain ⟨⟨slot', kind⟩, _, same⟩ := List.mem_filterMap.1 member
    obtain ⟨memory', found, same⟩ := Option.map_eq_some_iff.1 same
    cases same
    unfold Shape.entry? at found
    obtain ⟨k, _, found⟩ := Option.bind_eq_some_iff.1 found
    obtain ⟨b, input, rfl⟩ := List.mem_map.1 (List.mem_of_getElem? found)
    exact bound (Executor.lookup_of_mapM_resolve first input).2
  · intro target member
    obtain ⟨b, output, rfl⟩ := List.mem_map.1 member
    exact bound (Executor.lookup_of_mapM_resolve second output).2

omit [Room] in
theorem execute_of_plan_error {exprs : List Expr} {inputs outputs : List HandleArgument} {f : Failure}
    (refused : Executor.plan x.table exprs inputs outputs = .error f) :
    (Executor.deferred x).execute exprs inputs outputs = (.error f, .deferred x) := by
  unfold Executor.execute
  simp only [refused]
  rfl

omit [Room] in
theorem execute_of_closed {exprs : List Expr} {inputs outputs : List HandleArgument}
    {plan : Kernel × List (Handle × Slot (Option Nat)) × List (Handle × Slot (Option Nat))}
    (planned : Executor.plan x.table exprs inputs outputs = .ok plan) (closed : x.closed = true) :
    (Executor.deferred x).execute exprs inputs outputs = (.error .refused, .deferred x) := by
  unfold Executor.execute submit
  simp only [planned, ok_bind, if_pos closed]
  rfl

/-- What an execution comes to: its work is refused, or the executor takes none any more, or a job more waits. -/
theorem execute_cases (x : Deferred) (exprs : List Expr) (inputs outputs : List HandleArgument) :
    (∃ f, Executor.plan x.table exprs inputs outputs = .error f
      ∧ (Executor.deferred x).execute exprs inputs outputs = (.error f, .deferred x))
    ∨ ∃ kernel ins outs, Executor.plan x.table exprs inputs outputs = .ok (kernel, ins, outs)
      ∧ (x.closed = true ∧ (Executor.deferred x).execute exprs inputs outputs = (.error .refused, .deferred x)
        ∨ x.closed = false ∧ ∃ y,
          x.submit ⟨kernel, Executor.sources kernel ins, outs.map fun b => b.1.slot⟩ = .ok y
          ∧ (Executor.deferred x).execute exprs inputs outputs = (.ok (), .deferred y)) := by
  cases planned : Executor.plan x.table exprs inputs outputs with
  | error f => exact .inl ⟨f, rfl, execute_of_plan_error planned⟩
  | ok plan =>
    obtain ⟨kernel, ins, outs⟩ := plan
    refine .inr ⟨kernel, ins, outs, rfl, ?_⟩
    cases opened : x.closed with
    | true => exact .inl ⟨rfl, execute_of_closed planned opened⟩
    | false =>
      obtain ⟨y, submitted, executed, -⟩ := execute_awaited opened planned
      exact .inr ⟨rfl, y, submitted, executed⟩

theorem foreseen_execute (exprs : List Expr) (inputs outputs : List HandleArgument) :
    Foreseen (.execute exprs inputs outputs) := by
  refine ⟨fun e => match Executor.plan e.table exprs inputs outputs with
    | .error f => .failed f
    | .ok _ => if e.closed then .failed .refused else .done,
    fun e => match Executor.plan e.table exprs inputs outputs with
    | .error _ => e
    | .ok (kernel, ins, outs) => if e.closed then e
      else e.atOnce ⟨kernel, Executor.sources kernel ins, outs.map fun b => b.1.slot⟩,
    fun x ready => ?_⟩
  have asked : (Executor.deferred x).perform (.execute exprs inputs outputs)
      = ((Executor.deferred x).execute exprs inputs outputs).map (Reply.of fun _ => .done) id := rfl
  dsimp only
  unfold Yields
  rw [asked, x.table_eventual, x.closed_eventual]
  rcases execute_cases x exprs inputs outputs with
    ⟨f, refused, failed⟩ | ⟨kernel, ins, outs, planned, ⟨closed, failed⟩ | ⟨opened, y, submitted, executed⟩⟩
  · rw [refused]
    exact ⟨x, by rw [failed]; rfl, ready, rfl, Nat.le_succ _⟩
  · simp only [planned, if_pos closed]
    exact ⟨x, by rw [failed]; rfl, ready, rfl, Nat.le_succ _⟩
  · simp only [planned, opened, Bool.false_eq_true, if_false]
    refine ⟨y, by rw [executed]; rfl, ready.submit (ready.within_of_plan planned) submitted,
      eventual_of_submit submitted, ?_⟩
    rw [(submit_eq_ok.1 submitted).2, List.length_append, List.length_singleton]

theorem awaitAll_eq (x : Deferred) (jobs : List Nat) : ∃ k, x.awaitAll jobs
    = ((jobs.findSome? fun n => x.settled.verdict (some n)).elim (.ok ()) .error, x.advance k) := by
  induction jobs generalizing x with
  | nil => exact ⟨0, rfl⟩
  | cons job jobs inductionHypothesis =>
    unfold awaitAll
    rw [await_settled, List.findSome?_cons]
    cases x.settled.verdict (some job) with
    | some f => exact ⟨_, rfl⟩
    | none =>
      obtain ⟨k, rest⟩ := inductionHypothesis (x.advance (job + 1 - x.outcomes.size))
      rw [settled_advance, ← advance_add] at rest
      exact ⟨_, rest⟩

omit [Room] in
theorem findSome?_unsucceeded (x : Deferred) (jobs : List Nat) :
    (jobs.filter fun n => !x.succeeded n).findSome? (fun n => x.verdict (some n))
      = jobs.findSome? fun n => x.verdict (some n) := by
  induction jobs with
  | nil => rfl
  | cons job jobs inductionHypothesis =>
    cases done : x.succeeded job with
    | false =>
      rw [List.filter_cons, if_pos (by simp [done]), List.findSome?_cons, List.findSome?_cons,
        inductionHypothesis]
    | true =>
      have fine : x.verdict (some job) = none := congrArg Option.join (succeeded_iff.1 done)
      simp [done, inductionHypothesis, fine]

/-- Whoever waits for everything learns of the first failure of what is outstanding. The list is emptied before
    the waiting starts, which makes no difference to the worker. -/
theorem perform_synchronize (x : Deferred) : ∃ k, (Executor.deferred x).perform .synchronize
    = (Reply.of (fun _ => .done)
        ((x.outstanding.findSome? fun n => x.settled.verdict (some n)).elim (.ok ()) .error),
      .deferred (advance { x with outstanding := [] } k)) := by
  obtain ⟨k, waited⟩ := awaitAll_eq { x with outstanding := [] } x.outstanding
  rw [settled_outstanding] at waited
  refine ⟨k, ?_⟩
  rw [Executor.perform, Executor.synchronize]
  dsimp only [synchronize]
  rw [waited]
  rfl

theorem foreseen_synchronize : Foreseen .synchronize := by
  refine ⟨fun e => Reply.of (fun _ => .done)
      ((e.outstanding.findSome? fun n => e.verdict (some n)).elim (.ok ()) .error),
    fun e => { e with outstanding := [] }, fun x ready => ?_⟩
  obtain ⟨k, asked⟩ := x.perform_synchronize
  have fine : Ready { x with outstanding := [] } := ⟨ready.size, ready.within, ready.awaited, ready.begun⟩
  refine ⟨_, asked.trans ?_, fine.advance k, ?_, ?_⟩
  · rw [← findSome?_unsucceeded]
    rfl
  · rw [eventual_advance]
    unfold eventual
    rw [settled_outstanding]
    rfl
  · exact Nat.le_succ_of_le (length_queue_advance { x with outstanding := [] } k)

theorem foreseen_close : Foreseen .close := by
  refine ⟨fun _ => .done, fun e => { e with closed := true }, fun x ready => ⟨_, rfl, ?_, ?_, ?_⟩⟩
  · have last := ready.advance x.queue.length
    exact ⟨last.size, last.within, last.awaited, last.begun⟩
  · exact (eventual_closed _ _).trans (by rw [eventual_advance])
  · exact Nat.le_succ_of_le (x.length_queue_advance _)

theorem foreseen (c : Command) : Foreseen c := by
  cases c with
  | allocate size initial => exact foreseen_allocate size initial
  | retain h => exact foreseen_retain h
  | release h => exact foreseen_release h
  | refcount h => exact foreseen_of_table (fun t => Reply.of .number (t.refcount h)) fun _ => rfl
  | size h => exact foreseen_of_table (fun t => Reply.of .number (t.size h)) fun _ => rfl
  | live => exact foreseen_of_table (fun t => .number t.live) fun _ => rfl
  | execute exprs inputs outputs => exact foreseen_execute exprs inputs outputs
  | read h => exact foreseen_read h
  | synchronize => exact foreseen_synchronize
  | close => exact foreseen_close

/-! ## Kernels that fail -/

/-- The worker may get as far as it likes between a wait and the copy of the buffer that was waited for. -/
def Steady (x : Deferred) : Prop :=
  ∀ h s, x.table.lookup h = .ok s → ∀ k,
    ((x.reached s.content).advance k).memory[h.slot]? = (x.reached s.content).memory[h.slot]?

/-- A kernel that fails changes no buffer: its failure is what is read of its outputs, and everything else
    is read as if it had not been there. -/
def FailsCleanly (x : Deferred) : Prop :=
  ∀ exprs inputs outputs y f, (Executor.deferred x).execute exprs inputs outputs = (.ok (), .deferred y) →
    y.settled.outcomes.back? = some (some f) →
    y.settled.memory = x.settled.memory
      ∧ ∀ h, (.handle h ∈ outputs → ((Executor.deferred y).read h).1 = .error f)
        ∧ (.handle h ∉ outputs → ((Executor.deferred y).read h).1 = ((Executor.deferred x).read h).1)

theorem Ready.steady (ready : x.Ready) : x.Steady := fun _ _ known k => by
  rw [ready.memory_late known, ready.memory_reached known]

omit [Room] in
theorem submit_of_execute {exprs : List Expr} {inputs outputs : List HandleArgument}
    (accepted : (Executor.deferred x).execute exprs inputs outputs = (.ok (), .deferred y)) :
    ∃ kernel ins outs, Executor.plan x.table exprs inputs outputs = .ok (kernel, ins, outs)
      ∧ x.submit ⟨kernel, Executor.sources kernel ins, outs.map fun b => b.1.slot⟩ = .ok y := by
  rcases execute_cases x exprs inputs outputs with
    ⟨f, -, failed⟩ | ⟨kernel, ins, outs, planned, ⟨-, failed⟩ | ⟨-, z, submitted, executed⟩⟩
  · rw [failed] at accepted
    cases accepted
  · rw [failed] at accepted
    cases accepted
  · rw [executed] at accepted
    cases accepted
    exact ⟨kernel, ins, outs, planned, submitted⟩

theorem settled_of_failed (submitted : x.submit job = .ok y) {f : Failure}
    (failed : y.settled.outcomes.back? = some (some f)) :
    y.settled.memory = x.settled.memory ∧ y.settled.outcomes = x.settled.outcomes.push (some f) := by
  rw [settled_of_submit submitted] at failed ⊢
  unfold alone step at failed ⊢
  dsimp only at failed ⊢
  cases ran : job.run x.settled.memory with
  | ok next =>
    rw [ran] at failed
    simp at failed
  | error g =>
    rw [ran] at failed
    obtain rfl : g = f := by simpa using failed
    exact ⟨rfl, rfl⟩

theorem Ready.failsCleanly (ready : x.Ready) : x.FailsCleanly := by
  intro exprs inputs outputs y f accepted failed
  obtain ⟨kernel, ins, outs, planned, submitted⟩ := submit_of_execute accepted
  obtain ⟨memory, outcomes⟩ := settled_of_failed submitted failed
  have fine := ready.submit (ready.within_of_plan planned) submitted
  have resolved := (Executor.lookup_of_plan planned).2
  have table := congrArg Deferred.table (submit_eq_ok.1 submitted).2
  have readback := congrArg Deferred.readback (submit_eq_ok.1 submitted).2
  have lookup := fun {h s} (known : x.table.lookup h = .ok s) => Table.lookup_modifyContents known
    (outs.map fun b => b.1.slot) (some (x.outcomes.size + x.queue.length))
  dsimp only at table readback
  rw [← table] at lookup
  refine ⟨memory, fun h => ⟨fun output => ?_, fun other => ?_⟩⟩
  · -- The output waits for the job that failed.
    obtain ⟨s, known, listed⟩ := Executor.mem_of_mapM_resolve resolved output
    rw [fine.answer (lookup known), if_pos (List.mem_map.2 ⟨_, listed, rfl⟩)]
    unfold verdict
    rw [outcomes, ← outcomes_settled, Option.bind_some, Array.getElem?_push_size]
    rfl
  · -- Any other handle finds the same slot, which waits for an older job.
    cases known : x.table.lookup h with
    | error e =>
      have unknown := Table.lookup_forget_error.2 known
      rw [← Table.forget_foldl (outs.map fun b => b.1.slot) (fun slot => slot)
        (fun _ _ => some (x.outcomes.size + x.queue.length)), ← table] at unknown
      rw [read_of_error known, read_of_error (Table.lookup_forget_error.1 unknown)]
    | ok s =>
      have unwritten : h.slot ∉ outs.map fun b => b.1.slot := by
        intro target
        obtain ⟨b, listed, same⟩ := List.mem_map.1 target
        obtain ⟨given, found⟩ := Executor.lookup_of_mapM_resolve resolved listed
        exact other (Table.handle_inj found known same ▸ given)
      have earlier : y.settled.verdict s.content = x.settled.verdict s.content := by
        cases pending : s.content with
        | none => rfl
        | some last =>
          have begun := ready.begun (Table.slot?_of_lookup known) pending
          rw [← outcomes_settled] at begun
          unfold verdict
          rw [outcomes, Option.bind_some, Array.getElem?_push_lt begun, Option.bind_some,
            Array.getElem?_eq_getElem begun]
      have found := lookup known
      rw [if_neg unwritten] at found
      rw [fine.answer found, ready.answer known, earlier, memory, readback]

end Deferred

/-! ## Schedules -/

def commands (turns : List Turn) : List Command :=
  turns.filterMap fun
    | .caller c => some c
    | .worker => none

/-- The schedule in which the worker follows every command, so that every job is run where it is handed
    over. -/
def prompt (cs : List Command) : List Turn := cs.flatMap fun c => [.caller c, .worker]

theorem commands_prompt (cs : List Command) : commands (prompt cs) = cs := by
  induction cs with
  | nil => rfl
  | cons c cs inductionHypothesis => exact congrArg (c :: ·) inductionHypothesis

namespace Executor

variable [Room]

def replay (x : Executor) : List Turn → List Reply × Executor
  | [] => ([], x)
  | .worker :: turns => x.work.replay turns
  | .caller c :: turns =>
    let (r, y) := x.perform c
    let (replies, z) := y.replay turns
    (r :: replies, z)

end Executor

variable [Room]

open Deferred in
/-- The answers to commands, and where they lead, can be told from where the executor ends up without them,
    whatever the schedule is. -/
theorem Deferred.foreseen_replay (cs : List Command) :
    ∃ (replies : Deferred → List Reply) (last : Deferred → Deferred),
      ∀ turns, commands turns = cs → ∀ x : Deferred, x.Ready →
        ∃ y, (Executor.deferred x).replay turns = (replies x.eventual, .deferred y)
          ∧ y.Ready ∧ y.eventual = last x.eventual := by
  -- By induction on the commands; between two of them the worker gets on without being noticed.
  induction cs with
  | nil =>
    refine ⟨fun _ => [], id, fun turns none => ?_⟩
    induction turns with
    | nil => exact fun x ready => ⟨x, rfl, ready, rfl⟩
    | cons turn turns inductionHypothesis =>
      cases turn with
      | caller c => cases none
      | worker =>
        intro x ready
        obtain ⟨y, went, fine, ends⟩ := inductionHypothesis none x.step ready.step
        exact ⟨y, went, fine, ends.trans (x.eventual_advance 1)⟩
  | cons c cs inductionHypothesis =>
    obtain ⟨replies, last, rest⟩ := inductionHypothesis
    obtain ⟨reply, next, first⟩ := foreseen c
    refine ⟨fun e => reply e :: replies (next e), fun e => last (next e), fun turns some => ?_⟩
    induction turns with
    | nil => cases some
    | cons turn turns inductionHypothesis =>
      intro x ready
      cases turn with
      | worker =>
        obtain ⟨y, went, fine, ends⟩ := inductionHypothesis some x.step ready.step
        rw [show x.step.eventual = x.eventual from x.eventual_advance 1] at went ends
        exact ⟨y, went, fine, ends⟩
      | caller d =>
        obtain ⟨rfl, later⟩ : d = c ∧ commands turns = cs := List.cons.inj some
        obtain ⟨y, answered, fine, ends, _⟩ := first x ready
        obtain ⟨z, went, good, last⟩ := rest turns later y fine
        rw [ends] at went last
        refine ⟨z, ?_, good, last⟩
        rw [Executor.replay, answered]
        dsimp only
        rw [went]

theorem Deferred.idle_of_prompt (cs : List Command) {x : Deferred} (ready : x.Ready) (idle : x.queue = []) :
    ∀ y, ((Executor.deferred x).replay (prompt cs)).2 = .deferred y → y.queue = [] := by
  induction cs generalizing x with
  | nil =>
    intro y same
    cases same
    exact idle
  | cons c cs inductionHypothesis =>
    obtain ⟨reply, next, first⟩ := foreseen c
    obtain ⟨y, answered, fine, _, longer⟩ := first x ready
    rw [idle, List.length_nil] at longer
    have none : y.step.queue = [] := by
      rw [queue_step, ← List.length_eq_zero_iff, List.length_tail]
      omega
    intro z same
    refine inductionHypothesis fine.step none z ?_
    rw [← same]
    show _ = (Executor.replay _ (.caller c :: .worker :: prompt cs)).2
    rw [Executor.replay, answered]
    rfl

/-- Whenever the worker runs its jobs, callers get the answers that they get if every job is run where it is
    handed over. Nor does it matter what the worker does while a buffer is read, and a kernel that fails
    changes no buffer. -/
theorem Executor.replay_prompt (owner : Nat) (device : String) (readback : Readback) (turns : List Turn) :
    ∃ replies x y,
      (Executor.deferred (.fresh owner device readback)).replay turns = (replies, .deferred x)
        ∧ (Executor.deferred (.fresh owner device readback)).replay (prompt (commands turns))
          = (replies, .deferred y)
        ∧ y.queue = [] ∧ x.Steady ∧ x.FailsCleanly := by
  have ready := Deferred.Ready.fresh owner device readback
  obtain ⟨replies, last, foreseen⟩ := Deferred.foreseen_replay (commands turns)
  obtain ⟨x, went, fine, _⟩ := foreseen turns rfl _ ready
  obtain ⟨y, went', _, _⟩ := foreseen _ (commands_prompt _) _ ready
  exact ⟨_, x, y, went, went', Deferred.idle_of_prompt _ ready rfl y (by rw [went']), fine.steady,
    fine.failsCleanly⟩

end StridedArray
