import StridedArray.Proofs.Executor.Worker

/-! # What a command does to the references

Whatever an executor holds, commands change the counts of its table in few ways: a slot is added, one
reference is added or taken away, or nothing happens.

* `Table.forget`, `Executor.counts` — a table without what its slots hold;
* `Command`, `Reply`, `Executor.perform` — a step of a caller, as a value; `Turn` — that, or progress of the
  worker;
* `Tally`, `Executor.tally_perform` — all that a command can do to the counts. -/

namespace StridedArray

/-! ## Tables without contents -/

def Slot.forget {σ : Type} (s : Slot σ) : Slot Unit := { s with content := () }

def Slot.retained {σ : Type} (s : Slot σ) : Option (Slot σ) :=
  some { s with refcount := s.refcount + 1 }

def Slot.released {σ : Type} (s : Slot σ) : Option (Slot σ) :=
  if s.refcount = 1 then none else some { s with refcount := s.refcount - 1 }

theorem Slot.retained_forget {σ : Type} (s : Slot σ) : s.retained.map Slot.forget = s.forget.retained := rfl

theorem Slot.released_forget {σ : Type} (s : Slot σ) : s.released.map Slot.forget = s.forget.released := by
  unfold Slot.released
  show _ = if s.refcount = 1 then _ else _
  split <;> rfl

namespace Table

variable {σ : Type} {t t' : Table σ} {h : Handle} {s : Slot σ}

theorem slot?_allocate_eq (t : Table σ) (size : Nat) (content : σ) (n : Nat) :
    (t.allocate size content).2.slot? n
      = if n = t.slots.size then some ⟨size, 1, content⟩ else t.slot? n := by
  unfold slot? allocate
  rw [Array.getElem?_push]
  split <;> rfl

theorem slot?_skip (t : Table σ) (n : Nat) : t.skip.slot? n = t.slot? n := by
  unfold slot? skip
  rw [Array.getElem?_push]
  split
  · next last => rw [last, Array.getElem?_eq_none (Nat.le_refl _)]; rfl
  · rfl

def forget (t : Table σ) : Table Unit :=
  { owner := t.owner, shown := t.shown, slots := t.slots.map fun entry => entry.map Slot.forget }

@[simp] theorem size_forget (t : Table σ) : t.forget.slots.size = t.slots.size := Array.size_map ..

theorem slot?_forget (t : Table σ) (n : Nat) : t.forget.slot? n = (t.slot? n).map Slot.forget := by
  unfold slot? forget
  rw [Array.getElem?_map]
  cases t.slots[n]? with
  | none => rfl
  | some entry => cases entry <;> rfl

theorem lookup_forget (t : Table σ) (h : Handle) : t.forget.lookup h = Slot.forget <$> t.lookup h := by
  unfold lookup
  rw [slot?_forget]
  show (if h.owner ≠ t.owner then _ else _) = _
  by_cases foreign : h.owner ≠ t.owner
  · rw [if_pos foreign, if_pos foreign]
    rfl
  · rw [if_neg foreign, if_neg foreign]
    cases t.slot? h.slot <;> rfl

theorem lookup_forget_ok (known : t.lookup h = .ok s) : t.forget.lookup h = .ok s.forget := by
  rw [lookup_forget, known]
  rfl

theorem lookup_forget_error {f : Failure} : t.forget.lookup h = .error f ↔ t.lookup h = .error f := by
  rw [lookup_forget]
  cases t.lookup h <;> simp [Functor.map, Except.map]

theorem forget_put (t : Table σ) (n : Nat) (entry : Option (Slot σ)) :
    (t.put n entry).forget = t.forget.put n (entry.map Slot.forget) := by
  unfold put forget
  rw [Array.map_setIfInBounds]

theorem forget_allocate (t : Table σ) (size : Nat) (content : σ) :
    (t.allocate size content).1 = (t.forget.allocate size ()).1
      ∧ (t.allocate size content).2.forget = (t.forget.allocate size ()).2 := by
  constructor
  · simp [allocate, forget]
  · simp [allocate, forget, Slot.forget]

theorem forget_skip (t : Table σ) : t.skip.forget = t.forget.skip := by
  simp [skip, forget]

theorem forget_modifyContent (t : Table σ) (n : Nat) (f : σ → σ) :
    (t.modifyContent n f).forget = t.forget := by
  unfold modifyContent
  cases known : t.slot? n with
  | none => rfl
  | some s =>
    have same : t.forget.slots[n]? = some (some s.forget) := by
      rw [← slot?_eq_some, slot?_forget, known]
      rfl
    obtain ⟨bound, entry⟩ := Array.getElem?_eq_some_iff.1 same
    show (t.put n _).forget = _
    rw [forget_put, put]
    show { t.forget with slots := t.forget.slots.setIfInBounds n (some s.forget) } = t.forget
    rw [← entry, Array.setIfInBounds_def, dif_pos bound, Array.set_getElem_self]

theorem forget_foldl {α : Type} (xs : List α) (place : α → Nat) (f : α → σ → σ) (t : Table σ) :
    (xs.foldl (fun t a => t.modifyContent (place a) (f a)) t).forget = t.forget := by
  induction xs generalizing t with
  | nil => rfl
  | cons a xs inductionHypothesis =>
    rw [List.foldl_cons, inductionHypothesis, forget_modifyContent]

theorem retain_eq (t : Table σ) (h : Handle) :
    t.retain h = (fun s => t.put h.slot s.retained) <$> t.lookup h := by
  unfold retain
  cases t.lookup h <;> rfl

theorem release_eq (t : Table σ) (h : Handle) :
    t.release h = (fun s => t.put h.slot s.released) <$> t.lookup h := by
  unfold release Slot.released
  cases t.lookup h with
  | error f => rfl
  | ok s =>
    show (if s.refcount = 1 then _ else _) = Except.ok (t.put h.slot (if s.refcount = 1 then _ else _))
    split <;> rfl

end Table

/-! ## Executors without contents -/

namespace Deferred

variable [Room]

theorem table_step (x : Deferred) : x.step.table = x.table := by
  unfold step
  split
  · rfl
  · split <;> rfl

theorem table_advance (x : Deferred) (n : Nat) : (x.advance n).table = x.table := by
  induction n generalizing x with
  | zero => rfl
  | succ n inductionHypothesis => rw [advance, inductionHypothesis, table_step]

theorem table_await (x : Deferred) (job : Nat) : (x.await job).2.table = x.table := by
  unfold await
  dsimp only
  split <;> exact table_advance ..

theorem table_awaitAll (jobs : List Nat) (x : Deferred) : (x.awaitAll jobs).2.table = x.table := by
  induction jobs generalizing x with
  | nil => rfl
  | cons job jobs inductionHypothesis =>
    have waited := x.table_await job
    unfold awaitAll
    split
    · next y known =>
      rw [known] at waited
      rw [inductionHypothesis]
      exact waited
    · exact waited

/-- The executor once the job is done that a buffer waits for. -/
def reached (x : Deferred) (pending : Option Nat) : Deferred :=
  pending.elim x fun job => x.advance (job + 1 - x.outcomes.size)

def verdict (x : Deferred) (pending : Option Nat) : Option Failure :=
  pending.bind fun job => (x.outcomes[job]?).join

variable {x : Deferred} {h : Handle} {s : Slot (Option Nat)}

theorem readBuffer_of_failed {f : Failure} (failed : (x.reached s.content).verdict s.content = some f) :
    x.readBuffer h s = (.error f, x.reached s.content) := by
  unfold readBuffer
  cases pending : s.content with
  | none =>
    rw [pending] at failed
    cases failed
  | some job =>
    rw [pending] at failed
    have outcome : ((x.advance (job + 1 - x.outcomes.size)).outcomes[job]?).join = some f := failed
    have waited : x.await job = (.error f, x.advance (job + 1 - x.outcomes.size)) := by
      unfold await
      simp only [outcome]
      rfl
    simp only [waited]
    rfl

theorem readBuffer_of_done (done : (x.reached s.content).verdict s.content = none) :
    x.readBuffer h s
      = (.ok ((x.reached s.content).readback.read ((x.reached s.content).memory[h.slot]?.getD #[])).1,
        { x.reached s.content with
          readback :=
            ((x.reached s.content).readback.read ((x.reached s.content).memory[h.slot]?.getD #[])).2 }) := by
  unfold readBuffer
  cases pending : s.content with
  | none => rfl
  | some job =>
    rw [pending] at done
    have outcome : ((x.advance (job + 1 - x.outcomes.size)).outcomes[job]?).join = none := done
    have waited : x.await job = (.ok (), x.advance (job + 1 - x.outcomes.size)) := by
      unfold await
      simp only [outcome]
      rfl
    simp only [waited]
    rfl

theorem table_reached (x : Deferred) (pending : Option Nat) : (x.reached pending).table = x.table := by
  cases pending with
  | none => rfl
  | some job => exact table_advance ..

theorem table_readBuffer (x : Deferred) (h : Handle) (s : Slot (Option Nat)) :
    (x.readBuffer h s).2.table = x.table := by
  cases outcome : (x.reached s.content).verdict s.content with
  | none => rw [readBuffer_of_done outcome]; exact x.table_reached _
  | some f => rw [readBuffer_of_failed outcome]; exact x.table_reached _

end Deferred

namespace Executor

/-- The table of an executor without what its slots hold. -/
def counts : Executor → Table Unit
  | host x => x.table.forget
  | deferred x => x.table.forget

theorem owner_counts (x : Executor) : x.counts.owner = x.owner := by cases x <;> rfl

theorem text_counts (x : Executor) : x.counts.shown = x.text := by cases x <;> rfl

theorem live_counts (x : Executor) : x.counts.live = x.live := by
  have each : ∀ {σ : Type} (t : Table σ), t.forget.live = t.live := by
    intro σ t
    unfold Table.live Table.forget
    rw [Array.toList_map, List.countP_map]
    congr 1
    funext entry
    cases entry <;> rfl
  cases x <;> exact each _

theorem refcount_counts (x : Executor) (h : Handle) : x.refcount h = x.counts.refcount h := by
  have each : ∀ {σ : Type} (t : Table σ), t.refcount h = t.forget.refcount h := by
    intro σ t
    unfold Table.refcount
    rw [Table.lookup_forget]
    cases t.lookup h <;> rfl
  cases x <;> exact each _

theorem size_counts (x : Executor) (h : Handle) : x.size h = x.counts.size h := by
  have each : ∀ {σ : Type} (t : Table σ), t.size h = t.forget.size h := by
    intro σ t
    unfold Table.size
    rw [Table.lookup_forget]
    cases t.lookup h <;> rfl
  cases x <;> exact each _

/-! ## Handles that are executed -/

/-- A plan is made if there is an output for every expression, the table knows all handles, and the buffers
    are fit for a kernel. -/
theorem plan_eq_ok {σ : Type} {t : Table σ} {exprs : List Expr} {inputs outputs : List HandleArgument}
    {kernel : Kernel} {ins outs : List (Handle × Slot σ)} :
    plan t exprs inputs outputs = .ok (kernel, ins, outs)
      ↔ exprs.length = outputs.length ∧ inputs.mapM t.resolve = .ok ins ∧ outputs.mapM t.resolve = .ok outs
        ∧ Kernel.plan exprs (ins.map fun b => b.2.size) (outs.map fun b => b.2.size) = .ok kernel := by
  unfold plan
  simp only [throw_bind, refuse_eq_ok, not_not, bind_eq_ok, pure_eq_ok, Prod.mk.injEq]
  refine and_congr_right fun _ => ⟨?_, ?_⟩
  · rintro ⟨_, first, _, second, _, planned, rfl, rfl, rfl⟩
    exact ⟨first, second, planned⟩
  · rintro ⟨first, second, planned⟩
    exact ⟨_, first, _, second, _, planned, rfl, rfl, rfl⟩

theorem lookup_of_plan {σ : Type} {t : Table σ} {exprs : List Expr} {inputs outputs : List HandleArgument}
    {kernel : Kernel} {ins outs : List (Handle × Slot σ)}
    (planned : plan t exprs inputs outputs = .ok (kernel, ins, outs)) :
    inputs.mapM t.resolve = .ok ins ∧ outputs.mapM t.resolve = .ok outs :=
  have accepted := plan_eq_ok.1 planned
  ⟨accepted.2.1, accepted.2.2.1⟩

theorem mem_of_mapM_resolve {σ : Type} {t : Table σ} {given : List HandleArgument}
    {found : List (Handle × Slot σ)} (resolved : given.mapM t.resolve = .ok found)
    {h : Handle} (member : .handle h ∈ given) : ∃ s, t.lookup h = .ok s ∧ (h, s) ∈ found := by
  obtain ⟨b, listed, one⟩ := mem_mapM_ok resolved member
  obtain ⟨g, same, s, known, rfl⟩ : ∃ g, HandleArgument.require (.handle h) = .ok g
      ∧ ∃ s, t.lookup g = .ok s ∧ (g, s) = b := by
    unfold Table.resolve at one
    simpa using one
  cases same
  exact ⟨s, known, listed⟩

theorem lookup_of_mapM_resolve {σ : Type} {t : Table σ} {given : List HandleArgument}
    {found : List (Handle × Slot σ)} (resolved : given.mapM t.resolve = .ok found) {b : Handle × Slot σ}
    (member : b ∈ found) : .handle b.1 ∈ given ∧ t.lookup b.1 = .ok b.2 := by
  obtain ⟨argument, given, one⟩ := mem_of_mapM_ok resolved member
  unfold Table.resolve at one
  cases argument with
  | other typeName => cases one
  | handle h =>
    obtain ⟨s, known, rfl⟩ : ∃ s, t.lookup h = .ok s ∧ (h, s) = b := by
      simpa [HandleArgument.require] using one
    exact ⟨given, known⟩

/-! ## What operations do to the counts -/

variable {x : Executor} {h : Handle}

/-- Counting a handle anew: its slot is replaced if it is in use, and otherwise nothing happens. -/
theorem withTable_counts (x : Executor) (h : Handle)
    {f : {σ : Type} → Table σ → Except Failure (Table σ)}
    {entry : {σ : Type} → Slot σ → Option (Slot σ)}
    (each : ∀ {σ : Type} (t : Table σ), f t = (fun s => t.put h.slot (entry s)) <$> t.lookup h)
    (blind : ∀ {σ : Type} (s : Slot σ), (entry s).map Slot.forget = entry s.forget) :
    (∃ s, x.counts.lookup h = .ok s ∧ (x.withTable f).1 = .ok ()
      ∧ (x.withTable f).2.counts = x.counts.put h.slot (entry s))
    ∨ ∃ e, x.counts.lookup h = .error e ∧ x.withTable f = (.error e, x) := by
  cases x with
  | host y =>
    unfold withTable counts
    simp only [each, Table.lookup_forget]
    cases y.table.lookup h with
    | error e => exact .inr ⟨e, rfl, rfl⟩
    | ok s => exact .inl ⟨s.forget, rfl, rfl, by rw [← blind]; exact Table.forget_put ..⟩
  | deferred y =>
    unfold withTable counts
    simp only [each, Table.lookup_forget]
    cases y.table.lookup h with
    | error e => exact .inr ⟨e, rfl, rfl⟩
    | ok s => exact .inl ⟨s.forget, rfl, rfl, by rw [← blind]; exact Table.forget_put ..⟩

theorem retain_counts (x : Executor) (h : Handle) :
    (∃ s, x.counts.lookup h = .ok s ∧ (x.retain h).1 = .ok ()
      ∧ (x.retain h).2.counts = x.counts.put h.slot s.retained)
    ∨ ∃ e, x.counts.lookup h = .error e ∧ x.retain h = (.error e, x) :=
  x.withTable_counts h (fun t => t.retain_eq h) Slot.retained_forget

theorem release_counts (x : Executor) (h : Handle) :
    (∃ s, x.counts.lookup h = .ok s ∧ (x.release h).1 = .ok ()
      ∧ (x.release h).2.counts = x.counts.put h.slot s.released)
    ∨ ∃ e, x.counts.lookup h = .error e ∧ x.release h = (.error e, x) :=
  x.withTable_counts h (fun t => t.release_eq h) Slot.released_forget

variable [Room]

theorem allocate_counts (x : Executor) (size : Int) (initial : Option Bytes) :
    (∃ bytes, (x.allocate size initial).1 = .ok (x.counts.allocate bytes ()).1
      ∧ (x.allocate size initial).2.counts = (x.counts.allocate bytes ()).2)
    ∨ (∃ f, (x.allocate size initial).1 = .error f
      ∧ ((x.allocate size initial).2.counts = x.counts
        ∨ (x.allocate size initial).2.counts = x.counts.skip)) := by
  unfold allocate
  split
  · refine .inr ⟨_, rfl, .inr ?_⟩
    cases x <;> exact Table.forget_skip _
  · cases initialBytes size initial with
    | error f => exact .inr ⟨f, rfl, .inl rfl⟩
    | ok bytes =>
      cases x with
      | host y =>
        obtain ⟨handle, counts⟩ := y.table.forget_allocate bytes.size bytes
        exact .inl ⟨bytes.size, congrArg Except.ok handle, counts⟩
      | deferred y =>
        obtain ⟨handle, counts⟩ := y.table.forget_allocate bytes.size none
        exact .inl ⟨bytes.size, congrArg Except.ok handle, counts⟩

theorem allocate_failed {size : Int} {initial : Option Bytes} {f : Failure}
    (failed : (x.allocate size initial).1 = .error f) :
    (x.allocate size initial).2 = x.skip ∨ (x.allocate size initial).2 = x := by
  unfold allocate at failed ⊢
  split
  · exact .inl rfl
  · next room =>
    rw [if_neg room] at failed
    cases bytes : initialBytes size initial with
    | error g => exact .inr rfl
    | ok content =>
      rw [bytes] at failed
      cases x <;> cases failed

omit [Room] in
theorem execute_failed {exprs : List Expr} {inputs outputs : List HandleArgument} {f : Failure}
    (failed : (x.execute exprs inputs outputs).1 = .error f) : (x.execute exprs inputs outputs).2 = x := by
  cases x with
  | host y =>
    unfold execute at failed ⊢
    dsimp only at failed ⊢
    split at failed
    · cases failed
    · rfl
  | deferred y =>
    unfold execute at failed ⊢
    dsimp only at failed ⊢
    split at failed
    · cases failed
    · rfl

theorem read_counts (x : Executor) (h : Handle) : (x.read h).2.counts = x.counts := by
  cases x with
  | host y => rfl
  | deferred y =>
    unfold read
    dsimp only
    split
    · rfl
    · next s _ => exact congrArg Table.forget (y.table_readBuffer h s)

omit [Room] in
theorem execute_counts (x : Executor) (exprs : List Expr) (inputs outputs : List HandleArgument) :
    (x.execute exprs inputs outputs).2.counts = x.counts := by
  cases x with
  | host y =>
    unfold execute
    dsimp only
    split
    · next z ran =>
      obtain ⟨⟨kernel, ins, outs⟩, _, ran⟩ := bind_eq_ok.1 ran
      -- Results are only stored into slots that are there.
      unfold Host.run at ran
      obtain ⟨results, _, stored⟩ := bind_eq_ok.1 ran
      cases stored
      exact Table.forget_foldl _ (fun w : Nat × Bytes => w.1) (fun w old => storeFront old w.2) _
    · rfl
  | deferred y =>
    unfold execute
    dsimp only
    split
    · next z ran =>
      obtain ⟨⟨kernel, ins, outs⟩, _, submitted⟩ := bind_eq_ok.1 ran
      -- Every output only notes the job that it waits for.
      unfold Deferred.submit at submitted
      rw [refuse_eq_ok, pure_eq_ok] at submitted
      rw [← submitted.2]
      exact Table.forget_foldl _ (fun slot : Nat => slot) (fun _ _ => some _) _
    · rfl

theorem synchronize_counts (x : Executor) : x.synchronize.2.counts = x.counts := by
  cases x with
  | host y => rfl
  | deferred y => exact congrArg Table.forget (Deferred.table_awaitAll _ _)

theorem close_counts (x : Executor) : x.close.2.counts = x.counts := by
  cases x with
  | host y => rfl
  | deferred y => exact congrArg Table.forget (Deferred.table_advance _ _)

end Executor

/-! ## Commands -/

inductive Command
  | allocate (size : Int) (initial : Option Bytes)
  | retain (h : Handle)
  | release (h : Handle)
  | refcount (h : Handle)
  | size (h : Handle)
  | live
  | execute (exprs : List Expr) (inputs outputs : List HandleArgument)
  | read (h : Handle)
  | synchronize
  | close

inductive Reply
  | handle (h : Handle)
  | number (n : Nat)
  | bytes (bytes : Bytes)
  | done
  | failed (f : Failure)

def Reply.of {α : Type} (good : α → Reply) : Except Failure α → Reply
  | .ok a => good a
  | .error f => .failed f

theorem Reply.of_failed {α : Type} {good : α → Reply} {answer : Except Failure α} {f : Failure}
    (good_ne : ∀ a, good a ≠ .failed f) (failed : Reply.of good answer = .failed f) : answer = .error f := by
  cases answer with
  | ok a => exact absurd failed (good_ne a)
  | error e =>
    cases failed
    rfl

namespace Executor

variable [Room]

def perform (x : Executor) : Command → Reply × Executor
  | .allocate size initial => (x.allocate size initial).map (Reply.of .handle) id
  | .retain h => (x.retain h).map (Reply.of fun _ => .done) id
  | .release h => (x.release h).map (Reply.of fun _ => .done) id
  | .refcount h => (Reply.of .number (x.refcount h), x)
  | .size h => (Reply.of .number (x.size h), x)
  | .live => (.number x.live, x)
  | .execute exprs inputs outputs => (x.execute exprs inputs outputs).map (Reply.of fun _ => .done) id
  | .read h => (x.read h).map (Reply.of .bytes) id
  | .synchronize => x.synchronize.map (Reply.of fun _ => .done) id
  | .close => x.close.map (Reply.of fun _ => .done) id

end Executor

/-- What happens to an executor: a caller asks for something, or the worker gets on. -/
inductive Turn
  | caller (c : Command)
  | worker

variable [Room]

def Executor.work : Executor → Executor
  | .host x => .host x
  | .deferred x => .deferred x.step

/-- All that a command can do to the counts of an executor, with its answer. -/
inductive Tally (t : Table Unit) : Command → Reply → Table Unit → Prop
  | allocated (size : Int) (initial : Option Bytes) (bytes : Nat) :
    Tally t (.allocate size initial) (.handle (t.allocate bytes ()).1) (t.allocate bytes ()).2
  | skipped (size : Int) (initial : Option Bytes) (f : Failure) :
    Tally t (.allocate size initial) (.failed f) t.skip
  | retained {h : Handle} {s : Slot Unit} (known : t.lookup h = .ok s) :
    Tally t (.retain h) .done (t.put h.slot s.retained)
  | released {h : Handle} {s : Slot Unit} (known : t.lookup h = .ok s) :
    Tally t (.release h) .done (t.put h.slot s.released)
  | failed (c : Command) (f : Failure) : Tally t c (.failed f) t
  | answered {c : Command} {r : Reply} (keeps : ∀ h, c ≠ .retain h ∧ c ≠ .release h ∧ r ≠ .handle h) :
    Tally t c r t

namespace Executor

omit [Room] in
theorem tally_of_counts {α : Type} {t t' : Table Unit} {c : Command} {good : α → Reply}
    (keeps : ∀ h, c ≠ .retain h ∧ c ≠ .release h ∧ ∀ a, good a ≠ .handle h) (same : t' = t)
    (answer : Except Failure α) : Tally t c (Reply.of good answer) t' := by
  subst same
  cases answer with
  | ok a => exact .answered fun h => ⟨(keeps h).1, (keeps h).2.1, (keeps h).2.2 a⟩
  | error f => exact .failed c f

theorem tally_perform (x : Executor) (c : Command) :
    Tally x.counts c (x.perform c).1 (x.perform c).2.counts := by
  cases c with
  | allocate size initial =>
    show Tally _ _ (Reply.of .handle (x.allocate size initial).1) (x.allocate size initial).2.counts
    rcases x.allocate_counts size initial with ⟨bytes, answer, counts⟩ | ⟨f, answer, counts | counts⟩
    · rw [answer, counts]
      exact .allocated size initial bytes
    · rw [answer, counts]
      exact .failed _ f
    · rw [answer, counts]
      exact .skipped size initial f
  | retain h =>
    show Tally _ _ (Reply.of (fun _ => .done) (x.retain h).1) (x.retain h).2.counts
    rcases x.retain_counts h with ⟨s, known, answer, counts⟩ | ⟨f, _, answer⟩
    · rw [answer, counts]
      exact .retained known
    · rw [answer]
      exact .failed _ f
  | release h =>
    show Tally _ _ (Reply.of (fun _ => .done) (x.release h).1) (x.release h).2.counts
    rcases x.release_counts h with ⟨s, known, answer, counts⟩ | ⟨f, _, answer⟩
    · rw [answer, counts]
      exact .released known
    · rw [answer]
      exact .failed _ f
  | refcount h => exact tally_of_counts (by simp) rfl _
  | size h => exact tally_of_counts (by simp) rfl _
  | live => exact @Tally.answered _ _ (.number x.live) (by simp)
  | execute exprs inputs outputs =>
    exact tally_of_counts (by simp) (x.execute_counts exprs inputs outputs) _
  | read h => exact tally_of_counts (by simp) (x.read_counts h) _
  | synchronize => exact tally_of_counts (by simp) x.synchronize_counts _
  | close => exact tally_of_counts (by simp) x.close_counts _

end Executor

end StridedArray
