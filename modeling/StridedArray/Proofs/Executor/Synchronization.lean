import StridedArray.Proofs.Executor.Schedules

/-! # What waiting for all work reports

Whoever waits for all work of a deferred executor learns of the first kernel that failed since the wait
before. This does not depend on the worker: a kernel may be forgotten only once it has succeeded. Nothing is
said of later kernels that fail, and they are not waited for.

* `Handed`, `Report`, `Handed.reports` — kernels and waits, as callers can count them;
* `Deferred.Effect`, `Deferred.Ready.effect` — all that a command can do to the jobs;
* `Deferred.Tracks` — jobs are numbered as callers count them, and those not reported yet are outstanding or
  have succeeded; `Effect.tracks`, `Tracks.replay` — this after a command and after a schedule;
* `Executor.synchronize_firstFailure` — what every wait of a schedule answers;
* `Executor.synchronize_complete_iff` — when a wait leaves no work behind, and when no failure is lost. -/

namespace StridedArray

/-! ## Kernels and waits -/

/-- What a caller can count: the kernels that were accepted, and those before the last wait. -/
structure Handed where
  reported : Nat
  submitted : Nat
  ordered : reported ≤ submitted

/-- A wait for all work. The kernels from `first` to before `next` were accepted since the wait before. -/
structure Report where
  first : Nat
  next : Nat
  answer : Reply

namespace Handed

def nothing : Handed := ⟨0, 0, Nat.le_refl 0⟩

def after (h : Handed) : Command → Reply → Handed
  -- Kernels that are refused do not count. A wait is over for all kernels before it, whatever it answers.
  | .execute .., .done => ⟨h.reported, h.submitted + 1, Nat.le_succ_of_le h.ordered⟩
  | .synchronize, _ => ⟨h.submitted, h.submitted, Nat.le_refl _⟩
  | _, _ => h

def afterAll (h : Handed) (log : List (Command × Reply)) : Handed :=
  log.foldl (fun h entry => h.after entry.1 entry.2) h

def reports (h : Handed) : List (Command × Reply) → List Report
  | [] => []
  | (.synchronize, answer) :: log =>
    ⟨h.reported, h.submitted, answer⟩ :: (h.after .synchronize answer).reports log
  | (c, answer) :: log => (h.after c answer).reports log

end Handed

namespace Report

variable {r : Report} {n : Nat} {fate fate' : Nat → Option Failure}

def Covers (r : Report) (n : Nat) : Prop := r.first ≤ n ∧ n < r.next

def Earliest (r : Report) (fate : Nat → Option Failure) (n : Nat) : Prop :=
  r.Covers n ∧ fate n ≠ none ∧ ∀ m, r.Covers m → m < n → fate m = none

def Raises (r : Report) (fate : Nat → Option Failure) (n : Nat) : Prop :=
  r.Earliest fate n ∧ ∃ f, fate n = some f ∧ r.answer = .failed f

/-- The wait raises a failure just if one of the kernels fails, and then that of the earliest. -/
structure Faithful (r : Report) (fate : Nat → Option Failure) : Prop where
  failed : ∀ f, r.answer = .failed f ↔ ∃ n, r.Earliest fate n ∧ fate n = some f
  done : r.answer = .done ↔ ∀ n, r.Covers n → fate n = none

theorem earliest_congr (same : ∀ n < r.next, fate' n = fate n) : r.Earliest fate' n ↔ r.Earliest fate n := by
  unfold Earliest
  refine and_congr_right fun covered => ?_
  rw [same n covered.2]
  refine and_congr_right fun _ => forall_congr' fun m => imp_congr_right fun earlier => ?_
  rw [same m earlier.2]

theorem Faithful.congr (faithful : r.Faithful fate) (same : ∀ n < r.next, fate' n = fate n) :
    r.Faithful fate' where
  failed f := by
    rw [faithful.failed f]
    refine exists_congr fun n => ?_
    rw [earliest_congr same]
    exact and_congr_right fun first => by rw [same n first.1.2]
  done := by
    rw [faithful.done]
    exact forall_congr' fun n => imp_congr_right fun covered => by rw [same n covered.2]

/-- If any of the kernels fails, one of them is the first that does. -/
theorem exists_earliest (covered : r.Covers n) (fails : fate n ≠ none) : ∃ m, r.Earliest fate m := by
  classical
  have some_fails : ∃ n, r.Covers n ∧ fate n ≠ none := ⟨n, covered, fails⟩
  obtain ⟨inside, failed⟩ := Nat.find_spec some_fails
  refine ⟨Nat.find some_fails, inside, failed, fun m inside less => ?_⟩
  by_contra fails
  exact Nat.find_min some_fails less ⟨inside, fails⟩

theorem Earliest.unique {m : Nat} (first : r.Earliest fate n) (first' : r.Earliest fate m) : n = m := by
  rcases Nat.lt_trichotomy n m with less | same | less
  · exact absurd (first'.2.2 n first.1 less) first.2.1
  · exact same
  · exact absurd (first.2.2 m first'.1 less) first'.2.1

/-- A wait that answers with a failure just if there is a first one. -/
theorem Faithful.of_first {fails : Option Failure}
    (answer : r.answer = Reply.of (fun _ => .done) (fails.elim (.ok ()) .error))
    (first : ∀ f, fails = some f ↔ ∃ n, r.Earliest fate n ∧ fate n = some f) : r.Faithful fate := by
  cases fails with
  | none =>
    -- If any kernel failed, there would be a first one, and that would have been the answer.
    have fine : ∀ n, r.Covers n → fate n = none := fun n covered => by
      by_contra fails
      obtain ⟨m, earliest⟩ := exists_earliest covered fails
      obtain ⟨f, failed⟩ := Option.ne_none_iff_exists'.1 earliest.2.1
      exact absurd ((first f).2 ⟨m, earliest, failed⟩) (by simp)
    refine ⟨fun f => ?_, by simpa [answer, Reply.of] using fine⟩
    rw [answer, ← first f]
    simp [Reply.of]
  | some g =>
    obtain ⟨n, earliest, failed⟩ := (first g).1 rfl
    refine ⟨fun f => ?_, ?_⟩
    · rw [answer, ← first f]
      simp [Reply.of]
    · have late : ¬ ∀ m, r.Covers m → fate m = none := fun fine => earliest.2.1 (fine n earliest.1)
      simp [answer, Reply.of, late]

end Report

namespace Handed

variable {h : Handed} {log : List (Command × Reply)} {r : Report}

theorem mem_reports_cons {c : Command} {answer : Reply} :
    r ∈ h.reports ((c, answer) :: log)
      ↔ (c = .synchronize ∧ r = ⟨h.reported, h.submitted, answer⟩) ∨ r ∈ (h.after c answer).reports log := by
  cases c <;> simp [reports]

theorem reported_le_after (h : Handed) (c : Command) (answer : Reply) :
    h.reported ≤ (h.after c answer).reported := by
  unfold after
  split
  · exact Nat.le_refl _
  · exact h.ordered
  · exact Nat.le_refl _

theorem submitted_le_after (h : Handed) (c : Command) (answer : Reply) :
    h.submitted ≤ (h.after c answer).submitted := by
  unfold after
  split
  · exact Nat.le_succ _
  · exact Nat.le_refl _
  · exact Nat.le_refl _

theorem reported_le_afterAll (h : Handed) (log : List (Command × Reply)) :
    h.reported ≤ (h.afterAll log).reported := by
  induction log generalizing h with
  | nil => exact Nat.le_refl _
  | cons entry log inductionHypothesis => exact (h.reported_le_after ..).trans (inductionHypothesis _)

theorem reported_le_first (member : r ∈ h.reports log) : h.reported ≤ r.first := by
  induction log generalizing h with
  | nil => cases member
  | cons entry log inductionHypothesis =>
    rcases mem_reports_cons.1 member with ⟨_, rfl⟩ | later
    · exact Nat.le_refl _
    · exact (h.reported_le_after ..).trans (inductionHypothesis later)

theorem next_le_reported (member : r ∈ h.reports log) : r.next ≤ (h.afterAll log).reported := by
  induction log generalizing h with
  | nil => cases member
  | cons entry log inductionHypothesis =>
    rcases mem_reports_cons.1 member with ⟨waits, rfl⟩ | later
    · obtain ⟨c, answer⟩ := entry
      cases waits
      exact reported_le_afterAll (h.after .synchronize answer) log
    · exact inductionHypothesis later

theorem same_of_covers {r' : Report} {n : Nat} (member : r ∈ h.reports log) (member' : r' ∈ h.reports log)
    (covered : r.Covers n) (covered' : r'.Covers n) : r.first = r'.first ∧ r.next = r'.next := by
  induction log generalizing h with
  | nil => cases member
  | cons entry log inductionHypothesis =>
    obtain ⟨c, answer⟩ := entry
    -- The waits after a wait begin where it ends.
    have apart : ∀ {s : Report}, c = .synchronize → s ∈ (h.after c answer).reports log → s.Covers n →
        ¬ n < h.submitted := by
      rintro s rfl later inside
      exact Nat.not_lt.2 ((reported_le_first later).trans inside.1)
    rcases mem_reports_cons.1 member with ⟨waits, rfl⟩ | later <;>
      rcases mem_reports_cons.1 member' with ⟨waits', rfl⟩ | later'
    · exact ⟨rfl, rfl⟩
    · exact absurd covered.2 (apart waits later' covered')
    · exact absurd covered'.2 (apart waits' later covered)
    · exact inductionHypothesis later later'

theorem exists_report {n : Nat} (after : h.reported ≤ n) (before : n < (h.afterAll log).reported) :
    ∃ r ∈ h.reports log, r.Covers n := by
  induction log generalizing h with
  | nil => exact absurd before (Nat.not_lt.2 after)
  | cons entry log inductionHypothesis =>
    obtain ⟨c, answer⟩ := entry
    by_cases here : n < (h.after c answer).reported
    · -- Only a wait moves the count beyond a kernel.
      cases c with
      | synchronize => exact ⟨_, mem_reports_cons.2 (.inl ⟨rfl, rfl⟩), after, here⟩
      | execute => cases answer <;> exact absurd here (Nat.not_lt.2 after)
      | _ => exact absurd here (Nat.not_lt.2 after)
    · obtain ⟨r, member, covered⟩ := inductionHypothesis (Nat.not_lt.1 here) before
      exact ⟨r, mem_reports_cons.2 (.inr member), covered⟩

end Handed

/-! ## Jobs -/

namespace Deferred

variable {x y : Deferred} {job : Job} {c : Command} {answer : Reply} {h : Handed}

variable [Room]

/-- How a job fails once the worker runs it, if it does. -/
def fate (x : Deferred) (n : Nat) : Option Failure := x.settled.verdict (some n)

/-- Another executor has the same jobs, finished as many at least, and has as many to report. -/
structure Keeps (x y : Deferred) : Prop where
  outcomes : y.settled.outcomes = x.settled.outcomes
  finished : x.outcomes.size ≤ y.outcomes.size
  outstanding : y.outstanding = x.outstanding

/-- All that a command can do to the jobs of an executor. -/
inductive Effect (x : Deferred) : Command → Reply → Deferred → Prop
  | kept {c : Command} {answer : Reply} {y : Deferred} (other : c ≠ .synchronize)
      (uncounted : ∀ h : Handed, h.after c answer = h) (keeps : x.Keeps y) : Effect x c answer y
  | submitted {exprs : List Expr} {inputs outputs : List HandleArgument} {y : Deferred}
      {outcome : Option Failure} (outcomes : y.settled.outcomes = x.settled.outcomes.push outcome)
      (finished : y.outcomes = x.outcomes)
      (outstanding : y.outstanding
        = x.outstanding.filter (fun n => !x.succeeded n) ++ [x.settled.outcomes.size]) :
      Effect x (.execute exprs inputs outputs) .done y
  | synchronized {y : Deferred} (outcomes : y.settled.outcomes = x.settled.outcomes)
      (outstanding : y.outstanding = []) :
      Effect x .synchronize (Reply.of (fun _ => .done)
        ((x.outstanding.findSome? x.fate).elim (.ok ()) .error)) y

theorem fate_eq (x : Deferred) (n : Nat) : x.fate n = (x.settled.outcomes[n]?).join := rfl

theorem size_le_outcomes_advance (x : Deferred) (k : Nat) : x.outcomes.size ≤ (x.advance k).outcomes.size := by
  induction k generalizing x with
  | zero => exact Nat.le_refl _
  | succ k inductionHypothesis => exact x.size_le_outcomes_step.trans (inductionHypothesis _)

theorem succeeded_iff_fate {n : Nat} : x.succeeded n = true ↔ n < x.outcomes.size ∧ x.fate n = none := by
  rw [succeeded_iff, fate_eq]
  constructor
  · intro done
    have bound := (Array.getElem?_eq_some_iff.1 done).1
    exact ⟨bound, by rw [settled, getElem?_outcomes_advance x _ bound, done]; rfl⟩
  · rintro ⟨bound, fine⟩
    rw [settled, getElem?_outcomes_advance x _ bound, Array.getElem?_eq_getElem bound] at fine
    rw [Array.getElem?_eq_getElem bound]
    exact congrArg some fine

namespace Keeps

theorem refl (x : Deferred) : x.Keeps x := ⟨rfl, Nat.le_refl _, rfl⟩

theorem trans {z : Deferred} (first : x.Keeps y) (second : y.Keeps z) : x.Keeps z :=
  ⟨second.outcomes.trans first.outcomes, first.finished.trans second.finished,
    second.outstanding.trans first.outstanding⟩

theorem advance (x : Deferred) (k : Nat) : x.Keeps (x.advance k) :=
  ⟨by rw [settled_advance], x.size_le_outcomes_advance k, x.outstanding_advance k⟩

theorem reached (x : Deferred) (pending : Option Nat) : x.Keeps (x.reached pending) := by
  cases pending with
  | none => exact refl x
  | some job => exact advance x _

/-- Neither the table nor the readback makes a difference to the jobs, nor that no more are taken. -/
theorem relabel (x : Deferred) (table : Table (Option Nat)) (closed : Bool) (readback : Readback) :
    x.Keeps { x with table := table, closed := closed, readback := readback } where
  outcomes := by
    show Deferred.outcomes (eventual _) = x.eventual.outcomes
    rw [eventual_with]
  finished := Nat.le_refl _
  outstanding := rfl

theorem push (ready : x.Ready) (table : Table (Option Nat)) (bytes : Bytes) :
    x.Keeps { x with table := table, memory := x.memory.push bytes } where
  outcomes := by
    show Deferred.outcomes (eventual _) = x.eventual.outcomes
    rw [eventual_push ready.within]
  finished := Nat.le_refl _
  outstanding := rfl

end Keeps

theorem keeps_of_withTable (f : {σ : Type} → Table σ → Except Failure (Table σ))
    (changed : ((Executor.deferred x).withTable f).2 = .deferred y) : x.Keeps y := by
  unfold Executor.withTable at changed
  dsimp only at changed
  split at changed
  · cases changed
    exact .relabel x _ x.closed x.readback
  · cases changed
    exact .refl x

theorem Ready.keeps_of_allocate (ready : x.Ready) {size : Int} {initial : Option Bytes}
    (allocated : ((Executor.deferred x).allocate size initial).2 = .deferred y) : x.Keeps y := by
  unfold Executor.allocate at allocated
  split at allocated
  · cases allocated
    exact .push ready x.table.skip #[]
  · split at allocated
    · cases allocated
      exact .refl x
    · next bytes _ =>
      cases allocated
      exact .push ready _ bytes

theorem keeps_of_read {g : Handle} (copied : ((Executor.deferred x).read g).2 = .deferred y) : x.Keeps y := by
  cases known : x.table.lookup g with
  | error f =>
    rw [read_of_error known] at copied
    cases copied
    exact .refl x
  | ok s =>
    rw [read_of_ok known] at copied
    cases outcome : (x.reached s.content).verdict s.content with
    | some f =>
      rw [readBuffer_of_failed outcome] at copied
      cases copied
      exact .reached x _
    | none =>
      rw [readBuffer_of_done outcome] at copied
      cases copied
      exact (Keeps.reached x _).trans (.relabel _ _ _ _)

theorem effect_of_submit {exprs : List Expr} {inputs outputs : List HandleArgument}
    (submitted : x.submit job = .ok y) : x.Effect (.execute exprs inputs outputs) .done y := by
  -- The job runs on what the jobs before leave. However that ends, there is one outcome more.
  have pushed : ∃ outcome, (x.settled.alone job).outcomes = x.settled.outcomes.push outcome := by
    unfold alone step
    dsimp only
    cases job.run x.settled.memory with
    | ok memory => exact ⟨none, rfl⟩
    | error f => exact ⟨some f, rfl⟩
  obtain ⟨outcome, pushed⟩ := pushed
  have last := settled_of_submit submitted
  obtain ⟨_, rfl⟩ := submit_eq_ok.1 submitted
  exact .submitted (by rw [last]; exact pushed) rfl (by rw [outcomes_settled])

theorem effect_of_execute {exprs : List Expr} {inputs outputs : List HandleArgument}
    (performed : (Executor.deferred x).perform (.execute exprs inputs outputs) = (answer, .deferred y)) :
    x.Effect (.execute exprs inputs outputs) answer y := by
  have asked : (Executor.deferred x).perform (.execute exprs inputs outputs)
      = ((Executor.deferred x).execute exprs inputs outputs).map (Reply.of fun _ => .done) id := rfl
  rw [asked] at performed
  cases result : (Executor.deferred x).execute exprs inputs outputs with
  | mk outcome next =>
    rw [result] at performed
    cases performed
    cases outcome with
    | error f =>
      have same := Executor.execute_failed (congrArg Prod.fst result)
      rw [result] at same
      cases same
      exact .kept (by simp) (fun _ => rfl) (.refl x)
    | ok _ =>
      obtain ⟨kernel, ins, outs, _, submitted⟩ := submit_of_execute result
      exact effect_of_submit submitted

theorem effect_of_synchronize
    (performed : (Executor.deferred x).perform .synchronize = (answer, .deferred y)) :
    x.Effect .synchronize answer y := by
  obtain ⟨k, asked⟩ := x.perform_synchronize
  rw [asked] at performed
  cases performed
  refine .synchronized ?_ ?_
  · rw [settled_advance, settled_outstanding]
  · rw [outstanding_advance]

theorem Ready.effect (ready : x.Ready) (performed : (Executor.deferred x).perform c = (answer, .deferred y)) :
    x.Effect c answer y := by
  have led : ((Executor.deferred x).perform c).2 = .deferred y := congrArg Prod.snd performed
  cases c with
  | allocate size initial => exact .kept (by simp) (fun _ => rfl) (ready.keeps_of_allocate led)
  | retain h => exact .kept (by simp) (fun _ => rfl) (keeps_of_withTable (fun t => t.retain h) led)
  | release h => exact .kept (by simp) (fun _ => rfl) (keeps_of_withTable (fun t => t.release h) led)
  | refcount h =>
    cases led
    exact .kept (by simp) (fun _ => rfl) (.refl x)
  | size h =>
    cases led
    exact .kept (by simp) (fun _ => rfl) (.refl x)
  | live =>
    cases led
    exact .kept (by simp) (fun _ => rfl) (.refl x)
  | execute exprs inputs outputs => exact effect_of_execute performed
  | read g => exact .kept (by simp) (fun _ => rfl) (keeps_of_read led)
  | synchronize => exact effect_of_synchronize performed
  | close =>
    cases led
    exact .kept (by simp) (fun _ => rfl) ((Keeps.advance x _).trans (.relabel _ _ true _))

/-! ## What is outstanding -/

/-- Jobs are numbered as callers count them. Those that no wait has reported are outstanding, in order, or
    have succeeded. -/
structure Tracks (x : Deferred) (h : Handed) : Prop where
  submitted : x.settled.outcomes.size = h.submitted
  ordered : x.outstanding.Pairwise (· < ·)
  unreported : ∀ n ∈ x.outstanding, h.reported ≤ n ∧ n < h.submitted
  remembered : ∀ n, h.reported ≤ n → n < h.submitted → n ∈ x.outstanding ∨ x.succeeded n = true

variable {n : Nat} {f : Failure}

theorem Tracks.mem_outstanding (tracks : x.Tracks h) (after : h.reported ≤ n) (before : n < h.submitted)
    (fails : x.fate n ≠ none) : n ∈ x.outstanding :=
  (tracks.remembered n after before).resolve_right fun done => fails (succeeded_iff_fate.1 done).2

/-- Of the outstanding jobs the first that fails is the first one of all that are not reported. -/
theorem Tracks.first_iff (tracks : x.Tracks h) (answer : Reply) : x.outstanding.findSome? x.fate = some f
    ↔ ∃ n, (Report.mk h.reported h.submitted answer).Earliest x.fate n ∧ x.fate n = some f := by
  have earliest : ∀ {f}, x.outstanding.findSome? x.fate = some f →
      ∃ n, (Report.mk h.reported h.submitted answer).Earliest x.fate n ∧ x.fate n = some f := by
    intro f found
    obtain ⟨before, n, rest, split, failed, fine⟩ := List.findSome?_eq_some_iff.1 found
    have member : n ∈ x.outstanding := by simp [split]
    refine ⟨n, ⟨tracks.unreported n member, by simp [failed], fun m covered earlier => ?_⟩, failed⟩
    by_contra fails
    -- An earlier job that fails would be outstanding as well, and stand before this one.
    have listed := tracks.mem_outstanding covered.1 covered.2 fails
    have ordered := tracks.ordered
    rw [split] at listed ordered
    rcases List.mem_append.1 listed with first | last
    · exact fails (fine m first)
    · rcases List.mem_cons.1 last with rfl | later
      · exact Nat.lt_irrefl _ earlier
      · have less := (List.pairwise_cons.1 (List.pairwise_append.1 ordered).2.1).1 m later
        exact Nat.lt_asymm less earlier
  refine ⟨earliest, ?_⟩
  rintro ⟨n, first, failed⟩
  -- There is no other first failure than the one that is found.
  cases found : x.outstanding.findSome? x.fate with
  | none =>
    rw [List.findSome?_eq_none_iff] at found
    exact absurd (found n (tracks.mem_outstanding first.1.1 first.1.2 first.2.1)) first.2.1
  | some g =>
    obtain ⟨m, first', failed'⟩ := earliest found
    rw [← failed, ← failed', first.unique first']

namespace Tracks

theorem fresh (owner : Nat) (device : String) (readback : Readback) :
    (Deferred.fresh owner device readback).Tracks .nothing where
  submitted := rfl
  ordered := List.Pairwise.nil
  unreported := fun _ member => absurd member List.not_mem_nil
  remembered := fun n _ before => absurd before (Nat.not_lt_zero n)

theorem keep (tracks : x.Tracks h) (keeps : x.Keeps y) : y.Tracks h where
  submitted := by rw [keeps.outcomes, tracks.submitted]
  ordered := by rw [keeps.outstanding]; exact tracks.ordered
  unreported := by rw [keeps.outstanding]; exact tracks.unreported
  remembered := by
    intro n after before
    rw [keeps.outstanding, succeeded_iff_fate, fate_eq, keeps.outcomes]
    refine (tracks.remembered n after before).imp_right fun done => ?_
    obtain ⟨finished, fine⟩ := succeeded_iff_fate.1 done
    exact ⟨lt_of_lt_of_le finished keeps.finished, fine⟩

/-- One job more. A job is dropped from the list only once it has succeeded. -/
theorem submit (tracks : x.Tracks h) {outcome : Option Failure}
    (outcomes : y.settled.outcomes = x.settled.outcomes.push outcome) (finished : y.outcomes = x.outcomes)
    (outstanding : y.outstanding
      = x.outstanding.filter (fun n => !x.succeeded n) ++ [x.settled.outcomes.size]) :
    y.Tracks ⟨h.reported, h.submitted + 1, Nat.le_succ_of_le h.ordered⟩ := by
  have succeeded : ∀ n, y.succeeded n = x.succeeded n := fun n => by
    unfold Deferred.succeeded
    rw [finished]
  rw [tracks.submitted] at outstanding
  refine ⟨by rw [outcomes, Array.size_push, tracks.submitted], ?_, ?_, ?_⟩
  -- The new job has the highest number, and it comes last.
  · rw [outstanding, List.pairwise_append]
    refine ⟨tracks.ordered.filter _, List.pairwise_singleton .., fun m member n last => ?_⟩
    rw [List.mem_singleton.1 last]
    exact (tracks.unreported m (List.mem_of_mem_filter member)).2
  · intro n member
    rw [outstanding] at member
    rcases List.mem_append.1 member with before | last
    · have between := tracks.unreported n (List.mem_of_mem_filter before)
      exact ⟨between.1, Nat.lt_succ_of_lt between.2⟩
    · rw [List.mem_singleton.1 last]
      exact ⟨h.ordered, Nat.lt_succ_self _⟩
  · intro n after before
    rw [outstanding, succeeded]
    rcases Nat.lt_succ_iff_lt_or_eq.1 before with older | rfl
    · rcases tracks.remembered n after older with listed | done
      · cases done : x.succeeded n with
        | true => exact .inr rfl
        | false => exact .inl (List.mem_append_left _ (List.mem_filter.2 ⟨listed, by simp [done]⟩))
      · exact .inr done
    · exact .inl (List.mem_append_right _ (List.mem_singleton_self _))

theorem synchronize (tracks : x.Tracks h) (outcomes : y.settled.outcomes = x.settled.outcomes)
    (outstanding : y.outstanding = []) : y.Tracks ⟨h.submitted, h.submitted, Nat.le_refl _⟩ where
  submitted := by rw [outcomes, tracks.submitted]
  ordered := by rw [outstanding]; exact .nil
  unreported := by rw [outstanding]; exact fun n member => absurd member List.not_mem_nil
  remembered := fun n after before => absurd before (Nat.not_lt.2 after)

end Tracks

theorem Effect.fate (effect : x.Effect c answer y) (bound : n < x.settled.outcomes.size) :
    y.fate n = x.fate n := by
  rw [fate_eq, fate_eq]
  cases effect with
  | kept _ _ keeps => rw [keeps.outcomes]
  | submitted outcomes => rw [outcomes, Array.getElem?_push_lt bound, Array.getElem?_eq_getElem bound]
  | synchronized outcomes => rw [outcomes]

theorem Effect.tracks (effect : x.Effect c answer y) (tracks : x.Tracks h) : y.Tracks (h.after c answer) := by
  cases effect with
  | kept _ uncounted keeps =>
    rw [uncounted]
    exact tracks.keep keeps
  | submitted outcomes finished outstanding => exact tracks.submit outcomes finished outstanding
  | synchronized outcomes outstanding => exact tracks.synchronize outcomes outstanding

theorem Effect.faithful (effect : x.Effect c answer y) (tracks : x.Tracks h) (waits : c = .synchronize) :
    (Report.mk h.reported h.submitted answer).Faithful x.fate := by
  cases effect with
  | kept other => exact absurd waits other
  | submitted => cases waits
  | synchronized => exact .of_first rfl fun f => tracks.first_iff _

end Deferred

/-! ## Schedules -/

namespace Executor

variable [Room]

def log (x : Executor) (turns : List Turn) : List (Command × Reply) :=
  (commands turns).zip (x.replay turns).1

def handed (x : Executor) (turns : List Turn) : Handed := Handed.nothing.afterAll (x.log turns)

def reports (x : Executor) (turns : List Turn) : List Report := Handed.nothing.reports (x.log turns)

theorem log_caller (x : Executor) (c : Command) (turns : List Turn) :
    x.log (.caller c :: turns) = (c, (x.perform c).1) :: (x.perform c).2.log turns := rfl

theorem replay_caller (x : Executor) (c : Command) (turns : List Turn) :
    (x.replay (.caller c :: turns)).2 = ((x.perform c).2.replay turns).2 := rfl

end Executor

namespace Deferred

variable {x : Deferred} {h : Handed}

variable [Room]

/-- Whatever the schedule, all waits tell the truth, and what they have not told is remembered. -/
theorem Tracks.replay (turns : List Turn) (ready : x.Ready) (tracks : x.Tracks h) :
    ∃ y, ((Executor.deferred x).replay turns).2 = .deferred y ∧ y.Ready
      ∧ y.Tracks (h.afterAll ((Executor.deferred x).log turns))
      ∧ (∀ n < h.submitted, y.fate n = x.fate n)
      ∧ ∀ r ∈ h.reports ((Executor.deferred x).log turns), r.Faithful y.fate := by
  -- By induction on the schedule, for any jobs and waits before it.
  induction turns generalizing x h with
  | nil =>
    refine ⟨x, rfl, ready, tracks, fun _ _ => rfl, fun r member => ?_⟩
    cases member
  | cons turn turns inductionHypothesis =>
    cases turn with
    | worker =>
      obtain ⟨y, went, fine, last, fates, told⟩ :=
        inductionHypothesis ready.step (tracks.keep (Keeps.advance x 1))
      refine ⟨y, went, fine, last, fun n bound => ?_, told⟩
      rw [fates n bound, fate_eq, fate_eq, settled_step]
    | caller c =>
      obtain ⟨_, _, foreseen⟩ := foreseen c
      obtain ⟨z, performed, good, _⟩ := foreseen x ready
      have effect := ready.effect performed
      obtain ⟨y, went, fine, last, fates, told⟩ := inductionHypothesis good (effect.tracks tracks)
      have before : ∀ n < h.submitted, y.fate n = x.fate n := fun n bound => by
        rw [fates n (lt_of_lt_of_le bound (h.submitted_le_after ..)), effect.fate (by rwa [tracks.submitted])]
      rw [Executor.replay_caller, Executor.log_caller, performed]
      refine ⟨y, went, fine, last, before, fun r member => ?_⟩
      rcases Handed.mem_reports_cons.1 member with ⟨waits, rfl⟩ | later
      · exact (effect.faithful tracks waits).congr before
      · exact told r later

/-- Waiting for several jobs leaves no work behind just if the last job of all is one that is waited for. -/
theorem awaitAll_idle_iff {jobs : List Nat} (ordered : jobs.Pairwise (· < ·))
    (bounds : ∀ n ∈ jobs, n < x.settled.outcomes.size) : (x.awaitAll jobs).2.queue = []
      ↔ x.queue = [] ∨ ∃ n ∈ jobs, n + 1 = x.settled.outcomes.size ∧ ∀ m ∈ jobs, m < n → x.fate m = none := by
  induction jobs generalizing x with
  | nil => simp [awaitAll]
  | cons job jobs inductionHypothesis =>
    obtain ⟨later, ordered⟩ := List.pairwise_cons.1 ordered
    obtain ⟨bound, bounds⟩ := List.forall_mem_cons.1 bounds
    -- The worker gets past the first job, and as long as that one succeeds the caller goes on waiting.
    have waited : (x.advance (job + 1 - x.outcomes.size)).queue = []
        ↔ x.queue = [] ∨ job + 1 = x.settled.outcomes.size := by
      rw [outcomes_settled] at bound ⊢
      rw [queue_advance, List.drop_eq_nil_iff, ← List.length_eq_zero_iff]
      omega
    have none_before : ∀ m ∈ job :: jobs, m < job → x.fate m = none := fun m member less => by
      rcases List.mem_cons.1 member with rfl | member
      · exact absurd less (Nat.lt_irrefl m)
      · exact absurd (later m member) (Nat.lt_asymm less)
    unfold awaitAll
    rw [await_settled]
    cases outcome : x.settled.verdict (some job) with
    | some f =>
      refine waited.trans (or_congr_right ⟨fun last => ⟨job, List.mem_cons_self .., last, none_before⟩, ?_⟩)
      rintro ⟨n, member, last, fine⟩
      rcases List.mem_cons.1 member with rfl | member
      · exact last
      · have fails : x.fate job = some f := outcome
        rw [fine job (List.mem_cons_self ..) (later n member)] at fails
        cases fails
    | none =>
      refine (inductionHypothesis ordered (by rwa [settled_advance])).trans ?_
      have fates : ∀ n, (x.advance (job + 1 - x.outcomes.size)).fate n = x.fate n := fun n => by
        rw [fate_eq, fate_eq, settled_advance]
      simp only [waited, fates, settled_advance, or_assoc]
      refine or_congr_right ⟨?_, ?_⟩
      · rintro (last | ⟨n, member, last, fine⟩)
        · exact ⟨job, List.mem_cons_self .., last, none_before⟩
        · exact ⟨n, List.mem_cons_of_mem _ member, last,
            List.forall_mem_cons.2 ⟨fun _ => outcome, fine⟩⟩
      · rintro ⟨n, member, last, fine⟩
        rcases List.mem_cons.1 member with rfl | member
        · exact .inl last
        · exact .inr ⟨n, member, last, (List.forall_mem_cons.1 fine).2⟩

/-- A wait leaves no work behind if there was none, or if of the kernels that it is for all but the last one
    succeed. -/
theorem Tracks.idle_iff (tracks : x.Tracks h) : x.synchronize.2.queue = [] ↔ x.queue = []
    ∨ (h.reported < h.submitted ∧ ∀ n, h.reported ≤ n → n + 1 < h.submitted → x.fate n = none) := by
  have bounds : ∀ n ∈ x.outstanding, n < (settled { x with outstanding := [] }).outcomes.size :=
    fun n member => by
      rw [settled_outstanding]
      exact lt_of_lt_of_eq (tracks.unreported n member).2 tracks.submitted.symm
  have fates : ∀ n, fate { x with outstanding := [] } n = x.fate n := fun n => by
    rw [fate_eq, fate_eq, settled_outstanding]
  refine (awaitAll_idle_iff tracks.ordered bounds).trans ?_
  simp only [fates, settled_outstanding, tracks.submitted]
  by_cases idle : x.queue = []
  · simp [idle]
  · refine or_congr_right ⟨?_, ?_⟩
    · rintro ⟨n, member, final, fine⟩
      -- The last kernel of all is outstanding, and a failure before it would have been outstanding as well.
      obtain ⟨after, before⟩ := tracks.unreported n member
      refine ⟨lt_of_le_of_lt after before, fun m after before => ?_⟩
      by_contra fails
      exact fails (fine m (tracks.mem_outstanding after (by omega) fails) (by omega))
    · rintro ⟨some_left, fine⟩
      have final : h.submitted - 1 + 1 = h.submitted := by omega
      refine ⟨h.submitted - 1, ?_, final, fun m member less => ?_⟩
      · -- The last kernel of all has not succeeded yet, since there is work left.
        refine (tracks.remembered _ (by omega) (by omega)).resolve_right fun done => idle ?_
        have finished := (succeeded_iff_fate.1 done).1
        have all := x.outcomes_settled
        rw [tracks.submitted] at all
        exact List.length_eq_zero_iff.1 (by omega)
      · exact fine m (tracks.unreported m member).1 (by omega)

theorem outcomes_prompt (turns : List Turn) (ready : x.Ready) (idle : x.queue = []) :
    ∃ y z, ((Executor.deferred x).replay turns).2 = .deferred y
      ∧ ((Executor.deferred x).replay (prompt (commands turns))).2 = .deferred z
      ∧ z.queue = [] ∧ z.outcomes = y.settled.outcomes := by
  -- Both schedules lead to the same end, and the one that runs every job at once is there already.
  obtain ⟨replies, last, foreseen⟩ := foreseen_replay (commands turns)
  obtain ⟨y, went, _, ends⟩ := foreseen turns rfl x ready
  obtain ⟨z, promptly, _, sameEnds⟩ := foreseen (prompt (commands turns)) (commands_prompt _) x ready
  have through := idle_of_prompt (commands turns) ready idle z (congrArg Prod.snd promptly)
  refine ⟨y, z, congrArg Prod.snd went, congrArg Prod.snd promptly, through, ?_⟩
  have settled : z.settled = z := advance_of_idle through _
  calc z.outcomes = z.eventual.outcomes := by rw [eventual, settled]
    _ = y.eventual.outcomes := by rw [sameEnds, ends]

end Deferred

namespace Executor

def started (owner : Nat) (device : String) (readback : Readback) : Executor :=
  .deferred (.fresh owner device readback)

section Waits

variable [Room] (owner : Nat) (device : String) (readback : Readback) (turns : List Turn)

/-- Whatever the schedule, a wait for all work raises a failure just if some kernel that was accepted since
    the wait before fails, and then it raises that of the earliest one. A kernel fails if it does so in the
    schedule that runs every kernel where it is handed over. What has not been reported is never forgotten. -/
theorem synchronize_firstFailure : ∃ y z,
    ((started owner device readback).replay turns).2 = .deferred y
      ∧ ((started owner device readback).replay (prompt (commands turns))).2 = .deferred z
      ∧ z.queue = [] ∧ z.outcomes.size = ((started owner device readback).handed turns).submitted
      ∧ (∀ n, y.fate n = (z.outcomes[n]?).join)
      ∧ (∀ r ∈ (started owner device readback).reports turns, r.Faithful y.fate)
      ∧ ∀ n, ((started owner device readback).handed turns).reported ≤ n → y.fate n ≠ none →
          n ∈ y.outstanding := by
  have ready := Deferred.Ready.fresh owner device readback
  obtain ⟨y, went, _, tracks, _, told⟩ := (Deferred.Tracks.fresh owner device readback).replay turns ready
  obtain ⟨y', z, went', promptly, through, outcomes⟩ := Deferred.outcomes_prompt turns ready rfl
  obtain rfl : y = y' := Executor.deferred.inj (went.symm.trans went')
  refine ⟨y, z, went, promptly, through, outcomes ▸ tracks.submitted, ?_, told, fun n after fails => ?_⟩
  · intro n
    rw [Deferred.fate_eq, outcomes]
  · have before : n < y.settled.outcomes.size := by
      by_contra beyond
      rw [Deferred.fate_eq, Array.getElem?_eq_none (Nat.not_lt.1 beyond)] at fails
      exact fails rfl
    exact tracks.mem_outstanding after (tracks.submitted ▸ before) fails

/-- Whatever the schedule, a wait for all work leaves some behind unless there was none, or it is for kernels
    of which all but the last one succeed. The failures of all kernels before the last wait have been raised
    just if no two kernels fail between two waits. -/
theorem synchronize_complete_iff : ∃ y,
    ((started owner device readback).replay turns).2 = .deferred y
      ∧ (∃ z, ((Executor.deferred y).perform .synchronize).2 = .deferred z
        ∧ (z.queue = [] ↔ y.queue = []
          ∨ (((started owner device readback).handed turns).reported
              < ((started owner device readback).handed turns).submitted
            ∧ ∀ n, ((started owner device readback).handed turns).reported ≤ n →
                n + 1 < ((started owner device readback).handed turns).submitted → y.fate n = none)))
      ∧ ((∀ n < ((started owner device readback).handed turns).reported, y.fate n ≠ none →
            ∃ r ∈ (started owner device readback).reports turns, r.Raises y.fate n)
          ↔ ∀ r ∈ (started owner device readback).reports turns, ∀ m n, r.Covers m → r.Covers n →
              y.fate m ≠ none → y.fate n ≠ none → m = n) := by
  have ready := Deferred.Ready.fresh owner device readback
  obtain ⟨y, went, _, tracks, _, told⟩ := (Deferred.Tracks.fresh owner device readback).replay turns ready
  refine ⟨y, went, ⟨y.synchronize.2, rfl, tracks.idle_iff⟩, ?_, fun single n before fails => ?_⟩
  · intro raised r member m n coveredM coveredN failsM failsN
    -- Both failures are raised, and by this wait, so that each of the two is the first one.
    have first : ∀ {k}, r.Covers k → y.fate k ≠ none → r.Earliest y.fate k := by
      intro k covered fails
      obtain ⟨r', member', earliest, _⟩ :=
        raised k (lt_of_lt_of_le covered.2 (Handed.next_le_reported member)) fails
      obtain ⟨sameFirst, sameNext⟩ := Handed.same_of_covers member member' covered earliest.1
      refine ⟨covered, fails, fun m inside => earliest.2.2 m ⟨?_, ?_⟩⟩
      · exact sameFirst ▸ inside.1
      · exact sameNext ▸ inside.2
    exact (first coveredM failsM).unique (first coveredN failsN)
  · -- The wait that the kernel comes before raises its first failure, and it has no other.
    obtain ⟨r, member, covered⟩ := Handed.exists_report (Nat.zero_le n) before
    obtain ⟨m, earliest⟩ := Report.exists_earliest covered fails
    obtain rfl : m = n := single r member m n earliest.1 covered earliest.2.1 fails
    obtain ⟨f, failed⟩ := Option.ne_none_iff_exists'.1 fails
    exact ⟨r, member, earliest, f, failed, ((told r member).failed f).2 ⟨m, earliest, failed⟩⟩

end Waits

/-- Two kernels without a sensible number of positions are accepted, and two waits follow. The worker runs only
    what is waited for. -/
def twoFailures : List Turn :=
  let senseless (output : Nat) : Command := .execute [.outputPosition (-1)] [] [.handle ⟨0, output⟩]
  [.caller (.allocate 4 none), .caller (.allocate 4 none), .caller (senseless 0), .caller (senseless 1),
    .caller .synchronize, .caller .synchronize]

/-- The failure of the second kernel is never raised, and even after a third wait it is unfinished. -/
theorem synchronize_complete_iff_twoFailures : ∃ y,
    ((started 0 "cpu" .mapped).replay twoFailures).2 = .deferred y
      ∧ (∃ z, ((Executor.deferred y).perform .synchronize).2 = .deferred z ∧ z.queue ≠ [])
      ∧ ∃ n < ((started 0 "cpu" .mapped).handed twoFailures).reported, y.fate n ≠ none
        ∧ ∀ r ∈ (started 0 "cpu" .mapped).reports twoFailures, ¬ r.Raises y.fate n := by
  obtain ⟨y, went, ⟨z, waited, idle⟩, raised⟩ := synchronize_complete_iff 0 "cpu" .mapped twoFailures
  have ends : (match ((started 0 "cpu" .mapped).replay twoFailures).2 with
      | .deferred y => y.queue.length == 1 && (y.fate 0).isSome && (y.fate 1).isSome
      | .host _ => false) = true := by decide +kernel
  have counts : ((started 0 "cpu" .mapped).handed twoFailures).reported = 2
      ∧ ((started 0 "cpu" .mapped).handed twoFailures).submitted = 2 := by decide +kernel
  have waits : ((started 0 "cpu" .mapped).reports twoFailures).map (fun r => (r.first, r.next))
      = [(0, 2), (2, 2)] := by decide +kernel
  rw [went] at ends
  simp only [Bool.and_eq_true, beq_iff_eq, Option.isSome_iff_ne_none] at ends
  obtain ⟨⟨waiting, first⟩, second⟩ := ends
  refine ⟨y, went, ⟨z, waited, fun through => ?_⟩, ?_⟩
  · rcases idle.1 through with none_left | ⟨some_left, -⟩
    · rw [none_left] at waiting
      cases waiting
    · -- Nothing was accepted since the second wait, so the third one waits for nothing.
      rw [counts.1, counts.2] at some_left
      exact Nat.lt_irrefl 2 some_left
  · by_contra all
    push Not at all
    -- Both kernels are covered by the first wait.
    obtain ⟨r, member, range⟩ := List.mem_map.1 (waits ▸ List.mem_cons_self)
    have covers : ∀ n < 2, r.Covers n := fun n below => by
      rw [Prod.mk.injEq] at range
      exact ⟨range.1 ▸ Nat.zero_le n, range.2 ▸ below⟩
    exact absurd (raised.1 all r member 0 1 (covers 0 (by decide)) (covers 1 (by decide)) first second)
      Nat.zero_ne_one

end Executor

end StridedArray
