import StridedArray.Proofs.Executor.Accounts
import StridedArray.Proofs.Session.Runs

/-! # References of a session

Every reference to a buffer belongs to an array that was not disposed of, to whoever had the buffer before
the session, or to nobody: a buffer that was made for an array which then could not be made.

* `references`, `liveCount`, `holders` — what executors tell of buffers, and the arrays over one;
* `Orderly` — executors know their numbers; `references_withExecutor` — how a command of one executor shows in
  the session; `inUse` — the buffers that are referred to, as many as `liveCount` tells;
* `run_allocate`, `run_retain`, `run_release`, `Quiet` — what actions on buffers do to the references;
* `Balanced` — the accounts of a session; `Balanced.allocate`, `Balanced.adopt`, `Balanced.drop`,
  `Balanced.share`, `Balanced.dispose` — how they are kept. -/

namespace StridedArray

theorem Executor.moved_perform [Room] {x : Executor} (positive : x.counts.Positive) (c : Command) :
    Moved x.counts c (x.perform c).1 (x.perform c).2.counts :=
  (x.tally_perform c).moved positive

namespace Session

/-! ## Accounts -/

/-- The references to a buffer, as its executor tells; none if the buffer is not in use. -/
def references (s : Session) (h : Handle) : Nat :=
  (s.pool.executors[h.owner]?).elim 0 fun x => (x.refcount h).toOption.getD 0

/-- The number of buffers in use on an executor, none if there is no such executor. -/
def liveCount (s : Session) (owner : Nat) : Nat := (s.pool.executors[owner]?).elim 0 Executor.live

def Held (s : Session) (r : TensorRef) (t : Tensor) : Prop :=
  s.tensors[r.number]? = some t ∧ t.disposed = false

def uses (h : Handle) (t : Tensor) : Bool := !t.disposed && decide (t.handle = h)

def holders (s : Session) (h : Handle) : Nat := s.tensors.toList.countP (uses h)

/-- Every executor knows its number, and its buffers in use are referred to. -/
def Orderly (s : Session) : Prop :=
  ∀ (i : Nat) (x : Executor), s.pool.executors[i]? = some x → x.owner = i ∧ x.counts.Positive

def withExecutor (s : Session) (owner : Nat) (x : Executor) : Session :=
  { s with pool := { s.pool with executors := s.pool.executors.setIfInBounds owner x } }

variable {s s' : Session} {owner : Nat} {x : Executor} {h : Handle}

theorem Orderly.references_eq (orderly : s.Orderly) (found : s.pool.executors[h.owner]? = some x) :
    s.references h = x.counts.references h.slot := by
  obtain ⟨owner, positive⟩ := orderly _ _ found
  have same : h.owner = x.counts.owner := by rw [Executor.owner_counts, owner]
  unfold references
  rw [found, Option.elim_some, Executor.refcount_counts]
  unfold Table.refcount
  rcases positive.lookup_iff same with ⟨slot, known, count, _⟩ | ⟨unknown, none⟩
  · rw [known, ← count]
    rfl
  · rw [unknown, none]
    rfl

theorem references_none (missing : s.pool.executors[h.owner]? = none) : s.references h = 0 := by
  unfold references
  rw [missing]
  rfl

theorem executors_withExecutor (found : s.pool.executors[owner]? = some x) (y : Executor) (i : Nat) :
    (s.withExecutor owner y).pool.executors[i]? = if i = owner then some y else s.pool.executors[i]? := by
  obtain ⟨bound, _⟩ := Array.getElem?_eq_some_iff.1 found
  unfold withExecutor
  dsimp only
  rw [Array.getElem?_setIfInBounds]
  by_cases same : i = owner
  · subst same
    rw [if_pos rfl, if_pos bound, if_pos rfl]
  · rw [if_neg (Ne.symm same), if_neg same]

theorem Orderly.withExecutor (orderly : s.Orderly) (found : s.pool.executors[owner]? = some x) {y : Executor}
    (same : y.owner = x.owner) (positive : y.counts.Positive) : (s.withExecutor owner y).Orderly := by
  intro i z known
  rw [executors_withExecutor found] at known
  split at known
  · next here =>
    cases known
    rw [same, here]
    exact ⟨(orderly owner x found).1, positive⟩
  · exact orderly i z known

theorem references_withExecutor (found : s.pool.executors[owner]? = some x) {y : Executor}
    (later : (s.withExecutor owner y).Orderly) (h : Handle) :
    (s.withExecutor owner y).references h
      = if h.owner = owner then y.counts.references h.slot else s.references h := by
  have executors := executors_withExecutor found y h.owner
  split at executors
  · next here => rw [later.references_eq executors, if_pos here]
  · next elsewhere =>
    rw [if_neg elsewhere]
    unfold references
    rw [executors]

theorem Orderly.perform [Room] (orderly : s.Orderly) (found : s.pool.executors[owner]? = some x) (c : Command) :
    (s.withExecutor owner (x.perform c).2).Orderly
      ∧ ∀ h, ((s.withExecutor owner (x.perform c).2).references h : Int)
        = s.references h + gain c (x.perform c).1 h := by
  obtain ⟨number, positive⟩ := orderly owner x found
  have moved := Executor.moved_perform positive c
  have owners : (x.perform c).2.owner = x.owner := by
    rw [← Executor.owner_counts, moved.owner, Executor.owner_counts]
  have later := orderly.withExecutor found owners moved.positive
  refine ⟨later, fun h => ?_⟩
  rw [references_withExecutor found later]
  by_cases here : h.owner = owner
  · have handle : (⟨x.counts.owner, h.slot⟩ : Handle) = h := by
      rw [Executor.owner_counts, number, ← here]
    rw [if_pos here, orderly.references_eq (here ▸ found), moved.references, handle]
  · rw [if_neg here]
    -- Only handles of the executor itself are counted.
    have foreign : ∀ k : Handle, k.owner = x.counts.owner → k ≠ h := by
      rintro k same rfl
      rw [Executor.owner_counts, number] at same
      exact here same
    have nothing : gain c (x.perform c).1 h = 0 := by
      unfold gain
      split
      · next made answer => exact if_neg (foreign _ (by rw [(moved.made _ answer).1]))
      · next kept answer => exact if_neg (foreign _ (moved.used _ (.inl rfl) answer).1)
      · next dropped answer => exact if_neg (foreign _ (moved.used _ (.inr rfl) answer).1)
      · rfl
    rw [nothing, Int.add_zero]

/-! ## Buffers in use -/

def inUse (s : Session) (owner : Nat) : List Handle :=
  (s.pool.executors[owner]?).elim [] fun x =>
    ((List.range x.counts.slots.size).filter fun n => 0 < x.counts.references n).map fun n => ⟨owner, n⟩

theorem nodup_inUse (s : Session) (owner : Nat) : (s.inUse owner).Nodup := by
  unfold inUse
  cases s.pool.executors[owner]? with
  | none => exact List.nodup_nil
  | some x =>
    refine List.Pairwise.map _ (fun a b different same => different ?_) (List.nodup_range.filter _)
    cases same
    rfl

theorem Orderly.mem_inUse (orderly : s.Orderly) : h ∈ s.inUse owner ↔ h.owner = owner ∧ 0 < s.references h := by
  obtain ⟨at_, slot⟩ := h
  by_cases here : at_ = owner
  · subst here
    unfold inUse
    cases found : s.pool.executors[at_]? with
    | none => simp [references_none (h := ⟨at_, slot⟩) found]
    | some x =>
      rw [orderly.references_eq (h := ⟨at_, slot⟩) found]
      rw [Option.elim_some]
      simp only [List.mem_map, List.mem_filter, List.mem_range, decide_eq_true_eq, Handle.mk.injEq, true_and]
      constructor
      · rintro ⟨n, ⟨_, used⟩, rfl⟩
        exact used
      · intro used
        refine ⟨slot, ⟨?_, used⟩, rfl⟩
        by_contra beyond
        rw [Table.references_of_size_le (Nat.not_lt.1 beyond)] at used
        cases used
  · refine iff_of_false (fun member => here ?_) fun ⟨same, _⟩ => here same
    unfold inUse at member
    cases found : s.pool.executors[owner]? with
    | none =>
      rw [found] at member
      cases member
    | some x =>
      rw [found] at member
      obtain ⟨n, _, same⟩ := List.mem_map.1 member
      exact (congrArg Handle.owner same).symm

theorem Orderly.length_inUse (orderly : s.Orderly) (owner : Nat) : (s.inUse owner).length = s.liveCount owner := by
  unfold inUse liveCount
  cases found : s.pool.executors[owner]? with
  | none => rfl
  | some x =>
    rw [Option.elim_some, Option.elim_some, List.length_map, ← Executor.live_counts,
      (orderly _ x found).2.live_eq]

/-! ## Actions on executors -/

section Actions

variable {α β : Type} {f : Executor → Executor.Step α}

theorem run_bind_ok {a : Action α} {b : α → Action β} {value : α} (ran : a.run.run s = (.ok value, s')) :
    (a >>= b).run.run s = (b value).run.run s' := by
  rw [ExceptT.run_bind, StateT.run_bind, ran]
  rfl

theorem run_bind_error {a : Action α} {b : α → Action β} {e : Failure} (ran : a.run.run s = (.error e, s')) :
    (a >>= b).run.run s = (.error e, s') := by
  rw [ExceptT.run_bind, StateT.run_bind, ran]
  rfl

theorem run_tryCatch_ok {a : Action α} {handler : Failure → Action α} {value : α}
    (ran : a.run.run s = (.ok value, s')) : (tryCatch a handler).run.run s = (.ok value, s') := by
  rw [ExceptT.run_tryCatch, StateT.run_bind, ran]
  rfl

theorem run_tryCatch_error {a : Action α} {handler : Failure → Action α} {e : Failure}
    (ran : a.run.run s = (.error e, s')) : (tryCatch a handler).run.run s = (handler e).run.run s' := by
  rw [ExceptT.run_tryCatch, StateT.run_bind, ran]
  rfl

theorem onExecutor_of_some (found : s.pool.executors[owner]? = some x) :
    (onExecutor owner f).run.run s = ((f x).1, s.withExecutor owner (f x).2) := by
  have executor : Runs (executor owner) s x s := by
    refine (runs_get s).bind ?_
    rw [found]
    exact runs_pure _ s
  exact run_bind_ok executor

theorem onExecutor_of_none (missing : s.pool.executors[owner]? = none) :
    (onExecutor owner f).run.run s = (.error .unbound, s) := by
  have executor : (executor owner).run.run s = (.error .unbound, s) := by
    refine (run_bind_ok (runs_get s)).trans ?_
    rw [missing]
    rfl
  exact run_bind_error executor

/-- Sessions with the same arrays and the same references. -/
structure Like (s s' : Session) : Prop where
  orderly : s'.Orderly
  tensors : s'.tensors = s.tensors
  references : ∀ h, s'.references h = s.references h

/-- An action that changes neither arrays nor references, whether or not it succeeds. -/
def Quiet (a : Action α) : Prop := ∀ s : Session, s.Orderly → s.Like (a.run.run s).2

theorem Like.refl (orderly : s.Orderly) : s.Like s := ⟨orderly, rfl, fun _ => rfl⟩

theorem Like.trans {s'' : Session} (first : s.Like s') (second : s'.Like s'') : s.Like s'' :=
  ⟨second.orderly, second.tensors.trans first.tensors,
    fun h => (second.references h).trans (first.references h)⟩

theorem Quiet.bind {a : Action α} {b : α → Action β} (first : Quiet a) (rest : ∀ value, Quiet (b value)) :
    Quiet (a >>= b) := by
  intro s orderly
  have same := first s orderly
  cases ran : a.run.run s with
  | mk answer s' =>
    rw [ran] at same
    cases answer with
    | ok value =>
      rw [run_bind_ok ran]
      exact same.trans (rest value s' same.orderly)
    | error e =>
      rw [run_bind_error ran]
      exact same

theorem quiet_pure (value : α) : Quiet (pure value) := fun _ orderly => .refl orderly

theorem quiet_throw (e : Failure) : Quiet (throw e : Action α) := fun _ orderly => .refl orderly

theorem quiet_get : Quiet (get : Action Session) := fun _ orderly => .refl orderly

theorem quiet_ofResult (r : Except Failure α) : Quiet (ofResult r) := fun _ orderly => .refl orderly

theorem quiet_executor (owner : Nat) : Quiet (executor owner) := by
  refine quiet_get.bind fun s => ?_
  cases s.pool.executors[owner]? with
  | none => exact quiet_throw _
  | some x => exact quiet_pure x

theorem quiet_onExecutor (counts : ∀ x, (f x).2.counts = x.counts) : Quiet (onExecutor owner f) := by
  intro s orderly
  cases found : s.pool.executors[owner]? with
  | none =>
    rw [onExecutor_of_none found]
    exact .refl orderly
  | some x =>
    rw [onExecutor_of_some found]
    have owners : (f x).2.owner = x.owner := by rw [← Executor.owner_counts, counts, Executor.owner_counts]
    have later := orderly.withExecutor found owners (counts x ▸ (orderly owner x found).2)
    refine ⟨later, rfl, fun h => ?_⟩
    rw [references_withExecutor found later]
    split
    · next here => rw [orderly.references_eq (here ▸ found), counts]
    · rfl

/-- A new buffer is one that nobody refers to yet. -/
theorem run_allocate [Room] (orderly : s.Orderly) (owner : Nat) (size : Int) (initial : Option Bytes) :
    (∃ h s', (allocate owner size initial).run.run s = (.ok h, s') ∧ s'.Orderly ∧ s'.tensors = s.tensors
        ∧ s.references h = 0 ∧ ∀ k, s'.references k = s.references k + if h = k then 1 else 0)
      ∨ ∃ e s', (allocate owner size initial).run.run s = (.error e, s') ∧ s.Like s' := by
  unfold allocate
  cases found : s.pool.executors[owner]? with
  | none => exact .inr ⟨_, s, onExecutor_of_none found, .refl orderly⟩
  | some x =>
    have ran := @onExecutor_of_some s owner x _ (fun x => x.allocate size initial) found
    obtain ⟨later, references⟩ := orderly.perform found (.allocate size initial)
    have counted : (x.perform (.allocate size initial)).1 = Reply.of .handle (x.allocate size initial).1 := rfl
    have next : (x.perform (.allocate size initial)).2 = (x.allocate size initial).2 := rfl
    rw [counted, next] at references
    cases answer : (x.allocate size initial).1 with
    | error e =>
      rw [answer] at ran references
      refine .inr ⟨e, _, ran, later, rfl, fun k => ?_⟩
      exact_mod_cast (references k).trans (Int.add_zero _)
    | ok h =>
      rw [answer] at ran references
      obtain ⟨number, positive⟩ := orderly owner x found
      have made := (Executor.moved_perform positive (.allocate size initial)).made h
        (by rw [counted, answer]; rfl)
      have here : h.owner = owner := by rw [made.1, Executor.owner_counts, number]
      refine .inl ⟨h, _, ran, later, rfl, ?_, fun k => ?_⟩
      · rw [orderly.references_eq (here ▸ found), made.1]
        exact Table.references_of_size_le (Nat.le_refl _)
      · have one := references k
        unfold gain at one
        dsimp only [Reply.of] at one
        split at one <;> split <;> first | contradiction | omega

theorem Orderly.lookup_of_used (orderly : s.Orderly) (used : 0 < s.references h) :
    ∃ x slot, s.pool.executors[h.owner]? = some x ∧ x.counts.lookup h = .ok slot := by
  cases found : s.pool.executors[h.owner]? with
  | none => exact absurd (references_none found) (Nat.ne_of_gt used)
  | some x =>
    obtain ⟨number, positive⟩ := orderly _ x found
    rw [orderly.references_eq found] at used
    rcases positive.lookup_iff (h := h) (by rw [Executor.owner_counts, number]) with ⟨slot, known, _⟩ | ⟨_, none⟩
    · exact ⟨x, slot, rfl, known⟩
    · exact absurd none (Nat.ne_of_gt used)

theorem run_counted [Room] (orderly : s.Orderly) (found : s.pool.executors[owner]? = some x) {c : Command}
    (g : Executor → Executor.Step Unit) (performs : x.perform c = (g x).map (Reply.of fun _ => .done) id)
    (answer : (g x).1 = .ok ()) :
    ∃ s', (onExecutor owner g).run.run s = (.ok (), s') ∧ s'.Orderly ∧ s'.tensors = s.tensors
      ∧ ∀ k, (s'.references k : Int) = s.references k + gain c .done k := by
  obtain ⟨later, references⟩ := orderly.perform found c
  have done : (x.perform c).1 = .done := by
    rw [performs]
    exact congrArg (Reply.of fun _ => .done) answer
  rw [done, performs] at references
  rw [performs] at later
  exact ⟨_, (onExecutor_of_some found).trans (by rw [answer]; rfl), later, rfl, references⟩

theorem run_retain [Room] (orderly : s.Orderly) (used : 0 < s.references h) :
    ∃ s', (retain h).run.run s = (.ok (), s') ∧ s'.Orderly ∧ s'.tensors = s.tensors
      ∧ ∀ k, s'.references k = s.references k + if h = k then 1 else 0 := by
  obtain ⟨x, slot, found, known⟩ := orderly.lookup_of_used used
  rcases x.retain_counts h with ⟨_, _, answer, _⟩ | ⟨e, unknown, _⟩
  · obtain ⟨s', ran, later, tensors, references⟩ :=
      run_counted orderly found (c := .retain h) (fun x => x.retain h) rfl answer
    refine ⟨s', ran, later, tensors, fun k => ?_⟩
    have one : (s'.references k : Int) = s.references k + if h = k then 1 else 0 := references k
    exact_mod_cast one
  · rw [known] at unknown
    cases unknown

theorem run_release [Room] (orderly : s.Orderly) (used : 0 < s.references h) :
    ∃ s', (release h).run.run s = (.ok (), s') ∧ s'.Orderly ∧ s'.tensors = s.tensors
      ∧ ∀ k, s.references k = s'.references k + if h = k then 1 else 0 := by
  obtain ⟨x, slot, found, known⟩ := orderly.lookup_of_used used
  rcases x.release_counts h with ⟨_, _, answer, _⟩ | ⟨e, unknown, _⟩
  · obtain ⟨s', ran, later, tensors, references⟩ :=
      run_counted orderly found (c := .release h) (fun x => x.release h) rfl answer
    refine ⟨s', ran, later, tensors, fun k => ?_⟩
    have one : (s'.references k : Int) = s.references k + if h = k then -1 else 0 := references k
    split at one <;> split <;> first | contradiction | omega
  · rw [known] at unknown
    cases unknown

end Actions

/-! ## Balance -/

/-- Every reference belongs to an array, to whoever had the buffer before, or to nobody. Buffers of the
    last kind have one reference each; arrays are over buffers that nobody had before. -/
structure Balanced (before : Handle → Nat) (strays : List Handle) (s : Session) : Prop where
  orderly : s.Orderly
  references : ∀ h, s.references h = before h + s.holders h + strays.count h
  alone : ∀ h ∈ strays, before h = 0 ∧ s.holders h = 0
  nodup : strays.Nodup
  apart : ∀ h, 0 < s.holders h → before h = 0

variable {before : Handle → Nat} {strays : List Handle} {r : TensorRef} {t : Tensor}

theorem uses_iff {h : Handle} {t : Tensor} : uses h t = true ↔ t.disposed = false ∧ t.handle = h := by
  simp [uses]

theorem holders_of_tensors (same : s'.tensors = s.tensors) (h : Handle) : s'.holders h = s.holders h := by
  rw [holders, same, holders]

theorem holders_push (tensors : s'.tensors = s.tensors.push t) (live : t.disposed = false) (h : Handle) :
    s'.holders h = s.holders h + if t.handle = h then 1 else 0 := by
  unfold holders
  rw [tensors, Array.toList_push, List.countP_append, List.countP_singleton]
  congr 1
  unfold uses
  rw [live]
  by_cases here : t.handle = h <;> simp [here]

theorem Held.holders_pos (held : s.Held r t) : 0 < s.holders t.handle := by
  obtain ⟨bound, known⟩ := Array.getElem?_eq_some_iff.1 held.1
  refine List.countP_pos_iff.2 ⟨t, ?_, uses_iff.2 ⟨held.2, rfl⟩⟩
  rw [← known]
  exact Array.getElem_mem_toList bound

def without (tensors : Array Tensor) (r : TensorRef) : Array Tensor :=
  tensors.modify r.number fun t => { t with disposed := true }

theorem holders_without (held : s.Held r t) (tensors : s'.tensors = without s.tensors r) (h : Handle) :
    s.holders h = s'.holders h + if t.handle = h then 1 else 0 := by
  obtain ⟨bound, known⟩ := Array.getElem?_eq_some_iff.1 held.1
  have inList : r.number < s.tensors.toList.length := by simpa using bound
  have split := List.take_append_drop r.number s.tensors.toList
  rw [List.drop_eq_getElem_cons inList, Array.getElem_toList, known] at split
  have gone : uses h { t with disposed := true } = false := rfl
  have was : uses h t = decide (t.handle = h) := by simp [uses, held.2]
  unfold holders
  rw [tensors, without, Array.toList_modify, List.modify_eq_take_cons_drop inList, Array.getElem_toList, known]
  conv => lhs; rw [← split]
  rw [List.countP_append, List.countP_append, List.countP_cons, List.countP_cons, gone, was]
  by_cases here : t.handle = h
  · simp [here, Nat.add_assoc]
  · simp [here]

namespace Balanced

theorem like (balanced : Balanced before strays s) (same : s.Like s') : Balanced before strays s' where
  orderly := same.orderly
  references := fun h => by
    rw [same.references, balanced.references, holders_of_tensors same.tensors]
  alone := fun h member => by
    rw [holders_of_tensors same.tensors]
    exact balanced.alone h member
  nodup := balanced.nodup
  apart := fun h used => balanced.apart h (by rwa [holders_of_tensors same.tensors] at used)

theorem allocate [Room] (balanced : Balanced before strays s) (owner : Nat) (size : Int) (initial : Option Bytes) :
    (∃ h s', (allocate owner size initial).run.run s = (.ok h, s') ∧ s'.tensors = s.tensors
        ∧ Balanced before (h :: strays) s')
      ∨ ∃ e s', (allocate owner size initial).run.run s = (.error e, s') ∧ s.Like s' := by
  rcases run_allocate balanced.orderly owner size initial with
    ⟨h, s', ran, orderly, tensors, unused, references⟩ | failed
  · refine .inl ⟨h, s', ran, tensors, ?_⟩
    rw [balanced.references] at unused
    -- Nobody refers to the handle, so it is not a stray one already.
    have fresh : h ∉ strays := List.count_eq_zero.1 (by omega)
    refine ⟨orderly, fun k => ?_, ?_, List.nodup_cons.2 ⟨fresh, balanced.nodup⟩, fun k used => ?_⟩
    · rw [references, balanced.references, holders_of_tensors tensors, List.count_cons]
      simp only [beq_iff_eq]
      omega
    · intro k member
      rw [holders_of_tensors tensors]
      rcases List.mem_cons.1 member with rfl | member
      · omega
      · exact balanced.alone k member
    · exact balanced.apart k (by rwa [holders_of_tensors tensors] at used)
  · exact .inr failed

/-- A buffer of nobody is taken over by a new array. -/
theorem adopt (balanced : Balanced before (h :: strays) s) (live : t.disposed = false) (handle : t.handle = h) :
    Balanced before strays { s with tensors := s.tensors.push t } := by
  have holders := fun k => @holders_push s { s with tensors := s.tensors.push t } t rfl live k
  have first := balanced.alone h (List.mem_cons_self ..)
  obtain ⟨new, nodup⟩ := List.nodup_cons.1 balanced.nodup
  rw [handle] at holders
  refine ⟨balanced.orderly, fun k => ?_, fun k member => ?_, nodup, fun k used => ?_⟩
  · have counted := balanced.references k
    rw [List.count_cons] at counted
    simp only [beq_iff_eq] at counted
    rw [holders]
    show s.references k = _
    omega
  · have different : h ≠ k := fun same => new (same ▸ member)
    rw [holders, if_neg different]
    exact balanced.alone k (List.mem_cons_of_mem _ member)
  · rw [holders] at used
    by_cases here : h = k
    · rw [← here]
      exact first.1
    · rw [if_neg here] at used
      exact balanced.apart k used

theorem drop [Room] (balanced : Balanced before (h :: strays) s) :
    ∃ s', (release h).run.run s = (.ok (), s') ∧ s'.tensors = s.tensors ∧ Balanced before strays s' := by
  have counted := fun k => balanced.references k
  simp only [List.count_cons, beq_iff_eq] at counted
  obtain ⟨new, nodup⟩ := List.nodup_cons.1 balanced.nodup
  have one := counted h
  rw [if_pos rfl] at one
  obtain ⟨s', ran, orderly, tensors, references⟩ := run_release balanced.orderly (h := h) (by omega)
  refine ⟨s', ran, tensors, orderly, fun k => ?_, fun k member => ?_, nodup, fun k used => ?_⟩
  · have here := counted k
    have there := references k
    rw [holders_of_tensors tensors]
    omega
  · rw [holders_of_tensors tensors]
    exact balanced.alone k (List.mem_cons_of_mem _ member)
  · exact balanced.apart k (by rwa [holders_of_tensors tensors] at used)

theorem share [Room] (balanced : Balanced before strays s) (held : s.Held r t) (layout : Layout) :
    ∃ s', (view t layout).run.run s = (.ok ⟨s.tensors.size⟩, s')
      ∧ s'.tensors = s.tensors.push { t with layout := layout } ∧ Balanced before strays s' := by
  have used := held.holders_pos
  have counted := balanced.references t.handle
  obtain ⟨s', ran, orderly, tensors, references⟩ := run_retain balanced.orderly (h := t.handle) (by omega)
  have live : ({ t with layout := layout } : Tensor).disposed = false := held.2
  have whole : { t with layout := layout } = (⟨t.handle, layout, t.kind, false⟩ : Tensor) := by
    rw [← held.2]
  refine ⟨{ s' with tensors := s'.tensors.push { t with layout := layout } }, ?_, by rw [tensors], ?_⟩
  · unfold view
    rw [run_bind_ok (runs_requireLive held.2), run_bind_ok ran, whole, ← tensors]
    rfl
  · have holders := fun k => @holders_push s { s' with tensors := s'.tensors.push { t with layout := layout } } _
      (by rw [tensors]) live k
    dsimp only at holders
    refine ⟨orderly, fun k => ?_, fun k member => ?_, balanced.nodup, fun k more => ?_⟩
    · have here := balanced.references k
      rw [holders]
      show s'.references k = _
      rw [references]
      omega
    · -- The array is over its buffer already, so that is not a stray one.
      have different : t.handle ≠ k := by
        rintro rfl
        have none := (balanced.alone _ member).2
        omega
      rw [holders, if_neg different]
      exact balanced.alone k member
    · rw [holders] at more
      by_cases here : t.handle = k
      · rw [← here]
        exact balanced.apart _ used
      · exact balanced.apart k (by rwa [if_neg here] at more)

theorem dispose [Room] (balanced : Balanced before strays s) (held : s.Held r t) :
    ∃ s', (dispose r).run.run s = (.ok (), s') ∧ s'.tensors = without s.tensors r
      ∧ Balanced before strays s' := by
  have used := held.holders_pos
  have counted := balanced.references t.handle
  have orderly : Orderly { s with tensors := without s.tensors r } := balanced.orderly
  obtain ⟨s', ran, orderly, tensors, references⟩ := run_release orderly (h := t.handle)
    (show 0 < s.references t.handle by omega)
  have holders := holders_without held tensors
  -- The flag is set first, and the reference is given back after that.
  refine ⟨s', ?_, tensors, orderly, fun k => ?_, fun k member => ?_, balanced.nodup, fun k more => ?_⟩
  · refine (run_bind_ok (runs_live held.1 held.2)).trans ?_
    exact ran
  · have here := balanced.references k
    have there : s.references k = _ := references k
    have split := holders k
    omega
  · have none := balanced.alone k member
    have split := holders k
    omega
  · have split := holders k
    exact balanced.apart k (by omega)

end Balanced

end Session

end StridedArray
