import StridedArray.Proofs.Session.Balance
import StridedArray.Tensor.Convolution
import StridedArray.Tensor.Upload

/-! # Actions that keep the accounts

An action keeps the accounts if afterwards every reference has an owner again, it has touched no array that
was there before, and the only new array that was not disposed of is the one that it answers. If it fails
because the shape of its result is none, a buffer may be left that belongs to nobody.

* `Change`, `Lands`, `Keeps` — what an action may do to arrays and accounts;
* `Lands.bind`, `Keeps.bind`, `Quiet.keeps` — actions that are put together;
* `Balanced.lands_view`, `Balanced.lands_adopt`, `Balanced.guarded` — the ways in which references are taken
  over or given back;
* `keeps_moved`, `keeps_fill` — views, and arrays in buffers of their own. -/

namespace StridedArray

/-- The buffers that an action may lose if it fails in this way: one, if the extents of its result make no
    shape. -/
def Failure.loss : Failure → Nat
  | .shape (.extents _) => 1
  | _ => 0

/-- An executor that is asked for by name is there, or is a new one without buffers. -/
theorem Pool.executors_of_request {p p' : Pool} {given : Datum} {n : Nat}
    (asked : p.request given = .ok (n, p')) :
    p'.executors = p.executors ∨ ∃ x, p'.executors = p.executors.push x ∧ x.Fresh p.executors.size := by
  have named : ∀ name, p.get name = .ok (n, p') →
      p'.executors = p.executors ∨ ∃ x, p'.executors = p.executors.push x ∧ x.Fresh p.executors.size := by
    intro name found
    unfold Pool.get at found
    split at found
    · cases found
      exact .inl rfl
    · -- Not known yet: one executor more, and the name for it.
      obtain ⟨⟨m, q⟩, made, found⟩ := bind_eq_ok.1 found
      cases found
      refine .inr ?_
      unfold Pool.make at made
      split at made
      · cases made
        exact ⟨_, rfl, .inl rfl⟩
      · cases deferred : p.newDeferred with
        | error e =>
          rw [deferred] at made
          cases made
        | ok found =>
          rw [deferred] at made
          cases made
          unfold Pool.newDeferred at deferred
          simp only [throw_bind, bind_eq_ok, refuse_eq_ok, pure_eq_ok] at deferred
          obtain ⟨device, _, _, readback, _, added⟩ := deferred
          cases added
          exact ⟨_, rfl, .inr ⟨_, _, rfl⟩⟩
      · cases made
  cases given with
  | none => exact named _ asked
  | text name => exact named name asked
  | scalar value => cases asked
  | list items => cases asked
  | slice start stop step => cases asked

namespace Session

variable {α β : Type} {s s' s'' : Session} {before : Handle → Nat} {strays : List Handle}
  {made : α → Option TensorRef} {r : TensorRef} {t : Tensor} {h : Handle}

/-! ## Arrays -/

/-- Old arrays are as before, and one of the new ones at most was not disposed of. -/
structure Change (s s' : Session) (made : Option TensorRef) : Prop where
  grows : s.tensors.size ≤ s'.tensors.size
  kept : ∀ n < s.tensors.size, s'.tensors[n]? = s.tensors[n]?
  only : ∀ {r t}, s.tensors.size ≤ r.number → s'.Held r t → made = some r
  made : ∀ {r}, made = some r → s.tensors.size ≤ r.number ∧ ∃ t, s'.Held r t

theorem Held.bound (held : s.Held r t) : r.number < s.tensors.size :=
  (Array.getElem?_eq_some_iff.1 held.1).1

theorem change_of_tensors (same : s'.tensors = s.tensors) : s.Change s' none where
  grows := Nat.le_of_eq (congrArg Array.size same.symm)
  kept := fun n _ => by rw [same]
  only := fun new held => absurd held.bound (by rw [same]; exact Nat.not_lt.2 new)
  made := nofun

theorem change_of_push (pushed : s'.tensors = s.tensors.push t) (live : t.disposed = false) :
    s.Change s' (some ⟨s.tensors.size⟩) where
  grows := by rw [pushed, Array.size_push]; exact Nat.le_succ _
  kept := fun n bound => by
    rw [pushed, Array.getElem?_push_lt bound]
    exact (Array.getElem?_eq_getElem bound).symm
  only := by
    intro r t new held
    have bound := held.bound
    rw [pushed, Array.size_push] at bound
    have last : r.number = s.tensors.size := by omega
    rw [← last]
  made := by
    rintro r ⟨⟩
    exact ⟨Nat.le_refl _, t, by rw [pushed]; exact Array.getElem?_push_size, live⟩

theorem Change.trans {made : Option TensorRef} (first : s.Change s' none) (second : s'.Change s'' made) :
    s.Change s'' made where
  grows := Nat.le_trans first.grows second.grows
  kept := fun n bound => (second.kept n (Nat.lt_of_lt_of_le bound first.grows)).trans (first.kept n bound)
  only := by
    intro r t new held
    rcases Nat.lt_or_ge r.number s'.tensors.size with between | later
    · have earlier : s'.Held r t := ⟨(second.kept _ between).symm.trans held.1, held.2⟩
      exact absurd (first.only new earlier) (by simp)
    · exact second.only later held
  made := fun some => ⟨Nat.le_trans first.grows (second.made some).1, (second.made some).2⟩

theorem Change.close {out : TensorRef} {made : Option TensorRef} {s₃ : Session}
    (first : s.Change s' (some out)) (second : s'.Change s'' made)
    (closed : s₃.tensors = without s''.tensors out) : s.Change s₃ made := by
  obtain ⟨new, t, held⟩ := first.made rfl
  have entries : ∀ n, n ≠ out.number → s₃.tensors[n]? = s''.tensors[n]? := by
    intro n other
    rw [closed, without, Array.getElem?_modify, if_neg (Ne.symm other)]
  have gone : ∀ t, ¬ s₃.Held out t := by
    rintro t ⟨known, live⟩
    rw [closed, without, Array.getElem?_modify, if_pos rfl, Option.map_eq_some_iff] at known
    obtain ⟨_, _, rfl⟩ := known
    cases live
  have back : ∀ {r t}, s₃.Held r t → s''.Held r t ∧ r ≠ out := by
    intro r t here
    have other : r ≠ out := by
      rintro rfl
      exact gone t here
    have number : r.number ≠ out.number := fun same => other (congrArg TensorRef.mk same)
    exact ⟨⟨(entries _ number).symm.trans here.1, here.2⟩, other⟩
  have size : s₃.tensors.size = s''.tensors.size := by rw [closed, without, Array.size_modify]
  refine ⟨?_, fun n bound => ?_, fun later here => ?_, fun some => ?_⟩
  · rw [size]
    exact Nat.le_trans first.grows second.grows
  · rw [entries n (Nat.ne_of_lt (Nat.lt_of_lt_of_le bound new)),
      second.kept n (Nat.lt_of_lt_of_le bound first.grows), first.kept n bound]
  · obtain ⟨known, other⟩ := back here
    rcases Nat.lt_or_ge (TensorRef.number _) s'.tensors.size with between | beyond
    · -- The first change made no other array, and this one is gone.
      have earlier := first.only later ⟨(second.kept _ between).symm.trans known.1, known.2⟩
      exact absurd (Option.some.inj earlier).symm other
    · exact second.only beyond known
  · obtain ⟨beyond, t, known⟩ := second.made some
    have number := Nat.ne_of_gt (Nat.lt_of_lt_of_le held.bound beyond)
    exact ⟨Nat.le_trans first.grows beyond, t, (entries _ number).trans known.1, known.2⟩

/-! ## Accounts -/

/-- How an action ends: with the accounts balanced, and no new array but the one that it answers. -/
structure Lands (before : Handle → Nat) (strays : List Handle) (s : Session) (made : α → Option TensorRef)
    (out : Except Failure α × Session) : Prop where
  ok : ∀ {a}, out.1 = .ok a → Balanced before strays out.2 ∧ s.Change out.2 (made a)
  error : ∀ {e}, out.1 = .error e → s.Change out.2 none
    ∧ ∃ lost : List Handle, lost.length ≤ e.loss ∧ Balanced before (lost ++ strays) out.2

/-- An action that keeps the accounts, wherever it is done. -/
structure Keeps (made : α → Option TensorRef) (a : Action α) : Prop where
  lands : ∀ {before strays s}, Balanced before strays s → Lands before strays s made (a.run.run s)

def noArray {α : Type} : α → Option TensorRef := fun _ => none

theorem lands_ok {a : α} (balanced : Balanced before strays s') (change : s.Change s' (made a)) :
    Lands before strays s made (.ok a, s') where
  ok := by
    rintro _ ⟨⟩
    exact ⟨balanced, change⟩
  error := nofun

theorem lands_error {e : Failure} (balanced : Balanced before strays s') (change : s.Change s' none) :
    Lands before strays s made (.error e, s') where
  ok := nofun
  error := fun _ => ⟨change, [], Nat.zero_le _, balanced⟩

theorem Lands.bind {a : Action α} {b : α → Action β} {made : β → Option TensorRef}
    (first : Lands before strays s noArray (a.run.run s))
    (rest : ∀ value s', a.run.run s = (.ok value, s') → Balanced before strays s' →
      Lands before strays s' made ((b value).run.run s')) :
    Lands before strays s made ((a >>= b).run.run s) := by
  cases ran : a.run.run s with
  | mk answer s' =>
    rw [ran] at first
    cases answer with
    | ok value =>
      obtain ⟨balanced, change⟩ := first.ok rfl
      have second := rest value s' ran balanced
      rw [run_bind_ok ran]
      refine ⟨fun done => ?_, fun failed => ?_⟩
      · exact ⟨(second.ok done).1, change.trans (second.ok done).2⟩
      · obtain ⟨later, lost⟩ := second.error failed
        exact ⟨change.trans later, lost⟩
    | error e =>
      rw [run_bind_error ran]
      exact ⟨nofun, fun failed => by
        cases failed
        exact first.error rfl⟩

theorem Keeps.bind {a : Action α} {b : α → Action β} {made : β → Option TensorRef} (first : Keeps noArray a)
    (rest : ∀ value, Keeps made (b value)) : Keeps made (a >>= b) where
  lands := fun balanced => (first.lands balanced).bind fun value _ _ later => (rest value).lands later

theorem Quiet.keeps {a : Action α} (quiet : Quiet a) : Keeps noArray a := by
  constructor
  intro before strays s balanced
  have same := quiet s balanced.orderly
  exact ⟨fun _ => ⟨balanced.like same, change_of_tensors same.tensors⟩,
    fun _ => ⟨change_of_tensors same.tensors, [], Nat.zero_le _, balanced.like same⟩⟩

theorem Quiet.bind_keeps {a : Action α} {b : α → Action β} {made : β → Option TensorRef} (first : Quiet a)
    (rest : ∀ value, Keeps made (b value)) : Keeps made (a >>= b) :=
  first.keeps.bind rest

theorem Quiet.lands_bind {a : Action α} {b : α → Action β} {made : β → Option TensorRef} (first : Quiet a)
    (balanced : Balanced before strays s)
    (rest : ∀ value s', a.run.run s = (.ok value, s') → Balanced before strays s' →
      Lands before strays s' made ((b value).run.run s')) :
    Lands before strays s made ((a >>= b).run.run s) :=
  (first.keeps.lands balanced).bind rest

theorem Keeps.map {a : Action α} {f : α → β} {made : β → Option TensorRef} (keeps : Keeps (made ∘ f) a) :
    Keeps made (f <$> a) := by
  constructor
  intro before strays s balanced
  have first := keeps.lands balanced
  cases ran : a.run.run s with
  | mk answer s' =>
    rw [ran] at first
    have whole : (f <$> a).run.run s = (f <$> answer, s') := by
      rw [map_eq_pure_bind]
      cases answer with
      | ok value => exact run_bind_ok ran
      | error e => exact run_bind_error ran
    rw [whole]
    cases answer with
    | ok value => exact lands_ok (first.ok rfl).1 (first.ok rfl).2
    | error e => exact ⟨nofun, fun failed => by
        cases failed
        exact first.error rfl⟩

/-! ## Looking around -/

theorem find_ok (ran : (find r).run.run s = (.ok t, s')) : s' = s ∧ s.tensors[r.number]? = some t := by
  cases known : s.tensors[r.number]? with
  | some u =>
    have found : (find r).run.run s = (.ok u, s) := runs_find known
    rw [found] at ran
    cases ran
    exact ⟨rfl, rfl⟩
  | none =>
    have missing : (find r).run.run s = (.error .unbound, s) := by
      refine (run_bind_ok (runs_get s)).trans ?_
      rw [known]
      rfl
    rw [missing] at ran
    cases ran

theorem ofResult_ok {x : Except Failure α} {a : α} (ran : (ofResult x).run.run s = (.ok a, s')) :
    s' = s ∧ x = .ok a := by
  have same : (ofResult x).run.run s = (x, s) := rfl
  rw [same] at ran
  cases ran
  exact ⟨rfl, rfl⟩

theorem quiet_find (r : TensorRef) : Quiet (find r) := by
  refine quiet_get.bind fun s => ?_
  cases s.tensors[r.number]? with
  | none => exact quiet_throw _
  | some t => exact quiet_pure t

theorem quiet_requireLive (t : Tensor) : Quiet (requireLive t) := by
  unfold requireLive
  split
  · exact quiet_throw _
  · exact quiet_pure ()

theorem quiet_live (r : TensorRef) : Quiet (live r) :=
  (quiet_find r).bind fun t => (quiet_requireLive t).bind fun _ => quiet_pure t

theorem quiet_readBuffer [Room] (h : Handle) : Quiet (readBuffer h) := quiet_onExecutor fun x => x.read_counts h

theorem quiet_mapM {f : α → Action β} (each : ∀ a, Quiet (f a)) (xs : List α) : Quiet (xs.mapM f) := by
  induction xs with
  | nil => exact quiet_pure []
  | cons x xs inductionHypothesis =>
    rw [List.mapM_cons]
    exact (each x).bind fun _ => inductionHypothesis.bind fun _ => quiet_pure _

theorem quiet_forM {f : α → Action PUnit} (each : ∀ a, Quiet (f a)) (xs : List α) : Quiet (xs.forM f) := by
  induction xs with
  | nil => exact quiet_pure _
  | cons x xs inductionHypothesis => exact (each x).bind fun _ => inductionHypothesis

theorem quiet_requireBeside (owner : Nat) (t : Tensor) : Quiet (requireBeside owner t) := by
  refine (quiet_requireLive t).bind fun _ => ?_
  split
  · exact (quiet_executor _).bind fun _ => (quiet_executor _).bind fun _ => quiet_throw _
  · exact quiet_pure _

theorem quiet_common (first : TensorRef) (others : List Operand) : Quiet (common first others) :=
  (quiet_live first).bind fun _ => (quiet_mapM quiet_find _).bind fun _ =>
    (quiet_forM (quiet_requireBeside _) _).bind fun _ => (quiet_ofResult _).bind fun _ => quiet_pure _

theorem quiet_argument (c : Common) (inputs : List Handle) (x : Operand) : Quiet (argument c inputs x) := by
  cases x with
  | tensor r =>
    exact (quiet_find r).bind fun _ => (quiet_ofResult _).bind fun _ => (quiet_ofResult _).bind fun _ =>
      quiet_pure _
  | value d => exact (quiet_ofResult _).bind fun _ => quiet_pure _

/-- An executor without buffers that is there now, at most, makes no difference. -/
theorem like_of_executors {pool : Pool} (orderly : s.Orderly)
    (executors : pool.executors = s.pool.executors
      ∨ ∃ x, pool.executors = s.pool.executors.push x ∧ x.Fresh s.pool.executors.size) :
    s.Like { s with pool := pool } := by
  rcases executors with same | ⟨x, more, fresh⟩
  · refine ⟨fun i y found => orderly i y (same ▸ found), rfl, fun h => ?_⟩
    unfold references
    rw [same]
  · obtain ⟨number, empty⟩ := fresh.empty
    rw [Executor.owner_counts] at number
    have positive : x.counts.Positive := fun n slot known => by
      rw [Table.slot?, empty] at known
      simp at known
    have later : Orderly { s with pool := pool } := by
      intro i y found
      rw [more, Array.getElem?_push] at found
      split at found
      · next last =>
        cases found
        exact ⟨number.trans last.symm, positive⟩
      · exact orderly i y found
    refine ⟨later, rfl, fun h => ?_⟩
    -- Nobody has a buffer of the new executor yet, nor had one of the number that it takes.
    by_cases last : h.owner = s.pool.executors.size
    · have found : pool.executors[h.owner]? = some x := by rw [more, last, Array.getElem?_push_size]
      rw [later.references_eq found, references_none (by rw [last]; exact Array.getElem?_eq_none (Nat.le_refl _))]
      exact Table.references_of_size_le (by rw [empty]; exact Nat.zero_le _)
    · unfold references
      dsimp only
      rw [more, Array.getElem?_push, if_neg last]

theorem quiet_executorFor (given : Datum) : Quiet (executorFor given) := by
  have named : ∀ asked : Datum, Quiet (do
      let found ← ofResult ((← get).pool.request asked)
      modify fun s => { s with pool := found.2 }
      return found.1) := by
    intro asked s orderly
    cases known : s.pool.request asked with
    | error e =>
      have ran : (ofResult (s.pool.request asked)).run.run s = (.error e, s) := by
        rw [known]
        rfl
      rw [run_bind_ok (runs_get s), run_bind_error ran]
      exact .refl orderly
    | ok found =>
      obtain ⟨owner, pool⟩ := found
      have ran : (ofResult (s.pool.request asked)).run.run s = (.ok (owner, pool), s) := by
        rw [known]
        rfl
      rw [run_bind_ok (runs_get s), run_bind_ok ran]
      exact like_of_executors orderly (Pool.executors_of_request known)
  cases given with
  | none => exact named .none
  | text name => exact named (.text name)
  | scalar value => exact quiet_throw _
  | list items => exact quiet_throw _
  | slice start stop step => exact quiet_throw _

/-! ## Taking references over and giving them back -/

theorem Lands.of_tensors {out : Except Failure α × Session} (lands : Lands before strays s' made out)
    (same : s'.tensors = s.tensors) : Lands before strays s made out where
  ok := fun done => ⟨(lands.ok done).1, (change_of_tensors same).trans (lands.ok done).2⟩
  error := fun failed => ⟨(change_of_tensors same).trans (lands.error failed).1, (lands.error failed).2⟩

/-- A view of an array takes a reference of its own. -/
theorem Balanced.lands_view [Room] (balanced : Balanced before strays s) (known : s.tensors[r.number]? = some t)
    (layout : Layout) : Lands before strays s some ((view t layout).run.run s) := by
  cases live : t.disposed with
  | true =>
    have refused : (requireLive t).run.run s = (.error (.lifetime .disposed t.handle.slot), s) := by
      unfold requireLive
      rw [if_pos live]
      rfl
    unfold view
    rw [run_bind_error refused]
    exact lands_error balanced (change_of_tensors rfl)
  | false =>
    obtain ⟨s', ran, pushed, later⟩ := balanced.share ⟨known, live⟩ layout
    rw [ran]
    exact lands_ok later (change_of_push pushed live)

theorem keeps_moved [Room] (r : TensorRef) (f : Layout → Except Failure Layout) : Keeps some (moved r f) := by
  constructor
  intro before strays s balanced
  refine (quiet_find r).lands_bind balanced fun t s' ran _ => ?_
  obtain ⟨rfl, known⟩ := find_ok ran
  refine (quiet_ofResult _).lands_bind balanced fun layout s' ran _ => ?_
  obtain ⟨rfl, _⟩ := ofResult_ok ran
  exact balanced.lands_view known layout

theorem keeps_share [Room] (r : TensorRef) : Keeps some (share r) := by
  constructor
  intro before strays s balanced
  refine (quiet_find r).lands_bind balanced fun t s' ran _ => ?_
  obtain ⟨rfl, known⟩ := find_ok ran
  exact balanced.lands_view known t.layout

/-- A buffer of nobody is for a new array. It stays with nobody if there is no such array. -/
theorem Balanced.lands_adopt (balanced : Balanced before (h :: strays) s) {layout : Except Failure Layout}
    (kind : Element) (loses : ∀ e, layout = .error e → 1 ≤ e.loss) :
    Lands before strays s some ((do Session.adopt h (← ofResult layout) kind : Action TensorRef).run.run s) := by
  cases layout with
  | error e =>
    have refused : (ofResult (.error e : Except Failure Layout)).run.run s = (.error e, s) := rfl
    rw [run_bind_error refused]
    exact ⟨nofun, by
      rintro _ ⟨⟩
      exact ⟨change_of_tensors rfl, [h], loses e rfl, balanced⟩⟩
  | ok layout =>
    have live : (⟨h, layout, kind, false⟩ : Tensor).disposed = false := rfl
    exact lands_ok (balanced.adopt live rfl) (change_of_push rfl live)

/-- If the work on a buffer of nobody fails, it is given back. -/
theorem Balanced.guarded [Room] (balanced : Balanced before (h :: strays) s) {work : Action Unit} (quiet : Quiet work) :
    (∃ s', (tryCatch work fun e => do release h; throw e).run.run s = (.ok (), s')
        ∧ s'.tensors = s.tensors ∧ Balanced before (h :: strays) s')
      ∨ ∃ e s', (tryCatch work fun e => do release h; throw e).run.run s = (.error e, s')
        ∧ s'.tensors = s.tensors ∧ Balanced before strays s' := by
  have same := quiet s balanced.orderly
  cases ran : work.run.run s with
  | mk answer s' =>
    rw [ran] at same
    have later := balanced.like same
    cases answer with
    | ok _ =>
      exact .inl ⟨s', run_tryCatch_ok ran, same.tensors, later⟩
    | error e =>
      -- The handler gives the buffer back and fails like the work did.
      obtain ⟨s'', released, tensors, last⟩ := later.drop
      exact .inr ⟨e, s'', (run_tryCatch_error ran).trans (run_bind_ok released),
        tensors.trans same.tensors, last⟩

/-- A new array in a buffer of its own, which is worked on first. -/
theorem keeps_fill [Room] (owner : Nat) (size : Int) {work : Handle → Action Unit} (quiet : ∀ h, Quiet (work h))
    {layout : Except Failure Layout} (kind : Element) (loses : ∀ e, layout = .error e → 1 ≤ e.loss) :
    Keeps some (do
      let h ← allocate owner size none
      try work h
      catch e =>
        release h
        throw e
      adopt h (← ofResult layout) kind) := by
  constructor
  intro before strays s balanced
  rcases balanced.allocate owner size none with ⟨h, s₁, allocated, tensors, first⟩ | ⟨e, s₁, failed, same⟩
  · rw [run_bind_ok allocated]
    rcases first.guarded (quiet h) with ⟨s₂, worked, kept, second⟩ | ⟨e, s₂, failed, kept, second⟩
    · rw [run_bind_ok worked]
      exact (second.lands_adopt kind loses).of_tensors (kept.trans tensors)
    · rw [run_bind_error failed]
      exact lands_error second (change_of_tensors (kept.trans tensors))
  · rw [run_bind_error failed]
    exact lands_error (balanced.like same) (change_of_tensors same.tensors)

/-! ## Temporary arrays -/

/-- A temporary array can be disposed of, and does not show after that. -/
theorem Balanced.close [Room] {out : TensorRef} {made : Option TensorRef} (balanced : Balanced before strays s'')
    (first : s.Change s' (some out)) (second : s'.Change s'' made) :
    ∃ s₃, (Session.dispose out).run.run s'' = (.ok (), s₃) ∧ Balanced before strays s₃
      ∧ s.Change s₃ made := by
  obtain ⟨_, t, held⟩ := first.made rfl
  have still : s''.Held out t := ⟨(second.kept _ held.bound).trans held.1, held.2⟩
  obtain ⟨s₃, ran, tensors, later⟩ := balanced.dispose still
  exact ⟨s₃, ran, later, first.close second tensors⟩

theorem Lands.bind_temporary {a : Action TensorRef} {b : TensorRef → Action β} {made : β → Option TensorRef}
    (first : Lands before strays s some (a.run.run s))
    (rest : ∀ out s', a.run.run s = (.ok out, s') → Balanced before strays s' → s.Change s' (some out) →
      Lands before strays s made ((b out).run.run s')) :
    Lands before strays s made ((a >>= b).run.run s) := by
  cases ran : a.run.run s with
  | mk answer s' =>
    rw [ran] at first
    cases answer with
    | ok out =>
      obtain ⟨balanced, change⟩ := first.ok rfl
      rw [run_bind_ok ran]
      exact rest out s' ran balanced change
    | error e =>
      rw [run_bind_error ran]
      exact ⟨nofun, fun failed => by
        cases failed
        exact first.error rfl⟩

theorem Balanced.lands_replaced [Room] {out : TensorRef} {f : Layout → Except Failure Layout} {layout : Layout}
    (balanced : Balanced before strays s') (first : s.Change s' (some out))
    (known : s'.tensors[out.number]? = some t) (fits : f t.layout = .ok layout) :
    Lands before strays s some ((do
      let result ← moved out f
      Session.dispose out
      return result : Action TensorRef).run.run s') := by
  obtain ⟨_, u, held⟩ := first.made rfl
  obtain rfl : u = t := Option.some.inj (held.1.symm.trans known)
  obtain ⟨s₂, viewed, pushed, second⟩ := balanced.share held layout
  have ran : (moved out f).run.run s' = (.ok ⟨s'.tensors.size⟩, s₂) := by
    refine (run_bind_ok (runs_find known)).trans ?_
    rw [fits]
    exact viewed
  obtain ⟨s₃, disposed, last, change⟩ := second.close first (change_of_push pushed held.2)
  rw [run_bind_ok ran, run_bind_ok disposed]
  exact lands_ok last change

end Session

end StridedArray
