import StridedArray.Proofs.Kernel.Host
import StridedArray.Tensor.Movement

/-! # Successful actions

* `Runs` — an action that succeeds, with its answer and the session after it; how actions that are put
  together run;
* `HasHost`, `Stores` — the host executors and the buffers of a session;
* `runs_allocate`, `runs_retain`, `runs_release` — buffers; `runs_find`, `runs_live` — arrays. -/

namespace StridedArray.Session

/-! ## Running actions -/

def Runs {α : Type} (x : Action α) (s : Session) (a : α) (s' : Session) : Prop :=
  x.run.run s = (.ok a, s')

variable {α β : Type} {s s' s'' : Session} {a : α} {b : β}

theorem Runs.bind_run {x : Action α} (first : Runs x s a s') (f : α → Action β) :
    (x >>= f).run.run s = (f a).run.run s' := by
  unfold Runs at first
  rw [ExceptT.run_bind, StateT.run_bind, first]
  rfl

theorem Runs.bind {x : Action α} {f : α → Action β} (first : Runs x s a s') (rest : Runs (f a) s' b s'') :
    Runs (x >>= f) s b s'' :=
  (first.bind_run f).trans rest

theorem runs_pure (a : α) (s : Session) : Runs (pure a) s a s := rfl

theorem runs_get (s : Session) : Runs get s s s := rfl

theorem runs_ofResult {r : Except Failure α} (known : r = .ok a) : Runs (ofResult r) s a s := by
  subst known
  rfl

theorem Runs.tryCatch {x : Action α} {handler : Failure → Action α} (first : Runs x s a s') :
    Runs (tryCatch x handler) s a s' := by
  unfold Runs at *
  rw [ExceptT.run_tryCatch, StateT.run_bind, first]
  rfl

/-! ## Executors -/

structure HasHost (s : Session) (owner : Nat) (x : Host) : Prop where
  found : s.pool.executors[owner]? = some (.host x)
  owner : x.table.owner = owner

def withHost (s : Session) (owner : Nat) (x : Host) : Session :=
  { s with pool := { s.pool with executors := s.pool.executors.setIfInBounds owner (.host x) } }

variable {owner other : Nat} {x y : Host} {h : Handle} {bytes : Bytes}

theorem HasHost.withHost (has : s.HasHost owner x) (same : y.table.owner = owner) :
    (s.withHost owner y).HasHost owner y := by
  obtain ⟨bound, _⟩ := Array.getElem?_eq_some_iff.1 has.found
  exact ⟨Array.getElem?_setIfInBounds_self_of_lt bound, same⟩

theorem HasHost.withHost_other (has : s.HasHost owner x) (different : owner ≠ other) :
    (s.withHost other y).HasHost owner x :=
  ⟨(Array.getElem?_setIfInBounds_ne different.symm).trans has.found, has.owner⟩

theorem HasHost.unique (first : s.HasHost owner x) (second : s.HasHost owner y) : x = y := by
  have same := first.found.symm.trans second.found
  simpa using same

theorem HasHost.withHost_self (has : s.HasHost owner x) : s.withHost owner x = s := by
  obtain ⟨bound, found⟩ := Array.getElem?_eq_some_iff.1 has.found
  rw [Session.withHost, ← found, Array.setIfInBounds, dif_pos bound, Array.set_getElem_self]

@[simp] theorem withHost_withHost (s : Session) (owner : Nat) (x y : Host) :
    (s.withHost owner x).withHost owner y = s.withHost owner y := by
  simp [withHost, Array.setIfInBounds_setIfInBounds]

@[simp] theorem tensors_withHost (s : Session) (owner : Nat) (x : Host) :
    (s.withHost owner x).tensors = s.tensors := rfl

theorem HasHost.runs {f : Executor → Executor.Step α} (has : s.HasHost owner x)
    (step : f (.host x) = (.ok a, .host y)) : Runs (onExecutor owner f) s a (s.withHost owner y) := by
  have executor : Runs (executor owner) s (.host x) s := by
    refine (runs_get s).bind ?_
    rw [has.found]
    exact runs_pure _ s
  refine executor.bind ?_
  dsimp only
  rw [step]
  rfl

/-! ## Buffers -/

/-- A buffer of a host executor with its bytes, to which there are at least so many references. -/
def Stores (s : Session) (h : Handle) (least : Nat) (bytes : Bytes) : Prop :=
  ∃ x, s.HasHost h.owner x ∧ x.table.Stores h.slot least bytes

variable {least : Nat}

theorem Stores.samePool (stores : s.Stores h least bytes) (same : s'.pool = s.pool) :
    s'.Stores h least bytes := by
  obtain ⟨x, has, slot⟩ := stores
  exact ⟨x, ⟨by rw [same]; exact has.found, has.owner⟩, slot⟩

theorem Stores.withHost (stores : s.Stores h least bytes) (has : s.HasHost owner x)
    (same : y.table.owner = owner)
    (kept : h.owner = owner → x.table.Stores h.slot least bytes → y.table.Stores h.slot least bytes) :
    (s.withHost owner y).Stores h least bytes := by
  obtain ⟨z, found, slot⟩ := stores
  by_cases here : h.owner = owner
  · have single : z = x := found.unique (by rwa [here])
    rw [single] at slot
    exact ⟨y, by rw [here]; exact has.withHost same, kept here slot⟩
  · exact ⟨z, found.withHost_other here, slot⟩

theorem holds_few [Room] (kind : Element) {count : Int} (few : count < 0x80000000) :
    count * kind.itemSize < Room.limit := by
  have ample := Room.ample
  cases kind <;> simp only [Element.itemSize] at ample ⊢ <;> omega

theorem runs_allocate [Room] (has : s.HasHost owner x) {size : Int} (natural : 0 ≤ size)
    (room : size < Room.limit) :
    Runs (allocate owner size none) s ⟨owner, x.table.slots.size⟩
      (s.withHost owner ⟨(x.table.allocate size.toNat (Array.replicate size.toNat 0)).2⟩) := by
  refine has.runs ?_
  unfold Executor.allocate initialBytes
  rw [if_neg (by simp; omega), if_neg (by omega)]
  simp [pure, Except.pure, Table.allocate, has.owner]

theorem runs_allocate_some [Room] (has : s.HasHost owner x) (bytes : Bytes) :
    Runs (allocate owner bytes.size (some bytes)) s ⟨owner, x.table.slots.size⟩
      (s.withHost owner ⟨(x.table.allocate bytes.size bytes).2⟩) := by
  refine has.runs ?_
  unfold Executor.allocate initialBytes
  rw [if_neg (by simp), if_neg (by omega)]
  simp [pure, Except.pure, Table.allocate, has.owner]

theorem Stores.runs_retain (stores : s.Stores h least bytes) :
    ∃ s', Runs (retain h) s () s' ∧ s'.tensors = s.tensors ∧ s'.Stores h (least + 1) bytes
      ∧ ∀ {k n b}, s.Stores k n b → s'.Stores k n b := by
  obtain ⟨x, has, refs, enough, slot⟩ := stores
  have retained : x.table.retain h = .ok (x.table.put h.slot (some ⟨bytes.size, refs + 1, bytes⟩)) := by
    unfold Table.retain
    rw [Table.lookup_ok has.owner.symm slot]
    rfl
  refine ⟨s.withHost h.owner ⟨x.table.put h.slot (some ⟨bytes.size, refs + 1, bytes⟩)⟩, has.runs ?_, rfl,
    ?_, ?_⟩
  · unfold Executor.retain Executor.withTable
    simp only [retained]
    rfl
  · exact ⟨_, has.withHost has.owner, refs + 1, by omega, Table.slot?_put_same (Table.slot?_lt slot) _⟩
  · intro k n b other
    refine other.withHost has has.owner fun _ inTable => ?_
    obtain ⟨before, most, known⟩ := inTable
    refine Table.Stores.put ⟨before, most, known⟩ slot fun same => ?_
    rw [same, slot] at known
    have counts : refs = before := congrArg Slot.refcount (Option.some.inj known)
    omega

/-- One reference less to a buffer that has another one. -/
theorem Stores.runs_release (stores : s.Stores h 2 bytes) :
    ∃ s', Runs (release h) s () s' ∧ s'.tensors = s.tensors
      ∧ ∀ {k b}, s.Stores k 1 b → s'.Stores k 1 b := by
  obtain ⟨x, has, refs, enough, slot⟩ := stores
  have released : x.table.release h = .ok (x.table.put h.slot (some ⟨bytes.size, refs - 1, bytes⟩)) := by
    unfold Table.release
    rw [Table.lookup_ok has.owner.symm slot, ok_bind]
    dsimp only
    rw [if_neg (by omega)]
    rfl
  refine ⟨s.withHost h.owner ⟨x.table.put h.slot (some ⟨bytes.size, refs - 1, bytes⟩)⟩, has.runs ?_, rfl, ?_⟩
  · unfold Executor.release Executor.withTable
    simp only [released]
    rfl
  · intro k b other
    exact other.withHost has has.owner fun _ inTable => inTable.put slot fun _ => by omega

/-! ## Finding arrays -/

variable {r : TensorRef} {t : Tensor}

theorem runs_find (known : s.tensors[r.number]? = some t) : Runs (find r) s t s := by
  refine (runs_get s).bind ?_
  rw [known]
  exact runs_pure t s

theorem runs_requireLive (live : t.disposed = false) : Runs (requireLive t) s () s := by
  unfold requireLive
  rw [if_neg (by simp [live])]
  exact runs_pure () s

theorem runs_live (known : s.tensors[r.number]? = some t) (undisposed : t.disposed = false) :
    Runs (live r) s t s :=
  (runs_find known).bind ((runs_requireLive undisposed).bind (runs_pure t s))

end StridedArray.Session
