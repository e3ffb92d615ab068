import StridedArray.Proofs.Layout.Selections
import StridedArray.Proofs.Session.Balance
import StridedArray.Proofs.Session.Operands

/-! # Indexing arrays

A call that indexes an array makes another one over the same buffer. Calls may follow each other, and then each of
them selects from what the calls before it have left.

* `Subscript` — the indices of a call; `left`, `origin`, `Accepted` — the shape that a chain of calls leaves, where its
  elements come from, and that no call of it is refused;
* `Shares` — a later session with an array over a buffer that was there, and no new buffer; `runs_view`;
* `Indexed` — what becomes of one call; `indexed_call`; `runs_calls` — what becomes of a chain. -/

namespace StridedArray

open Layout (rowMajor)
open Shape (Inside product ravel)

/-! ## Calls -/

/-- The indices of one call: one alone, or several in a sequence. -/
inductive Subscript
  | one (x : BasicIndex)
  | several (xs : List BasicIndex)

namespace Subscript

def indices : Subscript → List BasicIndex
  | one x => [x]
  | several xs => xs

def datum : Subscript → Datum
  | one x => x.datum
  | several xs => .list (xs.map BasicIndex.datum)

def Steps (c : Subscript) : Prop := ∀ x ∈ c.indices, x.Steps

def Taken (shape : List Int) (c : Subscript) : Prop := c.Steps ∧ ¬ BasicIndex.RefusedBy shape c.indices

instance (c : Subscript) : Decidable c.Steps := inferInstanceAs (Decidable (∀ x ∈ c.indices, x.Steps))

instance (shape : List Int) (c : Subscript) : Decidable (c.Taken shape) := inferInstanceAs (Decidable (_ ∧ _))

theorem ofIndex_datum (c : Subscript) : Selector.ofIndex c.datum = c.indices.map BasicIndex.selector := by
  cases c with
  | one x =>
    have single : Selector.ofIndex x.datum = [Selector.ofDatum x.datum] := by cases x <;> rfl
    exact single.trans (congrArg (fun s => [s]) x.ofDatum_datum)
  | several xs =>
    show (xs.map BasicIndex.datum).map Selector.ofDatum = xs.map BasicIndex.selector
    rw [List.map_map]
    exact List.map_congr_left fun x _ => x.ofDatum_datum

/-! ### Chains of calls -/

def left : List Subscript → List Int → List Int
  | [], shape => shape
  | c :: calls, shape => left calls (BasicIndex.selected c.indices shape)

def origin : List Subscript → List Int → List Int → List Int
  | [], _, index => index
  | c :: calls, shape, index =>
    BasicIndex.source c.indices shape (origin calls (BasicIndex.selected c.indices shape) index)

def Accepted : List Subscript → List Int → Prop
  | [], _ => True
  | c :: calls, shape => c.Taken shape ∧ Accepted calls (BasicIndex.selected c.indices shape)

instance decidableAccepted : (calls : List Subscript) → (extents : List Int) → Decidable (Accepted calls extents)
  | [], _ => isTrue trivial
  | c :: calls, shape =>
    @instDecidableAnd _ _ _ (decidableAccepted calls (BasicIndex.selected c.indices shape))

end Subscript

theorem Table.Stores.retain {table later : Table Bytes} {h : Handle} {bytes : Bytes} {m n : Nat}
    (stores : table.Stores n m bytes) (known : table.retain h = .ok later) :
    later.owner = table.owner ∧ later.Stores n m bytes := by
  rw [Table.retain_eq, map_eq_ok] at known
  obtain ⟨slot, found, rfl⟩ := known
  obtain ⟨refs, enough, here⟩ := stores
  refine ⟨rfl, ?_⟩
  by_cases same : n = h.slot
  · subst same
    have slots : slot = ⟨bytes.size, refs, bytes⟩ := Option.some.inj ((Table.slot?_of_lookup found).symm.trans here)
    subst slots
    exact ⟨refs + 1, Nat.le_succ_of_le enough, Table.slot?_put_same (Table.slot?_lt here) _⟩
  · exact ⟨refs, enough, (Table.slot?_put_other same _).trans here⟩

namespace Session

variable {s s' s'' : Session} {r r' r'' : TensorRef} {t u v : Tensor} {h : Handle} {count : Int} {m n : Nat}
  {whole : List Int}

/-! ## Shared buffers -/

theorem Orderly.liveCount_eq (orderly : s.Orderly) (later : s'.Orderly)
    (same : ∀ h, 0 < s'.references h ↔ 0 < s.references h) (owner : Nat) : s'.liveCount owner = s.liveCount owner := by
  rw [← orderly.length_inUse, ← later.length_inUse]
  refine ((List.perm_ext_iff_of_nodup (nodup_inUse ..) (nodup_inUse ..)).2 fun h => ?_).length_eq
  rw [later.mem_inUse, orderly.mem_inUse, same]

theorem extends_retain (ran : Runs (retain h) s () s') : s.Extends s' := by
  cases found : s.pool.executors[h.owner]? with
  | none => cases ran.symm.trans (onExecutor_of_none found)
  | some x =>
    have both : (.ok (), s') = ((x.retain h).1, s.withExecutor h.owner (x.retain h).2) :=
      ran.symm.trans (onExecutor_of_some found)
    obtain ⟨answer, rfl⟩ := Prod.mk.inj both
    refine ⟨id, fun {k bytes} stored => ?_⟩
    obtain ⟨z, has, slot⟩ := id stored
    -- Executors other than that of the buffer are as before.
    by_cases here : k.owner = h.owner
    · obtain rfl : x = .host z := Option.some.inj (found.symm.trans (here ▸ has.found))
      cases known : z.table.retain h with
      | error e =>
        simp only [Executor.retain, Executor.withTable, known] at answer
        cases answer
      | ok table =>
        have step : ((Executor.host z).retain h).2 = .host ⟨table⟩ := by
          simp only [Executor.retain, Executor.withTable, known]
        have kept := slot.retain known
        rw [step]
        exact ⟨⟨table⟩, ⟨(executors_withExecutor found _ _).trans (if_pos here), kept.1.trans has.owner⟩, kept.2⟩
    · exact ⟨z, ⟨(executors_withExecutor found _ _).trans ((if_neg here).trans has.found), has.owner⟩, slot⟩

/-- A session that came after another one, with an array over the buffer of an array that was there. The buffer has
    so many references more, and no buffer is new. -/
structure Shares (s : Session) (t : Tensor) (s' : Session) (r : TensorRef) (v : Tensor) (n : Nat) : Prop where
  orderly : s'.Orderly
  held : s'.Held r v
  handle : v.handle = t.handle
  kind : v.kind = t.kind
  references : ∀ h, s'.references h = s.references h + if t.handle = h then n else 0
  live : ∀ owner, s'.liveCount owner = s.liveCount owner
  later : s.Extends s'

theorem Shares.refl (orderly : s.Orderly) (held : s.Held r t) : s.Shares t s r t 0 :=
  ⟨orderly, held, rfl, rfl, by simp, fun _ => rfl, ⟨id, id⟩⟩

theorem Shares.trans (first : s.Shares t s' r u m) (second : s'.Shares u s'' r' v n) :
    s.Shares t s'' r' v (m + n) where
  orderly := second.orderly
  held := second.held
  handle := second.handle.trans first.handle
  kind := second.kind.trans first.kind
  references := fun h => by
    rw [second.references, first.references, first.handle, Nat.add_assoc]
    split <;> rfl
  live := fun owner => (second.live owner).trans (first.live owner)
  later := first.later.trans second.later

theorem Shares.used (shares : s.Shares t s' r v n) (used : 0 < s.references t.handle) :
    0 < s'.references v.handle := by
  rw [shares.handle, shares.references]
  exact Nat.lt_of_lt_of_le used (Nat.le_add_right ..)

theorem runs_view [Room] (orderly : s.Orderly) (held : s.Held r t) (used : 0 < s.references t.handle) (layout : Layout) :
    ∃ s', Runs (view t layout) s ⟨s.tensors.size⟩ s'
      ∧ s.Shares t s' ⟨s.tensors.size⟩ { t with layout := layout } 1 := by
  obtain ⟨after, ran, later, tensors, references⟩ := run_retain orderly used
  have kept := extends_retain ran
  have whole : { t with layout := layout } = (⟨t.handle, layout, t.kind, false⟩ : Tensor) := by
    rw [← held.2]
  let s' : Session := { after with tensors := after.tensors.push { t with layout := layout } }
  refine ⟨s', ?_, later, ⟨?_, held.2⟩, rfl, rfl, references, ?_, fun known => ?_, fun stored => ?_⟩
  · rw [← tensors]
    refine (runs_requireLive held.2).bind (Runs.bind ran ?_)
    simp only [s', whole]
    exact runs_adopt after t.handle layout t.kind
  · rw [← tensors]
    exact Array.getElem?_push_size ..
  · -- The only buffer with another count is one that was in use.
    refine orderly.liveCount_eq later fun h => ?_
    show 0 < after.references h ↔ _
    rw [references]
    split
    · next here => exact iff_of_true (Nat.succ_pos _) (here ▸ used)
    · rfl
  · obtain ⟨bound, _⟩ := Array.getElem?_eq_some_iff.1 (kept.arrays known)
    exact (Array.getElem?_push_lt bound).trans ((Array.getElem?_eq_getElem bound).symm.trans (kept.arrays known))
  · exact (kept.buffers stored).samePool rfl

/-! ## One call -/

/-- What becomes of a call that indexes a live array: its answer, and the session after it. -/
inductive Indexed (s : Session) (t : Tensor) (count : Int) (c : Subscript) : Except Failure TensorRef × Session → Prop
  /-- There is another array over the same buffer, which shows what is selected. -/
  | viewed {s' : Session} {r : TensorRef} {v : Tensor} (taken : c.Taken t.shape) (shares : s.Shares t s' r v 1)
    (takes : v.layout.Takes t.layout count (BasicIndex.selected c.indices t.shape)
      (BasicIndex.source c.indices t.shape)) : Indexed s t count c (.ok r, s')
  /-- There are too many indices, or one of them is none of its axis. -/
  | refused (refused : BasicIndex.RefusedBy t.shape c.indices) (fault : IndexFault) :
    Indexed s t count c (.error (.index fault), s)
  /-- A slice takes no steps. -/
  | unsteady (unsteady : ¬ c.Steps) : Indexed s t count c (.error .malformed, s)

theorem Indexed.index_iff {c : Subscript} {outcome : Except Failure TensorRef × Session}
    (indexed : Indexed s t count c outcome) (steps : c.Steps) :
    (∃ fault, outcome = (.error (.index fault), s)) ↔ BasicIndex.RefusedBy t.shape c.indices := by
  cases indexed with
  | viewed taken => exact iff_of_false (fun ⟨_, failed⟩ => nomatch failed) taken.2
  | refused refused fault => exact iff_of_true ⟨fault, rfl⟩ refused
  | unsteady unsteady => exact absurd steps unsteady

theorem Indexed.unchanged {c : Subscript} {outcome : Except Failure TensorRef × Session} {e : Failure}
    (indexed : Indexed s t count c outcome) (failed : outcome = (.error e, s')) :
    s' = s ∧ (BasicIndex.RefusedBy t.shape c.indices ∨ ¬ c.Steps) := by
  cases indexed with
  | viewed => cases failed
  | refused refused =>
    cases failed
    exact ⟨rfl, .inl refused⟩
  | unsteady unsteady =>
    cases failed
    exact ⟨rfl, .inr unsteady⟩

theorem indexed_call [Room] (orderly : s.Orderly) (held : s.Held r t) (used : 0 < s.references t.handle)
    (anchored : t.layout.Anchored count) (c : Subscript) : Indexed s t count c ((index r c.datum).run.run s) := by
  have found := runs_find held.1
  have call : index r c.datum = (do
      let t ← find r
      view t (← ofResult (t.layout.select (c.indices.map BasicIndex.selector)))) := by
    unfold index moved
    rw [c.ofIndex_datum]
  have failed {e : Failure} (known : t.layout.select (c.indices.map BasicIndex.selector) = .error e) :
      (index r c.datum).run.run s = (.error e, s) := by
    rw [call, found.bind_run, known]
    rfl
  rcases anchored.select_cases c.indices with
    ⟨steps, accepted, l, selected, takes⟩ | ⟨refused, fault, known⟩ | ⟨⟨x, member, none⟩, known⟩
  · obtain ⟨s', viewed, shares⟩ := runs_view orderly held used l
    have ran : Runs (index r c.datum) s ⟨s.tensors.size⟩ s' := by
      rw [call]
      exact found.bind ((runs_ofResult selected).bind viewed)
    rw [show (index r c.datum).run.run s = _ from ran]
    exact .viewed ⟨steps, accepted⟩ shares takes
  · rw [failed known]
    exact .refused refused fault
  · rw [failed known]
    exact .unsteady fun all => none (all x member)

/-! ## Chains of calls -/

/-- Calls that are all taken select, each from what the calls before it have left. -/
theorem runs_calls [Room] (orderly : s.Orderly) (held : s.Held r t) (used : 0 < s.references t.handle)
    (anchored : t.layout.Anchored count) {calls : List Subscript} (accepted : Subscript.Accepted calls t.shape) :
    ∃ s' r' v, Runs (calls.foldlM (fun r c => index r c.datum) r) s r' s' ∧ s.Shares t s' r' v calls.length
      ∧ v.layout.Takes t.layout count (Subscript.left calls t.shape) (Subscript.origin calls t.shape) := by
  -- The first call gives an array over the same buffer, and the others go on from that one.
  induction calls generalizing s r t with
  | nil => exact ⟨s, r, t, runs_pure .., .refl orderly held, anchored, .refl _⟩
  | cons c calls inductionHypothesis =>
    have first := indexed_call orderly held used anchored c
    generalize ran : (index r c.datum).run.run s = answer at first
    cases first with
    | @viewed s' r' v taken shares takes =>
      have shape : v.shape = BasicIndex.selected c.indices t.shape := takes.shape_eq
      obtain ⟨s'', r'', w, runs, more, taken⟩ :=
        inductionHypothesis shares.orderly shares.held (shares.used used) takes.anchored (shape ▸ accepted.2)
      rw [shape] at taken
      refine ⟨s'', r'', w, ?_, ?_, takes.trans taken⟩
      · rw [List.foldlM_cons]
        exact Runs.bind ran runs
      · rw [List.length_cons, Nat.add_comm]
        exact shares.trans more
    | refused refused => exact absurd refused accepted.1.2
    | unsteady unsteady => exact absurd accepted.1.1 unsteady

/-- A whole array that is seen through a chain of calls shows its numbers at other multi-indices. -/
theorem Shares.presents {owner : Nat} {x : List Int → Int} {shape : List Int} {origin : List Int → List Int}
    (shares : s.Shares t s' r' v n) (held : s.Held r t)
    (takes : v.layout.Takes t.layout (product whole) shape origin) (filled : s.Filled owner r t.kind whole x) :
    s'.Presents owner r' ⟨t.kind, shape, fun index => x (origin index)⟩ := by
  obtain ⟨u, bytes, known, carries, -, layout, size, numbers⟩ := filled
  obtain rfl : t = u := Option.some.inj (held.1.symm.trans known)
  have stored : s'.Stores v.handle 1 bytes := shares.handle ▸ shares.later.buffers carries.stored
  have count : ((bytes.size / v.kind.itemSize : Nat) : Int) = product whole := shares.kind ▸ Element.count_eq size
  refine ⟨v, bytes, shares.held.1,
    ⟨shares.held.2, shares.kind ▸ carries.whole, ?_, shares.kind ▸ carries.elements, stored⟩,
    shares.kind, takes.shape_eq, count ▸ takes.anchored, fun index inside => ?_⟩
  · rw [shares.handle, carries.owner]
  · rw [layout] at takes
    obtain ⟨source, address⟩ := takes.address_rowMajor inside
    rw [Layout.address_eq (takes.shape_eq.symm ▸ inside)] at address
    rw [Layout.entry, Except.ok.inj address, shares.kind]
    exact numbers _ source

theorem orderly_onHost : onHost.Orderly := by
  rintro (_ | i) x found
  · cases found
    exact ⟨rfl, fun n slot known => by simp [onHost, Executor.counts, Table.forget, Table.slot?, Host.fresh] at known⟩
  · cases found

theorem orderly_alone [Room] (values : List Int) (layout : Layout) : (alone values layout).Orderly := by
  have made := runs_allocate_some hasHost_onHost (Element.int32.bytesOf values)
  rcases run_allocate orderly_onHost 0 (Element.int32.bytesOf values).size (some (Element.int32.bytesOf values)) with
    ⟨h, s', ran, orderly, -⟩ | ⟨e, s', failed, -⟩
  · obtain ⟨-, rfl⟩ := Prod.mk.inj (made.symm.trans ran)
    exact orderly
  · cases made.symm.trans failed

/-- Every other integer of the last row of two, and then the last two of these. -/
def lastOfRow : List Subscript :=
  [.several [.position (-1), .slice none none (some 2)], .one (.slice (some (-2)) (some 99) none)]

/-- Basic indexing of a whole array, on any executor. A chain of calls that are taken gives an array over the same
    buffer, of the shape that the calls leave, and every element of it is one of the whole array. Another call is
    refused just if it has too many indices, or one that is none of its axis; if it fails, the session is as before. -/
theorem index_of_upload [Room] (orderly : s.Orderly) (held : s.Held r t) (used : 0 < s.references t.handle)
    (layout : t.layout = rowMajor whole) (natural : ∀ n ∈ whole, 0 ≤ n) {calls : List Subscript}
    (accepted : Subscript.Accepted calls whole) :
    ∃ s' r' v, Runs (calls.foldlM (fun r c => index r c.datum) r) s r' s' ∧ s.Shares t s' r' v calls.length
      ∧ v.shape = Subscript.left calls whole
      ∧ (∀ index, Inside index v.shape → Inside (Subscript.origin calls whole index) whole
        ∧ v.layout.address index = .ok (some (ravel (Subscript.origin calls whole index) whole)))
      ∧ (∀ owner x, s.Filled owner r t.kind whole x → s'.Presents owner r'
        ⟨t.kind, Subscript.left calls whole, fun index => x (Subscript.origin calls whole index)⟩)
      ∧ ∀ c : Subscript, (c.Steps → ((∃ fault, (index r' c.datum).run.run s' = (.error (.index fault), s'))
          ↔ BasicIndex.RefusedBy v.shape c.indices))
        ∧ ∀ e s'', (index r' c.datum).run.run s' = (.error e, s'') → s'' = s'
          ∧ (BasicIndex.RefusedBy v.shape c.indices ∨ ¬ c.Steps) := by
  have extents : t.shape = whole := congrArg Layout.shape layout
  have anchored : t.layout.Anchored (product whole) := layout ▸ Layout.anchored_rowMajor natural
  obtain ⟨s', r', v, runs, shares, takes⟩ := runs_calls orderly held used anchored (extents ▸ accepted)
  rw [extents] at takes
  have shape : v.shape = Subscript.left calls whole := takes.shape_eq
  refine ⟨s', r', v, runs, shares, shape, fun index inside => ?_, fun owner x => shares.presents held takes,
    fun c => ?_⟩
  · rw [layout] at takes
    exact takes.address_rowMajor (shape ▸ inside)
  · have next := indexed_call shares.orderly shares.held (shares.used used) takes.anchored c
    exact ⟨next.index_iff, fun e s'' => next.unchanged⟩

/-- The two integers are found where they were. There is no third one. -/
theorem index_of_upload_row :
    ∃ s' r' x, Runs (lastOfRow.foldlM (fun r c => index r c.datum) ⟨0⟩)
        (alone [0, 1, 2, 3, 4, 5, 6, 7, 8, 9] (rowMajor [2, 5])) r' s'
      ∧ s'.references ⟨0, 0⟩ = 3 ∧ s'.liveCount 0 = 1
      ∧ s'.Presents 0 r' ⟨.int32, [2], x⟩ ∧ x [0] = 7 ∧ x [1] = 9
      ∧ ∃ fault, (index r' (.int 2)).run.run s' = (.error (.index fault), s') := by
  let values : List Int := [0, 1, 2, 3, 4, 5, 6, 7, 8, 9]
  have filled : (alone values (rowMajor [2, 5])).Filled 0 ⟨0⟩ .int32 [2, 5] (listed [2, 5] values) :=
    filled_alone (by decide) (by decide)
  have held : (alone values (rowMajor [2, 5])).Held ⟨0⟩ ⟨⟨0, 0⟩, rowMajor [2, 5], .int32, false⟩ := ⟨rfl, rfl⟩
  obtain ⟨s', r', v, runs, shares, shape, -, shows, next⟩ :=
    index_of_upload (orderly_alone values (rowMajor [2, 5])) held (by decide) rfl (by decide)
      (show Subscript.Accepted lastOfRow [2, 5] by decide)
  refine ⟨s', r', _, runs, shares.references _, shares.live 0, shows 0 _ filled, by decide, by decide, ?_⟩
  refine ((next (.one (.position 2))).1 (by decide)).2 ?_
  rw [shape]
  decide

end Session

end StridedArray
