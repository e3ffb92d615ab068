import StridedArray.Proofs.Executor.Schedules
import StridedArray.Proofs.Kernel.Accepted

/-! # Executing is all or nothing

A kernel of the host writes its outputs one after the other, and each of these writes could fail by itself. None
does: validation has made sure of the room, and by the first write all outputs are computed. So whatever fails
leaves the host as it was, and what does not fail changes the fronts of the outputs only.

* `Host.write`, `Host.writeAll`, `Host.executeInSteps` — executing step by step; what was done before a failure
  stays done;
* `Host.Sized` — memory is as large as the table says; `Host.HasRoom` — a write fits;
* `Host.Framed` — what two hosts have in common behind given fronts;
* `Host.executeInSteps_cases` — one call; `Host.execute_atomic` — every call on every host. -/

namespace StridedArray

/-! ## Sizes of outputs -/

theorem Element.length_encode {kind : Element} {value : Scalar} {bytes : List UInt8}
    (encoded : kind.encode value = .ok bytes) : bytes.length = kind.itemSize := by
  cases kind with
  | bool =>
    cases encoded
    rfl
  | int32 =>
    simp only [encode, bind_eq_ok, pure_eq_ok] at encoded
    obtain ⟨n, -, word, -, rfl⟩ := encoded
    rfl
  | float32 =>
    cases value with
    | nan negative fraction =>
      cases encoded
      rfl
    | _ =>
      simp only [encode, bind_eq_ok, pure_eq_ok] at encoded
      obtain ⟨x, -, rfl⟩ := encoded
      rfl

theorem size_outputBytes {e : Expr} {buffers : Buffers} {size : Int} {bytes : Bytes}
    (computed : outputBytes e buffers size = .ok bytes) : bytes.size = size.toNat * e.kind.itemSize := by
  have appended : ∀ (positions : List Nat) (front : Bytes), positions.foldlM (fun (out : Bytes) position => do
      return out ++ (← elementBytes e buffers position).toArray) front = .ok bytes →
      bytes.size = front.size + positions.length * e.kind.itemSize := by
    intro positions
    induction positions with
    | nil =>
      intro front done
      cases done
      simp
    | cons position positions inductionHypothesis =>
      intro front done
      simp only [List.foldlM_cons, bind_eq_ok, pure_eq_ok] at done
      obtain ⟨_, ⟨element, value, rfl⟩, rest⟩ := done
      simp only [elementBytes, bind_eq_ok] at value
      obtain ⟨x, -, encoded⟩ := value
      have longer : (front ++ element.toArray).size = front.size + e.kind.itemSize := by
        simp [Element.length_encode encoded]
      rw [inductionHypothesis _ rest, longer, List.length_cons, Nat.succ_mul]
      omega
  unfold outputBytes at computed
  simp only [throw_bind, refuse_eq_ok, mapError_eq_ok] at computed
  rw [appended _ _ computed.2, List.length_range]
  exact Nat.zero_add _

/-- The fronts that a kernel writes: those of its outputs, each as long as the elements at all positions. -/
def Kernel.fronts (kernel : Kernel) (outs : List (Handle × Slot Bytes)) : List (Nat × Nat) :=
  (outs.zip kernel.exprs).map fun output => (output.1.1.slot, kernel.size.toNat * output.2.kind.itemSize)

/-! ## Step by step -/

namespace Host

def stored (x : Host) (slot : Nat) (bytes : Bytes) : Host :=
  { x with table := x.table.modifyContent slot fun old => storeFront old bytes }

/-- Write over the front of a slot. Memory that is too short for it is left alone. -/
def write (x : Host) (slot : Nat) (bytes : Bytes) : Except Failure Host :=
  match x.table.slot? slot with
  | none => throw .noElement
  | some s => if s.content.size < bytes.size then throw .malformed else pure (x.stored slot bytes)

/-- Write over the fronts of several slots in turn, up to the first write that fails. -/
def writeAll (x : Host) : List (Nat × Bytes) → Except Failure Unit × Host
  | [] => (pure (), x)
  | (slot, bytes) :: rest =>
    match x.write slot bytes with
    | .ok x => writeAll x rest
    | .error f => (throw f, x)

/-- Execute expressions step by step: validation, the outputs one after the other, then the writes one after
    the other. A failure leaves the host as it is by then. -/
def executeInSteps (x : Host) (exprs : List Expr) (inputs outputs : List HandleArgument) :
    Except Failure Unit × Host :=
  match Executor.plan x.table exprs inputs outputs with
  | .error f => (throw f, x)
  | .ok (kernel, ins, outs) =>
    let buffers := kernel.buffers (ins.map fun b => b.2.content)
    match kernel.exprs.mapM fun e => outputBytes e buffers kernel.size with
    | .error f => (throw f, x)
    | .ok results => x.writeAll ((outs.map fun b => b.1.slot).zip results)

/-! ## Room and frames -/

def Sized (x : Host) : Prop := ∀ n s, x.table.slot? n = some s → s.content.size = s.size

def HasRoom (x : Host) (write : Nat × Bytes) : Prop :=
  ∃ s, x.table.slot? write.1 = some s ∧ write.2.size ≤ s.content.size

/-- The second host has the slots of the first one, with the same sizes and references and with the same bytes
    behind the given fronts. -/
structure Framed (x y : Host) (fronts : List (Nat × Nat)) : Prop where
  owner : y.table.owner = x.table.owner
  count : y.table.slots.size = x.table.slots.size
  unused : ∀ n, x.table.slot? n = none → y.table.slot? n = none
  used : ∀ n s, x.table.slot? n = some s → ∃ t, y.table.slot? n = some t
    ∧ t.size = s.size ∧ t.refcount = s.refcount ∧ t.content.size = s.content.size
    ∧ ∀ k, (∀ front ∈ fronts, front.1 = n → front.2 ≤ k) → t.content[k]? = s.content[k]?

variable {x y z : Host} {slot : Nat} {bytes : Bytes} {fronts others : List (Nat × Nat)}

theorem Framed.refl (x : Host) (fronts : List (Nat × Nat)) : x.Framed x fronts :=
  ⟨rfl, rfl, fun _ => id, fun _ s known => ⟨s, known, rfl, rfl, rfl, fun _ _ => rfl⟩⟩

theorem Framed.trans (first : x.Framed y fronts) (second : y.Framed z others) :
    x.Framed z (fronts ++ others) where
  owner := second.owner.trans first.owner
  count := second.count.trans first.count
  unused n none := second.unused n (first.unused n none)
  used n s known := by
    obtain ⟨t, found, size, refs, length, same⟩ := first.used n s known
    obtain ⟨u, last, size', refs', length', same'⟩ := second.used n t found
    refine ⟨u, last, size'.trans size, refs'.trans refs, length'.trans length, fun k behind => ?_⟩
    rw [same' k fun front member => behind front (List.mem_append_right _ member),
      same k fun front member => behind front (List.mem_append_left _ member)]

theorem Framed.sized (framed : x.Framed y fronts) (sized : x.Sized) : y.Sized := by
  intro n t found
  cases known : x.table.slot? n with
  | none =>
    rw [framed.unused n known] at found
    cases found
  | some s =>
    obtain ⟨_, found', size, -, length, -⟩ := framed.used n s known
    rw [found] at found'
    cases found'
    rw [length, size, sized n s known]

theorem Framed.hasRoom (framed : x.Framed y fronts) {write : Nat × Bytes} (room : x.HasRoom write) :
    y.HasRoom write := by
  obtain ⟨s, known, enough⟩ := room
  obtain ⟨t, found, -, -, length, -⟩ := framed.used _ s known
  exact ⟨t, found, length ▸ enough⟩

theorem size_storeFront {old new : Bytes} (enough : new.size ≤ old.size) : (storeFront old new).size = old.size := by
  simp [storeFront]
  omega

theorem getElem?_storeFront {old new : Bytes} {k : Nat} (behind : new.size ≤ k) :
    (storeFront old new)[k]? = old[k]? := by
  unfold storeFront
  rw [Array.getElem?_append_right behind, Array.drop, Array.getElem?_extract]
  by_cases inside : k < old.size
  · rw [if_pos (by omega), Nat.add_sub_cancel' behind]
  · rw [if_neg (by omega), Array.getElem?_eq_none (Nat.le_of_not_lt inside)]

theorem framed_stored (room : x.HasRoom (slot, bytes)) : x.Framed (x.stored slot bytes) [(slot, bytes.size)] where
  owner := Table.owner_modifyContent ..
  count := by
    have counts := congrArg (fun t : Table Unit => t.slots.size) (Table.forget_modifyContent x.table slot
      fun old => storeFront old bytes)
    simp only [Table.size_forget] at counts
    exact counts
  unused n none := by
    show (x.table.modifyContent slot _).slot? n = _
    rw [Table.slot?_modifyContent, none]
    rfl
  used n s known := by
    obtain ⟨_, found, enough⟩ := room
    refine ⟨_, (Table.slot?_modifyContent ..).trans (congrArg (Option.map _) known), ?_⟩
    by_cases here : n = slot
    · subst here
      obtain rfl := Option.some.inj (known.symm.trans found)
      dsimp only
      rw [if_pos rfl]
      refine ⟨rfl, rfl, size_storeFront enough, fun k behind => ?_⟩
      exact getElem?_storeFront (behind _ (List.mem_singleton_self _) rfl)
    · dsimp only
      rw [if_neg here]
      exact ⟨rfl, rfl, rfl, fun _ _ => rfl⟩

theorem write_ok (room : x.HasRoom (slot, bytes)) : x.write slot bytes = .ok (x.stored slot bytes) := by
  obtain ⟨s, known, enough⟩ := room
  unfold write
  rw [known]
  exact if_neg (Nat.not_lt.2 enough)

/-- Writes that have room all succeed, and change the fronts of their slots only. -/
theorem writeAll_ok {writes : List (Nat × Bytes)} (room : ∀ write ∈ writes, x.HasRoom write) :
    x.writeAll writes = (.ok (), writes.foldl (fun x write => x.stored write.1 write.2) x)
      ∧ x.Framed (writes.foldl (fun x write => x.stored write.1 write.2) x)
        (writes.map fun write => (write.1, write.2.size)) := by
  induction writes generalizing x with
  | nil => exact ⟨rfl, Framed.refl x []⟩
  | cons write writes inductionHypothesis =>
    obtain ⟨here, others⟩ := List.forall_mem_cons.1 room
    have framed := framed_stored here
    obtain ⟨rest, framedRest⟩ := inductionHypothesis fun other member => framed.hasRoom (others other member)
    refine ⟨?_, framed.trans framedRest⟩
    rw [writeAll, write_ok here]
    exact rest

/-! ## One call -/

variable {exprs : List Expr} {inputs outputs : List HandleArgument}

theorem execute_of_plan_failed {f : Failure} (failed : Executor.plan x.table exprs inputs outputs = .error f) :
    (Executor.host x).execute exprs inputs outputs = (.error f, .host x) := by
  unfold Executor.execute
  simp only [failed]
  rfl

theorem foldl_stored (writes : List (Nat × Bytes)) (x : Host) :
    writes.foldl (fun x write => x.stored write.1 write.2) x
      = ⟨writes.foldl (fun t write => t.modifyContent write.1 fun old => storeFront old write.2) x.table⟩ := by
  induction writes generalizing x with
  | nil => rfl
  | cons write writes inductionHypothesis => exact inductionHypothesis (x.stored write.1 write.2)

/-- The host executes a kernel that it has accepted as far as all of its outputs can be computed. -/
theorem execute_of_plan {kernel : Kernel} {ins outs : List (Handle × Slot Bytes)}
    (planned : Executor.plan x.table exprs inputs outputs = .ok (kernel, ins, outs)) :
    (Executor.host x).execute exprs inputs outputs
      = match kernel.exprs.mapM fun e => outputBytes e (kernel.buffers (ins.map fun b => b.2.content)) kernel.size with
        | .error f => (.error f, .host x)
        | .ok results => (.ok (), .host (((outs.map fun b => b.1.slot).zip results).foldl
            (fun x write => x.stored write.1 write.2) x)) := by
  have ran : x.run kernel (ins.map fun b => b.2.content) (outs.map fun b => b.1.slot)
      = (kernel.exprs.mapM fun e => outputBytes e (kernel.buffers (ins.map fun b => b.2.content)) kernel.size)
        >>= fun results => .ok (((outs.map fun b => b.1.slot).zip results).foldl
          (fun x write => x.stored write.1 write.2) x) := by
    simp only [foldl_stored]
    rfl
  cases computed : kernel.exprs.mapM fun e =>
      outputBytes e (kernel.buffers (ins.map fun b => b.2.content)) kernel.size with
  | ok results =>
    rw [computed, ok_bind] at ran
    exact Executor.execute_host planned ran
  | error f =>
    have result : (Executor.plan x.table exprs inputs outputs >>= fun planned =>
        x.run planned.1 (planned.2.1.map fun b => b.2.content) (planned.2.2.map fun b => b.1.slot)) = .error f := by
      rw [planned, ok_bind]
      rw [computed] at ran
      exact ran
    unfold Executor.execute
    simp only [result]
    rfl

theorem toNat_mul_le {size : Int} {itemSize room : Nat} (enough : size * itemSize ≤ room) :
    size.toNat * itemSize ≤ room := by
  cases Int.le_total 0 size with
  | inl nonneg =>
    rw [← Int.ofNat_le, Nat.cast_mul, Int.toNat_of_nonneg nonneg]
    exact enough
  | inr nonpos =>
    rw [Int.toNat_of_nonpos nonpos, Nat.zero_mul]
    exact Nat.zero_le _

theorem hasRoom_of_plan (sized : x.Sized) {kernel : Kernel} {ins outs : List (Handle × Slot Bytes)}
    (planned : Executor.plan x.table exprs inputs outputs = .ok (kernel, ins, outs)) {buffers : Buffers}
    {results : List Bytes}
    (computed : kernel.exprs.mapM (fun e => outputBytes e buffers kernel.size) = .ok results) :
    (∀ write ∈ (outs.map fun b => b.1.slot).zip results, x.HasRoom write)
      ∧ ((outs.map fun b => b.1.slot).zip results).map (fun write => (write.1, write.2.size))
        = kernel.fronts outs := by
  obtain ⟨-, -, resolved, accepted⟩ := Executor.plan_eq_ok.1 planned
  obtain ⟨same, -, -, room⟩ := accepted_of_plan accepted
  rw [← same, List.zip_map_left, List.forall_mem_map] at room
  have sizes : List.Forall₂ (fun (e : Expr) (bytes : Bytes) => bytes.size = kernel.size.toNat * e.kind.itemSize)
      kernel.exprs results := (mapM_eq_ok.1 computed).imp fun _ _ => size_outputBytes
  have slots : ∀ b ∈ outs, x.table.slot? b.1.slot = some b.2 := fun b member =>
    Table.slot?_of_lookup (Executor.lookup_of_mapM_resolve resolved member).2
  -- The writes are a list of pairs, and so are the outputs with their expressions: both by induction on the outputs.
  unfold Kernel.fronts
  generalize kernel.exprs = exprs at room sizes
  clear computed planned resolved accepted same
  induction outs generalizing exprs results with
  | nil => exact ⟨nofun, rfl⟩
  | cons b outs inductionHypothesis =>
    cases sizes with
    | nil => exact ⟨nofun, rfl⟩
    | @cons e bytes exprs results size sizes =>
      have enough := room _ (List.mem_cons_self ..)
      obtain ⟨rest, written⟩ := inductionHypothesis (fun b member => slots b (List.mem_cons_of_mem _ member))
        exprs (fun output member => room output (List.mem_cons_of_mem _ member)) sizes
      have known := slots b (List.mem_cons_self ..)
      have fits : bytes.size ≤ b.2.content.size := by
        rw [size, sized _ _ known]
        exact toNat_mul_le enough
      exact ⟨List.forall_mem_cons.2 ⟨⟨b.2, known, fits⟩, rest⟩,
        congrArg₂ List.cons (congrArg (Prod.mk b.1.slot) size) written⟩

/-- One call: either it fails and leaves the host as it was, or it changes the fronts of the outputs only. Step by
    step or not makes no difference. -/
theorem executeInSteps_cases (sized : x.Sized) (exprs : List Expr) (inputs outputs : List HandleArgument) :
    (∃ f, x.executeInSteps exprs inputs outputs = (.error f, x)
      ∧ (Executor.host x).execute exprs inputs outputs = (.error f, .host x))
    ∨ ∃ kernel ins outs y, Executor.plan x.table exprs inputs outputs = .ok (kernel, ins, outs)
      ∧ x.executeInSteps exprs inputs outputs = (.ok (), y)
      ∧ (Executor.host x).execute exprs inputs outputs = (.ok (), .host y)
      ∧ x.Framed y (kernel.fronts outs) := by
  unfold executeInSteps
  cases planned : Executor.plan x.table exprs inputs outputs with
  | error f => exact .inl ⟨f, rfl, execute_of_plan_failed planned⟩
  | ok found =>
    obtain ⟨kernel, ins, outs⟩ := found
    have executed := execute_of_plan planned
    dsimp only
    cases computed : kernel.exprs.mapM fun e =>
        outputBytes e (kernel.buffers (ins.map fun b => b.2.content)) kernel.size with
    | error f =>
      rw [computed] at executed
      exact .inl ⟨f, rfl, executed⟩
    | ok results =>
      rw [computed] at executed
      obtain ⟨room, written⟩ := hasRoom_of_plan sized planned computed
      obtain ⟨wrote, framed⟩ := writeAll_ok room
      exact .inr ⟨kernel, ins, outs, _, rfl, wrote, executed, written ▸ framed⟩

/-! ## Every call on every host -/

theorem Sized.fresh (owner : Nat) : (Host.fresh owner).Sized := nofun

theorem Sized.put (sized : x.Sized) {h : Handle} {s : Slot Bytes} (known : x.table.lookup h = .ok s)
    {entry : Option (Slot Bytes)} (keeps : ∀ t ∈ entry, t.size = s.size ∧ t.content = s.content) :
    Sized ⟨x.table.put h.slot entry⟩ := by
  have slot := Table.slot?_of_lookup known
  intro n t found
  dsimp only at found
  by_cases here : n = h.slot
  · rw [here, Table.slot?_put_same (Table.slot?_lt slot)] at found
    obtain ⟨size, content⟩ := keeps t found
    rw [size, content, sized _ s slot]
  · rw [Table.slot?_put_other here] at found
    exact sized n t found

theorem Sized.withTable (sized : x.Sized) {h : Handle}
    {f : {σ : Type} → Table σ → Except Failure (Table σ)} {entry : {σ : Type} → Slot σ → Option (Slot σ)}
    (each : ∀ {σ : Type} (t : Table σ), f t = (fun s => t.put h.slot (entry s)) <$> t.lookup h)
    (keeps : ∀ s : Slot Bytes, ∀ t ∈ entry s, t.size = s.size ∧ t.content = s.content) :
    ∃ y : Host, ((Executor.host x).withTable f).2 = .host y ∧ y.Sized := by
  unfold Executor.withTable
  simp only [each]
  cases known : x.table.lookup h with
  | error e => exact ⟨x, rfl, sized⟩
  | ok s => exact ⟨_, rfl, sized.put known (keeps s)⟩

variable [Room]

theorem Sized.allocate (sized : x.Sized) (size : Int) (initial : Option Bytes) :
    ∃ y : Host, ((Executor.host x).allocate size initial).2 = .host y ∧ y.Sized := by
  unfold Executor.allocate
  split
  · exact ⟨_, rfl, fun n s known => sized n s (x.table.slot?_skip n ▸ known)⟩
  · cases initialBytes size initial with
    | error f => exact ⟨x, rfl, sized⟩
    | ok bytes =>
      refine ⟨_, rfl, fun n s known => ?_⟩
      rw [Table.slot?_allocate_eq] at known
      split at known
      · cases known
        rfl
      · exact sized n s known

omit [Room] in
theorem Sized.execute (sized : x.Sized) (exprs : List Expr) (inputs outputs : List HandleArgument) :
    ∃ y : Host, ((Executor.host x).execute exprs inputs outputs).2 = .host y ∧ y.Sized := by
  rcases executeInSteps_cases sized exprs inputs outputs with ⟨f, -, failed⟩ | ⟨_, _, _, y, -, -, done, framed⟩
  · exact ⟨x, by rw [failed], sized⟩
  · exact ⟨y, by rw [done], framed.sized sized⟩

/-- A host stays one whatever is asked of it, and its memory stays as large as the table says. -/
theorem Sized.perform (sized : x.Sized) (c : Command) :
    ∃ y : Host, ((Executor.host x).perform c).2 = .host y ∧ y.Sized := by
  cases c with
  | allocate size initial => exact sized.allocate size initial
  | retain h =>
    refine sized.withTable (fun t => t.retain_eq h) fun s t same => ?_
    cases same
    exact ⟨rfl, rfl⟩
  | release h =>
    refine sized.withTable (fun t => t.release_eq h) fun s t same => ?_
    unfold Slot.released at same
    split at same
    · cases same
    · cases same
      exact ⟨rfl, rfl⟩
  | execute exprs inputs outputs => exact sized.execute exprs inputs outputs
  | refcount h => exact ⟨x, rfl, sized⟩
  | size h => exact ⟨x, rfl, sized⟩
  | live => exact ⟨x, rfl, sized⟩
  | read h => exact ⟨x, rfl, sized⟩
  | synchronize => exact ⟨x, rfl, sized⟩
  | close => exact ⟨x, rfl, sized⟩

theorem Sized.replay (sized : x.Sized) (turns : List Turn) :
    ∃ y : Host, ((Executor.host x).replay turns).2 = .host y ∧ y.Sized := by
  induction turns generalizing x with
  | nil => exact ⟨x, rfl, sized⟩
  | cons turn turns inductionHypothesis =>
    cases turn with
    | worker => exact inductionHypothesis sized
    | caller c =>
      obtain ⟨y, performed, fine⟩ := sized.perform c
      obtain ⟨z, went, good⟩ := inductionHypothesis fine
      refine ⟨z, ?_, good⟩
      rw [← went, ← performed]
      rfl

/-- Executing is all or nothing, whatever was asked of the host before. Either something fails, and then the host
    is as it was, although the writes are made one by one; or nothing does, and then only the fronts of the
    outputs change, which are as long as the elements that were computed. -/
theorem execute_atomic (owner : Nat) (turns : List Turn) :
    ∃ x : Host, ((Executor.host (.fresh owner)).replay turns).2 = .host x
      ∧ ∀ exprs inputs outputs,
        (∃ f, x.executeInSteps exprs inputs outputs = (.error f, x)
          ∧ (Executor.host x).execute exprs inputs outputs = (.error f, .host x))
        ∨ ∃ kernel ins outs y, Executor.plan x.table exprs inputs outputs = .ok (kernel, ins, outs)
          ∧ x.executeInSteps exprs inputs outputs = (.ok (), y)
          ∧ (Executor.host x).execute exprs inputs outputs = (.ok (), .host y)
          ∧ x.Framed y (kernel.fronts outs) := by
  obtain ⟨x, reached, sized⟩ := (Sized.fresh owner).replay turns
  exact ⟨x, reached, executeInSteps_cases sized⟩

end Host

end StridedArray
