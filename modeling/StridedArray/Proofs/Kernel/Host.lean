import StridedArray.Executor
import StridedArray.Proofs.Kernel.Products

/-! # Sums of products on the host

* `slot?_put_same`, `slot?_allocate`, `put_allocate` — slots of tables; `Table.Stores` — the bytes of a
  slot, which stay when other slots change;
* `outputBytes_ok` — the bytes of an output whose elements are known; `Host.run_ok`,
  `Executor.plan_ok`, `Executor.execute_host` — a kernel that is run, accepted, executed;
* `productSums` — the elements of a sum of products; `execute_productSum` — they are what is written. -/

namespace StridedArray

open Shape (Inside Positive product ravel unravel)

/-! ## Tables -/

namespace Table

variable {σ : Type} {t : Table σ} {n m : Nat} {s : Slot σ} {h : Handle}

theorem slot?_eq_some : t.slot? n = some s ↔ t.slots[n]? = some (some s) := by
  unfold slot?
  rw [Option.join_eq_some_iff]

theorem slot?_lt (known : t.slot? n = some s) : n < t.slots.size :=
  (Array.getElem?_eq_some_iff.1 (slot?_eq_some.1 known)).1

theorem slot?_put_same (bound : n < t.slots.size) (entry : Option (Slot σ)) :
    (t.put n entry).slot? n = entry := by
  unfold slot? put
  rw [Array.getElem?_setIfInBounds_self_of_lt bound]
  rfl

theorem slot?_put_other (other : m ≠ n) (entry : Option (Slot σ)) :
    (t.put n entry).slot? m = t.slot? m := by
  unfold slot? put
  rw [Array.getElem?_setIfInBounds_ne (Ne.symm other)]

theorem slot?_allocate_last (size : Nat) (content : σ) :
    (t.allocate size content).2.slot? t.slots.size = some ⟨size, 1, content⟩ := by
  simp [slot?, allocate]

theorem slot?_allocate (size : Nat) (content : σ) (known : t.slot? n = some s) :
    (t.allocate size content).2.slot? n = some s := by
  have bound := slot?_lt known
  rw [slot?_eq_some] at known ⊢
  simp only [allocate]
  rw [Array.getElem?_push_lt bound, ← known, Array.getElem?_eq_getElem bound]

/-- What is written into a new buffer might have been allocated with it. -/
theorem put_allocate (size : Nat) (before content : σ) :
    (t.allocate size before).2.put t.slots.size (some ⟨size, 1, content⟩)
      = (t.allocate size content).2 := by
  simp only [put, allocate]
  congr 1
  apply Array.toList_inj.1
  simp

theorem slot?_of_lookup (known : t.lookup h = .ok s) : t.slot? h.slot = some s := by
  unfold lookup at known
  split at known
  · cases known
  · split at known
    · next found =>
      cases known
      exact found
    · cases known

theorem resolve_ok (known : t.lookup h = .ok s) : t.resolve (.handle h) = .ok (h, s) := by
  show (t.lookup h >>= fun s => pure (h, s)) = _
  rw [known]
  rfl

theorem lookup_ok (owner : h.owner = t.owner) (known : t.slot? h.slot = some s) :
    t.lookup h = .ok s := by
  unfold lookup
  rw [if_neg (fun other => other owner), known]
  rfl

/-- A slot is in use and holds the bytes, with at least so many references to it. -/
def Stores (t : Table Bytes) (n least : Nat) (bytes : Bytes) : Prop :=
  ∃ refs, least ≤ refs ∧ t.slot? n = some ⟨bytes.size, refs, bytes⟩

variable {t : Table Bytes} {least refs count : Nat} {bytes held : Bytes}

theorem stores_allocate (bytes : Bytes) :
    (t.allocate bytes.size bytes).2.Stores t.slots.size 1 bytes :=
  ⟨1, Nat.le_refl 1, slot?_allocate_last ..⟩

theorem Stores.allocate (stores : t.Stores n least bytes) (size : Nat) (content : Bytes) :
    (t.allocate size content).2.Stores n least bytes := by
  obtain ⟨refs, enough, slot⟩ := stores
  exact ⟨refs, enough, slot?_allocate size content slot⟩

theorem Stores.put (stores : t.Stores n least bytes) (known : t.slot? m = some ⟨held.size, refs, held⟩)
    (enough : n = m → least ≤ count) :
    (t.put m (some ⟨held.size, count, held⟩)).Stores n least bytes := by
  obtain ⟨before, most, slot⟩ := stores
  by_cases same : n = m
  · subst same
    have content : bytes = held := congrArg Slot.content (Option.some.inj (slot.symm.trans known))
    subst content
    exact ⟨count, enough rfl, slot?_put_same (slot?_lt slot) _⟩
  · exact ⟨before, most, (slot?_put_other same _).trans slot⟩

end Table

/-! ## Outputs -/

theorem bytesOf_append (values : List Int) (n : Int) :
    bytesOf (values ++ [n]) = bytesOf values ++ (wordBytes (wordOfInt n)).toArray := by
  simp [bytesOf]

theorem encodeAll_ints {values : List Int} (words : ∀ n ∈ values, Word n) :
    Element.int32.encodeAll (values.map Scalar.int).toArray = .ok (bytesOf values) := by
  have each : ∀ front : Bytes, (values.map Scalar.int).foldlM
      (fun (out : Bytes) value => do return out ++ (← Element.int32.encode value).toArray) front
      = .ok (front ++ bytesOf values) := by
    induction values with
    | nil =>
      intro front
      simp [bytesOf, pure, Except.pure]
    | cons n values inductionHypothesis =>
      intro front
      obtain ⟨first, others⟩ := List.forall_mem_cons.1 words
      rw [List.map_cons, List.foldlM_cons, first.encode]
      show (List.foldlM _ (front ++ (wordBytes (wordOfInt n)).toArray) _ : Except Failure Bytes) = _
      rw [inductionHypothesis others]
      simp [bytesOf]
  unfold Element.encodeAll
  rw [List.foldlM_toArray, each]
  simp

/-- The bytes of an output, if its elements are known. -/
theorem outputBytes_ok {e : Expr} (kind : e.kind = .int32) {buffers : Buffers} {v : Nat → Int}
    {count : Nat} (words : ∀ k < count, Word (v k))
    (value : ∀ k < count, e.evaluate (atOutput k) buffers = .ok (.int (v k))) :
    outputBytes e buffers count = .ok (bytesOf ((List.range count).map v)) := by
  have elements : ∀ n ≤ count, (List.range n).foldlM
      (fun (out : Bytes) position => do return out ++ (← elementBytes e buffers position).toArray) #[]
      = .ok (bytesOf ((List.range n).map v)) := by
    intro n bound
    induction n with
    | zero => rfl
    | succ n inductionHypothesis =>
      have element : elementBytes e buffers n = .ok (wordBytes (wordOfInt (v n))) := by
        unfold elementBytes
        rw [value n bound, ok_bind, kind, (words n bound).encode]
      rw [List.range_succ, List.foldlM_append, inductionHypothesis (by omega), ok_bind,
        List.foldlM_cons, element, List.map_append, List.map_singleton, bytesOf_append]
      rfl
  unfold outputBytes
  rw [if_neg (by omega)]
  show Except.mapError whileRunning ((List.range (count : Int).toNat).foldlM _ _) = _
  rw [Int.toNat_natCast, elements count (Nat.le_refl count)]
  rfl

theorem lookup_map_values {α β γ : Type} [BEq α] [LawfulBEq α] (f : α → β → γ)
    (entries : List (α × β)) (key : α) :
    (entries.map fun entry => (entry.1, f entry.1 entry.2)).lookup key
      = (entries.lookup key).map (f key) := by
  induction entries with
  | nil => rfl
  | cons first entries inductionHypothesis =>
    obtain ⟨other, value⟩ := first
    rw [List.map_cons, List.lookup_cons, List.lookup_cons]
    by_cases same : key = other
    · subst same
      simp
    · have different : (key == other) = false := by simpa using same
      rw [different, inductionHypothesis]

theorem Kernel.buffers_eq_bind (k : Kernel) (inputs : List Bytes) (slot : Int) :
    k.buffers inputs slot
      = (k.kinds.lookup slot).bind fun kind => (Shape.entry? inputs slot).map kind.decode := by
  have decoded := lookup_map_values
    (fun slot (kind : Element) => (Shape.entry? inputs slot).map kind.decode) k.kinds slot
  exact (congrArg Option.join decoded).trans (by cases k.kinds.lookup slot <;> rfl)

theorem buffers_eq {k : Kernel} {inputs : List Bytes} {slot : Int} {kind : Element} {bytes : Bytes}
    (noted : k.kinds.lookup slot = some kind) (entry : Shape.entry? inputs slot = some bytes) :
    k.buffers inputs slot = some (kind.decode bytes) := by
  rw [k.buffers_eq_bind, noted, Option.bind_some, entry, Option.map_some]

/-! ## Execution -/

theorem Host.run_ok {k : Kernel} {inputs results : List Bytes}
    (computed : k.exprs.mapM (fun e => outputBytes e (k.buffers inputs) k.size) = .ok results) (x : Host)
    (outputs : List Nat) :
    x.run k inputs outputs = .ok ⟨(outputs.zip results).foldl
      (fun t write => t.modifyContent write.1 fun old => storeFront old write.2) x.table⟩ := by
  unfold Host.run
  dsimp only
  rw [computed]
  rfl

namespace Executor

section Plans

variable {σ : Type} {t : Table σ} {exprs : List Expr} {kernel : Kernel} {ins outs : List (Handle × Slot σ)}

theorem plan_eq (count : exprs.length = outs.length) (inputs : ∀ b ∈ ins, t.lookup b.1 = .ok b.2)
    (outputs : ∀ b ∈ outs, t.lookup b.1 = .ok b.2) :
    plan t exprs (ins.map fun b => .handle b.1) (outs.map fun b => .handle b.1) = (do
      let kernel ← Kernel.plan exprs (ins.map fun b => b.2.size) (outs.map fun b => b.2.size)
      return (kernel, ins, outs)) := by
  have resolved : ∀ bs : List (Handle × Slot σ), (∀ b ∈ bs, t.lookup b.1 = .ok b.2) →
      (bs.map fun b => HandleArgument.handle b.1).mapM t.resolve = .ok bs := by
    intro bs known
    rw [List.mapM_map]
    refine (mapM_eq_map fun b member => Table.resolve_ok (known b member)).trans ?_
    exact congrArg Except.ok (List.map_id bs)
  unfold plan
  rw [List.length_map, if_neg (not_not.2 count), resolved ins inputs, resolved outs outputs]
  rfl

/-- An expression is accepted for the buffers of a table if it is for their sizes. -/
theorem plan_ok (count : exprs.length = outs.length) (inputs : ∀ b ∈ ins, t.lookup b.1 = .ok b.2)
    (outputs : ∀ b ∈ outs, t.lookup b.1 = .ok b.2)
    (accepted : Kernel.plan exprs (ins.map fun b => b.2.size) (outs.map fun b => b.2.size) = .ok kernel) :
    plan t exprs (ins.map fun b => .handle b.1) (outs.map fun b => .handle b.1)
      = .ok (kernel, ins, outs) := by
  rw [plan_eq count inputs outputs, accepted]
  rfl

end Plans

/-- The host runs a kernel that is accepted. -/
theorem execute_host {x x' : Host} {exprs : List Expr} {inputs outputs : List HandleArgument}
    {kernel : Kernel} {ins outs : List (Handle × Slot Bytes)}
    (planned : plan x.table exprs inputs outputs = .ok (kernel, ins, outs))
    (ran : x.run kernel (ins.map fun b => b.2.content) (outs.map fun b => b.1.slot) = .ok x') :
    (host x).execute exprs inputs outputs = (.ok (), host x') := by
  have result : (plan x.table exprs inputs outputs >>= fun planned =>
      x.run planned.1 (planned.2.1.map fun b => b.2.content) (planned.2.2.map fun b => b.1.slot)) = .ok x' := by
    rw [planned, ok_bind]
    exact ran
  unfold execute
  simp only [result]
  rfl

end Executor

/-! ## Sums of products -/

def productSums (x y : Layout) (left right : Bytes) (length : Int) (shape : List Int) : List Int :=
  (List.range (product shape).toNat).map fun (position : Nat) =>
    wrap32 (∑ k ∈ Finset.range length.toNat,
      x.entry (intAt left) (unravel position shape ++ [(k : Int)])
        * y.entry (intAt right) (unravel position shape ++ [(k : Int)]))

@[simp] theorem length_productSums (x y : Layout) (left right : Bytes) (length : Int) (shape : List Int) :
    (productSums x y left right length shape).length = (product shape).toNat := by
  simp [productSums]

theorem intAt_productSums (x y : Layout) (left right : Bytes) (length : Int) {index shape : List Int}
    (inside : Inside index shape) :
    intAt (bytesOf (productSums x y left right length shape)) (ravel index shape)
      = wrap32 (∑ k ∈ Finset.range length.toNat,
        x.entry (intAt left) (index ++ [(k : Int)]) * y.entry (intAt right) (index ++ [(k : Int)])) := by
  obtain ⟨low, high⟩ := inside.ravel_bounds
  have place : ((ravel index shape).toNat : Int) = ravel index shape := Int.toNat_of_nonneg low
  have bound : (ravel index shape).toNat < (productSums x y left right length shape).length := by
    rw [length_productSums]
    omega
  have element := intAt_bytesOf bound
  rw [place] at element
  rw [element]
  simp only [productSums, List.getElem_map, List.getElem_range, place, inside.unravel_ravel,
    wrap32_wrap32]

/-- A sum of products on the host overwrites the output, and changes nothing else. -/
theorem execute_productSum {y : Host} {a b out : Handle} {left right old : Bytes} {m n k : Nat}
    (first : y.table.lookup a = .ok ⟨left.size, m, left⟩)
    (second : y.table.lookup b = .ok ⟨right.size, n, right⟩)
    (output : y.table.lookup out = .ok ⟨old.size, k, old⟩) {u v : Layout} {shape : List Int}
    {length : Int} (extents : ∀ s ∈ shape, 0 ≤ s) (naturalLength : 0 ≤ length)
    (leftWords : left.size % 4 = 0) (rightWords : right.size % 4 = 0)
    (anchoredLeft : u.Anchored (left.size / 4 : Nat)) (anchoredRight : v.Anchored (right.size / 4 : Nat))
    (shapeLeft : u.shape = shape ++ [length]) (shapeRight : v.shape = shape ++ [length])
    (small : product shape * length < 0x80000000) (fits : (old.size : Int) = product shape * 4) :
    (Executor.host y).execute [Expr.productSum (product shape) length u v] [.handle a, .handle b]
        [.handle out]
      = (.ok (), .host ⟨y.table.put out.slot
        (some ⟨old.size, k, bytesOf (productSums u v left right length shape)⟩)⟩) := by
  have naturalRows : 0 ≤ product shape := Shape.product_nonneg extents
  have size : ∀ {l : Layout}, l.shape = shape ++ [length] → l.size = product shape * length := by
    intro l known
    show product l.shape = _
    rw [known, Shape.product_append]
    simp
  obtain ⟨kinds, planned, leftKind, rightKind⟩ := @Expr.plan_productSum u v (product shape) length
    left.size right.size old.size leftWords rightWords anchoredLeft anchoredRight naturalRows naturalLength
    (size shapeLeft) (size shapeRight) fits
  let kernel : Kernel := ⟨[Expr.productSum (product shape) length u v], product shape, kinds⟩
  have written : outputBytes (Expr.productSum (product shape) length u v) (kernel.buffers [left, right])
      (product shape) = .ok (bytesOf (productSums u v left right length shape)) := by
    have count : ((product shape).toNat : Int) = product shape := Int.toNat_of_nonneg naturalRows
    rw [← count, productSums]
    refine outputBytes_ok rfl (fun position _ => word_wrap32 _) fun position bound => ?_
    have below : (position : Int) < product shape := by omega
    have positive := Shape.positive_of_product_pos extents (by omega)
    rw [count]
    exact Expr.evaluate_productSum (buffers_eq leftKind rfl) (buffers_eq rightKind rfl) anchoredLeft
      anchoredRight shapeLeft shapeRight small (Shape.inside_unravel positive position)
      (Shape.ravel_unravel positive (by omega) below)
  have resolved : Executor.plan y.table [Expr.productSum (product shape) length u v]
      [.handle a, .handle b] [.handle out]
      = .ok (kernel, [(a, ⟨left.size, m, left⟩), (b, ⟨right.size, n, right⟩)],
        [(out, ⟨old.size, k, old⟩)]) :=
    @Executor.plan_ok _ y.table _ kernel [(a, ⟨left.size, m, left⟩), (b, ⟨right.size, n, right⟩)]
      [(out, ⟨old.size, k, old⟩)] rfl (by simp [first, second]) (by simp [output]) planned
  -- The sums take up all of the output, so nothing of its old contents is left.
  have sizes : (bytesOf (productSums u v left right length shape)).size = old.size := by
    rw [size_bytesOf, length_productSums]
    omega
  have stored : storeFront old (bytesOf (productSums u v left right length shape))
      = bytesOf (productSums u v left right length shape) := by
    rw [storeFront, sizes]
    simp
  have ran : y.run kernel [left, right] [out.slot] = .ok ⟨y.table.put out.slot
      (some ⟨old.size, k, bytesOf (productSums u v left right length shape)⟩)⟩ := by
    have computed : kernel.exprs.mapM (fun e => outputBytes e (kernel.buffers [left, right]) kernel.size)
        = .ok [bytesOf (productSums u v left right length shape)] := mapM_eq_ok.2 (.cons written .nil)
    rw [Host.run_ok computed]
    simp only [List.zip_cons_cons, List.zip_nil_right, List.foldl_cons, List.foldl_nil,
      Table.modifyContent, Table.slot?_of_lookup output, stored]
  exact Executor.execute_host resolved ran

end StridedArray
