import StridedArray.Proofs.Element.Numbers
import StridedArray.Proofs.Expr.Points
import StridedArray.Proofs.Kernel.Host

/-! # Kernels over buffers of numbers

A kernel of one expression whose reads are those of given buffers, run on the host.

* `Input`, `Input.buffers` — the buffers that a kernel reads; `Expr.valueAt_congr` — only slots that are
  read matter for a value;
* `Expr.Accepted` — variables, scopes and reads as kernels have them; `Accepted.plan` — such an expression
  is accepted;
* `execute_numbers` — it overwrites the output with the bytes of its values, and changes nothing else. -/

namespace StridedArray

/-! ## Buffers that are read -/

/-- A buffer that a kernel reads: its bytes, and the kind of elements that they are read as. -/
structure Input where
  handle : Handle
  kind : Element
  bytes : Bytes

def Input.buffers (inputs : List Input) : Buffers :=
  fun slot => (Shape.entry? inputs slot).map fun input => input.kind.decode input.bytes

namespace Expr

variable {e : Expr} {env : Environment} {first second : Buffers}

def ReadsAlike (first second : Buffers) (node : Expr) : Prop :=
  ∀ slot, readSlot? node = some slot → first slot = second slot

theorem valueAt_congr (alike : Every (ReadsAlike first second) e) (position : Option Int) :
    e.valueAt env first position = e.valueAt env second position := by
  induction e generalizing position with
  | const => rfl
  | special => rfl
  | accessor slot kind layout index ih =>
    obtain ⟨below, here⟩ := every_accessor.1 alike
    have same : first slot = second slot := here slot rfl
    have read : readAt first slot kind layout = readAt second slot kind layout := by
      funext place
      unfold readAt elementAt
      rw [same]
    simp only [valueAt, ih below, read]
  | load slot kind index ih =>
    obtain ⟨below, here⟩ := every_load.1 alike
    have same : first slot = second slot := here slot rfl
    have read : loadFrom first slot kind = loadFrom second slot kind := by
      funext place
      unfold loadFrom elementAt
      rw [same]
    simp only [valueAt, ih below, read]
  | unary op kind a ih => simp only [valueAt, ih (every_unary.1 alike).1]
  | binary op kind a b iha ihb =>
    obtain ⟨left, right, -⟩ := every_binary.1 alike
    simp only [valueAt, iha left, ihb right]
  | select kind c a b ihc iha ihb =>
    obtain ⟨condition, left, right, -⟩ := every_select.1 alike
    simp only [valueAt, ihc condition, iha left, ihb right]
  | reduce op kind body extent ih => simp only [valueAt, ih (every_reduce.1 alike).1]

/-! ## Acceptance -/

/-- A node reads one of the inputs, as the elements that are there and inside of what is there. -/
def ReadsInput (inputs : List Input) (evaluated : Bool) (node : Expr) : Prop :=
  ∃ (k : Nat) (input : Input), readSlot? node = some (k : Int) ∧ inputs[k]? = some input
    ∧ node.kind = input.kind ∧ checkRead node input.bytes.size evaluated = .ok ()

/-- Reductions are where they may be, there are no variables but the two indices, and all reads are those of
    inputs. -/
structure Accepted (e : Expr) (inputs : List Input) (n : Int) : Prop where
  scope : Scoped false e
  bound : ∀ {name extent d}, special name extent d ∈ e.postorder → StridedArray.Bound n (name, extent)
  reads : ∀ node ∈ e.postorder, node.isRead = true → ReadsInput inputs (!e.idle) node

variable {inputs : List Input} {n : Int} {output : Nat}

theorem Accepted.plan (accepted : e.Accepted inputs n) (fits : (output : Int) = n * e.kind.itemSize) :
    ∃ kinds, Kernel.plan [e] (inputs.map fun input => input.bytes.size) [output] = .ok ⟨[e], n, kinds⟩
      ∧ ∀ node ∈ e.postorder, node.isRead = true → ∀ slot, readSlot? node = some slot →
        kinds.lookup slot = (Shape.entry? inputs slot).map Input.kind := by
  have count : ((output / e.kind.itemSize : Nat) : Int) = n := Element.count_eq fits
  obtain ⟨kinds, planned, noted⟩ := @plan_readable e (inputs.map fun input => input.bytes.size) output n
    (fun slot => ((Shape.entry? inputs slot).map Input.kind).getD .bool) accepted.scope accepted.bound (.inr count)
    (fun node member isRead => by
      obtain ⟨k, input, slot, known, kind, checked⟩ := accepted.reads node member isRead
      obtain ⟨bound, -⟩ := List.getElem?_eq_some_iff.1 known
      have found : Shape.entry? inputs k = some input := (View.entry?_natCast inputs k).trans known
      refine ⟨k, slot, by rw [List.length_map]; omega, ?_, input.bytes.size, ?_, checked⟩
      · rw [found]
        exact kind
      · rw [Shape.entry?_map, found]
        rfl)
    (le_of_eq fits.symm)
  refine ⟨kinds, planned, fun node member isRead slot reads => ?_⟩
  obtain ⟨k, input, here, known, -⟩ := accepted.reads node member isRead
  obtain rfl : slot = k := Option.some.inj (reads.symm.trans here)
  have found : Shape.entry? inputs k = some input := (View.entry?_natCast inputs k).trans known
  rw [noted node member isRead k here, found]
  rfl

end Expr

/-! ## Execution -/

theorem outputBytes_numbers {e : Expr} (whole : e.kind ≠ .float32) {buffers : Buffers} {v : Nat → Int} {count : Nat}
    (fits : ∀ k < count, e.kind.Fits (v k))
    (value : ∀ k < count, e.evaluate (atOutput k) buffers = .ok (e.kind.number (v k))) :
    outputBytes e buffers count = .ok (e.kind.bytesOf ((List.range count).map v)) := by
  have each : ∀ k ∈ List.range count, elementBytes e buffers k = .ok (e.kind.numberBytes (v k)) := by
    intro k member
    unfold elementBytes
    have bound := List.mem_range.1 member
    rw [value k bound, ok_bind, Element.encode_number (fits k bound) whole]
  unfold outputBytes
  rw [if_neg (by omega), Int.toNat_natCast]
  show Except.mapError whileRunning ((List.range count).foldlM _ _) = _
  rw [Element.foldlM_encode each]
  simp [Except.mapError]

variable {e : Expr} {inputs : List Input} {n : Int} {v : Nat → Int} {x : Host} {out : Handle} {old : Bytes}
  {refs : Nat}

theorem plan_inputs (e : Expr)
    (found : ∀ input ∈ inputs, ∃ m, x.table.lookup input.handle = .ok ⟨input.bytes.size, m, input.bytes⟩)
    (output : x.table.lookup out = .ok ⟨old.size, refs, old⟩) :
    ∃ slots : List (Handle × Slot Bytes), (slots.map fun b => b.2.content) = inputs.map Input.bytes
      ∧ Executor.plan x.table [e] (inputs.map fun input => .handle input.handle) [.handle out] = (do
        let kernel ← Kernel.plan [e] (inputs.map fun input => input.bytes.size) [old.size]
        return (kernel, slots, [(out, ⟨old.size, refs, old⟩)])) := by
  choose! m lookups using found
  let slots := inputs.map fun input => (input.handle, (⟨input.bytes.size, m input, input.bytes⟩ : Slot Bytes))
  refine ⟨slots, by simp [slots, Function.comp_def], ?_⟩
  have here := @Executor.plan_eq _ x.table [e] slots [(out, ⟨old.size, refs, old⟩)] rfl
    (by
      intro slot member
      obtain ⟨input, inside, rfl⟩ := List.mem_map.1 member
      exact lookups input inside)
    (by simp [output])
  simpa [slots, Function.comp_def] using here

/-- An accepted expression on the host overwrites the output with the numbers that are its values, and changes
    nothing else. -/
theorem execute_numbers (accepted : e.Accepted inputs n) (whole : e.kind ≠ .float32) (natural : 0 ≤ n)
    (found : ∀ input ∈ inputs, ∃ m, x.table.lookup input.handle = .ok ⟨input.bytes.size, m, input.bytes⟩)
    (output : x.table.lookup out = .ok ⟨old.size, refs, old⟩) (fits : (old.size : Int) = n * e.kind.itemSize)
    (value : ∀ k : Nat, (k : Int) < n →
      e.valueAt (atOutput k) (Input.buffers inputs) none = .ok (e.kind.number (v k)))
    (numbers : ∀ k : Nat, (k : Int) < n → e.kind.Fits (v k)) :
    (Executor.host x).execute [e] (inputs.map fun input => .handle input.handle) [.handle out]
      = (.ok (), .host ⟨x.table.put out.slot
        (some ⟨old.size, refs, e.kind.bytesOf ((List.range n.toNat).map v)⟩)⟩) := by
  obtain ⟨kinds, planned, noted⟩ := accepted.plan fits
  let kernel : Kernel := ⟨[e], n, kinds⟩
  have count : (n.toNat : Int) = n := Int.toNat_of_nonneg natural
  -- The kernel reads the slots that the expression reads as the inputs are.
  have alike : Expr.Every (Expr.ReadsAlike (kernel.buffers (inputs.map Input.bytes)) (Input.buffers inputs)) e := by
    intro node member slot reads
    have isRead : node.isRead = true := by
      cases node <;> first | rfl | cases reads
    rw [kernel.buffers_eq_bind, noted node member isRead slot reads, Shape.entry?_map, Input.buffers]
    cases Shape.entry? inputs slot <;> rfl
  have written : outputBytes e (kernel.buffers (inputs.map Input.bytes)) n
      = .ok (e.kind.bytesOf ((List.range n.toNat).map v)) := by
    conv_lhs => rw [← count]
    refine outputBytes_numbers whole (fun k bound => numbers k (by omega)) fun k bound => ?_
    rw [Expr.evaluate_eq_valueAt accepted.scope none, Expr.valueAt_congr alike]
    exact value k (by omega)
  obtain ⟨slots, contents, resolved⟩ := plan_inputs e found output
  rw [planned] at resolved
  have sizes : (e.kind.bytesOf ((List.range n.toNat).map v)).size = old.size := by
    rw [Element.size_bytesOf, List.length_map, List.length_range]
    have same : ((n.toNat * e.kind.itemSize : Nat) : Int) = old.size := by
      rw [fits, Int.natCast_mul, count]
    omega
  have ran : x.run kernel (slots.map fun b => b.2.content) [out.slot] = .ok ⟨x.table.put out.slot
      (some ⟨old.size, refs, e.kind.bytesOf ((List.range n.toNat).map v)⟩)⟩ := by
    have computed : kernel.exprs.mapM (fun f => outputBytes f (kernel.buffers (inputs.map Input.bytes)) kernel.size)
        = .ok [e.kind.bytesOf ((List.range n.toNat).map v)] := mapM_eq_ok.2 (.cons written .nil)
    have stored : storeFront old (e.kind.bytesOf ((List.range n.toNat).map v))
        = e.kind.bytesOf ((List.range n.toNat).map v) := by
      rw [storeFront, sizes]
      simp
    rw [contents, Host.run_ok computed]
    simp only [List.zip_cons_cons, List.zip_nil_right, List.foldl_cons, List.foldl_nil, Table.modifyContent,
      Table.slot?_of_lookup output, stored]
  exact Executor.execute_host resolved ran

end StridedArray
