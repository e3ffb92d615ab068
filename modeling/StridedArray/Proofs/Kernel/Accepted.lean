import StridedArray.Proofs.Expr.Points
import StridedArray.Proofs.Kernel.Plan

/-! # What an accepted kernel promises

Acceptance goes through the expressions one after the other and through the nodes of each, noting the kind
of elements of every slot on the way. What was noted is never taken back, so it holds at the end.

* `Noted`, `ReadNoted` — what the kinds that are noted say of the buffers and of a read;
* `noted_planRead`, `noted_planReads` — one read, and the reads of an expression;
* `Accepted` — what is known of an expression; `accepted_planExpr`, `accepted_planExprs` — of one more
  and of several;
* `accepted_of_plan` — of an accepted kernel. -/

namespace StridedArray

open StridedArray.Expr (Scoped)

def KeepsKinds (before after : List (Int × Element)) : Prop :=
  ∀ slot kind, before.lookup slot = some kind → after.lookup slot = some kind

theorem KeepsKinds.trans {a b c : List (Int × Element)} (first : KeepsKinds a b) (second : KeepsKinds b c) :
    KeepsKinds a c :=
  fun slot kind known => second slot kind (first slot kind known)

def Noted (inputSizes : List Nat) (kinds : List (Int × Element)) : Prop :=
  ∀ slot kind, kinds.lookup slot = some kind → ∃ bytes, Shape.entry? inputSizes slot = some bytes

/-- A read is of a buffer that is large enough for it, as elements of the kind that is noted. -/
def ReadNoted (inputSizes : List Nat) (kinds : List (Int × Element)) (node : Expr) : Prop :=
  ∀ slot, readSlot? node = some slot → ∃ bytes evaluated, Shape.entry? inputSizes slot = some bytes
    ∧ kinds.lookup slot = some node.kind ∧ checkRead node bytes evaluated = .ok ()

theorem ReadNoted.later {inputSizes : List Nat} {before after : List (Int × Element)} {node : Expr}
    (noted : ReadNoted inputSizes before node) (keeps : KeepsKinds before after) :
    ReadNoted inputSizes after node := by
  intro slot reads
  obtain ⟨bytes, evaluated, entry, kind, accepted⟩ := noted slot reads
  exact ⟨bytes, evaluated, entry, keeps slot _ kind, accepted⟩

/-! ## Reads -/

theorem lookup_noteKind {kinds after : List (Int × Element)} {slot : Int} {kind : Element}
    (note : noteKind kinds slot kind = .ok after) :
    KeepsKinds kinds after ∧ ∀ s, after.lookup s = if s = slot then some kind else kinds.lookup s := by
  unfold noteKind at note
  cases known : kinds.lookup slot with
  | none =>
    rw [known] at note
    cases note
    refine ⟨fun s k found => by rw [List.lookup_append, found]; rfl, fun s => ?_⟩
    rw [List.lookup_append]
    by_cases same : s = slot
    · subst same
      simp [known]
    · have different : (s == slot) = false := by simpa using same
      simp [List.lookup_cons, different, same]
  | some before =>
    rw [known] at note
    obtain ⟨agree, same⟩ := demand_eq_ok.1 note
    cases same
    refine ⟨fun _ _ found => found, fun s => ?_⟩
    split
    · next same => rw [same, known, agree]
    · rfl

theorem noted_planRead {inputSizes : List Nat} {evaluated : Bool} {kinds after : List (Int × Element)}
    {node : Expr} (planned : planRead inputSizes evaluated kinds node = .ok after)
    (noted : Noted inputSizes kinds) :
    KeepsKinds kinds after ∧ Noted inputSizes after ∧ ReadNoted inputSizes after node := by
  unfold planRead at planned
  cases reads : readSlot? node with
  | none =>
    rw [reads] at planned
    cases planned
    refine ⟨fun _ _ known => known, noted, fun slot found => ?_⟩
    rw [reads] at found
    cases found
  | some slot =>
    rw [reads] at planned
    by_cases outside : (inputSizes.length : Int) ≤ slot
    · simp [outside] at planned
    · simp only [if_neg outside, bind_eq_ok] at planned
      obtain ⟨later, note, planned⟩ := planned
      obtain ⟨keeps, lookups⟩ := lookup_noteKind note
      cases entry : Shape.entry? inputSizes slot with
      | none =>
        rw [entry] at planned
        cases planned
      | some bytes =>
        rw [entry] at planned
        obtain ⟨_, accepted, same⟩ := bind_eq_ok.1 planned
        cases same
        refine ⟨keeps, fun s kind found => ?_, fun s found => ?_⟩
        -- A kind that was not noted before is that of this slot, which is one of the buffers.
        · rw [lookups] at found
          split at found
          · next same => exact ⟨bytes, same ▸ entry⟩
          · exact noted s kind found
        · rw [reads] at found
          cases found
          exact ⟨bytes, evaluated, entry, by rw [lookups, if_pos rfl], accepted⟩

theorem noted_planReads {inputSizes : List Nat} {evaluated : Bool} {nodes : List Expr}
    {kinds after : List (Int × Element)}
    (planned : nodes.foldlM (planRead inputSizes evaluated) kinds = .ok after)
    (noted : Noted inputSizes kinds) :
    KeepsKinds kinds after ∧ Noted inputSizes after ∧ ∀ node ∈ nodes, ReadNoted inputSizes after node := by
  induction nodes generalizing kinds with
  | nil =>
    cases planned
    exact ⟨fun _ _ known => known, noted, nofun⟩
  | cons node nodes inductionHypothesis =>
    rw [List.foldlM_cons, bind_eq_ok] at planned
    obtain ⟨next, step, rest⟩ := planned
    obtain ⟨keeps, notedNext, here⟩ := noted_planRead step noted
    obtain ⟨keepsRest, notedAfter, others⟩ := inductionHypothesis rest notedNext
    exact ⟨keeps.trans keepsRest, notedAfter, List.forall_mem_cons.2 ⟨here.later keepsRest, others⟩⟩

/-! ## Expressions -/

theorem names_of_planSpecials {entries : List (String × Int)} {size after : Option Int}
    (planned : entries.foldlM planSpecial size = .ok after) :
    ∀ entry ∈ entries, entry.1 = outputIndex ∨ entry.1 = reductionIndex := by
  induction entries generalizing size with
  | nil => exact nofun
  | cons entry entries inductionHypothesis =>
    rw [List.foldlM_cons, bind_eq_ok] at planned
    obtain ⟨next, step, rest⟩ := planned
    refine List.forall_mem_cons.2 ⟨?_, inductionHypothesis rest⟩
    unfold planSpecial at step
    dsimp only at step
    split at step
    · next output => exact .inl output
    · split at step
      · next reduction => exact .inr reduction
      · cases step

/-- What is known of an expression that is accepted. -/
structure Accepted (inputSizes : List Nat) (kinds : List (Int × Element)) (e : Expr) : Prop where
  scope : Scoped false e
  indices : ∀ {name extent d}, Expr.special name extent d ∈ e.postorder →
    name = outputIndex ∨ name = reductionIndex
  reads : ∀ node ∈ e.postorder, node.isRead = true → ReadNoted inputSizes kinds node

theorem Accepted.later {inputSizes : List Nat} {before after : List (Int × Element)} {e : Expr}
    (accepted : Accepted inputSizes before e) (keeps : KeepsKinds before after) :
    Accepted inputSizes after e where
  scope := accepted.scope
  indices := accepted.indices
  reads node member isRead := (accepted.reads node member isRead).later keeps

theorem accepted_planExpr {inputSizes : List Nat} {state after : Option Int × List (Int × Element)}
    {e : Expr} (planned : planExpr inputSizes state e = .ok after) (noted : Noted inputSizes state.2) :
    KeepsKinds state.2 after.2 ∧ Noted inputSizes after.2 ∧ Accepted inputSizes after.2 e := by
  obtain ⟨size, kinds⟩ := state
  simp only [planExpr, bind_eq_ok, pure_eq_ok] at planned
  obtain ⟨_, scope, size', sized, kinds', read, rfl⟩ := planned
  obtain ⟨keeps, notedAfter, reads⟩ := noted_planReads read noted
  refine ⟨keeps, notedAfter, scope, fun member => ?_, fun node member isRead => ?_⟩
  · obtain ⟨k, entry⟩ := e.specials_spec.2 member
    exact names_of_planSpecials sized _ entry
  · exact reads node (Expr.mem_reads.2 ⟨member, isRead⟩)

theorem accepted_planExprs {inputSizes : List Nat} {exprs : List Expr}
    {state after : Option Int × List (Int × Element)}
    (planned : exprs.foldlM (planExpr inputSizes) state = .ok after) (noted : Noted inputSizes state.2) :
    KeepsKinds state.2 after.2 ∧ Noted inputSizes after.2
      ∧ ∀ e ∈ exprs, Accepted inputSizes after.2 e := by
  induction exprs generalizing state with
  | nil =>
    cases planned
    exact ⟨fun _ _ known => known, noted, nofun⟩
  | cons e exprs inductionHypothesis =>
    rw [List.foldlM_cons, bind_eq_ok] at planned
    obtain ⟨next, step, rest⟩ := planned
    obtain ⟨keeps, notedNext, here⟩ := accepted_planExpr step noted
    obtain ⟨keepsRest, notedAfter, others⟩ := inductionHypothesis rest notedNext
    exact ⟨keeps.trans keepsRest, notedAfter, List.forall_mem_cons.2 ⟨here.later keepsRest, others⟩⟩

/-! ## Kernels -/

theorem checkOutputs_ok {size : Int} {outputs : List (Nat × Expr)} {first : Nat}
    (accepted : checkOutputs size first outputs = .ok ()) :
    ∀ output ∈ outputs, size * output.2.kind.itemSize ≤ output.1 := by
  induction outputs generalizing first with
  | nil => exact nofun
  | cons output outputs inductionHypothesis =>
    unfold checkOutputs at accepted
    dsimp only at accepted
    split at accepted
    · cases accepted
    · next enough =>
      exact List.forall_mem_cons.2 ⟨Int.not_lt.1 enough, inductionHypothesis accepted⟩

/-- An accepted kernel is made of its expressions, each of them accepted, and its outputs have room. -/
theorem accepted_of_plan {exprs : List Expr} {inputSizes outputSizes : List Nat} {kernel : Kernel}
    (planned : Kernel.plan exprs inputSizes outputSizes = .ok kernel) :
    kernel.exprs = exprs ∧ Noted inputSizes kernel.kinds
      ∧ (∀ e ∈ exprs, Accepted inputSizes kernel.kinds e)
      ∧ ∀ output ∈ outputSizes.zip exprs, kernel.size * output.2.kind.itemSize ≤ output.1 := by
  simp only [Kernel.plan, bind_eq_ok, pure_eq_ok, Prod.exists] at planned
  obtain ⟨size, kinds, accepted, _, room, rfl⟩ := planned
  obtain ⟨-, noted, each⟩ := accepted_planExprs accepted (fun _ _ known => by cases known)
  exact ⟨rfl, noted, each, checkOutputs_ok room⟩

end StridedArray
