import StridedArray.Proofs.Expr.Nodes
import StridedArray.Proofs.Kernel.Plan

/-! # How validation fails

Validation is made of checks of expressions against the sizes of buffers. Each of them fails in the way that is meant
for it, but for one: slots are counted back from the last one if their number is negative, and nothing is checked about
how far.

* `Failure.IsExecution`, `checkReductions_failsWith` and its neighbours — the checks;
* `Named`, `Failure.IsRejection` — numbers that slots have, counted from either end;
* `Kernel.plan_rejects`, `Kernel.plan_failsWith` — validation. -/

namespace StridedArray

open StridedArray.Expr (Every)

/-! ## Checks -/

def Failure.IsExecution (f : Failure) : Prop := ∃ fault, f = .execution fault

open Failure (IsExecution)

theorem checkReductions_failsWith (e : Expr) (inside : Bool) : FailsWith IsExecution (checkReductions e inside) := by
  induction e generalizing inside with
  | const => exact .pure ()
  | special name extent d =>
    unfold checkReductions
    split
    · exact .throw ⟨_, rfl⟩
    · exact .pure ()
  | accessor slot kind layout index ih => exact ih inside
  | load slot kind index ih => exact ih inside
  | unary op kind a ih => exact ih inside
  | binary op kind a b iha ihb => exact (iha inside).bind fun _ _ => ihb inside
  | select kind c a b ihc iha ihb => exact (ihc inside).bind fun _ _ => (iha inside).bind fun _ _ => ihb inside
  | reduce op kind body extent ih =>
    unfold checkReductions
    split
    · exact .throw ⟨_, rfl⟩
    · exact ih true

theorem planSpecial_failsWith (size : Option Int) (entry : String × Int) :
    FailsWith IsExecution (planSpecial size entry) := by
  unfold planSpecial
  dsimp only
  split
  · split
    · split
      · exact .pure _
      · exact .throw ⟨_, rfl⟩
    · exact .pure _
  · split
    · exact .pure _
    · exact .throw ⟨_, rfl⟩

theorem noteKind_failsWith (kinds : List (Int × Element)) (slot : Int) (kind : Element) :
    FailsWith IsExecution (noteKind kinds slot kind) := by
  unfold noteKind
  split
  · exact .pure _
  · split
    · exact .pure _
    · exact .throw ⟨_, rfl⟩

theorem checkReach_failsWith (slot : Int) (layout : Layout) (index : Expr) (count : Nat) (evaluated : Bool) :
    FailsWith IsExecution (checkReach slot layout index count evaluated) := by
  unfold checkReach
  simp only [throw_bind]
  split
  case' h_1 => refine .refuse ⟨_, rfl⟩ fun _ => ?_
  -- What is left is to look at the positions.
  all_goals
    split
    · split
      · exact .refuse ⟨_, rfl⟩ fun _ => .pure ()
      · exact .pure ()
    · exact .pure ()

theorem checkRead_failsWith (node : Expr) (bytes : Nat) (evaluated : Bool) :
    FailsWith IsExecution (checkRead node bytes evaluated) := by
  unfold checkRead
  simp only [throw_bind]
  refine .refuse ⟨_, rfl⟩ fun _ => ?_
  cases node with
  | accessor slot kind layout index => exact checkReach_failsWith slot layout index _ evaluated
  | _ => exact .pure ()

theorem Shape.entry?_of_range {α : Type} {xs : List α} {k : Int} (low : -(xs.length : Int) ≤ k)
    (high : k < xs.length) : ∃ x, Shape.entry? xs k = some x := by
  obtain ⟨n, place, bound⟩ : ∃ n, place? xs.length k = some n ∧ n < xs.length := by
    unfold place?
    dsimp only
    split
    · exact ⟨_, if_pos ⟨by omega, by omega⟩, by omega⟩
    · exact ⟨_, if_pos ⟨by omega, high⟩, by omega⟩
  refine ⟨xs[n], ?_⟩
  unfold Shape.entry?
  rw [place, Option.bind_some, List.getElem?_eq_getElem bound]

/-! ## Validation -/

/-- A read may be of a slot that is counted back from the last one, but there are no more slots than that. -/
def Named (count : Nat) (node : Expr) : Prop := ∀ slot, readSlot? node = some slot → -(count : Int) ≤ slot

/-- Is it the failure of a check, or that of a number that no slot has, not even counted back? -/
def Failure.IsRejection (f : Failure) (named : Prop) : Prop := f.IsExecution ∨ f = .noElement ∧ ¬ named

open Failure (IsRejection)

theorem Failure.IsRejection.mono {f : Failure} {named more : Prop} (rejection : f.IsRejection named)
    (below : more → named) : f.IsRejection more :=
  rejection.imp_right fun ⟨missing, unnamed⟩ => ⟨missing, fun known => unnamed (below known)⟩

theorem FailsWith.rejection {α : Type} {x : Except Failure α} {named : Prop} (known : FailsWith IsExecution x) :
    FailsWith (IsRejection · named) x := fun f failed => .inl (known f failed)

theorem planRead_failsWith (inputSizes : List Nat) (evaluated : Bool) (kinds : List (Int × Element)) (node : Expr) :
    FailsWith (IsRejection · (Named inputSizes.length node)) (planRead inputSizes evaluated kinds node) := by
  unfold planRead
  cases reads : readSlot? node with
  | none => exact .pure kinds
  | some slot =>
    simp only [throw_bind]
    refine .refuse (.inl ⟨_, rfl⟩) fun inside => (noteKind_failsWith kinds slot node.kind).rejection.bind fun _ _ => ?_
    cases entry : Shape.entry? inputSizes slot with
    | some bytes => exact (checkRead_failsWith node bytes evaluated).rejection.bind fun _ _ => .pure _
    | none =>
      refine .throw (.inr ⟨rfl, fun named => ?_⟩)
      obtain ⟨bytes, found⟩ := Shape.entry?_of_range (named slot reads) (Int.not_le.1 inside)
      cases entry.symm.trans found

theorem planExpr_failsWith (inputSizes : List Nat) (state : Option Int × List (Int × Element)) (e : Expr) :
    FailsWith (IsRejection · (Every (Named inputSizes.length) e)) (planExpr inputSizes state e) :=
  (checkReductions_failsWith e false).rejection.bind fun _ _ =>
    (FailsWith.foldlM (fun size entry _ => planSpecial_failsWith size entry) _).rejection.bind fun _ _ =>
      (FailsWith.foldlM (fun kinds node member f failed =>
        (planRead_failsWith inputSizes _ kinds node f failed).mono fun named =>
          named node (Expr.mem_reads.1 member).1) _).bind fun _ _ => .pure _

theorem checkOutputs_failsWith (size : Int) (first : Nat) (outputs : List (Nat × Expr)) :
    FailsWith IsExecution (checkOutputs size first outputs) := by
  induction outputs generalizing first with
  | nil => exact .pure ()
  | cons output outputs inductionHypothesis => exact .refuse ⟨_, rfl⟩ fun _ => inductionHypothesis (first + 1)

/-- Validation fails at a check. Only a number beyond the first slot, counted back from the last one, is not looked
    at before the slot is. -/
theorem Kernel.plan_rejects (exprs : List Expr) (inputSizes outputSizes : List Nat) :
    FailsWith (IsRejection · (∀ e ∈ exprs, Every (Named inputSizes.length) e))
      (Kernel.plan exprs inputSizes outputSizes) :=
  (FailsWith.foldlM (fun state e member f failed =>
    (planExpr_failsWith inputSizes state e f failed).mono fun named => named e member) _).bind fun _ _ =>
      (checkOutputs_failsWith _ _ _).rejection.bind fun _ _ => .pure _

theorem Kernel.plan_failsWith {exprs : List Expr} {inputSizes : List Nat}
    (named : ∀ e ∈ exprs, Every (Named inputSizes.length) e) (outputSizes : List Nat) :
    FailsWith IsExecution (Kernel.plan exprs inputSizes outputSizes) := fun f failed =>
  (Kernel.plan_rejects exprs inputSizes outputSizes f failed).resolve_right fun ⟨_, unnamed⟩ => unnamed named

end StridedArray
