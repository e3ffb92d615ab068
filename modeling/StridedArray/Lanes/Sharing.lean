import StridedArray.Expr.Sharing
import StridedArray.Lanes

/-! # Evaluating shared operands once

Lowered reads repeat their operands many times over, each view of a layout using the position below
it once per axis. Evaluation remembers the values of operands it has met.

* `Expr.lanesShared` — evaluation with a memory, which gives what `Expr.lanes` gives:
  `lanesShared_eq`. -/

namespace StridedArray.Expr

variable [Room]

def lanesRemembering (readLayout : LayoutRead) (buffers : Buffers) (e : Expr) (env : LaneEnvironment) :
    StateM (Memory (lanesWith readLayout buffers · env)) (Solved (lanesWith readLayout buffers · env) e) :=
  remember (lanesWith readLayout buffers · env) e fun _ =>
    match e with
    | const _ value _ => pure ⟨pure (.uniform value), rfl⟩
    | special name _ _ =>
      pure ⟨match env name with
        | some l => pure l
        | none => throw .unbound, rfl⟩
    | accessor slot kind layout index => do
      let i ← lanesRemembering readLayout buffers index env
      pure ⟨i.result >>= readLayout slot kind layout, by rw [i.eq_result]; rfl⟩
    | load slot kind index => do
      let i ← lanesRemembering readLayout buffers index env
      pure ⟨i.result >>= loadLanes buffers slot kind, by rw [i.eq_result]; rfl⟩
    | unary op kind a => do
      let x ← lanesRemembering readLayout buffers a env
      pure ⟨x.result >>= Lanes.map (op.onLane kind), by rw [x.eq_result]; rfl⟩
    | binary op kind a b => do
      let x ← lanesRemembering readLayout buffers a env
      let y ← lanesRemembering readLayout buffers b env
      pure ⟨do (← x.result).zip (op.onLane kind a.kind) (← y.result), by
        rw [x.eq_result, y.eq_result]; rfl⟩
    | select _ condition a b => do
      let c ← lanesRemembering readLayout buffers condition env
      let x ← lanesRemembering readLayout buffers a env
      let y ← lanesRemembering readLayout buffers b env
      pure ⟨do
        Lanes.zip3 (fun c x y => pure (if c.truthy then x else y)) (← c.result) (← x.result)
          (← y.result), by
        rw [c.eq_result, x.eq_result, y.eq_result]; rfl⟩
    | reduce op kind body extent =>
      if refused : isRefused extent then pure ⟨throw .refused, by
        rw [lanesWith, if_pos refused]; rfl⟩
      else
        let n := extent.toNat
        -- The body has another environment, so it gets a memory of its own.
        let values := ((lanesRemembering readLayout buffers body (insideReduction env n)).run {}).1
        pure ⟨do reduceLanes op kind (rowCount env) n (← values.result), by
          rw [values.eq_result, lanesWith, if_neg refused]⟩
termination_by structural e

/-- The values of an expression at all positions, operands that occur several times being evaluated
    once. -/
def lanesWithShared (readLayout : LayoutRead) (buffers : Buffers) (e : Expr)
    (env : LaneEnvironment) : Except Failure Lanes :=
  ((lanesRemembering readLayout buffers (ShareCommon.shareCommon' e) env).run {}).1.result

theorem lanesWithShared_eq (readLayout : LayoutRead) (buffers : Buffers) (e : Expr)
    (env : LaneEnvironment) :
    lanesWithShared readLayout buffers e env = lanesWith readLayout buffers e env :=
  ((lanesRemembering readLayout buffers e env).run {}).1.eq_result

def readLanesShared (buffers : Buffers) : LayoutRead := fun slot kind layout index => do
  checkPositions slot layout index
  let low ← loweredRead slot kind layout
  lanesWithShared noLayoutRead buffers low (atPositions index)

theorem readLanesShared_eq (buffers : Buffers) : readLanesShared buffers = readLanes buffers := by
  funext slot kind layout index
  simp only [readLanesShared, readLanes, lanesWithShared_eq]

def lanesShared (e : Expr) (buffers : Buffers) (size : Nat) : Except Failure Lanes :=
  lanesWithShared (readLanesShared buffers) buffers e
    (fun name => if name = outputIndex then some (.ofColumn (Lanes.numbers size)) else none)

theorem lanesShared_eq (e : Expr) (buffers : Buffers) (size : Nat) :
    e.lanesShared buffers size = e.lanes buffers size := by
  simp only [lanesShared, lanes, lanesWithShared_eq, readLanesShared_eq]

end StridedArray.Expr
