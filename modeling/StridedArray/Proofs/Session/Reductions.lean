import StridedArray.Proofs.Executor.Atomicity
import StridedArray.Proofs.Kernel.Rows
import StridedArray.Proofs.Layout.Folding
import StridedArray.Proofs.Session.Balance
import StridedArray.Proofs.Session.Operands

/-! # Reductions of arrays of numbers

Sums modulo `2 ^ 32` and greatest elements along some axes, which are left out of the result or kept with extent 1.

* `runKernel_refused`, `runKernel_noRoom` — a kernel that is refused, or has no room for its output, leaves
  everything as it was;
* `restored` — the folded axes are kept;
* `Reduced` — what becomes of a reduction. -/

namespace StridedArray.Session

open Layout (rowMajor)
open Shape (Inside product ravel unravel collapsed fiber extentAlong)

variable {s : Session} {owner : Nat} {r : TensorRef} {shape : List Int} {z : Host}

/-! ## Kernels that fail -/

section Failures

variable {inputs : List Input} {e : Expr} {f : Failure}

theorem HasHost.extends_withHost (has : s.HasHost owner z) {y : Host} (same : y.table.owner = owner)
    (kept : ∀ {n bytes}, z.table.Stores n 1 bytes → y.table.Stores n 1 bytes) : s.Extends (s.withHost owner y) :=
  ⟨id, fun stored => stored.withHost has same fun _ => kept⟩

/-- A kernel that is refused gives back the buffer for its output. -/
theorem HasHost.runKernel_refused [Room] (has : s.HasHost owner z) (natural : 0 ≤ product shape * e.kind.itemSize)
    (room : product shape * e.kind.itemSize < Room.limit)
    (stored : ∀ input ∈ inputs, input.handle.owner = owner ∧ s.Stores input.handle 1 input.bytes)
    (refused : ∀ output, Kernel.plan [e] (inputs.map fun input => input.bytes.size) [output] = .error f) :
    ∃ s', (runKernel owner e shape (inputs.map Input.handle)).run.run s = (.error f, s') ∧ s.Extends s' := by
  let zeros : Bytes := Array.replicate (product shape * e.kind.itemSize).toNat 0
  let table := (z.table.allocate zeros.size zeros).2
  let slot := z.table.slots.size
  have allocated : Runs (allocate owner (product shape * e.kind.itemSize) none) s ⟨owner, slot⟩
      (s.withHost owner ⟨table⟩) := has.runs_zeros natural room rfl
  have here : (s.withHost owner ⟨table⟩).HasHost owner ⟨table⟩ := has.withHost has.owner
  obtain ⟨slots, -, planned⟩ := plan_inputs (x := ⟨table⟩) e (has.lookup_inputs stored zeros) (has.lookup_new zeros)
  rw [refused] at planned
  have failed : (onExecutor owner fun x => x.execute [e] ((inputs.map Input.handle).map HandleArgument.handle)
      [.handle ⟨owner, slot⟩]).run.run (s.withHost owner ⟨table⟩) = (.error f, s.withHost owner ⟨table⟩) := by
    rw [onExecutor_of_some here.found, List.map_map]
    have unchanged : (Executor.host ⟨table⟩).execute [e] (inputs.map fun input => .handle input.handle)
        [.handle ⟨owner, slot⟩] = (.error f, .host ⟨table⟩) := Host.execute_of_plan_failed planned
    rw [show HandleArgument.handle ∘ Input.handle = fun input => .handle input.handle from rfl, unchanged]
    exact congrArg (Prod.mk _) here.withHost_self
  have released := here.runs_releaseLast (show table.slot? slot = some ⟨zeros.size, 1, zeros⟩
    from Table.slot?_allocate_last ..)
  rw [withHost_withHost] at released
  refine ⟨s.withHost owner ⟨table.put slot none⟩, ?_, has.extends_withHost has.owner fun known => ?_⟩
  · exact (run_bind_ok allocated).trans
      (run_bind_error ((run_tryCatch_error failed).trans (released.bind_run fun _ => throw f)))
  · obtain ⟨refs, enough, found⟩ := known
    exact ⟨refs, enough, (Table.slot?_put_other (Nat.ne_of_lt (Table.slot?_lt found)) _).trans
      (Table.slot?_allocate _ _ found)⟩

/-- How a kernel fails for whose output there is no room. -/
def noSpace (size : Int) : Failure := if fitsSigned 64 size then .exhausted else .overflow

theorem HasHost.runKernel_noRoom [Room] (has : s.HasHost owner z) (large : Room.limit ≤ product shape * e.kind.itemSize)
    (handles : List Handle) :
    ∃ s', (runKernel owner e shape handles).run.run s = (.error (noSpace (product shape * e.kind.itemSize)), s')
      ∧ s.Extends s' := by
  have unfit : (Executor.host z).allocate (product shape * e.kind.itemSize) none
      = (.error (noSpace (product shape * e.kind.itemSize)), .host ⟨z.table.skip⟩) := by
    unfold Executor.allocate
    rw [if_pos ⟨rfl, large⟩]
    rfl
  have failed : (allocate owner (product shape * e.kind.itemSize) none).run.run s
      = (.error (noSpace (product shape * e.kind.itemSize)), s.withHost owner ⟨z.table.skip⟩) := by
    unfold allocate
    rw [onExecutor_of_some has.found, unfit]
    rfl
  -- The number of a slot is used up, but no slot in use is another one.
  refine ⟨_, run_bind_error failed, has.extends_withHost has.owner fun known => ?_⟩
  obtain ⟨refs, enough, found⟩ := known
  exact ⟨refs, enough, (Table.slot?_skip _ _).trans found⟩

end Failures

/-! ## Folded axes that are kept -/

/-- An array that gets extent 1 on the axes that were folded, if they are kept. -/
def restored (shape : List Int) (folded : Finset Nat) (keep : Bool) (out : TensorRef) : Action TensorRef :=
  if keep then do
    let result ← moved out fun l => l.reshape (collapsed folded true 1 shape)
    dispose out
    return result
  else return out

theorem runs_restored {computed : Session} {folded : Finset Nat} {kind : Element} {v : List Int → Int}
    (later : s.Extends computed) (natural : ∀ n ∈ shape, 0 ≤ n)
    (filled : computed.Filled owner ⟨s.tensors.size⟩ kind (collapsed folded false 1 shape) v) :
    ∃ s', Runs (restored shape folded true ⟨s.tensors.size⟩) computed ⟨computed.tensors.size⟩ s'
      ∧ s.Extends s'
      ∧ s'.Presents owner ⟨computed.tensors.size⟩ ⟨kind, collapsed folded true 1 shape,
        fun index => v (collapsed folded false 0 index)⟩ := by
  obtain ⟨t, bytes, known, carries, rfl, layout, size, numbers⟩ := filled
  let left := collapsed folded false 1 shape
  let kept := collapsed folded true 1 shape
  have anchored : (rowMajor left).Anchored (product left) := Layout.anchored_rowMajor
    (Shape.natural_collapsed natural folded false)
  have extents : ∀ n ∈ kept, 0 ≤ n := Shape.natural_collapsed natural folded true
  have same : product kept = (rowMajor left).size := Shape.product_collapsed ..
  have reshaped : (rowMajor left).reshape kept = .ok ((rowMajor left).reshaped kept) :=
    Layout.reshape_ok.2 ⟨extents, same, rfl⟩
  have count : ((bytes.size / t.kind.itemSize : Nat) : Int) = product left := Element.count_eq size
  have moves : t.layout.reshape kept = .ok ((rowMajor left).reshaped kept) := by
    rw [layout]
    exact reshaped
  obtain ⟨s', replaces, extended, last, stored⟩ := @runs_replaceLast s _ _ _ (fun l => l.reshape kept) _ later known
    carries.live carries.stored moves
  refine ⟨s', replaces, extended, _, bytes, last, { carries with live := rfl, stored := stored }, rfl,
    Layout.shape_reshaped anchored.sound extents, count ▸ anchored.reshape reshaped, fun index inside => ?_⟩
  -- Where there is one index there are rows, and the index stands for the same place in both shapes.
  have place := Shape.samePlace_collapsed inside
  obtain ⟨low, high⟩ := inside.ravel_bounds
  have here := anchored.sound.offsetOf?_reshaped_of_settled anchored.settled extents same low (same ▸ high)
  rw [inside.unravel_ravel, ← place.place] at here
  have shown : ((rowMajor left).reshaped kept).offsetOf? index = some (ravel (collapsed folded false 0 index) left) :=
    here.trans ((congrArg _ place.left.unravel_ravel).trans (Layout.offsetOf?_rowMajor place.left))
  unfold Layout.entry
  rw [shown]
  exact numbers _ place.left

/-! ## Reductions -/

section Reductions

variable {kind : Element} {x : List Int → Int} {op : Reduction} {request : AxisRequest}

/-- There are no rows, and their length leaves no trace when it is brought into range. -/
def Untraced (shape : List Int) (folded : Finset Nat) : Prop :=
  product (collapsed folded false 1 shape) = 0 ∧ extentAlong shape folded ≠ 0 ∧ wrap32 (extentAlong shape folded) = 0

instance (shape : List Int) (folded : Finset Nat) : Decidable (Untraced shape folded) :=
  inferInstanceAs (Decidable (_ ∧ _ ∧ _))

variable {t : Tensor} {bytes : Bytes} {rows : Layout} {folded : Finset Nat}

theorem contained_rows (size : (bytes.size : Int) = product shape * t.kind.itemSize) (gathers : rows.Gathers shape folded) :
    rows.Contained (bytes.size / t.kind.itemSize : Nat) :=
  Element.count_eq size ▸ gathers.anchored.contained

theorem runs_rowFold [Room] (has : s.HasHost owner z) (carries : s.Carries owner t bytes)
    (size : (bytes.size : Int) = product shape * t.kind.itemSize)
    (numbers : ∀ index, Inside index shape → t.kind.numberAt bytes (ravel index shape) = x index)
    (natural : ∀ n ∈ shape, 0 ≤ n) (small : product shape < 0x80000000) (gathers : rows.Gathers shape folded)
    (some : op = .max → extentAlong shape folded ≠ 0) (traced : ¬ Untraced shape folded)
    (room : product (collapsed folded false 1 shape) * 4 < Room.limit) :
    ∃ s' v, Runs (runKernel owner (Expr.rowFold op t.kind rows (product (collapsed folded false 1 shape))
        (extentAlong shape folded)) (collapsed folded false 1 shape) [t.handle]) s ⟨s.tensors.size⟩ s'
      ∧ s.Extends s' ∧ s'.Filled owner ⟨s.tensors.size⟩ .int32 (collapsed folded false 1 shape) v
      ∧ ∀ index, Inside index (collapsed folded false 1 shape) → op.Folds (fiber shape folded false index) x (v index) := by
  let left := collapsed folded false 1 shape
  let count := extentAlong shape folded
  let e := Expr.rowFold op t.kind rows (product left) count
  let input : Input := ⟨t.handle, t.kind, bytes⟩
  have contained := contained_rows size gathers
  have extents : ∀ n ∈ left, 0 ≤ n := Shape.natural_collapsed natural folded false
  have least : 0 ≤ count := contained.natural count (by rw [gathers.lined]; simp [count])
  have few : product left * count < 0x80000000 := gathers.size ▸ small
  have total : rows.size = product left * count := by
    rw [Layout.size, gathers.lined, Shape.product_append]
    simp [left, count]
  have accepted : e.Accepted [input] (product left) :=
    @Expr.accepted_rowFold rows (product left) count op input carries.elements contained
      (Shape.product_nonneg extents) least total few traced
  have each : ∀ k : Nat, (k : Int) < product left →
      ∃ v, e.valueAt (atOutput k) (Input.buffers [input]) none = .ok (.int v) ∧ Word v
        ∧ op.Folds (Finset.range count.toNat)
          (fun step => rows.entry (t.kind.numberAt bytes) (unravel k left ++ [(step : Int)])) v :=
    fun k bound => Expr.valueAt_rowFold carries.whole rfl contained gathers.lined few some bound
  choose! v known using each
  obtain ⟨content, runs, filled⟩ := runs_runKernel has accepted (show Element.int32 ≠ .float32 by decide) extents room
    (by simpa using ⟨carries.owner, carries.stored⟩) (fun k bound => (known k bound).1) fun k bound => (known k bound).2.1
  refine ⟨_, _, runs, has.extends_withNew .., filled, fun index inside => ?_⟩
  obtain ⟨low, high⟩ : 0 ≤ ravel index left ∧ ravel index left < product left := inside.ravel_bounds
  obtain ⟨-, -, folds⟩ := known (ravel index left).toNat (by omega)
  rw [Int.toNat_of_nonneg low, inside.unravel_ravel] at folds
  -- A row goes through the elements that are folded once each, in some order that the fold does not depend on.
  obtain ⟨f, injective, image, shown⟩ := gathers.fibers index inside
  have positions : op.Folds (Finset.range count.toNat) (fun step => t.kind.numberAt bytes (ravel (f step) shape)) _ :=
    folds.congr fun step member => by
      rw [Layout.entry, shown step (Finset.mem_range.1 member)]
  have all := positions.image (x := fun i => t.kind.numberAt bytes (ravel i shape)) injective
  rw [image] at all
  exact all.congr fun i member => numbers i (Shape.mem_box.1 (Finset.mem_filter.1 member).1)

theorem reduce_planned [Room] {given : Datum} {axes : List Nat} (known : s.tensors[r.number]? = some t)
    (carries : s.Carries owner t bytes) (shaped : t.shape = shape)
    (planned : t.layout.planReduction op given
      = .ok ⟨axes, collapsed axes.toFinset false 1 shape, extentAlong shape axes.toFinset, rows⟩) (keep : Bool) :
    (reduce op r given keep).run.run s
      = (runKernel owner (Expr.rowFold op t.kind rows (product (collapsed axes.toFinset false 1 shape))
          (extentAlong shape axes.toFinset)) (collapsed axes.toFinset false 1 shape) [t.handle]
        >>= restored shape axes.toFinset keep).run.run s := by
  unfold reduce
  rw [(runs_live known carries.live).bind_run, (runs_ofResult planned).bind_run,
    (runs_ofResult (Expr.expr_rowFold _ carries.whole)).bind_run, show t.owner = owner from carries.owner]
  dsimp only
  rw [shaped, Shape.keptShape_eq]
  cases keep <;> rfl

/-- What becomes of a reduction of an array of numbers: its answer, and the session after it. -/
inductive Reduced [Room] (s : Session) (owner : Nat) (shape : List Int) (x : List Int → Int) (op : Reduction)
    (folded : Finset Nat) (keep : Bool) (refuses : Prop) : Except Failure TensorRef × Session → Prop
  /-- An axis is not there or is named twice, or there is no greatest element. -/
  | refused (refused : refuses) (fault : ShapeFault) :
    Reduced s owner shape x op folded keep refuses (.error (.shape fault), s)
  /-- There are no elements, and the length of a row is a multiple of `2 ^ 32`. -/
  | untraced {s' : Session} (accepted : ¬ refuses) (untraced : Untraced shape folded) (later : s.Extends s') :
    Reduced s owner shape x op folded keep refuses
      (.error (.execution (.positions 0 0 (extentAlong shape folded - 1) 0)), s')
  /-- The result cannot be stored. -/
  | tooLarge {s' : Session} (accepted : ¬ refuses) (traced : ¬ Untraced shape folded)
    (large : Room.limit ≤ product (collapsed folded false 1 shape) * 4) (later : s.Extends s') :
    Reduced s owner shape x op folded keep refuses
      (.error (noSpace (product (collapsed folded false 1 shape) * 4)), s')
  /-- Every element of the result is the fold of the elements at the multi-indices of which the same is left. -/
  | made {s' : Session} {out : TensorRef} {v : List Int → Int} (accepted : ¬ refuses)
    (traced : ¬ Untraced shape folded) (room : product (collapsed folded false 1 shape) * 4 < Room.limit)
    (later : s.Extends s') (presents : s'.Presents owner out ⟨.int32, collapsed folded keep 1 shape, v⟩)
    (folds : ∀ index, Inside index (collapsed folded keep 1 shape) →
      op.Folds (fiber shape folded keep index) x (v index)) :
    Reduced s owner shape x op folded keep refuses (.ok out, s')

theorem reduced_rowFold [Room] {refuses : Prop} (has : s.HasHost owner z) (carries : s.Carries owner t bytes)
    (size : (bytes.size : Int) = product shape * t.kind.itemSize)
    (numbers : ∀ index, Inside index shape → t.kind.numberAt bytes (ravel index shape) = x index)
    (natural : ∀ n ∈ shape, 0 ≤ n) (small : product shape < 0x80000000) (gathers : rows.Gathers shape folded)
    (some : op = .max → extentAlong shape folded ≠ 0) (accepted : ¬ refuses) (keep : Bool) :
    Reduced s owner shape x op folded keep refuses
      ((runKernel owner (Expr.rowFold op t.kind rows (product (collapsed folded false 1 shape))
          (extentAlong shape folded)) (collapsed folded false 1 shape) [t.handle]
        >>= restored shape folded keep).run.run s) := by
  let left := collapsed folded false 1 shape
  let count := extentAlong shape folded
  let e := Expr.rowFold op t.kind rows (product left) count
  let input : Input := ⟨t.handle, t.kind, bytes⟩
  have extents : ∀ n ∈ left, 0 ≤ n := Shape.natural_collapsed natural folded false
  -- A row of a length that wraps to 0 loses the output index, and then nothing tells that there are no rows.
  by_cases untraced : Untraced shape folded
  · obtain ⟨none, positive, vanishes⟩ := untraced
    have contained := contained_rows size gathers
    have least : 0 ≤ count := contained.natural count (by rw [gathers.lined]; simp [count])
    have empty : rows.size = 0 := by
      rw [Layout.size, gathers.lined, Shape.product_append, none, Int.zero_mul]
    have nothing : product left * e.kind.itemSize = 0 := by
      rw [show product left = 0 from none, Int.zero_mul]
    obtain ⟨s', failed, later⟩ := @HasHost.runKernel_refused s owner left z [input] e _ _ has (by omega)
      (holds_few e.kind (none.trans_lt (by decide))) (by simpa using ⟨carries.owner, carries.stored⟩)
      (@Expr.plan_unbounded rows (product left) count op input carries.elements contained empty (by omega) vanishes)
    rw [show [t.handle] = [input].map Input.handle from rfl, run_bind_error failed]
    exact .untraced accepted ⟨none, positive, vanishes⟩ later
  by_cases large : Room.limit ≤ product left * 4
  · obtain ⟨s', failed, later⟩ := @HasHost.runKernel_noRoom s owner left z e _ has large [t.handle]
    rw [run_bind_error failed]
    exact .tooLarge accepted untraced large later
  · have room : product left * 4 < Room.limit := Int.not_le.1 large
    obtain ⟨s', v, runs, later, filled, folds⟩ :=
      runs_rowFold has carries size numbers natural small gathers some untraced room
    rw [runs.bind_run]
    cases keep with
    | false => exact .made accepted untraced room later (filled.presents extents) folds
    | true =>
      obtain ⟨s'', brought, extended, presents⟩ := runs_restored later natural filled
      rw [show (restored shape folded true ⟨s.tensors.size⟩).run.run s' = _ from brought]
      refine .made accepted untraced room extended presents fun index inside => ?_
      rw [Shape.fiber_true inside]
      exact folds _ (Shape.samePlace_collapsed inside).left

/-- A reduction of an upload along some axes, in whatever order they are named. -/
theorem reduction_of_upload [Room] (filled : s.Filled owner r kind shape x) (natural : ∀ n ∈ shape, 0 ≤ n)
    (small : product shape < 0x80000000) (op : Reduction) (request : AxisRequest) (keep : Bool) :
    Reduced s owner shape x op (request.folded shape.length) keep (Layout.Refuses shape op request)
      ((reduce op r request.datum keep).run.run s) := by
  obtain ⟨t, bytes, known, carries, rfl, layout, size, numbers⟩ := filled
  obtain ⟨z, has, -⟩ := carries.stored
  rw [carries.owner] at has
  rcases Layout.planReduction_cases natural op request with ⟨refuses, fault, failed⟩ | ⟨accepted, rows, gathers, planned⟩
  · rw [← layout] at failed
    have ran : (reduce op r request.datum keep).run.run s = (.error (.shape fault), s) := by
      unfold reduce
      rw [(runs_live known carries.live).bind_run, failed]
      rfl
    rw [ran]
    exact .refused refuses fault
  · rw [← layout] at planned
    rw [reduce_planned known carries (congrArg Layout.shape layout) planned keep]
    exact reduced_rowFold has carries size numbers natural small gathers
      (fun greatest zero => accepted (.inr ⟨greatest, zero⟩)) accepted keep

/-- The rows of two by three integers are summed up. -/
theorem reduction_of_upload_rows :
    ∃ out s' v, Runs (sum ⟨0⟩ (.list [.int (-1)]) true) (alone [5, -3, 7, 2, 9, 1] (rowMajor [2, 3])) out s'
      ∧ s'.Presents 0 out ⟨.int32, [2, 1], v⟩ ∧ v [0, 0] = 9 ∧ v [1, 0] = 12 := by
  let values : List Int := [5, -3, 7, 2, 9, 1]
  have filled : (alone values (rowMajor [2, 3])).Filled 0 ⟨0⟩ .int32 [2, 3] (listed [2, 3] values) :=
    filled_alone (by decide) (by decide)
  have reduced := reduction_of_upload filled (by decide) (by decide) .add (.several [-1]) true
  generalize result : (reduce .add ⟨0⟩ (AxisRequest.several [-1]).datum true).run.run (alone values (rowMajor [2, 3]))
    = answer at reduced
  cases reduced with
  | refused refuses => exact absurd refuses (by decide)
  | untraced _ untraced => exact absurd untraced (by decide)
  | tooLarge _ _ large => exact absurd large (by decide)
  | @made s' out v _ _ _ _ presents folds =>
    refine ⟨out, s', v, result, presents, (folds [0, 0] (by decide)).trans ?_, (folds [1, 0] (by decide)).trans ?_⟩
    · decide
    · decide

end Reductions

end StridedArray.Session
