import StridedArray.Proofs.Executor.Agreement
import StridedArray.Proofs.Expr.Ranges
import StridedArray.Proofs.Executor.Schedules
import StridedArray.Proofs.Kernel.Validation

/-! # Reads that are rejected before anything runs

A kernel is rejected if the range of a position that it reads at leaves the layout. Ranges hold all values, so a
read that would leave its layout is rejected where its range is known.

* `checkRead_of_plan`, `inside_of_plan` — what validation has looked at;
* `Deferred.execute_rejects` — a read outside of its layout is rejected;
* `Deferred.execute_accepts_besideNothing` — not so beside a reduction of nothing;
* `Deferred.execute_defers` — one whose range is not known fails when it is run. -/

namespace StridedArray

open StridedArray.Expr (Declared Every Typed Unwrapped)

/-! ## What validation has looked at -/

variable {exprs : List Expr} {inputSizes outputSizes : List Nat} {kernel : Kernel} {e : Expr}

/-- Every read of an accepted kernel was checked, and its position too unless nothing is evaluated at all. -/
theorem checkRead_of_plan (planned : Kernel.plan exprs inputSizes outputSizes = .ok kernel) (member : e ∈ exprs)
    {node : Expr} (among : node ∈ e.postorder) {slot : Int} (reads : readSlot? node = some slot) :
    ∃ bytes, checkRead node bytes (!e.specials.any fun entry => entry.2 = 0) = .ok () := by
  simp only [Kernel.plan, bind_eq_ok, Prod.exists] at planned
  obtain ⟨size, kinds, accepted, -⟩ := planned
  obtain ⟨⟨size', kinds'⟩, after, step⟩ := foldlM_step accepted member
  simp only [planExpr, bind_eq_ok] at step
  obtain ⟨_, -, _, -, _, looked, -⟩ := step
  have isRead : node.isRead = true := by
    cases node <;> first | rfl | cases reads
  obtain ⟨before, next, read⟩ := foldlM_step looked (Expr.mem_reads.2 ⟨among, isRead⟩)
  simp only [planRead, reads, throw_bind, refuse_eq_ok, bind_eq_ok] at read
  obtain ⟨-, _, -, read⟩ := read
  split at read
  · next bytes _ =>
    obtain ⟨_, checked, -⟩ := bind_eq_ok.1 read
    exact ⟨bytes, checked⟩
  · cases read

/-- The range of a position, where it is known and positions are looked at, is one of the layout. -/
theorem bounds_of_checkRead {slot : Int} {kind : Element} {layout : Layout} {index : Expr} {bytes : Nat}
    {low high : Int} (checked : checkRead (.accessor slot kind layout index) bytes true = .ok ())
    (known : index.bounds? = some (low, high)) : 0 ≤ low ∧ high < layout.size := by
  have accepted := Layout.checkReach_of_checkRead checked
  unfold checkReach at accepted
  rw [Expr.boundsShared_eq, known] at accepted
  have positions : (if low < 0 ∨ layout.size ≤ high then throw (.execution (.positions slot low high layout.size))
      else pure () : Except Failure Unit) = .ok () := by
    cases reach : layout.offsetRange? with
    | none =>
      rw [reach] at accepted
      exact accepted
    | some range =>
      rw [reach] at accepted
      simp only [throw_bind] at accepted
      exact (refuse_eq_ok.1 accepted).2
  have inside := (refuse_eq_ok.1 positions).1
  omega

/-- The positions that an accepted kernel reads at are positions of the layouts, if their ranges are known. -/
theorem inside_of_plan (planned : Kernel.plan exprs inputSizes outputSizes = .ok kernel) (member : e ∈ exprs)
    (typed : Typed e) (evaluated : ∀ name extent d, .special name extent d ∈ e.postorder → extent ≠ 0)
    {slot : Int} {kind : Element} {layout : Layout} {index : Expr}
    (read : .accessor slot kind layout index ∈ e.postorder) (ranged : index.bounds? ≠ none)
    {env : Environment} {buffers : Buffers} {position : Option Int} (declared : Every (Declared env position) index)
    (unwrapped : Every (Unwrapped env buffers position) index) {p : Int}
    (value : index.valueAt env buffers position = .ok (.int p)) : 0 ≤ p ∧ p < layout.size := by
  have some : (!e.specials.any fun entry => entry.2 = 0) = true := by
    rw [Bool.not_eq_true', List.any_eq_false]
    intro entry listed
    obtain ⟨d, node⟩ := e.specials_spec.1 entry listed
    simpa using evaluated _ _ _ node
  obtain ⟨bytes, checked⟩ := checkRead_of_plan planned member read rfl
  rw [some] at checked
  obtain ⟨⟨low, high⟩, known⟩ := Option.ne_none_iff_exists'.1 ranged
  obtain ⟨nonneg, below⟩ := bounds_of_checkRead checked known
  have whole : index.kind = .int32 := typed _ read
  obtain ⟨n, same, least, most⟩ := Expr.bounds_contain (Expr.every_accessor.1 (typed.below read)).1
    (by rw [whole]; nofun) declared unwrapped known value
  cases same
  exact ⟨Int.le_trans nonneg least, Int.lt_of_le_of_lt most below⟩

/-! ## Executing -/

/-- The deferred executor rejects an expression that would read outside of a layout, if the range of the position is
    known: at no matter which values of the variables below the extents that they are declared with, and in
    whichever branch, as long as no operation leaves the integers of its kind. Nothing is handed to the worker. -/
theorem Deferred.execute_rejects {x : Deferred} {inputs outputs : List HandleArgument}
    {ins outs : List (Handle × Slot (Option Nat))} (first : inputs.mapM x.table.resolve = .ok ins)
    (second : outputs.mapM x.table.resolve = .ok outs) (named : ∀ e ∈ exprs, Every (Named inputs.length) e)
    (member : e ∈ exprs) (typed : Typed e)
    (evaluated : ∀ name extent d, .special name extent d ∈ e.postorder → extent ≠ 0)
    {slot : Int} {kind : Element} {layout : Layout} {index : Expr}
    (read : .accessor slot kind layout index ∈ e.postorder) (ranged : index.bounds? ≠ none)
    {output : Nat} {reduction : Option Int} {buffers : Buffers}
    (declared : Every (Declared (atOutput output) reduction) index)
    (unwrapped : Every (Unwrapped (atOutput output) buffers reduction) index) {p : Int}
    (value : index.valueAt (atOutput output) buffers reduction = .ok (.int p))
    (outside : ¬ (0 ≤ p ∧ p < layout.size)) :
    ∃ fault, (Executor.deferred x).execute exprs inputs outputs = (.error (.execution fault), .deferred x) := by
  have count : (ins.map fun b => b.2.size).length = inputs.length := by
    rw [List.length_map, (mapM_eq_ok.1 first).length_eq]
  have fails : FailsWith Failure.IsExecution (Executor.plan x.table exprs inputs outputs) := by
    unfold Executor.plan
    simp only [throw_bind]
    refine .refuse ⟨_, rfl⟩ fun _ => ?_
    rw [first, second]
    exact (Kernel.plan_failsWith (count ▸ named) _).bind fun _ _ => .pure _
  cases planned : Executor.plan x.table exprs inputs outputs with
  | error f =>
    obtain ⟨fault, rfl⟩ := fails f planned
    exact ⟨fault, execute_of_plan_error planned⟩
  | ok found =>
    obtain ⟨kernel, _, _⟩ := found
    obtain ⟨-, -, -, accepted⟩ := Executor.plan_eq_ok.1 planned
    exact absurd (inside_of_plan accepted member typed evaluated read ranged declared unwrapped value) outside

def Expr.ofTwo (index : Expr) : Expr := .accessor 0 .int32 (.rowMajor [2]) index

/-- The third of two numbers is not read. -/
theorem Deferred.execute_rejects_third :
    (Expr.outputPosition 3).bounds? ≠ none
      ∧ (Expr.outputPosition 3).valueAt (atOutput 2) (fun _ => none) none = .ok (.int 2)
      ∧ ¬ ((0 : Int) ≤ 2 ∧ 2 < (Layout.rowMajor [2]).size)
      ∧ ∃ fault, (Executor.deferred (.holding [bytesOf [1, 2], bytesOf [0, 0, 0]])).execute
          [Expr.ofTwo (.outputPosition 3)] [.handle ⟨0, 0⟩] [.handle ⟨0, 1⟩]
        = (.error (.execution fault), .deferred (.holding [bytesOf [1, 2], bytesOf [0, 0, 0]])) := by
  have value : (Expr.outputPosition 3).valueAt (atOutput 2) (fun _ => none) none = .ok (.int 2) := rfl
  have outside : ¬ ((0 : Int) ≤ 2 ∧ 2 < (Layout.rowMajor [2]).size) := by decide
  refine ⟨nofun, value, outside, Deferred.execute_rejects rfl rfl ?_ (List.mem_singleton_self _) ?_ ?_
    (Expr.self_mem_postorder _) nofun ?_ ?_ value outside⟩
  · refine List.forall_mem_singleton.2 (Expr.every_accessor.2 ⟨Expr.every_special.2 nofun, ?_⟩)
    rintro slot ⟨⟩
    decide
  · exact Expr.every_accessor.2 ⟨Expr.every_special.2 trivial, rfl⟩
  · intro name extent d member
    rcases List.mem_append.1 member with here | here
    · cases List.mem_singleton.1 here
      decide
    · cases List.mem_singleton.1 here
  · refine Expr.every_special.2 fun n bound => ?_
    cases bound
    decide
  · exact Expr.every_special.2 trivial

def Expr.besideNothing : Expr :=
  .binary .add .int32 (ofTwo (outputPosition 5)) (.reduce .add .int32 (reductionPosition 0) 0)

/-- An empty reduction keeps the positions of the whole expression from being looked at, though it is only the body of
    the reduction that is not evaluated. A read outside of its layout is then accepted, and found out too late. -/
theorem Deferred.execute_accepts_besideNothing :
    ((Expr.ofTwo (.outputPosition 5)).add (.reduce .add .int32 (.reductionPosition 0) 0) = .ok .besideNothing
      ∧ (Expr.outputPosition 5).bounds? = some (0, 4)
      ∧ (Expr.outputPosition 5).valueAt (atOutput 2) (fun _ => none) none = .ok (.int 2)
      ∧ (Layout.rowMajor [2]).size = 2)
    ∧ ∃ y, (Executor.deferred (.holding [bytesOf [1, 2], bytesOf [0, 0, 0, 0, 0]])).execute [.besideNothing]
        [.handle ⟨0, 0⟩] [.handle ⟨0, 1⟩] = (.ok (), .deferred y)
      ∧ ((Executor.deferred y).read ⟨0, 1⟩).1 = .error (.execution (.positions 0 0 4 2)) := by
  let x : Deferred := .holding [bytesOf [1, 2], bytesOf [0, 0, 0, 0, 0]]
  let job : Job := ⟨⟨[Expr.besideNothing], 5, [(0, .int32)]⟩, [(0, 0)], [1]⟩
  have planned : Executor.plan x.table [Expr.besideNothing] [.handle ⟨0, 0⟩] [.handle ⟨0, 1⟩]
      = .ok (job.kernel, [(⟨0, 0⟩, ⟨8, 1, none⟩)], [(⟨0, 1⟩, ⟨20, 1, none⟩)]) := rfl
  -- The worker looks at the positions when the read is done, whatever stands beside it.
  have failed : job.outputBytes (job.buffers x.settled.memory) .besideNothing
      = .error (.execution (.positions 0 0 4 2)) := by
    have several : (Lanes.ofColumn (Lanes.numbers 5)).isEmpty = false := by decide +kernel
    have range : (Lanes.ofColumn (Lanes.numbers 5)).range = (0, 4) := by decide +kernel
    have checked : Expr.checkPositions 0 (.rowMajor [2]) (.ofColumn (Lanes.numbers 5))
        = .error (.execution (.positions 0 0 4 2)) := by
      unfold Expr.checkPositions
      rw [several, range]
      rfl
    unfold Job.outputBytes
    rw [if_neg (by decide)]
    dsimp only
    rw [Expr.lanesShared_eq]
    show ((Expr.checkPositions 0 (.rowMajor [2]) (.ofColumn (Lanes.numbers 5)) >>= _) >>= _) >>= _ = _
    rw [checked]
    rfl
  have ran : job.run x.settled.memory = .error (.execution (.positions 0 0 4 2)) := by
    unfold Job.run
    dsimp only
    rw [List.mapM_cons, failed]
    rfl
  obtain ⟨y, submitted, executed, answers⟩ := Deferred.execute_awaited rfl planned
  refine ⟨⟨rfl, rfl, rfl, rfl⟩, y, executed, ?_⟩
  rw [answers ⟨0, 1⟩ _ rfl (by decide)]
  exact Deferred.readBuffer_of_run_error submitted ran rfl

def Expr.backwards : Expr := .binary .idiv .int32 (outputPosition 2) (.const .int32 (.int (-1)))

/-- Nothing is known of a quotient by a negative number, so a read in front of the first element is not rejected. -/
theorem Deferred.execute_defers :
    Expr.backwards.valueAt (atOutput 1) (fun _ => none) none = .ok (.int (-1))
      ∧ ∃ kernel ins outs y,
        Executor.plan (Deferred.holding [bytesOf [1, 2], bytesOf [0, 0]]).table [Expr.ofTwo .backwards]
            [.handle ⟨0, 0⟩] [.handle ⟨0, 1⟩] = .ok (kernel, ins, outs)
          ∧ kernel.size = 2
          ∧ (Executor.deferred (.holding [bytesOf [1, 2], bytesOf [0, 0]])).execute [Expr.ofTwo .backwards]
            [.handle ⟨0, 0⟩] [.handle ⟨0, 1⟩] = (.ok (), .deferred y) := by
  -- The index has no range, so the check passes whether or not the expression counts as evaluated.
  have checked : ∀ evaluated, checkRead (Expr.ofTwo .backwards) 8 evaluated = .ok () := by
    intro evaluated
    show checkReach 0 (.rowMajor [2]) .backwards 2 evaluated = _
    unfold checkReach
    rw [Expr.boundsShared_eq]
    cases evaluated <;> rfl
  have nodes : (Expr.ofTwo .backwards).postorder
      = [.outputPosition 2, .const .int32 (.int (-1)), .backwards, Expr.ofTwo .backwards] := rfl
  obtain ⟨kinds, accepted, -⟩ := @plan_single (Expr.ofTwo .backwards) [8] 8 2 (fun _ => .int32) rfl
    (by
      intro name extent d member
      rw [nodes] at member
      simp only [List.mem_cons, List.not_mem_nil, or_false] at member
      rcases member with same | same | same | same
      · cases same
        exact .inl rfl
      all_goals cases same)
    ⟨0, by rw [nodes]; exact List.mem_cons_self ..⟩
    (by
      intro node member isRead
      rw [nodes] at member
      simp only [List.mem_cons, List.not_mem_nil, or_false] at member
      rcases member with rfl | rfl | rfl | rfl
      · cases isRead
      · cases isRead
      · cases isRead
      · exact ⟨0, rfl, by decide, rfl, 8, rfl, checked⟩)
    (by decide)
  have planned := @Executor.plan_ok _ (Deferred.holding [bytesOf [1, 2], bytesOf [0, 0]]).table
    [Expr.ofTwo .backwards] _ [(⟨0, 0⟩, ⟨(bytesOf [1, 2]).size, 1, none⟩)]
    [(⟨0, 1⟩, ⟨(bytesOf [0, 0]).size, 1, none⟩)] rfl (List.forall_mem_singleton.2 rfl)
    (List.forall_mem_singleton.2 rfl) (by
      simp only [List.map_cons, List.map_nil, size_bytesOf]
      exact accepted)
  obtain ⟨y, -, executed, -⟩ := Deferred.execute_awaited (x := .holding [bytesOf [1, 2], bytesOf [0, 0]]) rfl planned
  exact ⟨rfl, _, _, _, y, planned, rfl, executed⟩

end StridedArray
