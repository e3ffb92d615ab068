import StridedArray.Lanes
import StridedArray.Proofs.Expr.Bindings
import StridedArray.Proofs.Layout.ZeroExtents

/-! # Names that are looked up at all positions at once

The grids of an evaluation are bound to variables and its buffers to slots. Lowered reads have a variable of their own,
which is bound where they are evaluated.

* `Lanes.finds_ofFnM`, `BinaryOp.finds_onLane` and their neighbours — operations on grids;
* `Expr.Supplied` — all slots that are read have a buffer; `Expr.finds_lanesWith` — evaluation;
* `Expr.finds_readLanes` — reads through layouts; `Expr.finds_lanes` — both. -/

namespace StridedArray

/-! ## Operations -/

theorem Element.finds_convert (kind : Element) (value : Scalar) : Finds (kind.convert value) := by
  unfold convert
  split
  · exact .pure _
  · exact .pure _
  · exact kind.finds_coerce value

theorem UnaryOp.finds_onLane (op : UnaryOp) (kind : Element) (a : Scalar) : Finds (op.onLane kind a) := by
  cases op with
  | neg => exact .ite (fun _ => .pure _) fun _ => kind.finds_coerce _
  | sin => exact .bind a.finds_toFloat fun x _ => kind.finds_coerce _
  | cos => exact .bind a.finds_toFloat fun x _ => kind.finds_coerce _
  | cast => exact kind.finds_convert a

theorem BinaryOp.finds_onLane (op : BinaryOp) (kind operands : Element) (a b : Scalar) :
    Finds (op.onLane kind operands a b) := by
  have applied : Finds (op.apply operands a b >>= kind.coerce) :=
    .bind (op.finds_apply operands a b) fun c _ => kind.finds_coerce c
  cases op with
  | idiv => exact .refuse nofun fun _ => applied
  | mod => exact .refuse nofun fun _ => applied
  | max => exact .pure _
  | and => exact .pure _
  | add => exact applied
  | mul => exact applied
  | cmplt => exact applied
  | cmpgt => exact applied

theorem Reduction.finds_onRow (op : Reduction) (kind : Element) (values : List Scalar) :
    Finds (op.onRow kind values) := by
  unfold onRow
  split
  · refine .bind (.foldlM (fun acc x _ => ?_) _) fun sum _ => kind.finds_coerce sum
    refine .bind (BinaryOp.add.finds_apply .int32 acc x) fun s _ => ?_
    exact .ite (fun _ => kind.finds_coerce s) fun _ => .pure s
  · exact kind.finds_convert _
  · exact .pure _

namespace Lanes

theorem finds_ofFnM {rows columns : Nat} {f : Nat → Nat → Except Failure Scalar} (each : ∀ i j, Finds (f i j)) :
    Finds (ofFnM rows columns f) := by
  refine .bind ?_ fun cells _ => .pure _
  rw [Array.mapM_eq_mapM_toList]
  exact .map (.mapM fun p _ => each _ _)

end Lanes

namespace Expr

variable {readLayout : LayoutRead} {buffers : Buffers}

theorem finds_loadLanes {slot : Int} (supplied : (buffers slot).isSome) (kind : Element) (index : Lanes) :
    Finds (loadLanes buffers slot kind index) := by
  obtain ⟨elements, known⟩ := Option.isSome_iff_exists.1 supplied
  unfold loadLanes
  rw [known]
  refine .ite (fun _ => .pure _) fun _ => .refuse nofun fun _ => ?_
  exact Lanes.finds_ofFnM fun i j => .pure _

theorem finds_checkPositions (slot : Int) (layout : Layout) (index : Lanes) :
    Finds (checkPositions slot layout index) :=
  .ite (fun _ => .pure ()) fun _ => .refuse nofun fun _ => .pure ()

/-! ## Evaluation -/

abbrev Supplied (buffers : Buffers) (e : Expr) : Prop :=
  Every (fun node => ∀ slot, readSlot? node = some slot → (buffers slot).isSome) e

theorem Binds.insideReduction {env : LaneEnvironment} {e : Expr} (binds : Binds env e) (extent : Nat) :
    Binds (insideReduction env extent) e :=
  binds.imp fun node known name extent d same => (known name extent d same).imp_right fun bound => by
    unfold Expr.insideReduction
    split
    · rfl
    · exact bound

variable [Room]

/-- Evaluation for all positions finds its bindings as evaluation at one point does, as long as the slots have
    buffers. -/
theorem finds_lanesWith (readable : ∀ slot kind layout index, (buffers slot).isSome →
      Finds (readLayout slot kind layout index)) {e : Expr} {inside : Bool} {env : LaneEnvironment}
    (scope : Scoped inside e) (binds : Binds env e) (supplied : Supplied buffers e)
    (bound : inside = true → (env reductionIndex).isSome) : Finds (e.lanesWith readLayout buffers env) := by
  induction e generalizing inside env with
  | const => exact .pure _
  | special name extent d =>
    have known : (env name).isSome := by
      rcases every_special.1 binds _ _ _ rfl with index | other
      · rw [index]
        exact bound (scoped_special.1 scope index)
      · exact other
    obtain ⟨l, value⟩ := Option.isSome_iff_exists.1 known
    rw [lanesWith, value]
    exact .pure l
  | accessor slot kind layout index ih =>
    obtain ⟨below, here⟩ := every_accessor.1 supplied
    exact .bind (ih scope (every_accessor.1 binds).1 below bound) fun l _ => readable _ _ _ _ (here slot rfl)
  | load slot kind index ih =>
    obtain ⟨below, here⟩ := every_load.1 supplied
    exact .bind (ih scope (every_load.1 binds).1 below bound) fun l _ => finds_loadLanes (here slot rfl) _ _
  | unary op kind a ih =>
    refine .bind (ih scope (every_unary.1 binds).1 (every_unary.1 supplied).1 bound) fun l _ => ?_
    exact Lanes.finds_ofFnM fun i j => op.finds_onLane _ _
  | binary op kind a b iha ihb =>
    obtain ⟨scopeLeft, scopeRight⟩ := scoped_binary.1 scope
    obtain ⟨bindsLeft, bindsRight, -⟩ := every_binary.1 binds
    obtain ⟨left, right, -⟩ := every_binary.1 supplied
    refine .bind (iha scopeLeft bindsLeft left bound) fun x _ => ?_
    refine .bind (ihb scopeRight bindsRight right bound) fun y _ => ?_
    exact Lanes.finds_ofFnM fun i j => op.finds_onLane _ _ _ _
  | select kind c a b ihc iha ihb =>
    obtain ⟨scopeCondition, scopeLeft, scopeRight⟩ := scoped_select.1 scope
    obtain ⟨bindsCondition, bindsLeft, bindsRight, -⟩ := every_select.1 binds
    obtain ⟨condition, left, right, -⟩ := every_select.1 supplied
    refine .bind (ihc scopeCondition bindsCondition condition bound) fun c _ =>
      .bind (iha scopeLeft bindsLeft left bound) fun x _ => .bind (ihb scopeRight bindsRight right bound) fun y _ => ?_
    exact Lanes.finds_ofFnM fun i j => .pure _
  | reduce op kind body extent ih =>
    obtain ⟨-, scopeBody⟩ := scoped_reduce.1 scope
    refine .refuse nofun fun _ => ?_
    -- In the body the reduction index is bound to the row of its positions.
    have inside := Binds.insideReduction (every_reduce.1 binds).1
    refine .bind (ih scopeBody (inside _) (every_reduce.1 supplied).1 fun _ => ?_)
      fun values _ => Lanes.finds_ofFnM fun i _ => op.finds_onRow _ _
    rfl

/-! ## Reads through layouts -/

/-- A node of a lowered read: its only variable is that of the positions, its only slot the one that was read. -/
structure OfRead (slot : Int) (node : Expr) : Prop where
  slot : ∀ s, readSlot? node = some s → s = slot
  name : ∀ name extent d, node = .special name extent d → name = positionIndex
  once : ∀ op kind body n, node ≠ .reduce op kind body n

omit [Room] in
theorem plain_ofRead (slot : Int) : Plain (OfRead slot) := by
  intro node _ _ plain
  cases node with
  | const | binary | select => exact ⟨nofun, nofun, nofun⟩
  | _ => cases plain

omit [Room] in
theorem finds_noLayoutRead (slot : Int) (kind : Element) (layout : Layout) (index : Lanes) :
    Finds (noLayoutRead slot kind layout index) := .throw nofun

/-- Reads through layouts find the buffer of their slot. -/
theorem finds_readLanes (slot : Int) (kind : Element) (layout : Layout) (index : Lanes)
    (supplied : (buffers slot).isSome) : Finds (readLanes buffers slot kind layout index) := by
  have position : Formed (OfRead slot) .int32 (.special positionIndex layout.size) :=
    ⟨rfl, every_special.2 trivial, every_special.2 ⟨nofun, fun _ _ _ same => by cases same; rfl, nofun⟩⟩
  have lowered := guardedLoad_stops (plain_ofRead slot) position slot kind layout
    (fun _ => ⟨fun s same => (Option.some.inj same).symm, nofun, nofun⟩) ⟨nofun, nofun, nofun⟩
    fun _ _ _ => ⟨nofun, nofun, nofun⟩
  refine .bind (finds_checkPositions _ _ _) fun _ _ => .bind (x := loweredRead slot kind layout) ?_ fun low built => ?_
  · exact fun f failed => by rw [lowered.failsWith f failed]; nofun
  · rcases lowered with ⟨-, failed⟩ | ⟨-, low', built', formed, -⟩
    · cases failed.symm.trans built
    · cases built'.symm.trans built
      have scope : Scoped false low := scoped_of_every (formed.nodes.imp fun node known =>
        ⟨known.once, fun name extent d same => by
          rw [known.name name extent d same]
          decide⟩)
      refine finds_lanesWith (fun s k l i _ => finds_noLayoutRead s k l i) scope ?_ ?_ nofun
      · exact formed.nodes.imp fun node known name extent d same => .inr (by
          rw [known.name name extent d same]
          rfl)
      · exact formed.nodes.imp fun node known s same => by
          rw [known.slot s same]
          exact supplied

theorem finds_lanes {e : Expr} (scope : Scoped false e) (supplied : Supplied buffers e)
    (indices : ∀ {name extent d}, special name extent d ∈ e.postorder → name = outputIndex ∨ name = reductionIndex)
    (size : Nat) : Finds (e.lanes buffers size) := by
  refine finds_lanesWith finds_readLanes scope (fun node member name extent d same => ?_) supplied nofun
  rcases indices (same ▸ member) with output | reduction
  · rw [output]
    exact .inr rfl
  · exact .inl reduction

end Expr

end StridedArray
