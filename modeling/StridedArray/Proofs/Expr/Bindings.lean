import StridedArray.Proofs.Expr.Nodes
import StridedArray.Proofs.Expr.Points

/-! # Names that are looked up

Evaluation fails for lack of a binding in one place only, at a variable that nothing is bound to. Reductions bind
their index themselves, so where they are as they have to be it takes a binding of the other variables for evaluation
to find all that it looks up.

* `Finds` — a computation that does not fail for lack of a binding; `finds_coerce`, `finds_apply` and their
  neighbours — computations with values, which look up no names;
* `Expr.finds_valueAt`, `Expr.finds_evaluate` — evaluation at a point. -/

namespace StridedArray

/-- A computation finds the bindings of all names that it looks up. Whatever else it may fail at is left open. -/
abbrev Finds {α : Type} (x : Except Failure α) : Prop := FailsWith (· ≠ .unbound) x

/-! ## Values -/

namespace Scalar

theorem finds_toInt (a : Scalar) : Finds a.toInt := by
  cases a with
  | bool b => exact .pure _
  | int n => exact .pure n
  | float x =>
    dsimp only [toInt]
    split
    · exact .throw nofun
    · exact .throw nofun
    · exact .pure _
  | nan negative fraction => exact .throw nofun

theorem finds_toFloat (a : Scalar) : Finds a.toFloat := by
  cases a with
  | bool b => exact .pure _
  | int n =>
    dsimp only [toFloat]
    split
    · exact .pure _
    · exact .throw nofun
  | float x => exact .pure x
  | nan negative fraction => exact .pure _

theorem finds_combine {onInt : Int → Int → Except Failure Int} {onFloat : Float → Float → Except Failure Float}
    (whole : ∀ m n, Finds (onInt m n)) (single : ∀ x y, Finds (onFloat x y)) (a b : Scalar) :
    Finds (combine onInt onFloat a b) := by
  unfold combine
  split
  · exact .map (whole _ _)
  · exact .bind a.finds_toFloat fun x _ => .bind b.finds_toFloat fun y _ => .map (single x y)

theorem finds_floorDivide (a b : Scalar) : Finds (a.floorDivide b) := by
  refine finds_combine (fun m n => ?_) (fun x y => ?_) a b
  · exact .refuse nofun fun _ => .pure _
  · exact .refuse nofun fun _ => .pure _

theorem finds_floorModulo (a b : Scalar) : Finds (a.floorModulo b) := by
  refine finds_combine (fun m n => ?_) (fun x y => ?_) a b
  · exact .refuse nofun fun _ => .pure _
  · exact .refuse nofun fun _ => .pure _

end Scalar

namespace Element

theorem finds_coerce (kind : Element) (value : Scalar) : Finds (kind.coerce value) := by
  cases kind with
  | bool => exact .pure _
  | int32 => exact .bind value.finds_toInt fun n _ => .pure _
  | float32 =>
    cases value with
    | nan negative fraction => exact .pure _
    | _ => exact .bind (Scalar.finds_toFloat _) fun x _ => .pure _

theorem finds_encode (kind : Element) (value : Scalar) : Finds (kind.encode value) := by
  cases kind with
  | bool => exact .pure _
  | int32 =>
    have word : ∀ n, Finds (requireWord n) := fun n => .ite (fun _ => .pure _) fun _ => .throw nofun
    exact .bind value.finds_toInt fun n _ => .bind (word n) fun _ _ => .pure _
  | float32 =>
    cases value with
    | nan negative fraction => exact .pure _
    | _ => exact .bind (Scalar.finds_toFloat _) fun x _ => .pure _

end Element

theorem BinaryOp.finds_apply (op : BinaryOp) (operands : Element) (a b : Scalar) : Finds (op.apply operands a b) := by
  cases op with
  | add => exact .ite (fun _ => .pure _) fun _ => Scalar.finds_combine (fun _ _ => .pure _) (fun _ _ => .pure _) a b
  | mul => exact .ite (fun _ => .pure _) fun _ => Scalar.finds_combine (fun _ _ => .pure _) (fun _ _ => .pure _) a b
  | idiv => exact Scalar.finds_floorDivide a b
  | mod => exact Scalar.finds_floorModulo a b
  | max => exact .pure _
  | cmplt => exact .pure _
  | cmpgt => exact .pure _
  | and => exact .pure _

namespace Reduction

theorem finds_step (op : Reduction) (kind : Element) (acc x : Scalar) : Finds (op.step kind acc x) := by
  cases op with
  | add => exact BinaryOp.add.finds_apply kind acc x
  | max => exact .pure _

theorem finds_finish (op : Reduction) (kind : Element) (acc : Scalar) : Finds (op.finish kind acc) := by
  unfold finish
  split
  · exact Element.finds_coerce _ _
  · exact .pure _

end Reduction

/-! ## Reads -/

theorem Layout.finds_address (l : Layout) (index : List Int) : Finds (l.address index) := by
  refine .refuse nofun fun _ => ?_
  split
  · exact .throw nofun
  · exact .pure _

theorem Layout.finds_addressFlat (l : Layout) (flat : Int) : Finds (l.addressFlat flat) :=
  .ite (fun _ => l.finds_address _) fun _ => .throw nofun

theorem finds_elementAt (buffers : Buffers) (slot : Int) (place : Scalar) : Finds (elementAt buffers slot place) := by
  unfold elementAt
  split
  · split
    · split
      · split
        · exact .pure _
        · exact .throw nofun
      · exact .throw nofun
    · exact .throw nofun
  · exact .throw nofun

namespace Expr

variable {env : Environment} {buffers : Buffers}

theorem finds_readAt (slot : Int) (kind : Element) (layout : Layout) (place : Scalar) :
    Finds (readAt buffers slot kind layout place) := by
  refine .refuse nofun fun _ => ?_
  split
  · refine .bind (layout.finds_addressFlat _) fun address _ => ?_
    cases address with
    | none => exact .pure _
    | some offset => exact .bind (finds_elementAt _ _ _) fun _ _ => kind.finds_coerce _
  · exact .throw nofun

theorem finds_loadFrom (slot : Int) (kind : Element) (place : Scalar) : Finds (loadFrom buffers slot kind place) := by
  unfold loadFrom
  split
  · exact .refuse nofun fun _ => .bind (finds_elementAt _ _ _) fun _ _ => kind.finds_coerce _
  · exact .throw nofun

/-! ## Evaluation at a point -/

theorem finds_trigonometric (f : Float → Float) (a : Scalar) : Finds (trigonometric f a) := by
  unfold trigonometric
  split
  · exact .pure _
  · refine .bind (Scalar.finds_toFloat _) fun x _ => ?_
    split
    · exact .throw nofun
    · exact .pure _

theorem finds_applyUnary (op : UnaryOp) (kind : Element) (a : Scalar) : Finds (applyUnary op kind a) := by
  cases op with
  | neg => exact kind.finds_coerce _
  | sin => exact finds_trigonometric _ _
  | cos => exact finds_trigonometric _ _
  | cast => exact kind.finds_coerce _

theorem finds_applyBinary (op : BinaryOp) (kind operands : Element) (a b : Scalar) :
    Finds (applyBinary op kind operands a b) :=
  .bind (op.finds_apply _ _ _) fun _ _ => .ite (fun _ => kind.finds_coerce _) fun _ => .pure _

/-- All variables of an expression but the reduction index have a value. -/
abbrev Binds {α : Type} (env : String → Option α) (e : Expr) : Prop :=
  Every (fun node => ∀ name extent d, node = .special name extent d → name = reductionIndex ∨ (env name).isSome) e

/-- Evaluation finds its bindings if the variables have values, and the reduction index has one inside of a
    reduction. -/
theorem finds_valueAt {e : Expr} {inside : Bool} (scope : Scoped inside e) (binds : Binds env e) {position : Option Int}
    (bound : inside = true → position.isSome) : Finds (e.valueAt env buffers position) := by
  induction e generalizing inside position with
  | const => exact .pure _
  | special name extent d =>
    have known : (if name = reductionIndex then position else env name).isSome := by
      split
      · next index => exact bound (scoped_special.1 scope index)
      · next other => exact (every_special.1 binds _ _ _ rfl).resolve_left other
    obtain ⟨n, value⟩ := Option.isSome_iff_exists.1 known
    rw [valueAt, value]
    exact .pure _
  | accessor slot kind layout index ih =>
    exact .bind (ih scope (every_accessor.1 binds).1 bound) fun place _ => finds_readAt _ _ _ _
  | load slot kind index ih => exact .bind (ih scope (every_load.1 binds).1 bound) fun place _ => finds_loadFrom _ _ _
  | unary op kind a ih => exact .bind (ih scope (every_unary.1 binds).1 bound) fun x _ => finds_applyUnary _ _ _
  | binary op kind a b iha ihb =>
    obtain ⟨scopeLeft, scopeRight⟩ := scoped_binary.1 scope
    obtain ⟨left, right, -⟩ := every_binary.1 binds
    exact .bind (iha scopeLeft left bound) fun x _ => .bind (ihb scopeRight right bound) fun y _ =>
      finds_applyBinary _ _ _ _ _
  | select kind c a b ihc iha ihb =>
    obtain ⟨scopeCondition, scopeLeft, scopeRight⟩ := scoped_select.1 scope
    obtain ⟨condition, left, right, -⟩ := every_select.1 binds
    exact .bind (ihc scopeCondition condition bound) fun x _ =>
      .ite (fun _ => iha scopeLeft left bound) fun _ => ihb scopeRight right bound
  -- A reduction binds its index to each of its positions.
  | reduce op kind body extent ih =>
    obtain ⟨-, scopeBody⟩ := scoped_reduce.1 scope
    rw [valueAt, foldBelow_eq]
    refine .bind (.foldlM (fun acc r _ => ?_) _) fun acc _ => op.finds_finish _ _
    exact .bind (ih scopeBody (every_reduce.1 binds).1 fun _ => rfl) fun x _ => op.finds_step _ _ _

theorem finds_evaluate {e : Expr} (scope : Scoped false e) (binds : Binds env e) : Finds (e.evaluate env buffers) := by
  rw [evaluate_eq_valueAt scope none]
  exact finds_valueAt scope binds nofun

end Expr

end StridedArray
