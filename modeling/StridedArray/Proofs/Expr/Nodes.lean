import StridedArray.Expr.Lower
import StridedArray.Proofs.Outcome
import StridedArray.Proofs.Words

/-! # The nodes of an expression

Conditions on an expression that are conditions on each of its nodes.

* `Expr.Every` — all nodes of an expression have a property;
* `Element.Holds` — the values of a kind;
* `Expr.Kinded`, `Expr.Typed` — the kinds of operands fit the operation;
* `Expr.typed_constant` and its neighbours — what the constructors build is typed;
* `Expr.Integral`, `Expr.Counted`, `Expr.Flat` — no numbers of single precision, no reductions of more than `2 ^ 31`
  positions, no reads through layouts. -/

namespace StridedArray

/-! ## Kinds of values -/

def Element.Holds : Element → Scalar → Prop
  | .bool, value => ∃ b, value = .bool b
  | .int32, value => ∃ n, value = .int n ∧ Word n
  | .float32, value => value.whole? = none

namespace Element

theorem holds_coerce {kind : Element} {value result : Scalar} (known : kind.coerce value = .ok result) :
    kind.Holds result := by
  cases kind with
  | bool =>
    cases known
    exact ⟨_, rfl⟩
  | int32 =>
    simp only [coerce, bind_eq_ok, pure_eq_ok] at known
    obtain ⟨n, -, rfl⟩ := known
    exact ⟨_, rfl, word_wrap32 n⟩
  | float32 =>
    cases value with
    | nan negative fraction =>
      cases known
      rfl
    | bool b =>
      simp only [coerce, bind_eq_ok, pure_eq_ok] at known
      obtain ⟨x, -, rfl⟩ := known
      rfl
    | int n =>
      simp only [coerce, bind_eq_ok, pure_eq_ok] at known
      obtain ⟨x, -, rfl⟩ := known
      rfl
    | float x =>
      simp only [coerce, bind_eq_ok, pure_eq_ok] at known
      obtain ⟨x, -, rfl⟩ := known
      rfl

theorem Holds.coerce_ok {kind : Element} {value : Scalar} (holds : kind.Holds value) :
    ∃ result, kind.coerce value = .ok result := by
  cases kind with
  | bool => exact ⟨_, rfl⟩
  | int32 =>
    obtain ⟨n, rfl, -⟩ := holds
    exact ⟨_, rfl⟩
  | float32 =>
    cases value with
    | bool b => cases holds
    | int n => cases holds
    | float x => exact ⟨_, rfl⟩
    | nan negative fraction => exact ⟨_, rfl⟩

theorem holds_zero (kind : Element) : kind.Holds kind.zero := by
  cases kind with
  | bool => exact ⟨_, rfl⟩
  | int32 => exact ⟨0, rfl, by decide⟩
  | float32 => rfl

theorem Holds.coerce_eq {kind : Element} {value : Scalar} (holds : kind.Holds value)
    (whole : kind ≠ .float32) : kind.coerce value = .ok value := by
  cases kind with
  | bool =>
    obtain ⟨b, rfl⟩ := holds
    rfl
  | int32 =>
    obtain ⟨n, rfl, word⟩ := holds
    rw [coerce_int32_int, word.wrap32_eq]
  | float32 => exact absurd rfl whole

/-- Integers are the only kind beside truth values and numbers of single precision. -/
theorem eq_int32 {kind : Element} (counts : kind ≠ .bool) (whole : kind ≠ .float32) : kind = .int32 := by
  cases kind with
  | bool => exact absurd rfl counts
  | int32 => rfl
  | float32 => exact absurd rfl whole

end Element

namespace UnaryOp

def Takes (operand kind : Element) : UnaryOp → Prop
  | neg => operand = kind ∧ kind ≠ .bool
  | sin | cos => operand = .float32 ∧ kind = .float32
  | cast => True

end UnaryOp

namespace BinaryOp

def Takes (operands : Element) : BinaryOp → Prop
  | idiv | mod => operands = .int32
  | and => operands = .bool
  | _ => True

end BinaryOp

namespace Expr

/-! ## Nodes -/

def Every (P : Expr → Prop) (e : Expr) : Prop := ∀ node ∈ e.postorder, P node

section Every

variable {P Q : Expr → Prop} {kind : Element} {a b c : Expr}

theorem Every.self {e : Expr} (every : Every P e) : P e := every e e.self_mem_postorder

theorem Every.imp {e : Expr} (every : Every P e) (step : ∀ node, P node → Q node) : Every Q e :=
  fun node member => step node (every node member)

@[simp] theorem every_const {value : Scalar} {d : Nat} :
    Every P (const kind value d) ↔ P (const kind value d) := by
  simp [Every, postorder]

@[simp] theorem every_special {name : String} {extent : Int} {d : Nat} :
    Every P (special name extent d) ↔ P (special name extent d) := by
  simp [Every, postorder]

@[simp] theorem every_accessor {slot : Int} {layout : Layout} :
    Every P (accessor slot kind layout a) ↔ Every P a ∧ P (accessor slot kind layout a) := by
  simp [Every, postorder, or_imp, forall_and]

@[simp] theorem every_load {slot : Int} :
    Every P (load slot kind a) ↔ Every P a ∧ P (load slot kind a) := by
  simp [Every, postorder, or_imp, forall_and]

@[simp] theorem every_unary {op : UnaryOp} :
    Every P (unary op kind a) ↔ Every P a ∧ P (unary op kind a) := by
  simp [Every, postorder, or_imp, forall_and]

@[simp] theorem every_binary {op : BinaryOp} :
    Every P (binary op kind a b) ↔ Every P a ∧ Every P b ∧ P (binary op kind a b) := by
  simp [Every, postorder, or_imp, forall_and]

@[simp] theorem every_select :
    Every P (select kind c a b) ↔ Every P c ∧ Every P a ∧ Every P b ∧ P (select kind c a b) := by
  simp [Every, postorder, or_imp, forall_and]

@[simp] theorem every_reduce {op : Reduction} {extent : Int} :
    Every P (reduce op kind a extent) ↔ Every P a ∧ P (reduce op kind a extent) := by
  simp [Every, postorder, or_imp, forall_and]

theorem Every.below {e node : Expr} (every : Every P e) (member : node ∈ e.postorder) : Every P node := by
  induction e with
  | const => exact List.mem_singleton.1 member ▸ every
  | special => exact List.mem_singleton.1 member ▸ every
  | accessor slot kind layout a ih =>
    rcases List.mem_append.1 member with below | here
    · exact ih (every_accessor.1 every).1 below
    · exact List.mem_singleton.1 here ▸ every
  | load slot kind a ih =>
    rcases List.mem_append.1 member with below | here
    · exact ih (every_load.1 every).1 below
    · exact List.mem_singleton.1 here ▸ every
  | unary op kind a ih =>
    rcases List.mem_append.1 member with below | here
    · exact ih (every_unary.1 every).1 below
    · exact List.mem_singleton.1 here ▸ every
  | binary op kind a b iha ihb =>
    rcases List.mem_append.1 member with below | here
    · rcases List.mem_append.1 below with left | right
      · exact iha (every_binary.1 every).1 left
      · exact ihb (every_binary.1 every).2.1 right
    · exact List.mem_singleton.1 here ▸ every
  | select kind c a b ihc iha ihb =>
    obtain ⟨condition, left, right, -⟩ := every_select.1 every
    rcases List.mem_append.1 member with below | here
    · rcases List.mem_append.1 below with below | last
      · rcases List.mem_append.1 below with first | second
        · exact ihc condition first
        · exact iha left second
      · exact ihb right last
    · exact List.mem_singleton.1 here ▸ every
  | reduce op kind a extent ih =>
    rcases List.mem_append.1 member with below | here
    · exact ih (every_reduce.1 every).1 below
    · exact List.mem_singleton.1 here ▸ every

end Every

/-! ## Types -/

def Kinded : Expr → Prop
  | const kind value _ => kind.Holds value
  | special .. => True
  | accessor _ _ _ index => index.kind = .int32
  | load _ _ index => index.kind = .int32
  | unary op kind a => op.Takes a.kind kind
  | binary op kind a b => a.kind = b.kind ∧ op.Takes a.kind ∧ kind = op.resultKind a.kind
  | select kind condition a b => condition.kind = .bool ∧ a.kind = kind ∧ b.kind = kind
  | reduce _ kind body _ => body.kind = kind ∧ kind ≠ .bool

abbrev Typed (e : Expr) : Prop := Every Kinded e

section Typed

variable {a b c e : Expr} {kind : Element}

theorem typed_constant {value : Scalar} (built : constant kind value = .ok e) : Typed e := by
  simp only [constant, bind_eq_ok, pure_eq_ok] at built
  obtain ⟨x, coerced, rfl⟩ := built
  exact every_const.2 (Element.holds_coerce coerced)

theorem typed_int32 (n : Int) : Typed (int32 n) := every_const.2 ⟨_, rfl, word_wrap32 n⟩

theorem typed_truth (b : Bool) : Typed (truth b) := every_const.2 ⟨b, rfl⟩

theorem kind_constant {value : Scalar} (built : constant kind value = .ok e) : e.kind = kind := by
  simp only [constant, bind_eq_ok, pure_eq_ok] at built
  obtain ⟨x, -, rfl⟩ := built
  rfl

theorem typed_read {slot : Int} {layout : Layout} (typed : Typed a)
    (built : read slot kind layout a = .ok e) : Typed e := by
  simp only [read, refuse_eq_ok, pure_eq_ok, not_not] at built
  obtain ⟨whole, -, rfl⟩ := built
  exact every_accessor.2 ⟨typed, whole⟩

theorem typed_loadAt {slot : Int} (typed : Typed a) (built : loadAt slot kind a = .ok e) : Typed e := by
  simp only [loadAt, refuse_eq_ok, pure_eq_ok, not_not] at built
  obtain ⟨whole, rfl⟩ := built
  exact every_load.2 ⟨typed, whole⟩

theorem cast_cases (built : cast kind a = .ok e) :
    (a.kind = kind ∧ e = a) ∨ (∃ value, constant kind value = .ok e) ∨ e = .unary .cast kind a := by
  unfold cast at built
  split at built
  · next same =>
    cases built
    exact .inl ⟨same, rfl⟩
  · split at built
    · exact .inr (.inl ⟨_, built⟩)
    · cases built
      exact .inr (.inr rfl)

theorem kind_cast (built : cast kind a = .ok e) : e.kind = kind := by
  rcases cast_cases built with ⟨same, rfl⟩ | ⟨value, folded⟩ | rfl
  · exact same
  · exact kind_constant folded
  · rfl

theorem typed_cast (typed : Typed a) (built : cast kind a = .ok e) : Typed e := by
  rcases cast_cases built with ⟨-, rfl⟩ | ⟨value, folded⟩ | rfl
  · exact typed
  · exact typed_constant folded
  · exact every_unary.2 ⟨typed, trivial⟩

theorem typed_neg (typed : Typed a) (built : neg a = .ok e) : Typed e := by
  unfold neg at built
  split at built
  · cases built
  · next numeric =>
    split at built
    · exact typed_constant built
    · cases built
      exact every_unary.2 ⟨typed, rfl, numeric⟩

theorem typed_sin (typed : Typed a) (built : sin a = .ok e) : Typed e := by
  simp only [sin, bind_eq_ok, pure_eq_ok] at built
  obtain ⟨x, operand, rfl⟩ := built
  exact every_unary.2 ⟨typed_cast typed operand, kind_cast operand, rfl⟩

theorem typed_cos (typed : Typed a) (built : cos a = .ok e) : Typed e := by
  simp only [cos, bind_eq_ok, pure_eq_ok] at built
  obtain ⟨x, operand, rfl⟩ := built
  exact every_unary.2 ⟨typed_cast typed operand, kind_cast operand, rfl⟩

theorem typed_combine (op : BinaryOp) (left : Typed a) (right : Typed b)
    (takes : op.Takes (Element.promote a.kind b.kind)) (built : combine op a b = .ok e) : Typed e := by
  simp only [combine, bind_eq_ok] at built
  obtain ⟨x, first, y, second, built⟩ := built
  split at built
  · simp only [bind_eq_ok] at built
    obtain ⟨value, -, folded⟩ := built
    exact typed_constant folded
  · cases built
    refine every_binary.2 ⟨typed_cast left first, typed_cast right second, ?_⟩
    rw [Kinded, kind_cast first, kind_cast second]
    exact ⟨rfl, takes, rfl⟩

theorem typed_add (left : Typed a) (right : Typed b) (built : add a b = .ok e) : Typed e := by
  unfold add at built
  split at built
  · exact typed_cast right built
  · split at built
    · exact typed_cast left built
    · exact typed_combine .add left right trivial built

theorem typed_mul (left : Typed a) (right : Typed b) (built : mul a b = .ok e) : Typed e := by
  unfold mul at built
  dsimp only at built
  split at built
  · exact typed_cast right built
  · split at built
    · exact typed_cast left built
    · split at built
      · cases built
        exact typed_int32 0
      · exact typed_combine .mul left right trivial built

theorem kinds_of_requireWhole {operation : String} (known : requireWhole operation a b = .ok ()) :
    a.kind = .int32 ∧ b.kind = .int32 := by
  unfold requireWhole at known
  split at known
  · cases known
  · next whole => simpa using whole

theorem typed_idiv (left : Typed a) (right : Typed b) (built : idiv a b = .ok e) : Typed e := by
  simp only [idiv, bind_eq_ok] at built
  obtain ⟨_, whole, built⟩ := built
  obtain ⟨wholeLeft, wholeRight⟩ := kinds_of_requireWhole whole
  split at built
  · cases built
    exact left
  · refine typed_combine _ left right ?_ built
    rw [wholeLeft, wholeRight]
    rfl

theorem typed_mod (left : Typed a) (right : Typed b) (built : mod a b = .ok e) : Typed e := by
  simp only [mod, bind_eq_ok] at built
  obtain ⟨_, whole, built⟩ := built
  obtain ⟨wholeLeft, wholeRight⟩ := kinds_of_requireWhole whole
  split at built
  · cases built
    exact typed_int32 0
  · refine typed_combine _ left right ?_ built
    rw [wholeLeft, wholeRight]
    rfl

theorem typed_both (left : Typed a) (right : Typed b) (built : both a b = .ok e) : Typed e := by
  unfold both at built
  split at built
  · cases built
  · next conditions =>
    obtain ⟨conditionLeft, conditionRight⟩ : a.kind = .bool ∧ b.kind = .bool := by
      simpa using conditions
    split at built
    · cases built
      split
      · exact right
      · exact typed_truth false
    · cases built
      split
      · exact left
      · exact typed_truth false
    · cases built
      refine every_binary.2 ⟨left, right, conditionLeft.trans conditionRight.symm, conditionLeft, ?_⟩
      exact conditionLeft.symm

theorem typed_choose (condition : Typed c) (left : Typed a) (right : Typed b)
    (built : choose c a b = .ok e) : Typed e := by
  by_cases truth : c.kind = .bool
  · simp only [choose, truth, ne_eq, not_true_eq_false, if_false, bind_eq_ok] at built
    obtain ⟨x, first, y, second, built⟩ := built
    split at built
    · cases built
      split
      · exact typed_cast left first
      · exact typed_cast right second
    · cases built
      exact every_select.2 ⟨condition, typed_cast left first, typed_cast right second, truth,
        kind_cast first, kind_cast second⟩
  · unfold choose at built
    rw [if_pos truth] at built
    cases built

theorem typed_fold {op : Reduction} {extent : Int} (typed : Typed a) (built : fold op a extent = .ok e) :
    Typed e := by
  unfold fold at built
  split at built
  · simp only [bind_eq_ok, pure_eq_ok] at built
    obtain ⟨body, counted, rfl⟩ := built
    exact every_reduce.2 ⟨typed_cast typed counted, rfl, by rw [kind_cast counted]; decide⟩
  · next numeric =>
    cases built
    exact every_reduce.2 ⟨typed, rfl, numeric⟩

end Typed

abbrev Integral (e : Expr) : Prop := Every (fun node => node.kind ≠ .float32) e

abbrev Counted (e : Expr) : Prop :=
  Every (fun node => ∀ op kind body extent, node = reduce op kind body extent → extent ≤ 0x80000000) e

abbrev Flat (e : Expr) : Prop := Every (fun node => ∀ slot kind layout index,
  node ≠ .accessor slot kind layout index) e

end Expr

end StridedArray
