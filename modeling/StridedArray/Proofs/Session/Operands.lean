import StridedArray.Proofs.Expr.Computed
import StridedArray.Proofs.Layout.Broadcast
import StridedArray.Proofs.Session.Elements

/-! # Operands of elementwise operations

Operands are brought to a common shape and read there. What is built of them is run over all positions.

* `Numbers` — a kind, a shape and numbers; `Presents` — an array of them, seen through any layout that stays inside
  of its buffer; `Stands` — an operand, which may be a scalar;
* `runs_common` — the common shape of operands is found;
* `runs_argument`, `Stands.runs_argument` — an operand becomes an expression of its numbers;
* `runs_tabulated` — and an expression becomes an array. -/

namespace StridedArray

open Layout (rowMajor)
open Shape (Inside CommonShape StretchesTo aligned product ravel unravel)

/-- Numbers of a kind at the positions of a shape. -/
structure Numbers where
  kind : Element
  shape : List Int
  value : List Int → Int

/-- The number that is shown at a multi-index of a shape to which another one stretches. -/
def Numbers.stretched (x : Numbers) (index : List Int) : Int := x.value (aligned x.shape index)

namespace Session

/-- A live array that shows numbers, through a layout that stays inside of its buffer. -/
def Presents (s : Session) (owner : Nat) (r : TensorRef) (x : Numbers) : Prop :=
  ∃ t bytes, s.tensors[r.number]? = some t ∧ s.Carries owner t bytes ∧ t.kind = x.kind ∧ t.layout.shape = x.shape
    ∧ t.layout.Anchored (bytes.size / t.kind.itemSize : Nat)
    ∧ ∀ index, Inside index x.shape → t.layout.entry (t.kind.numberAt bytes) index = x.value index

/-- What an operand stands for, if that is known of arrays. A scalar is a number without axes. -/
inductive Stands (shows : TensorRef → Numbers → Prop) : Operand → Numbers → Prop
  | array {r : TensorRef} {x : Numbers} (shown : shows r x) : Stands shows (.tensor r) x
  | truth (b : Bool) : Stands shows (.value (.scalar (.bool b))) ⟨.bool, [], fun _ => if b then 1 else 0⟩
  | integer {n : Int} (word : Word n) : Stands shows (.value (.scalar (.int n))) ⟨.int32, [], fun _ => n⟩

def HasInput (s : Session) (owner : Nat) (input : Input) : Prop :=
  input.handle.owner = owner ∧ s.Stores input.handle 1 input.bytes

variable {s : Session} {owner : Nat} {r : TensorRef} {x y z : Numbers} {out : List Int} {operand : Operand}

theorem Filled.presents {kind : Element} {shape : List Int} {v : List Int → Int} (filled : s.Filled owner r kind shape v)
    (natural : ∀ n ∈ shape, 0 ≤ n) : s.Presents owner r ⟨kind, shape, v⟩ := by
  obtain ⟨t, bytes, known, carries, form, layout, size, numbers⟩ := filled
  have count : ((bytes.size / t.kind.itemSize : Nat) : Int) = product shape := form ▸ Element.count_eq size
  refine ⟨t, bytes, known, carries, form, congrArg Layout.shape layout, ?_, fun index inside => ?_⟩
  · rw [count, layout]
    exact Layout.anchored_rowMajor natural
  · rw [form, layout, Layout.entry, Layout.offsetOf?_rowMajor inside]
    exact numbers index inside

/-! ## Common shapes -/

theorem Stands.whole (stands : Stands (s.Presents owner) operand x) : x.kind ≠ .float32 := by
  cases stands with
  | array presents =>
    obtain ⟨t, bytes, _, carries, kind, _⟩ := presents
    exact kind ▸ carries.whole
  | truth b => exact (by decide : Element.bool ≠ .float32)
  | integer word => exact (by decide : Element.int32 ≠ .float32)

theorem Stands.natural (stands : Stands (s.Presents owner) operand x) : ∀ n ∈ x.shape, 0 ≤ n := by
  cases stands with
  | array presents =>
    obtain ⟨t, bytes, _, _, _, shape, anchored, _⟩ := presents
    exact shape ▸ anchored.sound.extents
  | truth b => exact fun n member => nomatch member
  | integer word => exact fun n member => nomatch member

/-- The arrays among operands are found, and they are live and beside each other. -/
theorem runs_tensors {operands : List Operand} {xs : List Numbers}
    (stand : List.Forall₂ (Stands (s.Presents owner)) operands xs) :
    ∃ ts, Runs ((tensorsOf operands).mapM find) s ts s ∧ Runs (ts.forM (requireBeside owner)) s () s
      ∧ (∀ t ∈ ts, t.shape ∈ xs.map Numbers.shape) ∧ ∀ x ∈ xs, x.shape ∈ ts.map Tensor.shape ∨ x.shape = [] := by
  induction stand with
  | nil => exact ⟨[], runs_pure .., runs_pure .., by simp, by simp⟩
  | @cons operand x operands xs first _ inductionHypothesis =>
    obtain ⟨ts, found, beside, listed, all⟩ := inductionHypothesis
    have others : ∀ t ∈ ts, t.shape ∈ (x :: xs).map Numbers.shape := fun t member =>
      List.mem_cons_of_mem _ (listed t member)
    cases first with
    | array presents =>
      obtain ⟨t, bytes, known, carries, _, shape, _⟩ := presents
      refine ⟨t :: ts, ?_, ?_, ?_, ?_⟩
      · show Runs (List.mapM find (_ :: tensorsOf operands)) s _ s
        rw [List.mapM_cons]
        exact (runs_find known).bind (found.bind (runs_pure ..))
      · have self : Runs (requireBeside owner t) s () s := by
          refine (runs_requireLive carries.live).bind ?_
          rw [if_neg (not_not.2 (show t.owner = owner from carries.owner))]
          exact runs_pure ..
        exact self.bind beside
      · exact List.forall_mem_cons.2 ⟨List.mem_cons.2 (.inl shape), others⟩
      · refine List.forall_mem_cons.2 ⟨.inl (List.mem_cons.2 (.inl shape.symm)), fun x member => ?_⟩
        exact (all x member).imp_left (List.mem_cons_of_mem _)
    | truth b => exact ⟨ts, found, beside, others, List.forall_mem_cons.2 ⟨.inr rfl, all⟩⟩
    | integer word => exact ⟨ts, found, beside, others, List.forall_mem_cons.2 ⟨.inr rfl, all⟩⟩

theorem common_of_arrays {shape : List Int} {shapes others : List (List Int)} (common : CommonShape (shape :: shapes) out)
    (listed : ∀ a ∈ others, a ∈ shapes) (all : ∀ a ∈ shapes, a ∈ others ∨ a = []) : CommonShape (shape :: others) out := by
  have rank : ∃ a ∈ shape :: others, a.length = out.length := by
    obtain ⟨a, member, long⟩ := common.rank
    rcases List.mem_cons.1 member with rfl | member
    · exact ⟨a, List.mem_cons_self .., long⟩
    rcases all a member with kept | rfl
    · exact ⟨a, List.mem_cons_of_mem _ kept, long⟩
    · have short := (common.stretches shape (List.mem_cons_self ..)).length_le
      rw [List.length_nil] at long
      exact ⟨shape, List.mem_cons_self .., by omega⟩
  have stretches : ∀ a ∈ shape :: others, StretchesTo a out := fun a member =>
    common.stretches a ((List.mem_cons.1 member).elim (fun same => same ▸ List.mem_cons_self ..)
      fun other => List.mem_cons_of_mem _ (listed a other))
  refine ⟨stretches, rank, fun k bound => ?_⟩
  obtain ⟨a, member, known⟩ := common.attained k bound
  rcases List.mem_cons.1 member with rfl | member
  · exact ⟨a, List.mem_cons_self .., known⟩
  rcases all a member with kept | rfl
  · exact ⟨a, List.mem_cons_of_mem _ kept, known⟩
  -- An extent that is attained by no array is 1, as it then is for an array of full rank.
  · obtain ⟨b, inside, long⟩ := rank
    have single : out[k] = 1 := by
      rw [Shape.raised, List.length_nil, Nat.sub_zero, List.append_nil, List.getElem?_replicate, if_pos bound,
        List.getElem?_eq_getElem bound, Option.some_inj] at known
      exact known.symm
    have here := (List.forall₂_iff_get.1 (stretches b inside)).2 k
      (by rw [Shape.length_raised (Nat.le_of_eq long)]; exact bound) bound
    rw [List.get_eq_getElem, List.get_eq_getElem, single, or_self] at here
    refine ⟨b, inside, ?_⟩
    rw [List.getElem?_eq_getElem bound, single, ← here]
    exact List.getElem?_eq_getElem _

theorem runs_common {t : Tensor} {bytes : Bytes} (known : s.tensors[r.number]? = some t)
    (carries : s.Carries owner t bytes) {others : List Operand} {xs : List Numbers}
    (stand : List.Forall₂ (Stands (s.Presents owner)) others xs)
    (common : CommonShape (t.shape :: xs.map Numbers.shape) out) :
    Runs (Session.common r others) s ⟨owner, out, t.kind⟩ s := by
  obtain ⟨ts, found, beside, listed, all⟩ := runs_tensors stand
  have arrays : CommonShape (t.shape :: ts.map Tensor.shape) out := by
    refine common_of_arrays common (fun a member => ?_) fun a member => ?_
    · obtain ⟨u, inside, rfl⟩ := List.mem_map.1 member
      exact listed u inside
    · obtain ⟨u, inside, rfl⟩ := List.mem_map.1 member
      exact all u inside
  unfold Session.common
  refine (runs_live known carries.live).bind (found.bind ?_)
  rw [show t.owner = owner from carries.owner]
  exact beside.bind ((runs_ofResult (Shape.broadcast_ok arrays)).bind (runs_pure ..))

/-! ## Operands as expressions -/

section Arguments

variable {c : Session.Common} {inputs : List Input}

/-- An array becomes a read of what its layout shows when it is stretched. -/
theorem runs_argument {t : Tensor} {bytes : Bytes} {l : Layout} (known : s.tensors[r.number]? = some t)
    (carries : s.Carries owner t bytes) (stretched : t.layout.stretch c.shape = .ok l) (shape : l.shape = c.shape)
    (contained : l.Contained (bytes.size / t.kind.itemSize : Nat)) (inputs : List Input) :
    Runs (argument c (inputs.map Input.handle) (.tensor r)) s
        (.accessor inputs.length t.kind l (Expr.outputPosition (product c.shape)),
          (inputs ++ [Input.mk t.handle t.kind bytes]).map Input.handle) s
      ∧ Expr.Tabulates (product c.shape) (inputs ++ [Input.mk t.handle t.kind bytes])
        (.accessor inputs.length t.kind l (Expr.outputPosition (product c.shape))) t.kind
        fun position => l.entry (t.kind.numberAt bytes) (unravel position c.shape) := by
  constructor
  · have read : Expr.read (inputs.map Input.handle).length t.kind l (Expr.outputPosition (product c.shape))
        = .ok (.accessor inputs.length t.kind l (Expr.outputPosition (product c.shape))) := by
      unfold Expr.read
      rw [if_neg (fun other => other rfl), if_neg (by omega), List.length_map]
      rfl
    refine (runs_find known).bind ((runs_ofResult stretched).bind ((runs_ofResult read).bind ?_))
    rw [List.map_append]
    exact runs_pure ..
  · have last : (inputs ++ [Input.mk t.handle t.kind bytes])[inputs.length]? = some (Input.mk t.handle t.kind bytes) := by
      simp
    have tabulates := Expr.tabulates_read last carries.whole carries.elements
      (show l.size = product c.shape from congrArg product shape) contained
    rwa [shape] at tabulates

/-- An operand becomes an expression of the numbers that it stands for. -/
theorem Stands.runs_argument (stands : Stands (s.Presents owner) operand x) (stretches : StretchesTo x.shape c.shape)
    (natural : ∀ n ∈ c.shape, 0 ≤ n) (beside : c.kind ≠ .float32) (inputs : List Input) :
    ∃ e more, Runs (argument c (inputs.map Input.handle) operand) s (e, (inputs ++ more).map Input.handle) s
      ∧ (∀ input ∈ more, s.HasInput owner input)
      ∧ Expr.Tabulates (product c.shape) (inputs ++ more) e x.kind
        fun position => x.stretched (unravel position c.shape) := by
  cases stands with
  | @array r x presents =>
    obtain ⟨t, bytes, known, carries, kind, shape, anchored, values⟩ := presents
    rw [← shape] at stretches
    obtain ⟨l, stretched, extents, within, shows⟩ := anchored.stretch stretches natural
    obtain ⟨runs, tabulates⟩ := Session.runs_argument known carries stretched extents within.contained inputs
    refine ⟨_, [Input.mk t.handle t.kind bytes], runs, ?_, ?_⟩
    · intro input member
      obtain rfl := List.mem_singleton.1 member
      exact ⟨carries.owner, carries.stored⟩
    rw [← kind]
    refine tabulates.congr fun k bound => ?_
    have positive := Shape.positive_of_product_pos natural (by omega)
    have inside := Shape.inside_unravel positive (k : Int)
    have source := stretches.inside_aligned inside
    unfold Layout.entry Numbers.stretched
    rw [shows _ inside, ← shape, ← values _ (shape ▸ source)]
    rfl
  | truth b =>
    refine ⟨Expr.truth b, [], ?_, by simp, ?_⟩
    · rw [List.append_nil]
      exact (runs_ofResult rfl).bind (runs_pure ..)
    · rw [List.append_nil]
      cases b with
      | false => exact Expr.tabulates_const (show Element.bool.Fits 0 from .inl rfl) (by decide)
      | true => exact Expr.tabulates_const (show Element.bool.Fits 1 from .inr rfl) (by decide)
  | @integer n word =>
    refine ⟨.const .int32 (.int n), [], ?_, by simp, ?_⟩
    · have scalar : scalarExpr c.kind (.scalar (.int n)) = .ok (.const .int32 (.int n)) := by
        show (if c.kind = .float32 then _ else pure (Expr.int32 n)) = _
        rw [if_neg beside, Expr.int32, word.wrap32_eq]
        rfl
      rw [List.append_nil]
      exact (runs_ofResult scalar).bind (runs_pure ..)
    · rw [List.append_nil]
      exact Expr.tabulates_const (show Element.int32.Fits n from word) (by decide)

end Arguments

/-! ## Results -/

/-- An expression of numbers over the positions of a shape becomes an array. -/
theorem runs_tabulated [Room] {z : Host} {inputs : List Input} {e : Expr} {kind : Element} {v : Nat → Int}
    (has : s.HasHost owner z) (natural : ∀ n ∈ out, 0 ≤ n) (small : product out < 0x80000000)
    (held : ∀ input ∈ inputs, s.HasInput owner input)
    (tabulates : Expr.Tabulates (product out) inputs e kind v) :
    ∃ bytes, Runs (runKernel owner e out (inputs.map Input.handle)) s ⟨s.tensors.size⟩
        (s.withNew owner z kind bytes (rowMajor out))
      ∧ (s.withNew owner z kind bytes (rowMajor out)).Filled owner ⟨s.tensors.size⟩ kind out
        fun index => v (ravel index out).toNat := by
  have count := Shape.product_nonneg natural
  obtain rfl := tabulates.kind_eq
  exact runs_runKernel has (Expr.accepted_of_elementary count tabulates.nodes) tabulates.whole natural
    (holds_few e.kind small) held tabulates.value tabulates.fits

end Session

end StridedArray
