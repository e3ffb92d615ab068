import StridedArray.Proofs.Expr.Simplification

/-! # Values are of the kinds of their expressions

Whatever the buffers hold, expressions made by the constructors have truth values, integers of 32 bits and numbers of
single precision as values where they say so, and so has every operand that is evaluated on the way. Some nodes bring
their results back to their kinds and others pass on what they are given; only a maximum over nothing is of no integer
kind.

* `Scalar.whole?_of_combine`, `Expr.holds_applyBinary` and their neighbours — the operations;
* `Expr.Visited` — the nodes that an evaluation goes through, with the binding of the reduction index at each;
* `Expr.WordsAt` — variables are 32-bit integers wherever they are evaluated; `Expr.wordsAt_of_words` — if they are
  bound to such, and reductions are no longer than those count;
* `Expr.holds_of_evaluateFrom`, `Expr.holds_visited` — values;
* `Expr.Constructed` — expressions made by the constructors; `Expr.Sound`, `Expr.evaluate_sound` — their evaluation;
* `Expr.evaluate_unsound` — a reduction that is too long. -/

namespace StridedArray

open StridedArray.Expr (applyBinary applyUnary)

/-! ## Operations -/

namespace Scalar

theorem whole?_ofFloat (x : Float) : (ofFloat x).whole? = none := by
  unfold ofFloat
  split <;> rfl

theorem whole?_floatResult (a b : Scalar) (result : Float) : (floatResult a b result).whole? = none := by
  unfold floatResult
  split
  · rfl
  · rfl
  · exact whole?_ofFloat result

/-- Arithmetic with a number that is not whole gives such a number. -/
theorem whole?_of_combine {onInt : Int → Int → Except Failure Int} {onFloat : Float → Float → Except Failure Float}
    {a b c : Scalar} (single : a.whole? = none) (known : combine onInt onFloat a b = .ok c) : c.whole? = none := by
  unfold combine at known
  rw [single] at known
  simp only [bind_eq_ok, map_eq_ok] at known
  obtain ⟨x, -, y, -, z, -, rfl⟩ := known
  exact whole?_floatResult a b z

theorem larger_cases (a b : Scalar) : a.larger b = a ∨ a.larger b = b := by
  unfold larger
  split
  · exact .inr rfl
  · exact .inl rfl

end Scalar

theorem BinaryOp.single_apply (op : BinaryOp) {a b c : Scalar} (takes : op.Takes .float32)
    (kind : op.resultKind .float32 = .float32) (left : a.whole? = none) (right : b.whole? = none)
    (applied : op.apply .float32 a b = .ok c) : c.whole? = none := by
  cases op with
  | add => exact Scalar.whole?_of_combine left applied
  | mul => exact Scalar.whole?_of_combine left applied
  | max =>
    cases applied
    rcases a.larger_cases b with same | same
    · rw [same, left]
    · rw [same, right]
  | cmplt => cases kind
  | cmpgt => cases kind
  | idiv => cases takes
  | mod => cases takes
  | and => cases takes

namespace Expr

theorem single_trigonometric {f : Float → Float} {a x : Scalar} (known : trigonometric f a = .ok x) :
    x.whole? = none := by
  unfold trigonometric at known
  split at known
  · cases known
    rfl
  · obtain ⟨y, -, known⟩ := bind_eq_ok.1 known
    split at known
    · cases known
    · cases known
      exact Scalar.whole?_ofFloat _

theorem holds_applyUnary {op : UnaryOp} {operand kind : Element} {a x : Scalar} (takes : op.Takes operand kind)
    (applied : applyUnary op kind a = .ok x) : kind.Holds x := by
  cases op with
  | neg => exact Element.holds_coerce applied
  | cast => exact Element.holds_coerce applied
  | sin =>
    rw [takes.2]
    exact single_trigonometric applied
  | cos =>
    rw [takes.2]
    exact single_trigonometric applied

theorem holds_applyBinary {op : BinaryOp} {operands : Element} {a b x : Scalar} (takes : op.Takes operands)
    (left : operands.Holds a) (right : operands.Holds b)
    (applied : applyBinary op (op.resultKind operands) operands a b = .ok x) : (op.resultKind operands).Holds x := by
  cases kind : op.resultKind operands with
  | bool =>
    rw [kind] at applied
    refine truth_applyBinary takes (fun truth => ?_) kind applied
    subst truth
    exact ⟨left, right⟩
  | int32 =>
    rw [kind, applyBinary, bind_eq_ok] at applied
    obtain ⟨_, -, coerced⟩ := applied
    exact Element.holds_coerce coerced
  | float32 =>
    obtain rfl : operands = .float32 := by cases op <;> first | exact kind | cases kind
    rw [kind, applyBinary, bind_eq_ok] at applied
    obtain ⟨y, known, same⟩ := applied
    cases same
    exact BinaryOp.single_apply op takes kind left right known

theorem holds_fold {op : Reduction} {kind : Element} {rs : List Nat} {f : Nat → Except Failure Scalar} {acc x : Scalar}
    (counts : kind ≠ .bool) (some : op = .max → rs ≠ []) (each : ∀ r ∈ rs, ∀ y, f r = .ok y → kind.Holds y)
    (loop : rs.foldlM (fun acc r => do op.step kind acc (← f r)) (op.start kind) = .ok acc)
    (last : op.finish kind acc = .ok x) : kind.Holds x := by
  cases kind with
  | bool => exact absurd rfl counts
  | int32 =>
    cases op with
    | add => exact Element.holds_coerce last
    | max =>
      cases last
      exact number_foldlM each (.inr ⟨rfl, some rfl⟩) loop
  | float32 =>
    obtain rfl : acc = x := by cases op <;> exact Except.ok.inj last
    refine foldlM_invariant (P := fun acc => Scalar.whole? acc = none) (by cases op <;> rfl) ?_ loop
    intro acc r next member before step
    obtain ⟨y, known, step⟩ := bind_eq_ok.1 step
    have value : y.whole? = none := each r member y known
    cases op with
    | add => exact BinaryOp.single_apply .add trivial rfl before value step
    | max => exact BinaryOp.single_apply .max trivial rfl before value step

/-! ## Nodes on the way -/

/-- An evaluation that begins with a binding of the reduction index goes through a node, which finds another one: every
    operand is evaluated after the one before it, of the branches of a choice the one that is taken, the body of a
    reduction at all of its positions. -/
inductive Visited (env : Environment) (buffers : Buffers) : Expr → Option Int → Expr → Option Int → Prop
  | here (e : Expr) (position : Option Int) : Visited env buffers e position e position
  | accessor {slot : Int} {kind : Element} {layout : Layout} {index node : Expr} {position at' : Option Int}
      (below : Visited env buffers index position node at') :
      Visited env buffers (accessor slot kind layout index) position node at'
  | load {slot : Int} {kind : Element} {index node : Expr} {position at' : Option Int}
      (below : Visited env buffers index position node at') :
      Visited env buffers (load slot kind index) position node at'
  | unary {op : UnaryOp} {kind : Element} {a node : Expr} {position at' : Option Int}
      (below : Visited env buffers a position node at') : Visited env buffers (unary op kind a) position node at'
  | left {op : BinaryOp} {kind : Element} {a b node : Expr} {position at' : Option Int}
      (below : Visited env buffers a position node at') : Visited env buffers (binary op kind a b) position node at'
  | right {op : BinaryOp} {kind : Element} {a b node : Expr} {x : Scalar} {position between at' : Option Int}
      (first : a.evaluateFrom env buffers position = .ok (x, between))
      (below : Visited env buffers b between node at') : Visited env buffers (binary op kind a b) position node at'
  | condition {kind : Element} {c a b node : Expr} {position at' : Option Int}
      (below : Visited env buffers c position node at') : Visited env buffers (select kind c a b) position node at'
  | branch {kind : Element} {c a b node : Expr} {x : Scalar} {position between at' : Option Int}
      (first : c.evaluateFrom env buffers position = .ok (x, between))
      (below : Visited env buffers (if x.truthy then a else b) between node at') :
      Visited env buffers (select kind c a b) position node at'
  | body {op : Reduction} {kind : Element} {body node : Expr} {extent : Int} {r : Nat} {position at' : Option Int}
      (inside : r < extent.toNat) (below : Visited env buffers body (some r) node at') :
      Visited env buffers (reduce op kind body extent) position node at'

variable {env : Environment} {buffers : Buffers} {position after at' : Option Int} {e node : Expr} {x : Scalar}

def WordsAt (env : Environment) (buffers : Buffers) (e : Expr) (position : Option Int) : Prop :=
  ∀ name extent d at', Visited env buffers e position (special name extent d) at' →
    ∀ n ∈ if name = reductionIndex then at' else env name, Word n

theorem Visited.evaluated (visited : Visited env buffers e position node at')
    (known : e.evaluateFrom env buffers position = .ok (x, after)) :
    ∃ y left, node.evaluateFrom env buffers at' = .ok (y, left) := by
  induction visited generalizing x after with
  | here => exact ⟨x, after, known⟩
  | accessor _ ih =>
    obtain ⟨place, first, -⟩ := evaluateFrom_accessor_eq_ok.1 known
    exact ih first
  | load _ ih =>
    obtain ⟨place, first, -⟩ := evaluateFrom_load_eq_ok.1 known
    exact ih first
  | unary _ ih =>
    obtain ⟨y, first, -⟩ := evaluateFrom_unary_eq_ok.1 known
    exact ih first
  | left _ ih =>
    obtain ⟨y, between, z, first, -⟩ := evaluateFrom_binary_eq_ok.1 known
    exact ih first
  | right first _ ih =>
    obtain ⟨y, between, z, first', second, -⟩ := evaluateFrom_binary_eq_ok.1 known
    cases first.symm.trans first'
    exact ih second
  | condition _ ih =>
    obtain ⟨y, between, first, -⟩ := evaluateFrom_select_eq_ok.1 known
    exact ih first
  | branch first _ ih =>
    obtain ⟨y, between, first', chosen⟩ := evaluateFrom_select_eq_ok.1 known
    cases first.symm.trans first'
    exact ih chosen
  | body inside _ ih =>
    obtain ⟨-, acc, loop, -⟩ := evaluateFrom_reduce_eq_ok.1 known
    obtain ⟨acc, next, step⟩ := foldlM_step loop (List.mem_range.2 inside)
    obtain ⟨y, value, -⟩ := bind_eq_ok.1 step
    obtain ⟨⟨z, left⟩, evaluated, -⟩ := map_eq_ok.1 value
    exact ih evaluated

theorem Visited.trans {deeper : Expr} {there : Option Int} (first : Visited env buffers e position node at')
    (second : Visited env buffers node at' deeper there) : Visited env buffers e position deeper there := by
  induction first with
  | here => exact second
  | accessor _ ih => exact .accessor (ih second)
  | load _ ih => exact .load (ih second)
  | unary _ ih => exact .unary (ih second)
  | left _ ih => exact .left (ih second)
  | right first _ ih => exact .right first (ih second)
  | condition _ ih => exact .condition (ih second)
  | branch first _ ih => exact .branch first (ih second)
  | body inside _ ih => exact .body inside (ih second)

theorem Visited.mem_postorder (visited : Visited env buffers e position node at') : node ∈ e.postorder := by
  induction visited with
  | here e => exact e.self_mem_postorder
  | accessor _ ih => exact List.mem_append_left _ ih
  | load _ ih => exact List.mem_append_left _ ih
  | unary _ ih => exact List.mem_append_left _ ih
  | left _ ih => exact List.mem_append_left _ (List.mem_append_left _ ih)
  | right _ _ ih => exact List.mem_append_left _ (List.mem_append_right _ ih)
  | condition _ ih => exact List.mem_append_left _ (List.mem_append_left _ (List.mem_append_left _ ih))
  | branch _ _ ih =>
    split at ih
    · exact List.mem_append_left _ (List.mem_append_left _ (List.mem_append_right _ ih))
    · exact List.mem_append_left _ (List.mem_append_right _ ih)
  | body _ _ ih => exact List.mem_append_left _ ih

/-! ## Values -/

/-- Values are of their kinds where variables are 32-bit integers. -/
theorem holds_of_evaluateFrom (typed : Typed e) (peaked : Peaked e) (words : WordsAt env buffers e position)
    (known : e.evaluateFrom env buffers position = .ok (x, after)) : e.kind.Holds x := by
  induction e generalizing position x after with
  | const kind value d =>
    cases known
    exact every_const.1 typed
  | special name extent d =>
    obtain ⟨n, bound, rfl, -⟩ := evaluateFrom_special_eq_ok.1 known
    exact ⟨n, rfl, words name extent d position (.here _ _) n bound⟩
  | accessor slot kind layout index ih =>
    obtain ⟨place, -, read⟩ := evaluateFrom_accessor_eq_ok.1 known
    exact holds_readAt read
  | load slot kind index ih =>
    obtain ⟨place, -, read⟩ := evaluateFrom_load_eq_ok.1 known
    exact holds_loadFrom read
  | unary op kind a ih =>
    obtain ⟨-, takes⟩ := every_unary.1 typed
    obtain ⟨y, -, applied⟩ := evaluateFrom_unary_eq_ok.1 known
    exact holds_applyUnary takes applied
  | binary op kind a b iha ihb =>
    obtain ⟨typedLeft, typedRight, same, takes, result⟩ := every_binary.1 typed
    obtain ⟨peakedLeft, peakedRight, -⟩ := every_binary.1 peaked
    obtain ⟨y, between, z, left, right, applied⟩ := evaluateFrom_binary_eq_ok.1 known
    -- The right operand begins with what the left one leaves, and so do the nodes that are visited in it.
    have first := iha typedLeft peakedLeft (fun _ _ _ _ below => words _ _ _ _ (.left below)) left
    have second := ihb typedRight peakedRight (fun _ _ _ _ below => words _ _ _ _ (.right left below)) right
    rw [← same] at second
    subst result
    exact holds_applyBinary takes first second applied
  | select kind c a b ihc iha ihb =>
    obtain ⟨-, typedLeft, typedRight, -, kindLeft, kindRight⟩ := every_select.1 typed
    obtain ⟨-, peakedLeft, peakedRight, -⟩ := every_select.1 peaked
    obtain ⟨y, between, first, chosen⟩ := evaluateFrom_select_eq_ok.1 known
    have taken : WordsAt env buffers (if y.truthy then a else b) between :=
      fun _ _ _ _ below => words _ _ _ _ (.branch first below)
    split at chosen
    · next holds =>
      rw [if_pos holds] at taken
      exact kindLeft ▸ iha typedLeft peakedLeft taken chosen
    · next fails =>
      rw [if_neg fails] at taken
      exact kindRight ▸ ihb typedRight peakedRight taken chosen
  | reduce op kind body extent ih =>
    obtain ⟨typedBody, kindBody, counts⟩ := every_reduce.1 typed
    obtain ⟨peakedBody, several⟩ := every_reduce.1 peaked
    obtain ⟨-, acc, loop, last⟩ := evaluateFrom_reduce_eq_ok.1 known
    refine holds_fold counts ?_ ?_ loop last
    · rintro rfl
      have least := several _ _ _ rfl
      rw [Ne, List.range_eq_nil]
      omega
    · intro r member y value
      obtain ⟨⟨_, left⟩, evaluated, rfl⟩ := map_eq_ok.1 value
      have inside : WordsAt env buffers body (some r) :=
        fun _ _ _ _ below => words _ _ _ _ (.body (List.mem_range.1 member) below)
      exact kindBody ▸ ih typedBody peakedBody inside evaluated

theorem holds_visited (typed : Typed e) (peaked : Peaked e) (words : WordsAt env buffers e position)
    (visited : Visited env buffers e position node at') {y : Scalar} {left : Option Int}
    (known : node.evaluateFrom env buffers at' = .ok (y, left)) : node.kind.Holds y :=
  holds_of_evaluateFrom (typed.below visited.mem_postorder) (peaked.below visited.mem_postorder)
    (fun name extent d there below => words name extent d there (visited.trans below)) known

/-! ## Variables -/

theorem Visited.word (visited : Visited env buffers e position node at') (counted : Counted e)
    (word : ∀ n ∈ position, Word n) : ∀ n ∈ at', Word n := by
  have later : ∀ {a : Expr} {position between : Option Int} {y : Scalar}, (∀ n ∈ position, Word n) →
      a.evaluateFrom env buffers position = .ok (y, between) → ∀ n ∈ between, Word n := by
    intro a position between y word first
    rcases after_evaluateFrom first with rfl | rfl
    · exact word
    · exact nofun
  induction visited with
  | here => exact word
  | accessor _ ih => exact ih (every_accessor.1 counted).1 word
  | load _ ih => exact ih (every_load.1 counted).1 word
  | unary _ ih => exact ih (every_unary.1 counted).1 word
  | left _ ih => exact ih (every_binary.1 counted).1 word
  | right first _ ih => exact ih (every_binary.1 counted).2.1 (later word first)
  | condition _ ih => exact ih (every_select.1 counted).1 word
  | branch first _ ih =>
    refine ih ?_ (later word first)
    split
    · exact (every_select.1 counted).2.1
    · exact (every_select.1 counted).2.2.1
  | body inside _ ih =>
    obtain ⟨below, few⟩ := every_reduce.1 counted
    have most := few _ _ _ _ rfl
    refine ih below ?_
    rintro n ⟨⟩
    constructor <;> omega

/-- Variables bound to 32-bit integers are such wherever an evaluation meets them. -/
theorem wordsAt_of_words (words : ∀ name n, env name = some n → Word n) (counted : Counted e)
    (word : ∀ n ∈ position, Word n) : WordsAt env buffers e position := by
  intro name extent d at' visited n bound
  split at bound
  · exact visited.word counted word n bound
  · exact words name n bound

/-! ## Constructors -/

theorem typed_build {op : BinaryOp} {a b : Expr} (left : Typed a) (right : Typed b) (built : op.build a b = .ok e) :
    Typed e := by
  cases op with
  | add => exact typed_add left right built
  | mul => exact typed_mul left right built
  | idiv => exact typed_idiv left right built
  | mod => exact typed_mod left right built
  | max => exact typed_combine .max left right trivial built
  | cmplt => exact typed_combine .cmplt left right trivial built
  | cmpgt => exact typed_combine .cmpgt left right trivial built
  | and => exact typed_both left right built

inductive Constructed : Expr → Prop
  | constant {kind : Element} {value : Scalar} {e : Expr} (built : constant kind value = .ok e) : Constructed e
  | variableOf {kind : Element} {name : String} {extent : Scalar} {e : Expr}
      (built : variableOf kind name extent = .ok e) : Constructed e
  | read {slot : Int} {kind : Element} {layout : Layout} {index e : Expr} (place : Constructed index)
      (built : read slot kind layout index = .ok e) : Constructed e
  | loadAt {slot : Int} {kind : Element} {index e : Expr} (place : Constructed index)
      (built : loadAt slot kind index = .ok e) : Constructed e
  | sin {a e : Expr} (operand : Constructed a) (built : sin a = .ok e) : Constructed e
  | cos {a e : Expr} (operand : Constructed a) (built : cos a = .ok e) : Constructed e
  | operation {c : Construction} {e : Expr} (operands : ∀ a ∈ c.operands, Constructed a) (built : c.build = .ok e) :
      Constructed e
  | fold {op : Reduction} {body e : Expr} {extent : Int} (operand : Constructed body)
      (built : fold op body extent = .ok e) : Constructed e
  | declared {e : Expr} (number : Nat) (made : Constructed e) : Constructed (e.declared number)

theorem Constructed.typed (made : Constructed e) : Typed e := by
  induction made with
  | constant built => exact typed_constant built
  | variableOf built =>
    simp only [Expr.variableOf, throw_bind, refuse_eq_ok, bind_eq_ok, pure_eq_ok] at built
    obtain ⟨-, _, -, rfl⟩ := built
    exact every_special.2 trivial
  | read _ built place => exact typed_read place built
  | loadAt _ built place => exact typed_loadAt place built
  | sin _ built operand => exact typed_sin operand built
  | cos _ built operand => exact typed_cos operand built
  | @operation c e _ built operands =>
    cases c with
    | neg a => exact typed_neg (operands a (by simp [Construction.operands])) built
    | cast kind a => exact typed_cast (operands a (by simp [Construction.operands])) built
    | binary op a b =>
      exact typed_build (operands a (by simp [Construction.operands])) (operands b (by simp [Construction.operands]))
        built
    | choose c a b =>
      exact typed_choose (operands c (by simp [Construction.operands])) (operands a (by simp [Construction.operands]))
        (operands b (by simp [Construction.operands])) built
  | fold _ built operand => exact typed_fold operand built
  | @declared e number _ typed =>
    unfold Expr.declared
    split
    · have holds := every_const.1 typed
      exact every_const.2 holds
    · exact every_special.2 trivial
    · exact typed

def Sound (env : Environment) (buffers : Buffers) (e : Expr) (position : Option Int) : Prop :=
  ∀ node at', Visited env buffers e position node at' →
    ∃ y left, node.evaluateFrom env buffers at' = .ok (y, left) ∧ node.kind.Holds y

theorem Sound.wordsAt (sound : Sound env buffers e position) : WordsAt env buffers e position := by
  intro name extent d at' visited n bound
  obtain ⟨y, left, value, m, rfl, word⟩ := sound _ at' visited
  obtain ⟨k, same, whole, -⟩ := evaluateFrom_special_eq_ok.1 value
  cases whole
  cases same.symm.trans bound
  exact word

/-- Where an expression made by the constructors has a value, that is a truth value, an integer of 32 bits or a number
    of single precision, as its kind says, and so it is for every node that the evaluation goes through, just if those
    that its reductions bind are 32-bit integers as all other variables are. They are if reductions are no longer than
    32 bits count. No maximum is over nothing. -/
theorem evaluate_sound (made : Constructed e) (peaked : Peaked e) (words : ∀ name n, env name = some n → Word n)
    (known : e.evaluate env buffers = .ok x) :
    (e.kind.Holds x ∧ Sound env buffers e (env reductionIndex) ↔ WordsAt env buffers e (env reductionIndex))
      ∧ (Counted e → WordsAt env buffers e (env reductionIndex)) := by
  obtain ⟨after, value⟩ := evaluate_eq_ok.1 known
  refine ⟨⟨fun ⟨_, sound⟩ => sound.wordsAt, fun here => ?_⟩,
    fun counted => wordsAt_of_words words counted (words reductionIndex)⟩
  refine ⟨holds_of_evaluateFrom made.typed peaked here value, fun node at' visited => ?_⟩
  obtain ⟨y, left, evaluated⟩ := visited.evaluated value
  exact ⟨y, left, evaluated, holds_visited made.typed peaked here visited evaluated⟩

/-- The greatest of five positions added to the greatest 32-bit integer, which begins again below zero. -/
theorem evaluate_sound_wrapped :
    let greatest := reduce .max .int32 (reductionPosition 5) 5
    let e := binary .add .int32 greatest (outputPosition 0x7fffffff)
    let env := atOutput 0x7fffffff
    (Constructed e ∧ Peaked e ∧ Counted e ∧ e.evaluate env (fun _ => none) = .ok (.int (-0x7ffffffd)))
    ∧ Element.int32.Holds (.int (-0x7ffffffd)) ∧ Sound env (fun _ => none) e (env reductionIndex) := by
  intro greatest e env
  have index : Constructed (reductionPosition 5) := @Constructed.variableOf .int32 _ (.int 5) _ rfl
  have output : Constructed (outputPosition 0x7fffffff) :=
    @Constructed.variableOf .int32 _ (.int 0x7fffffff) _ rfl
  have reduction : Constructed greatest := .fold index rfl
  have made : Constructed e := by
    refine .operation (c := .binary .add greatest (outputPosition 0x7fffffff)) ?_ rfl
    intro a member
    simp only [Construction.operands, List.mem_cons, List.not_mem_nil, or_false] at member
    rcases member with rfl | rfl
    · exact reduction
    · exact output
  have peaked : Peaked e := by
    simp [e, greatest, reductionPosition, outputPosition]
  have counted : Counted e := by
    simp only [Counted, e, greatest, reductionPosition, outputPosition, every_binary, every_reduce, every_special]
    refine ⟨⟨?_, ?_⟩, ?_, ?_⟩ <;> rintro op kind body extent ⟨⟩
    decide
  have words : ∀ name n, env name = some n → Word n := by
    intro name n bound
    obtain ⟨-, ⟨⟩⟩ := Option.ite_none_right_eq_some.1 bound
    decide
  have known : e.evaluate env (fun _ => none) = .ok (.int (-0x7ffffffd)) := by
    obtain ⟨after, first⟩ := evaluate_eq_ok.1 (@evaluate_lastPosition env (fun _ => none) 4)
    exact evaluate_eq_ok.2 ⟨after, evaluateFrom_binary_eq_ok.2 ⟨_, after, _, first, rfl, rfl⟩⟩
  obtain ⟨sound, everywhere⟩ := evaluate_sound made peaked words known
  exact ⟨⟨made, peaked, counted, known⟩, sound.2 (everywhere counted)⟩

/-- The greatest of more positions than 32 bits count is none of their integers. -/
theorem evaluate_unsound :
    let greatest := reduce .max .int32 (reductionPosition (0x80000000 + 1)) (0x80000000 + 1)
    Constructed greatest ∧ Peaked greatest ∧ greatest.evaluate (fun _ => none) (fun _ => none) = .ok (.int 0x80000000)
      ∧ ¬ greatest.kind.Holds (.int 0x80000000) := by
  intro greatest
  have index : Constructed (reductionPosition (0x80000000 + 1)) :=
    @Constructed.variableOf .int32 _ (.int (0x80000000 + 1)) _ rfl
  have peaked : Peaked greatest := by
    simp [greatest, reductionPosition]
  refine ⟨.fold index rfl, peaked, evaluate_lastPosition 0x80000000, ?_⟩
  rintro ⟨n, ⟨⟩, -, few⟩
  exact absurd few (by decide)

end Expr

end StridedArray
