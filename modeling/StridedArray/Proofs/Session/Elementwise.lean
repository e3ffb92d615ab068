import StridedArray.Proofs.Layout.WellFormed
import StridedArray.Proofs.Session.Operands

/-! # Elementwise operations on arrays of numbers

Operations stretch their operands to a common shape and combine what they find there, modulo `2 ^ 32` for integers.
Scalars may stand on either side.

* `Layout.Drawn`, `Drawn.anchored` — uploads and their movements without empty axes;
* `Calculates` — what each operation makes of its operands, number by number;
* `unary_makes`, `binary_makes`, `ternary_makes` — an operation runs if its expression can be built;
  `Calculates.makes` — all of them do;
* `Uploaded` — a live upload, or what became of one by movements. -/

namespace StridedArray

open Layout (rowMajor)
open Shape (Inside Positive CommonShape StretchesTo product ravel unravel)

/-! ## Moved uploads -/

namespace Layout

/-- One layout is a movement of another one: axes in another order, parts of axes, zeros beside axes, a shape that is
    stretched to, or another shape of the same size. -/
inductive Moves (l r : Layout) : Prop
  | permute {order : List Int} (moved : l.permute order = .ok r)
  | shrink {kept : List (Int × Int)} (moved : l.shrink kept = .ok r)
  | pad {widths : List (Int × Int)} (moved : l.pad widths = .ok r)
  | stretch {target : List Int} (moved : l.stretch target = .ok r)
  | reshape {target : List Int} (moved : l.reshape target = .ok r)

/-- The layout of a whole array, or one that came from it by movements of arrays without empty axes. -/
inductive Drawn (whole : List Int) : Layout → Prop
  | upload (natural : ∀ n ∈ whole, 0 ≤ n) : Drawn whole (rowMajor whole)
  | moved {l r : Layout} (drawn : Drawn whole l) (before : Positive l.shape) (after : Positive r.shape)
      (moves : Moves l r) : Drawn whole r

variable {l r : Layout} {count : Int} {whole : List Int}

theorem Anchored.moves (anchored : l.Anchored count) (before : Positive l.shape) (after : Positive r.shape)
    (moves : Moves l r) : r.Anchored count := by
  cases moves with
  | permute moved => exact anchored.permute moved
  | shrink moved => exact anchored.shrink moved
  | pad moved =>
    refine anchored.pad (fun a member empty => ?_) moved
    have positive := before a.1 (List.of_mem_zip member).1
    omega
  | reshape moved => exact anchored.reshape moved
  | @stretch target moved =>
    rcases stretch_ok moved with rfl | ⟨wide, raised, expanded⟩
    · exact anchored
    · rw [shape_expand expanded] at after
      exact (anchored.reshape raised).expand (fun n member => Int.le_of_lt (after n member)) expanded

theorem Drawn.anchored (drawn : Drawn whole l) : l.Anchored (product whole) := by
  induction drawn with
  | upload natural => exact anchored_rowMajor natural
  | moved _ before after moves anchored => exact anchored.moves before after moves

end Layout

/-! ## Expressions that are built -/

namespace Expr

def BuildsUnary (f : Expr → Except Failure Expr) (kind result : Element) (g : Int → Int) : Prop :=
  ∀ rows inputs a u, Tabulates rows inputs a kind u →
    ∃ e, f a = .ok e ∧ Tabulates rows inputs e result fun k => g (u k)

def BuildsBinary (f : Expr → Expr → Except Failure Expr) (first second result : Element) (g : Int → Int → Int) : Prop :=
  ∀ rows inputs a b u v, Tabulates rows inputs a first u → Tabulates rows inputs b second v →
    ∃ e, f a b = .ok e ∧ Tabulates rows inputs e result fun k => g (u k) (v k)

def BuildsTernary (f : Expr → Expr → Expr → Except Failure Expr) (first second third result : Element)
    (g : Int → Int → Int → Int) : Prop :=
  ∀ rows inputs a b c u v w, Tabulates rows inputs a first u → Tabulates rows inputs b second v →
    Tabulates rows inputs c third w →
    ∃ e, f a b c = .ok e ∧ Tabulates rows inputs e result fun k => g (u k) (v k) (w k)

variable {first second third : Element}

theorem buildsBinary_add : BuildsBinary Expr.add first second (first.promote second)
    fun m n => BinaryOp.add.outcome (first.promote second) m n :=
  fun _ _ _ _ _ _ left right => left.add right

theorem buildsBinary_mul : BuildsBinary Expr.mul first second (first.promote second)
    fun m n => BinaryOp.mul.outcome (first.promote second) m n :=
  fun _ _ _ _ _ _ left right => left.mul right

theorem buildsBinary_combine {op : BinaryOp} (elementwise : op.Elementwise) :
    BuildsBinary (combine op) first second (op.resultKind (first.promote second))
      fun m n => op.outcome (first.promote second) m n :=
  fun _ _ _ _ _ _ left right => left.combine elementwise right

theorem buildsUnary_negate : BuildsUnary Expr.negateCounted first .int32 fun n => wrap32 (-n) :=
  fun _ _ _ _ operand => operand.negateCounted

theorem buildsBinary_sub : BuildsBinary (fun x y => do x.add (← y.negateCounted)) first second .int32
    fun m n => wrap32 (m - n) := by
  intro rows inputs a b u v left right
  obtain ⟨y, negated, opposite⟩ := right.negateCounted
  obtain ⟨e, built, sum⟩ := left.add opposite
  rw [Element.promote_int32 left.whole] at sum
  refine ⟨e, by simp only [negated, ok_bind, built], sum.congr fun k bound => ?_⟩
  show wrap32 (u k + wrap32 (-v k)) = wrap32 (u k - v k)
  rw [wrap32_eq_iff, Int.sub_eq_add_neg]
  exact (wrap32_modEq (-v k)).add_left (u k)

theorem buildsTernary_choose : BuildsTernary (fun x y z => do Expr.choose (← x.cast .bool) y z) first second third
    (second.promote third) fun c m n => if c ≠ 0 then m else n := by
  intro rows inputs a b c u v w condition left right
  obtain ⟨x, cast, truth⟩ := condition.cast (show Element.bool ≠ .float32 by decide)
  obtain ⟨e, built, chosen⟩ := truth.choose left right
  refine ⟨e, by simp only [cast, ok_bind, built], chosen.congr fun k bound => ?_⟩
  by_cases zero : u k = 0 <;> simp [Element.image, zero]

end Expr

namespace Session

variable {s : Session} {owner : Nat} {r : TensorRef} {a b c : Operand} {x y z : Numbers} {out : List Int}
  {kind : Element}

/-- An action makes an array of numbers and leaves all that was there as it was. -/
def Makes (s : Session) (owner : Nat) (action : Action TensorRef) (kind : Element) (shape : List Int)
    (v : List Int → Int) : Prop :=
  ∃ s', Runs action s ⟨s.tensors.size⟩ s' ∧ s.Extends s' ∧ s'.Filled owner ⟨s.tensors.size⟩ kind shape v

/-! ## Operations that run -/

/-- Operands of which the first one is an array are brought to their common shape. -/
theorem Presents.runs_common (presents : s.Presents owner r x) {others : List Operand} {xs : List Numbers}
    (stand : List.Forall₂ (Stands (s.Presents owner)) others xs)
    (common : CommonShape (x.shape :: xs.map Numbers.shape) out) :
    ∃ h beside, s.HasHost owner h ∧ beside ≠ .float32 ∧ (∀ n ∈ out, 0 ≤ n)
      ∧ Runs (Session.common r others) s ⟨owner, out, beside⟩ s := by
  have each : ∀ shape ∈ xs.map Numbers.shape, ∀ n ∈ shape, 0 ≤ n := by
    clear common
    induction stand with
    | nil => exact fun shape member => nomatch member
    | cons first _ inductionHypothesis => exact List.forall_mem_cons.2 ⟨first.natural, inductionHypothesis⟩
  have natural := common.natural (List.forall_mem_cons.2 ⟨(Stands.array presents).natural, each⟩)
  obtain ⟨t, bytes, known, carries, -, shape, -⟩ := presents
  rw [← shape] at common
  obtain ⟨h, has, -⟩ := carries.stored
  exact ⟨h, t.kind, carries.owner ▸ has, carries.whole, natural, Session.runs_common known carries stand common⟩

theorem runKernel_makes [Room] {h : Host} {inputs : List Input} {e : Expr} {v : List Int → Int}
    (has : s.HasHost owner h) (natural : ∀ n ∈ out, 0 ≤ n) (small : product out < 0x80000000)
    (held : ∀ input ∈ inputs, s.HasInput owner input)
    (tabulates : Expr.Tabulates (product out) inputs e kind fun k => v (unravel k out)) :
    s.Makes owner (runKernel owner e out (inputs.map Input.handle)) kind out v := by
  obtain ⟨bytes, runs, filled⟩ := runs_tabulated has natural small held tabulates
  refine ⟨_, runs, has.extends_withNew .., filled.congr fun index inside => ?_⟩
  obtain ⟨low, -⟩ := inside.ravel_bounds
  rw [Int.toNat_of_nonneg low, inside.unravel_ravel]

theorem unary_makes [Room] {f : Expr → Except Failure Expr} {g : Int → Int} (presents : s.Presents owner r x)
    (builds : Expr.BuildsUnary f x.kind kind g) (common : CommonShape [x.shape] out) (small : product out < 0x80000000) :
    s.Makes owner (unary f r) kind out fun i => g (x.stretched i) := by
  obtain ⟨h, beside, has, whole, natural, opens⟩ := presents.runs_common .nil common
  obtain ⟨e, inputs, reads, held, tabulates⟩ := @Stands.runs_argument s owner x (.tensor r) ⟨owner, out, beside⟩
    (.array presents) (common.stretches _ (by simp)) natural whole []
  obtain ⟨e', built, computed⟩ := builds _ _ _ _ tabulates
  obtain ⟨s', runs, rest⟩ := @runKernel_makes s owner out kind _ h inputs e' (fun i => g (x.stretched i)) has natural
    small held computed
  exact ⟨s', opens.bind (reads.bind ((runs_ofResult built).bind runs)), rest⟩

theorem binary_makes [Room] {f : Expr → Expr → Except Failure Expr} {g : Int → Int → Int}
    (presents : s.Presents owner r x) (second : Stands (s.Presents owner) b y)
    (builds : Expr.BuildsBinary f x.kind y.kind kind g)
    (common : CommonShape [x.shape, y.shape] out) (small : product out < 0x80000000) :
    s.Makes owner (binary f r b) kind out fun i => g (x.stretched i) (y.stretched i) := by
  obtain ⟨h, beside, has, whole, natural, opens⟩ := presents.runs_common (.cons second .nil) common
  obtain ⟨e, inputs, reads, held, tabulates⟩ := @Stands.runs_argument s owner x (.tensor r) ⟨owner, out, beside⟩
    (.array presents) (common.stretches _ (by simp)) natural whole []
  obtain ⟨e', more, readsMore, heldMore, others⟩ := @Stands.runs_argument s owner y b ⟨owner, out, beside⟩ second
    (common.stretches _ (by simp)) natural whole inputs
  obtain ⟨e'', built, computed⟩ := builds _ _ _ _ _ _ (tabulates.append more) others
  obtain ⟨s', runs, rest⟩ := @runKernel_makes s owner out kind _ h (inputs ++ more) e''
    (fun i => g (x.stretched i) (y.stretched i)) has natural small
    (fun input member => (List.mem_append.1 member).elim (held input) (heldMore input)) computed
  exact ⟨s', opens.bind (reads.bind (readsMore.bind ((runs_ofResult built).bind runs))), rest⟩

theorem ternary_makes [Room] {f : Expr → Expr → Expr → Except Failure Expr} {g : Int → Int → Int → Int}
    (presents : s.Presents owner r x) (second : Stands (s.Presents owner) b y)
    (third : Stands (s.Presents owner) c z) (builds : Expr.BuildsTernary f x.kind y.kind z.kind kind g)
    (common : CommonShape [x.shape, y.shape, z.shape] out) (small : product out < 0x80000000) :
    s.Makes owner (ternary f r b c) kind out fun i => g (x.stretched i) (y.stretched i) (z.stretched i) := by
  obtain ⟨h, beside, has, whole, natural, opens⟩ := presents.runs_common (.cons second (.cons third .nil)) common
  obtain ⟨e, inputs, reads, held, tabulates⟩ := @Stands.runs_argument s owner x (.tensor r) ⟨owner, out, beside⟩
    (.array presents) (common.stretches _ (by simp)) natural whole []
  obtain ⟨e', more, readsMore, heldMore, others⟩ := @Stands.runs_argument s owner y b ⟨owner, out, beside⟩ second
    (common.stretches _ (by simp)) natural whole inputs
  obtain ⟨e'', most, readsMost, heldMost, last⟩ := @Stands.runs_argument s owner z c ⟨owner, out, beside⟩ third
    (common.stretches _ (by simp)) natural whole (inputs ++ more)
  obtain ⟨e₃, built, computed⟩ := builds _ _ _ _ _ _ _ _ ((tabulates.append more).append most)
    (others.append most) last
  obtain ⟨s', runs, rest⟩ := @runKernel_makes s owner out kind _ h (inputs ++ more ++ most) e₃
    (fun i => g (x.stretched i) (y.stretched i) (z.stretched i)) has natural small (by
      simp only [List.mem_append]
      rintro input ((first | second) | third)
      · exact held input first
      · exact heldMore input second
      · exact heldMost input third) computed
  exact ⟨s', opens.bind (reads.bind (readsMore.bind (readsMost.bind ((runs_ofResult built).bind runs)))), rest⟩

/-! ## The operations -/

/-- What each operation makes of operands that stand for numbers: the shapes that it brings to a common one, the kind
    of its result, and the number at a multi-index of the common shape. One of two operands is an array. -/
inductive Calculates [Room] (shows : TensorRef → Numbers → Prop) :
    Action TensorRef → List (List Int) → Element → (List Int → Int) → Prop
  | add {a b : Operand} {x y : Numbers} (left : Stands shows a x) (right : Stands shows b y)
      (array : tensorsOf [a, b] ≠ []) :
      Calculates shows (add a b) [x.shape, y.shape] (x.kind.promote y.kind)
        fun i => BinaryOp.add.outcome (x.kind.promote y.kind) (x.stretched i) (y.stretched i)
  | sub {a b : Operand} {x y : Numbers} (left : Stands shows a x) (right : Stands shows b y)
      (array : tensorsOf [a, b] ≠ []) :
      Calculates shows (sub a b) [x.shape, y.shape] .int32 fun i => wrap32 (x.stretched i - y.stretched i)
  | mul {a b : Operand} {x y : Numbers} (left : Stands shows a x) (right : Stands shows b y)
      (array : tensorsOf [a, b] ≠ []) :
      Calculates shows (mul a b) [x.shape, y.shape] (x.kind.promote y.kind)
        fun i => BinaryOp.mul.outcome (x.kind.promote y.kind) (x.stretched i) (y.stretched i)
  | less {a b : Operand} {x y : Numbers} (left : Stands shows a x) (right : Stands shows b y)
      (array : tensorsOf [a, b] ≠ []) :
      Calculates shows (less a b) [x.shape, y.shape] .bool fun i => if x.stretched i < y.stretched i then 1 else 0
  | greater {a b : Operand} {x y : Numbers} (left : Stands shows a x) (right : Stands shows b y)
      (array : tensorsOf [a, b] ≠ []) :
      Calculates shows (greater a b) [x.shape, y.shape] .bool fun i => if y.stretched i < x.stretched i then 1 else 0
  | maximum {r : TensorRef} {b : Operand} {x y : Numbers} (left : shows r x) (right : Stands shows b y) :
      Calculates shows (maximum (.tensor r) b) [x.shape, y.shape] (x.kind.promote y.kind)
        fun i => Max.max (x.stretched i) (y.stretched i)
  | negate {r : TensorRef} {x : Numbers} (operand : shows r x) :
      Calculates shows (negate r) [x.shape] .int32 fun i => wrap32 (-x.stretched i)
  | choose {r : TensorRef} {b c : Operand} {x y z : Numbers} (condition : shows r x) (left : Stands shows b y)
      (right : Stands shows c z) :
      Calculates shows (choose (.tensor r) b c) [x.shape, y.shape, z.shape] (y.kind.promote z.kind)
        fun i => if x.stretched i ≠ 0 then y.stretched i else z.stretched i

/-- One of two operands is an array. The other one may be a scalar. -/
theorem Stands.either {shows : TensorRef → Numbers → Prop} (left : Stands shows a x) (right : Stands shows b y)
    (array : tensorsOf [a, b] ≠ []) :
    (∃ r, a = .tensor r ∧ shows r x) ∨ ∃ d r, a = .value d ∧ b = .tensor r ∧ shows r y := by
  cases left with
  | array shown => exact .inl ⟨_, rfl, shown⟩
  | _ =>
    cases right with
    | array shown => exact .inr ⟨_, _, rfl, rfl, shown⟩
    | _ => exact absurd rfl array

theorem eitherOrder_makes [Room] {f : Expr → Expr → Except Failure Expr} {g : Int → Int → Int}
    (left : Stands (s.Presents owner) a x) (right : Stands (s.Presents owner) b y) (array : tensorsOf [a, b] ≠ [])
    (builds : Expr.BuildsBinary f x.kind y.kind kind g)
    (common : CommonShape [x.shape, y.shape] out) (small : product out < 0x80000000) :
    s.Makes owner (eitherOrder f a b) kind out fun i => g (x.stretched i) (y.stretched i) := by
  rcases left.either right array with ⟨r, rfl, presents⟩ | ⟨d, r, rfl, rfl, presents⟩
  · exact binary_makes presents right builds common small
  · exact @binary_makes s owner r (.value d) y x out kind _ (fun p q => f q p) (fun m n => g n m) presents left
      (fun rows inputs p q u v first second => builds rows inputs q p v u second first) (common.perm (.swap ..)) small

/-- Every operation makes what it stands for. -/
theorem Calculates.makes [Room] {action : Action TensorRef} {shapes : List (List Int)} {v : List Int → Int}
    (calculates : Calculates (s.Presents owner) action shapes kind v) (common : CommonShape shapes out)
    (small : product out < 0x80000000) : s.Makes owner action kind out v := by
  cases calculates with
  | add left right array => exact eitherOrder_makes left right array Expr.buildsBinary_add common small
  | sub left right array => exact eitherOrder_makes left right array Expr.buildsBinary_sub common small
  | mul left right array => exact eitherOrder_makes left right array Expr.buildsBinary_mul common small
  | less left right array =>
    -- A scalar in front of an array makes the comparison the other way round.
    rcases left.either right array with ⟨r, rfl, presents⟩ | ⟨d, r, rfl, rfl, presents⟩
    · exact binary_makes presents right (@Expr.buildsBinary_combine _ _ .cmplt trivial) common small
    · exact binary_makes presents left (@Expr.buildsBinary_combine _ _ .cmpgt trivial) (common.perm (.swap ..)) small
  | greater left right array =>
    rcases left.either right array with ⟨r, rfl, presents⟩ | ⟨d, r, rfl, rfl, presents⟩
    · exact binary_makes presents right (@Expr.buildsBinary_combine _ _ .cmpgt trivial) common small
    · exact binary_makes presents left (@Expr.buildsBinary_combine _ _ .cmplt trivial) (common.perm (.swap ..)) small
  | maximum left right =>
    exact binary_makes left right (@Expr.buildsBinary_combine _ _ .max trivial) common small
  | negate operand => exact unary_makes operand Expr.buildsUnary_negate common small
  | @choose r b c x y z condition left right =>
    exact @ternary_makes s owner r b c x y z out (y.kind.promote z.kind) _
      (fun p q o => do Expr.choose (← p.cast .bool) q o) (fun c m n => if c ≠ 0 then m else n) condition left right
      Expr.buildsTernary_choose common small

theorem Stands.mono {first second : TensorRef → Numbers → Prop} (imp : ∀ r x, first r x → second r x)
    (stands : Stands first a x) : Stands second a x := by
  cases stands with
  | array shown => exact .array (imp _ _ shown)
  | truth b => exact .truth b
  | integer word => exact .integer word

theorem Calculates.mono [Room] {first second : TensorRef → Numbers → Prop} (imp : ∀ r x, first r x → second r x)
    {action : Action TensorRef} {shapes : List (List Int)} {v : List Int → Int}
    (calculates : Calculates first action shapes kind v) : Calculates second action shapes kind v := by
  cases calculates with
  | add left right array => exact .add (left.mono imp) (right.mono imp) array
  | sub left right array => exact .sub (left.mono imp) (right.mono imp) array
  | mul left right array => exact .mul (left.mono imp) (right.mono imp) array
  | less left right array => exact .less (left.mono imp) (right.mono imp) array
  | greater left right array => exact .greater (left.mono imp) (right.mono imp) array
  | maximum left right => exact .maximum (imp _ _ left) (right.mono imp)
  | negate operand => exact .negate (imp _ _ operand)
  | choose condition left right => exact .choose (imp _ _ condition) (left.mono imp) (right.mono imp)

/-! ## Uploads -/

/-- A live upload of numbers, or what became of one by movements without empty axes. Padding counts as zero. -/
def Uploaded (s : Session) (owner : Nat) (r : TensorRef) (x : Numbers) : Prop :=
  ∃ t bytes whole, s.tensors[r.number]? = some t ∧ s.Carries owner t bytes ∧ t.layout.Drawn whole
    ∧ (bytes.size : Int) = product whole * t.kind.itemSize
    ∧ x = ⟨t.kind, t.shape, t.layout.entry (t.kind.numberAt bytes)⟩

theorem Uploaded.presents (uploaded : s.Uploaded owner r x) : s.Presents owner r x := by
  obtain ⟨t, bytes, whole, known, carries, drawn, size, rfl⟩ := uploaded
  exact ⟨t, bytes, known, carries, rfl, rfl, Element.count_eq size ▸ drawn.anchored, fun _ _ => rfl⟩

/-- An operation on uploads, or on what became of them, and scalars of which one may stand on either side makes the
    array of its values over the common shape. Nothing that was there is changed. -/
theorem calculation_of_uploads [Room] {action : Action TensorRef} {shapes : List (List Int)} {v : List Int → Int}
    (calculates : Calculates (s.Uploaded owner) action shapes kind v) (common : CommonShape shapes out)
    (small : product out < 0x80000000) :
    ∃ s', Runs action s ⟨s.tensors.size⟩ s' ∧ s.Extends s' ∧ s'.Filled owner ⟨s.tensors.size⟩ kind out v :=
  (calculates.mono fun _ _ uploaded => uploaded.presents).makes common small

def integersAndTruth (layout : Layout) : Session :=
  (alone [5, -3] layout).withNew 0 ⟨((Host.fresh 0).table.allocate 8 (Element.int32.bytesOf [5, -3])).2⟩ .bool
    (Element.bool.bytesOf [1]) (rowMajor [1])

/-- Padding is less than the truth value that is stretched, and so is the negative number. -/
theorem calculation_of_uploads_padded :
    ∃ l s', (rowMajor [2]).pad [(1, 0)] = .ok l
      ∧ Runs (less (.tensor ⟨0⟩) (.tensor ⟨1⟩)) (integersAndTruth l) ⟨2⟩ s'
      ∧ s'.Filled 0 ⟨2⟩ .bool [3] fun index => if index = [1] then 0 else 1 := by
  let l : Layout := ⟨View.create [3] [1] (-1) (some [(1, 3)]), []⟩
  have moved : (rowMajor [2]).pad [(1, 0)] = .ok l := rfl
  have drawn : l.Drawn [2] := .moved (.upload (by decide)) (by decide) (by decide) (.pad moved)
  obtain ⟨first, carriesFirst⟩ := carries_alone [5, -3] l
  have has := hasHost_onHost.hasHost_withNew .int32 (Element.int32.bytesOf [5, -3]) l
  have later := has.extends_withNew .bool (Element.bool.bytesOf [1]) (rowMajor [1])
  obtain ⟨second, carriesSecond⟩ := has.carries_withNew (show Element.bool ≠ .float32 by decide)
    (show (Element.bool.bytesOf [1]).size % 1 = 0 by decide) (rowMajor [1])
  have integers : (integersAndTruth l).Uploaded 0 ⟨0⟩ _ :=
    ⟨_, _, [2], later.arrays first, carriesFirst.later later, drawn, by decide, rfl⟩
  have truth : (integersAndTruth l).Uploaded 0 ⟨1⟩ _ :=
    ⟨_, _, [1], second, carriesSecond, .upload (by decide), by decide, rfl⟩
  obtain ⟨s', runs, -, filled⟩ := calculation_of_uploads (.less (.array integers) (.array truth) (by simp [tensorsOf]))
    (show CommonShape [[3], [1]] [3] from ⟨by decide, by decide, by decide⟩) (by decide)
  refine ⟨l, s', moved, runs, filled.congr fun index inside => ?_⟩
  obtain ⟨i, rest, rfl, ⟨low, high⟩, none⟩ := Shape.inside_cons_right.1 inside
  cases none
  obtain rfl | rfl | rfl : i = 0 ∨ i = 1 ∨ i = 2 := by omega
  all_goals decide

end Session

end StridedArray
