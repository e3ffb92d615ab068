import StridedArray.Proofs.Convolution.Transposed
import StridedArray.Proofs.Layout.Rearrangements
import StridedArray.Proofs.Session.Steps

/-! # Array operations keep the accounts

One lemma for every way in which arrays are made or read. Most operations look around, make one buffer and
work on it. The others have a temporary array: a copy that is read, or a result that is seen through another
layout in the end. Such a layout always fits, so the temporary array is never left behind.

* `keeps_runKernel`, `keeps_unary`, `keeps_binary`, `keeps_ternary` — elementwise operations;
* `keeps_hostBytes`, `keeps_contents` — reading; `keeps_place`, `keeps_upload` — uploads;
* `reshape_kept`, `keeps_reduce` — reductions, also with their axes kept;
* `loss_of_requestShape`, `keeps_runConvolution` — convolutions; `swapFront_whole`, `keeps_filterGradient` — the
  gradient that exchanges two axes in the end. -/

namespace StridedArray

namespace Session

variable {α β : Type} {s s' : Session} {before : Handle → Nat} {strays : List Handle} {r : TensorRef}
  {t : Tensor}

/-! ## Computations -/

theorem loss_of_ofShape {shape : List Int} {e : Failure} (failed : Layout.ofShape shape = .error e) :
    1 ≤ e.loss := by
  unfold Layout.ofShape at failed
  split at failed
  · cases failed
    exact Nat.le_refl 1
  · cases failed

theorem quiet_execute (owner : Nat) (exprs : List Expr) (inputs outputs : List HandleArgument) :
    Quiet (onExecutor owner fun x => x.execute exprs inputs outputs) :=
  quiet_onExecutor fun x => x.execute_counts exprs inputs outputs

theorem keeps_runKernel [Room] (owner : Nat) (e : Expr) (shape : List Int) (inputs : List Handle) :
    Keeps some (runKernel owner e shape inputs) :=
  keeps_fill owner _ (fun _ => quiet_execute owner _ _ _) e.kind fun _ => loss_of_ofShape

theorem keeps_unary [Room] (f : Expr → Except Failure Expr) (a : TensorRef) : Keeps some (unary f a) :=
  (quiet_common a []).bind_keeps fun c => (quiet_argument c [] _).bind_keeps fun _ =>
    (quiet_ofResult _).bind_keeps fun _ => keeps_runKernel ..

theorem keeps_binary [Room] (f : Expr → Expr → Except Failure Expr) (a : TensorRef) (b : Operand) :
    Keeps some (binary f a b) :=
  (quiet_common a [b]).bind_keeps fun c => (quiet_argument c [] _).bind_keeps fun x =>
    (quiet_argument c x.2 b).bind_keeps fun _ => (quiet_ofResult _).bind_keeps fun _ => keeps_runKernel ..

theorem keeps_ternary [Room] (f : Expr → Expr → Expr → Except Failure Expr) (a : TensorRef) (b c : Operand) :
    Keeps some (ternary f a b c) :=
  (quiet_common a [b, c]).bind_keeps fun k => (quiet_argument k [] _).bind_keeps fun x =>
    (quiet_argument k x.2 b).bind_keeps fun y => (quiet_argument k y.2 c).bind_keeps fun _ =>
      (quiet_ofResult _).bind_keeps fun _ => keeps_runKernel ..

theorem keeps_throw (e : Failure) : Keeps some (throw e : Action TensorRef) where
  lands := fun balanced => lands_error balanced (change_of_tensors rfl)

theorem keeps_eitherOrder [Room] (f : Expr → Expr → Except Failure Expr) (a b : Operand) :
    Keeps some (eitherOrder f a b) := by
  cases a with
  | tensor a => exact keeps_binary f a b
  | value a =>
    cases b with
    | tensor b => exact keeps_binary (fun x y => f y x) b (.value a)
    | value b => exact keeps_throw .operand

theorem keeps_less [Room] (a b : Operand) : Keeps some (less a b) := by
  cases a with
  | tensor a => exact keeps_binary Expr.cmplt a b
  | value a =>
    cases b with
    | tensor b => exact keeps_binary Expr.cmpgt b (.value a)
    | value b => exact keeps_throw .operand

theorem keeps_greater [Room] (a b : Operand) : Keeps some (greater a b) := by
  cases a with
  | tensor a => exact keeps_binary Expr.cmpgt a b
  | value a =>
    cases b with
    | tensor b => exact keeps_binary Expr.cmplt b (.value a)
    | value b => exact keeps_throw .operand

theorem keeps_maximum [Room] (a b : Operand) : Keeps some (maximum a b) := by
  cases a with
  | tensor a => exact keeps_binary Expr.max a b
  | value a => exact keeps_throw .unsupported

theorem keeps_choose [Room] (condition a b : Operand) : Keeps some (choose condition a b) := by
  cases condition with
  | tensor c => exact keeps_ternary (fun x y z => do Expr.choose (← x.cast .bool) y z) c a b
  | value d => exact keeps_throw (.kind (.conditionNotAnArray d.typeName))

/-! ## Temporary arrays -/

theorem run_bind_of_ok {a : Action α} {b : α → Action β} {value : β} {s'' : Session}
    (ran : (a >>= b).run.run s = (.ok value, s'')) :
    ∃ first s', a.run.run s = (.ok first, s') ∧ (b first).run.run s' = (.ok value, s'') := by
  cases first : a.run.run s with
  | mk answer s' =>
    cases answer with
    | ok middle =>
      rw [run_bind_ok first] at ran
      exact ⟨middle, s', rfl, ran⟩
    | error e =>
      rw [run_bind_error first] at ran
      cases ran

theorem adopted_of_ok {h : Handle} {layout : Except Failure Layout} {kind : Element}
    (ran : (do adopt h (← ofResult layout) kind : Action TensorRef).run.run s = (.ok r, s')) :
    ∃ t, s'.tensors[r.number]? = some t ∧ layout = .ok t.layout := by
  obtain ⟨l, s₁, known, adopted⟩ := run_bind_of_ok ran
  obtain ⟨rfl, rfl⟩ := ofResult_ok known
  cases adopted
  exact ⟨_, Array.getElem?_push_size, rfl⟩

theorem layout_of_runKernel [Room] {owner : Nat} {e : Expr} {shape : List Int} {inputs : List Handle}
    (ran : (runKernel owner e shape inputs).run.run s = (.ok r, s')) :
    ∃ t, s'.tensors[r.number]? = some t ∧ Layout.ofShape shape = .ok t.layout := by
  obtain ⟨h, s₁, _, ran⟩ := run_bind_of_ok ran
  obtain ⟨_, s₂, _, ran⟩ := run_bind_of_ok ran
  exact adopted_of_ok ran

/-! ## Reading -/

theorem keeps_hostBytes [Room] (r : TensorRef) : Keeps noArray (hostBytes r) := by
  constructor
  intro before strays s balanced
  refine (quiet_find r).lands_bind balanced fun t s' ran balanced => ?_
  obtain ⟨rfl, _⟩ := find_ok ran
  split
  · exact (quiet_readBuffer t.handle).keeps.lands balanced
  · -- The copy is disposed of on both ways out.
    refine ((keeps_unary pure r).lands balanced).bind_temporary fun copy s₁ _ copied first => ?_
    have quiet : Quiet (do readBuffer (← find copy).handle) :=
      (quiet_find copy).bind fun t => quiet_readBuffer t.handle
    have same := quiet s₁ copied.orderly
    cases ran : (do readBuffer (← find copy).handle : Action Bytes).run.run s₁ with
    | mk answer s₂ =>
      rw [ran] at same
      obtain ⟨s₃, disposed, last, change⟩ :=
        (copied.like same).close first (change_of_tensors same.tensors)
      cases answer with
      | ok bytes =>
        rw [run_bind_ok (run_tryCatch_ok ran), run_bind_ok disposed]
        exact lands_ok last change
      | error e =>
        rw [run_bind_error ((run_tryCatch_error ran).trans (run_bind_ok disposed))]
        exact lands_error last change

theorem keeps_contents [Room] (r : TensorRef) : Keeps noArray (contents r) := by
  refine (quiet_live r).bind_keeps fun t => (keeps_hostBytes r).bind fun bytes => Quiet.keeps ?_
  split
  · exact (quiet_throw _).bind fun _ => quiet_pure _
  · exact quiet_pure _

theorem keeps_nested [Room] (r : TensorRef) : Keeps noArray (nested r) :=
  (keeps_contents r).bind fun _ => (quiet_pure _).keeps

theorem keeps_plainText [Room] (r : TensorRef) : Keeps noArray (plainText r) :=
  (keeps_contents r).bind fun _ => (quiet_pure _).keeps

theorem keeps_text [Room] (r : TensorRef) : Keeps noArray (text r) := by
  refine (quiet_find r).bind_keeps fun t => ?_
  split
  · exact (quiet_pure _).keeps
  · exact (keeps_plainText r).bind fun _ => (quiet_executor _).bind_keeps fun _ => (quiet_pure _).keeps

theorem quiet_rawContents [Room] (r : TensorRef) : Quiet (rawContents r) :=
  (quiet_live r).bind fun _ => (quiet_readBuffer _).bind fun _ => quiet_pure _

theorem quiet_describe (r : TensorRef) : Quiet (describe r) :=
  (quiet_live r).bind fun _ => (quiet_executor _).bind fun _ => (quiet_ofResult _).bind fun _ =>
    (quiet_ofResult _).bind fun _ => quiet_pure _

/-! ## Reductions -/

theorem product_kept (shape : List Int) (c : Nat → Bool) :
    Shape.product (shape.mapIdx fun a s => if c a then 1 else s)
      = Shape.product (((List.range shape.length).filter fun a => !c a).map fun a => shape[a]?.getD 0) := by
  induction shape generalizing c with
  | nil => rfl
  | cons s shape inductionHypothesis =>
    rw [List.mapIdx_cons, List.length_cons, List.range_succ_eq_map, List.filter_cons, Shape.product_cons,
      inductionHypothesis fun a => c (a + 1)]
    have rest : ((List.range shape.length).map Nat.succ).filter (fun a => !c a)
        = ((List.range shape.length).filter fun a => !c (a + 1)).map Nat.succ := by
      rw [List.filter_map]
      rfl
    rw [rest]
    cases c 0 <;> simp [Function.comp_def]

/-- The result of a reduction can be shown with its axes kept. -/
theorem reshape_kept {l m : Layout} {op : Reduction} {given : Datum} {p : ReductionPlan}
    (planned : l.planReduction op given = .ok p) (whole : Layout.ofShape p.shape = .ok m) :
    ∃ kept, m.reshape (keptShape l.shape p.axes) = .ok kept := by
  have shape : p.shape = (l.axesOutside p.axes).map l.extent := by
    unfold Layout.planReduction at planned
    obtain ⟨axes, _, planned⟩ := bind_eq_ok.1 planned
    dsimp only at planned
    split at planned
    · cases planned
    · obtain ⟨moved, _, planned⟩ := bind_eq_ok.1 planned
      obtain ⟨rows, _, ⟨⟩⟩ := bind_eq_ok.1 planned
      rfl
  obtain ⟨natural, rfl⟩ := Layout.ofShape_eq_ok.1 whole
  refine ⟨_, Layout.reshape_ok.2 ⟨fun s member => ?_, ?_, rfl⟩⟩
  · unfold keptShape at member
    obtain ⟨a, bound, rfl⟩ := List.mem_mapIdx.1 member
    split
    · exact Int.one_nonneg
    · next outside =>
      refine natural _ ?_
      rw [shape]
      refine List.mem_map.2 ⟨a, List.mem_filter.2 ⟨List.mem_range.2 bound, by simpa using outside⟩, ?_⟩
      unfold Layout.extent
      rw [List.getElem?_eq_getElem bound]
      rfl
  · show _ = Shape.product p.shape
    rw [shape]
    exact product_kept l.shape fun a => p.axes.contains a

theorem keeps_reduce [Room] (op : Reduction) (r : TensorRef) (axes : Datum) (keep : Bool) :
    Keeps some (reduce op r axes keep) := by
  constructor
  intro before strays s balanced
  refine (quiet_live r).lands_bind balanced fun t s' _ balanced => ?_
  refine (quiet_ofResult _).lands_bind balanced fun p s'' ran balanced => ?_
  obtain ⟨rfl, planned⟩ := ofResult_ok ran
  refine (quiet_ofResult _).lands_bind balanced fun e s'' _ balanced => ?_
  cases keep with
  | false =>
    refine ((keeps_runKernel t.owner e p.shape [t.handle]).lands balanced).bind_temporary
      fun out s₁ _ balanced change => lands_ok balanced change
  | true =>
    refine ((keeps_runKernel t.owner e p.shape [t.handle]).lands balanced).bind_temporary
      fun out s₁ ran balanced change => ?_
    -- The other view of the result fits, so nothing can fail while the result is still held.
    obtain ⟨u, known, whole⟩ := layout_of_runKernel ran
    obtain ⟨kept, fits⟩ := reshape_kept planned whole
    exact balanced.lands_replaced change known fits

/-! ## Uploads -/

theorem keeps_place [Room] (source : Source) (kind : Element) (owner : Nat) : Keeps some (place source kind owner) := by
  refine (quiet_ofResult _).bind_keeps fun elements => (quiet_ofResult _).bind_keeps fun bytes => ?_
  constructor
  intro before strays s balanced
  rcases balanced.allocate owner bytes.size (some bytes) with
    ⟨h, s₁, allocated, tensors, first⟩ | ⟨e, s₁, failed, same⟩
  · rw [run_bind_ok allocated]
    exact (first.lands_adopt kind fun _ => loss_of_ofShape).of_tensors tensors
  · rw [run_bind_error failed]
    exact lands_error (balanced.like same) (change_of_tensors same.tensors)

theorem keeps_sourceOf [Room] (data : Operand) (type : Option SourceType) : Keeps noArray (sourceOf data type) := by
  cases data with
  | value d =>
    cases type with
    | none => exact (quiet_ofResult _).keeps
    | some type => exact (quiet_ofResult _).keeps
  | tensor r =>
    cases type with
    | none => exact (keeps_contents r).bind fun _ => (quiet_pure _).keeps
    | some type => exact (quiet_ofResult _).keeps

theorem keeps_upload [Room] (data : Operand) (type : Option SourceType) (kind : KindRequest) (executor : Datum) :
    Keeps some (upload data type kind executor) :=
  (keeps_sourceOf data type).bind fun _ => (quiet_ofResult _).bind_keeps fun _ =>
    (quiet_executorFor executor).bind_keeps fun _ => keeps_place ..

theorem keeps_fill_value [Room] (value : Int) (shape : Datum) (kind : KindRequest) (executor : Datum) :
    Keeps some (fill value shape kind executor) :=
  (quiet_ofResult _).bind_keeps fun _ => (quiet_ofResult _).bind_keeps fun _ =>
    (quiet_executorFor executor).bind_keeps fun _ => keeps_place ..

theorem keeps_fillLike [Room] (value : Int) (r : TensorRef) (kind : KindRequest) :
    Keeps some (fillLike value r kind) := by
  refine (quiet_find r).bind_keeps fun t => ?_
  cases kind with
  | unspecified =>
    exact (quiet_pure t.kind).bind_keeps fun _ => (quiet_ofResult _).bind_keeps fun _ => keeps_place ..
  | _ => exact (quiet_ofResult _).bind_keeps fun _ => (quiet_ofResult _).bind_keeps fun _ => keeps_place ..

/-! ## Convolutions -/

theorem exists_error_of_mapM {f : α → Except Failure β} {xs : List α} {e : Failure}
    (failed : xs.mapM f = .error e) : ∃ x ∈ xs, f x = .error e := by
  induction xs with
  | nil => cases failed
  | cons x xs inductionHypothesis =>
    rw [List.mapM_cons] at failed
    cases first : f x with
    | error g =>
      rw [first] at failed
      cases failed
      exact ⟨x, List.mem_cons_self .., first⟩
    | ok y =>
      rw [first, ok_bind] at failed
      cases rest : xs.mapM f with
      | error g =>
        rw [rest] at failed
        cases failed
        obtain ⟨z, member, known⟩ := inductionHypothesis rest
        exact ⟨z, List.mem_cons_of_mem _ member, known⟩
      | ok ys =>
        rw [rest] at failed
        cases failed

/-- An expression over all positions of a result is only made if the extents are numbers at least. -/
theorem whole_of_convolutionExpr {input filter : Layout} {inputKind filterKind : Element} {p : LooseConvParams}
    {output : List Datum} {e : Expr} (made : convolutionExpr input filter inputKind filterKind p output = .ok e) :
    ∀ d ∈ output, ∃ n, d.whole = .ok n := by
  obtain ⟨⟨x, y, length⟩, layouts, _⟩ := bind_eq_ok.1 made
  obtain ⟨⟨x₀, y₀⟩, _, layouts⟩ := bind_eq_ok.1 layouts
  obtain ⟨x₁, expanded, _⟩ := bind_eq_ok.1 layouts
  obtain ⟨shape, wholes, _⟩ := bind_eq_ok.1 expanded
  unfold Datum.wholes at wholes
  rw [Datum.items_list, ok_bind] at wholes
  intro d member
  obtain ⟨n, _, known⟩ := mem_mapM_ok wholes (List.mem_append_left _ member)
  exact ⟨n, known⟩

theorem loss_of_requestShape {output : List Datum} (numbers : ∀ d ∈ output, ∃ n, d.whole = .ok n) {e : Failure}
    (failed : Layout.requestShape (.list output) = .error e) : 1 ≤ e.loss := by
  unfold Layout.requestShape at failed
  cases extents : (Datum.list output).extents with
  | ok shape =>
    rw [extents] at failed
    exact loss_of_ofShape failed
  | error g =>
    rw [extents] at failed
    cases failed
    unfold Datum.extents at extents
    rw [Datum.items_list, ok_bind] at extents
    obtain ⟨d, member, bad⟩ := exists_error_of_mapM extents
    obtain ⟨n, number⟩ := numbers d member
    rw [number, ok_bind] at bad
    split at bad
    · cases bad
      exact Nat.le_refl 1
    · cases bad

theorem keeps_runConvolution [Room] (lhs : Tensor) (input : Layout) (rhs : Tensor) (filter : Layout)
    (p : LooseConvParams) (output : List Datum) :
    Keeps some (runConvolution lhs input rhs filter p output) := by
  unfold runConvolution
  split
  · exact (quiet_executor _).bind_keeps fun _ => (quiet_executor _).bind_keeps fun _ => keeps_throw _
  · constructor
    intro before strays s balanced
    refine (quiet_ofResult _).lands_bind balanced fun e s' ran balanced => ?_
    obtain ⟨rfl, made⟩ := ofResult_ok ran
    have loses := fun f => loss_of_requestShape (whole_of_convolutionExpr made) (e := f)
    refine Keeps.lands ?_ balanced
    refine (quiet_ofResult _).bind_keeps fun size => (quiet_ofResult _).bind_keeps fun bytes =>
      (quiet_ofResult _).bind_keeps fun count => ?_
    exact keeps_fill lhs.owner count (fun h => (quiet_requireLive lhs).bind fun _ =>
      (quiet_requireLive rhs).bind fun _ => quiet_execute _ _ _ _) e.kind loses

theorem keeps_convolve [Room] (input filter : TensorRef) (o : ConvOptions) : Keeps some (convolve input filter o) :=
  (quiet_find input).bind_keeps fun _ => (quiet_find filter).bind_keeps fun _ =>
    (quiet_ofResult _).bind_keeps fun _ => keeps_runConvolution ..

theorem keeps_inputGradient [Room] (cotangent filter : TensorRef) (input : Datum) (o : ConvOptions) :
    Keeps some (inputGradient cotangent filter input o) := by
  refine (quiet_ofResult _).bind_keeps fun _ => (quiet_find _).bind_keeps fun _ =>
    (quiet_find _).bind_keeps fun _ => (quiet_ofResult _).bind_keeps fun _ =>
    (quiet_ofResult _).bind_keeps fun _ => (quiet_ofResult _).bind_keeps fun _ =>
    (quiet_ofResult _).bind_keeps fun _ => ?_
  split
  · exact (quiet_throw _).bind_keeps fun _ => keeps_runConvolution ..
  · exact keeps_runConvolution ..

theorem layout_of_runConvolution [Room] {lhs rhs : Tensor} {input filter : Layout} {p : LooseConvParams}
    {output : List Datum}
    (ran : (runConvolution lhs input rhs filter p output).run.run s = (.ok r, s')) :
    ∃ t, s'.tensors[r.number]? = some t ∧ Layout.requestShape (.list output) = .ok t.layout := by
  unfold runConvolution at ran
  split at ran
  · obtain ⟨_, _, _, ran⟩ := run_bind_of_ok ran
    obtain ⟨_, _, _, ran⟩ := run_bind_of_ok ran
    cases ran
  · -- The expression, the size in three steps, the buffer, and the work on it come first.
    obtain ⟨_, _, _, ran⟩ := run_bind_of_ok ran
    obtain ⟨_, _, _, ran⟩ := run_bind_of_ok ran
    obtain ⟨_, _, _, ran⟩ := run_bind_of_ok ran
    obtain ⟨_, _, _, ran⟩ := run_bind_of_ok ran
    obtain ⟨_, _, _, ran⟩ := run_bind_of_ok ran
    obtain ⟨_, _, _, ran⟩ := run_bind_of_ok ran
    exact adopted_of_ok ran

theorem two_le_outputShape {p : LooseConvParams} {input filter : Datum} {output : List Datum}
    (shape : p.outputShape input filter = .ok output) : 2 ≤ output.length := by
  unfold LooseConvParams.outputShape at shape
  split at shape
  · obtain ⟨ns, known, rfl⟩ := map_eq_ok.1 shape
    unfold ConvParams.outputShape at known
    simp only [bind_eq_ok, pure_eq_ok] at known
    obtain ⟨batch, _, outputs, _, extents, _, rfl⟩ := known
    simp [Datum.ints]
  · simp only [bind_eq_ok, pure_eq_ok] at shape
    obtain ⟨batch, _, outputs, _, _, _, _, _, extents, _, rfl⟩ := shape
    simp

/-- The first two axes of a whole array can be exchanged. -/
theorem swapFront_whole {output : List Datum} {l : Layout} (axes : 2 ≤ output.length)
    (whole : Layout.requestShape (.list output) = .ok l) : ∃ swapped, l.swapFront = .ok swapped := by
  obtain ⟨shape, extents, made⟩ := bind_eq_ok.1 whole
  have rank : l.rank = output.length := by
    unfold Datum.extents at extents
    rw [Datum.items_list, ok_bind] at extents
    rw [← (Layout.ofShape_eq_ok.1 made).2]
    exact (mapM_eq_ok.1 extents).length_eq.symm
  obtain ⟨more, count⟩ := Nat.exists_eq_add_of_le axes
  rw [count] at rank
  have order : (1 :: 0 :: (Layout.axisNumbers l.rank).drop 2).Perm (Layout.axisNumbers l.rank) := by
    rw [rank]
    exact Layout.perm_swapOrder more
  obtain ⟨swapped, moved, _⟩ := (Layout.sound_ofShape made).regular.permute order
  exact ⟨swapped, moved⟩

theorem keeps_filterGradient [Room] (input cotangent : TensorRef) (filter : Datum) (o : ConvOptions) :
    Keeps some (filterGradient input cotangent filter o) := by
  refine (quiet_ofResult _).bind_keeps fun filter => (quiet_find _).bind_keeps fun x =>
    (quiet_find _).bind_keeps fun g => (quiet_ofResult _).bind_keeps fun p =>
    (quiet_ofResult _).bind_keeps fun q => (quiet_ofResult _).bind_keeps fun xs =>
    (quiet_ofResult _).bind_keeps fun gs => ?_
  constructor
  intro before strays s balanced
  refine (quiet_ofResult _).lands_bind balanced fun output s' ran balanced => ?_
  obtain ⟨rfl, shape⟩ := ofResult_ok ran
  split
  · exact lands_error balanced (change_of_tensors rfl)
  · refine ((keeps_runConvolution x xs g gs q output).lands balanced).bind_temporary
      fun out s₁ ran balanced change => ?_
    obtain ⟨t, known, whole⟩ := layout_of_runConvolution ran
    obtain ⟨swapped, fits⟩ := swapFront_whole (two_le_outputShape shape) whole
    exact balanced.lands_replaced change known fits

end Session

end StridedArray
