import StridedArray.Proofs.Convolution.Invalid
import StridedArray.Proofs.Session.Arrays

/-! # Requests for convolutions that cannot be done

* `PaddingForm` — padding as it is asked for, and the widths that it stands for;
* `ConvOptions.check_of_form` — the check of a request is the check of integers;
* `convolve_invalid` — an invalid request fails before anything is touched: with a message about the convolution,
  unless padding by name could not be worked out. -/

namespace StridedArray

/-- Padding as it is asked for: a pair of integers for every axis, or a mode. -/
inductive PaddingForm
  | pairs (widths : List (Int × Int))
  | valid
  | same

namespace PaddingForm

/-- How it is written. The case of a mode does not matter. -/
def Spells (padding : Datum) : PaddingForm → Prop
  | pairs widths => padding = .list (widths.map Loose.ofPair)
  | valid => ∃ mode, padding = .text mode ∧ Text.capitals mode = "VALID"
  | same => ∃ mode, padding = .text mode ∧ Text.capitals mode = "SAME"

/-- The widths that it stands for. Where those that keep the extents cannot be worked out there are none. -/
def widths (strides inputDilation filterDilation xs ks : List Int) : PaddingForm → List (Int × Int)
  | pairs widths => widths
  | valid => List.replicate (xs.length - 2) (0, 0)
  | same =>
    match samePadding strides inputDilation filterDilation 0 (xs.drop 2) (ks.drop 2) with
    | .ok widths => widths
    | .error _ => List.replicate (xs.length - 2) (0, 0)

/-- The parameters that a request is checked with, if it comes to that. Padding that keeps the extents is worked
    out for operands with the same number of axes. -/
def params (strides inputDilation filterDilation xs ks : List Int) :
    PaddingForm → Except Failure ConvParams
  | pairs widths => pure ⟨strides, widths, inputDilation, filterDilation⟩
  | valid => pure ⟨strides, List.replicate (xs.length - 2) (0, 0), inputDilation, filterDilation⟩
  | same =>
    if xs.length ≠ ks.length ∨ xs.length < 2 then
      pure ⟨strides, List.replicate (xs.length - 2) (0, 0), inputDilation, filterDilation⟩
    else do
      let widths ← samePadding strides inputDilation filterDilation 0 (xs.drop 2) (ks.drop 2)
      return ⟨strides, widths, inputDilation, filterDilation⟩

end PaddingForm

namespace Loose

theorem mapM_pairs (widths : List (Int × Int)) :
    (widths.map ofPair).mapM (fun pair => Datum.list <$> pair.items) = .ok (widths.map ofPair) := by
  rw [mapM_eq_ok, List.forall₂_map_left_iff, List.forall₂_map_right_iff, List.forall₂_same]
  exact fun _ _ => rfl

end Loose

namespace LooseConvParams

theorem neutral_ok {rank : Nat} (room : rank ≤ 0x10000000) (item : Datum) :
    neutral (.int (rank - 2)) item = .ok (.list (List.replicate (rank - 2) item)) := by
  have word : fitsSigned 64 ((rank : Int) - 2) = true := by
    have most : (Nat.pow 2 (64 - 1) : Int) = 0x8000000000000000 := rfl
    unfold fitsSigned
    rw [decide_eq_true_eq, most]
    omega
  have count : ((rank : Int) - 2).toNat = rank - 2 := by omega
  have enough : ¬ Datum.longestRepetition < ((rank : Int) - 2) * ([item].length : Nat) := by
    simp only [Datum.longestRepetition, List.length_singleton]
    omega
  show (Datum.list <$> Datum.repeated [item] ((rank : Int) - 2)) = _
  unfold Datum.repeated
  simp only [word, Bool.not_true, Bool.false_eq_true, if_false, List.isEmpty_cons, if_neg enough, count,
    List.flatten_replicate_singleton]
  rfl

theorem plainPairs?_map (pairs : List (Int × Int)) :
    Loose.plainPairs? (pairs.map Loose.ofPair) = some pairs := by
  induction pairs with
  | nil => rfl
  | cons pair pairs inductionHypothesis =>
    unfold Loose.plainPairs? at inductionHypothesis ⊢
    rw [List.map_cons, List.mapM_cons, inductionHypothesis]
    rfl

theorem plain?_ofParams (q : ConvParams) : (ofParams q).plain? = some q := by
  unfold plain? ofParams Loose.plain?
  simp only [plainPairs?_map, Datum.plainInts?_ints]
  rfl

section Create

variable (strides inputDilation filterDilation : List Int)

theorem create_pairs (n : Datum) (widths : List (Int × Int)) :
    create n (.list (Datum.ints strides)) (.list (widths.map Loose.ofPair))
        (.list (Datum.ints inputDilation)) (.list (Datum.ints filterDilation))
      = .ok (ofParams ⟨strides, widths, inputDilation, filterDilation⟩) := by
  unfold create
  simp only [givenOr, Datum.items_list, Loose.mapM_pairs, ok_bind, ok_map]
  rfl

theorem create_neutral {rank : Nat} (room : rank ≤ 0x10000000) :
    create (.int (rank - 2)) (.list (Datum.ints strides)) .none (.list (Datum.ints inputDilation))
        (.list (Datum.ints filterDilation))
      = .ok (ofParams ⟨strides, List.replicate (rank - 2) (0, 0), inputDilation, filterDilation⟩) := by
  unfold create
  simp only [givenOr, neutral_ok room, Datum.items_list, ok_bind]
  unfold ofParams
  rw [List.map_replicate]
  rfl

end Create

theorem check_ofParams (q : ConvParams) (xs ks : List Int) :
    (ofParams q).check (.list (Datum.ints xs)) (.list (Datum.ints ks)) = Datum.ints <$> q.check xs ks := by
  unfold LooseConvParams.check
  rw [plainWith?_ints, plain?_ofParams]
  rfl

end LooseConvParams

section Requests

variable {strides inputDilation filterDilation xs ks : List Int} {padding : Datum} {form : PaddingForm}

def ConvOptions.ofInts (strides : List Int) (padding : Datum) (inputDilation filterDilation : List Int) :
    ConvOptions where
  strides := .list (Datum.ints strides)
  padding := padding
  inputDilation := .list (Datum.ints inputDilation)
  filterDilation := .list (Datum.ints filterDilation)

theorem ConvOptions.params_of_form (spelled : form.Spells padding) (room : xs.length ≤ 0x10000000) :
    (ConvOptions.ofInts strides padding inputDilation filterDilation).params (Datum.ints xs) (Datum.ints ks)
      = LooseConvParams.ofParams <$> form.params strides inputDilation filterDilation xs ks := by
  cases form with
  | pairs widths =>
    cases spelled
    exact LooseConvParams.create_pairs ..
  | valid =>
    obtain ⟨mode, rfl, capitals⟩ := spelled
    unfold ConvOptions.params ofInts
    simp only [Datum.length_ints, LooseConvParams.create_neutral _ _ _ room, ok_bind, capitals]
    rfl
  | same =>
    obtain ⟨mode, rfl, capitals⟩ := spelled
    unfold ConvOptions.params ofInts
    simp only [Datum.length_ints, LooseConvParams.create_neutral _ _ _ room, ok_bind, capitals]
    unfold PaddingForm.params
    split
    · rfl
    · simp only [LooseConvParams.ofParams, Loose.samePadding, Datum.items_list, ok_bind, Loose.plain?,
        LooseConvParams.drop_ints, Datum.plainInts?_ints]
      cases samePadding strides inputDilation filterDilation 0 (xs.drop 2) (ks.drop 2) <;> rfl

/-- The check of a request that is written in integers. -/
theorem ConvOptions.check_of_form (spelled : form.Spells padding) (room : xs.length ≤ 0x10000000) :
    (ConvOptions.ofInts strides padding inputDilation filterDilation).check (Datum.ints xs) (Datum.ints ks)
      = (do
          let q ← form.params strides inputDilation filterDilation xs ks
          return (LooseConvParams.ofParams q, Datum.ints (← q.check xs ks))) := by
  unfold ConvOptions.check
  rw [params_of_form spelled room]
  cases form.params strides inputDilation filterDilation xs ks with
  | error f => rfl
  | ok q =>
    show (LooseConvParams.check _ _ _ >>= _) = (q.check xs ks >>= _)
    rw [LooseConvParams.check_ofParams]
    cases q.check xs ks <;> rfl

/-- Padding by name that cannot be worked out: the operands have the same number of axes, but one of them has
    stride zero or lacks a parameter. -/
def PaddingForm.Undetermined (strides inputDilation filterDilation xs ks : List Int) (form : PaddingForm) : Prop :=
  form = same ∧ xs.length = ks.length
    ∧ ∃ axis < xs.length - 2, StridedArray.Undetermined strides inputDilation filterDilation axis

namespace PaddingForm

theorem params_ok_iff :
    (∃ q, form.params strides inputDilation filterDilation xs ks = .ok q)
      ↔ ¬ form.Undetermined strides inputDilation filterDilation xs ks := by
  cases form with
  | pairs widths => exact ⟨fun _ wrong => (nomatch wrong.1), fun _ => ⟨_, rfl⟩⟩
  | valid => exact ⟨fun _ wrong => (nomatch wrong.1), fun _ => ⟨_, rfl⟩⟩
  | same =>
    unfold params PaddingForm.Undetermined
    dsimp only
    split
    · next few =>
      refine ⟨?_, fun _ => ⟨_, rfl⟩⟩
      rintro - ⟨-, ranks, axis, bound, -⟩
      omega
    · next enough =>
      obtain ⟨ranks, rank⟩ := not_or.1 enough
      have count : (xs.drop 2).length = (ks.drop 2).length := by
        simp only [List.length_drop]
        omega
      have determined := @samePadding_ok_iff strides inputDilation filterDilation 0 _ _ count
      simp only [List.length_drop, Nat.zero_add] at determined
      simp only [bind_eq_ok, pure_eq_ok]
      constructor
      · rintro ⟨_, widths, known, -⟩ ⟨-, -, axis, bound, wrong⟩
        exact determined.1 ⟨widths, known⟩ axis bound wrong
      · intro fine
        obtain ⟨widths, known⟩ := determined.2 fun axis bound wrong =>
          fine ⟨trivial, not_not.1 ranks, axis, bound, wrong⟩
        exact ⟨_, widths, known, rfl⟩

theorem failsWith_params :
    FailsWith (fun f => f = .noElement ∨ f = .divisionByZero)
      (form.params strides inputDilation filterDilation xs ks) := by
  cases form with
  | pairs widths => exact .pure _
  | valid => exact .pure _
  | same =>
    unfold params
    dsimp only
    split
    · exact .pure _
    · exact .bind (failsWith_samePadding _ _ _) fun _ _ => .pure _

theorem invalid_params {q : ConvParams}
    (worked : form.params strides inputDilation filterDilation xs ks = .ok q)
    (invalid : ConvParams.Invalid ⟨strides, form.widths strides inputDilation filterDilation xs ks, inputDilation,
      filterDilation⟩ xs ks) : q.Invalid xs ks := by
  cases form with
  | pairs widths =>
    cases worked
    exact invalid
  | valid =>
    cases worked
    exact invalid
  | same =>
    unfold params at worked
    dsimp only at worked
    split at worked
    · next few =>
      exact few.elim .ranks .rank
    · simp only [bind_eq_ok, pure_eq_ok] at worked
      obtain ⟨widths, known, rfl⟩ := worked
      unfold PaddingForm.widths at invalid
      rwa [known] at invalid

end PaddingForm

end Requests

namespace Session

/-- An invalid request fails and leaves the session as it was. Its failure is a message about the convolution
    unless padding by name cannot be worked out, which is tried before anything is checked. -/
theorem convolve_invalid [Room] {s : Session} {lhs rhs : TensorRef} {t u : Tensor}
    {strides inputDilation filterDilation : List Int} {padding : Datum} {form : PaddingForm}
    (input : s.tensors[lhs.number]? = some t) (filter : s.tensors[rhs.number]? = some u)
    (spelled : form.Spells padding) (room : t.shape.length ≤ 0x10000000)
    (invalid : ConvParams.Invalid ⟨strides, form.widths strides inputDilation filterDilation t.shape u.shape,
      inputDilation, filterDilation⟩ t.shape u.shape) :
    ∃ f, (convolve lhs rhs (.ofInts strides padding inputDilation filterDilation)).run.run s = (.error f, s)
      ∧ (f.IsConvolution ↔ ¬ form.Undetermined strides inputDilation filterDilation t.shape u.shape)
      ∧ (form.Undetermined strides inputDilation filterDilation t.shape u.shape →
        f = .noElement ∨ f = .divisionByZero) := by
  have checked := @ConvOptions.check_of_form strides inputDilation filterDilation t.shape u.shape padding form
    spelled room
  have fails : ∀ f, (ConvOptions.ofInts strides padding inputDilation filterDilation).check
      (Datum.ints t.shape) (Datum.ints u.shape) = .error f →
      (convolve lhs rhs (.ofInts strides padding inputDilation filterDilation)).run.run s = (.error f, s) := by
    intro f known
    unfold convolve
    rw [(runs_find input).bind_run, (runs_find filter).bind_run, known]
    rfl
  -- Padding by name is worked out first, so that this may fail in place of the check.
  have worked := @PaddingForm.params_ok_iff strides inputDilation filterDilation t.shape u.shape form
  cases known : form.params strides inputDilation filterDilation t.shape u.shape with
  | error f =>
    have undetermined : form.Undetermined strides inputDilation filterDilation t.shape u.shape := by
      by_contra fine
      obtain ⟨q, ok⟩ := worked.2 fine
      cases known.symm.trans ok
    have early := PaddingForm.failsWith_params f known
    refine ⟨f, fails f (by rw [checked, known]; rfl), ⟨?_, fun fine => absurd undetermined fine⟩, fun _ => early⟩
    rintro ⟨fault, rfl⟩
    cases early <;> contradiction
  | ok q =>
    have determined := worked.1 ⟨q, known⟩
    cases refused : q.check t.shape u.shape with
    | ok out => exact absurd (PaddingForm.invalid_params known invalid) (ConvParams.check_ok_iff.1 ⟨out, refused⟩)
    | error f =>
      refine ⟨f, fails f ?_, ⟨fun _ => determined, fun _ => ConvParams.failsWith_check _ _ _ f refused⟩,
        fun wrong => absurd wrong determined⟩
      rw [checked, known, ok_bind, refused]
      rfl

/-- Stride zero: with padding in pairs there is a message about it, by name there is none. -/
theorem convolve_invalid_strideZero :
    ∃ s, s.Fresh 0 ⟨0⟩ [1, 1, 5] (uploaded [1, 1, 5] [1, 2, 3, 4, 5])
      ∧ s.Fresh 0 ⟨1⟩ [1, 1, 3] (uploaded [1, 1, 3] [1, 0, -1])
      ∧ (∃ fault, (convolve ⟨0⟩ ⟨1⟩ (.ofInts [0] (.list [Loose.ofPair (1, 1)]) [1] [1])).run.run s
          = (.error (.convolution fault), s))
      ∧ ∃ f, (convolve ⟨0⟩ ⟨1⟩ (.ofInts [0] (.text "SAME") [1] [1])).run.run s = (.error f, s)
        ∧ (f = .noElement ∨ f = .divisionByZero) := by
  obtain ⟨s, _, _, fresh⟩ := @runs_uploads onHost 0 _
    [([1, 1, 5], [1, 2, 3, 4, 5]), ([1, 1, 3], [1, 0, -1])] (.fresh 0) hasHost_onHost (by decide)
  have left : s.Fresh 0 ⟨0⟩ _ _ := fresh (k := 0) rfl
  have right : s.Fresh 0 ⟨1⟩ _ _ := fresh (k := 1) rfl
  obtain ⟨t, _, input, whole, -⟩ := left.seen (by decide)
  obtain ⟨u, _, filter, filterWhole, -⟩ := right.seen (by decide)
  have inputShape : t.shape = [1, 1, 5] := congrArg Layout.shape whole
  have filterShape : u.shape = [1, 1, 3] := congrArg Layout.shape filterWhole
  refine ⟨s, left, right, ?_, ?_⟩
  · obtain ⟨f, failed, message, -⟩ := @convolve_invalid _ s ⟨0⟩ ⟨1⟩ t u [0] [1] [1] _ (.pairs [(1, 1)]) input
      filter rfl (by rw [inputShape]; decide) (.stride (List.mem_singleton_self 0) le_rfl)
    obtain ⟨fault, rfl⟩ := message.2 fun wrong => nomatch wrong.1
    exact ⟨fault, failed⟩
  · obtain ⟨f, failed, -, early⟩ := @convolve_invalid _ s ⟨0⟩ ⟨1⟩ t u [0] [1] [1] _ .same input filter
      ⟨"SAME", rfl, by decide⟩ (by rw [inputShape]; decide) (.stride (List.mem_singleton_self 0) le_rfl)
    refine ⟨f, failed, early ⟨rfl, ?_, 0, ?_, .inr (.inr (.inr rfl))⟩⟩
    · rw [inputShape, filterShape]
      rfl
    · rw [inputShape]
      decide

end Session

end StridedArray
