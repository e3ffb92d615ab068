import Mathlib.Data.List.Forall2
import StridedArray.Failure

/-! # What a successful computation went through

Facts about `Except` by which a function written as a sequence of checks is read as the conjunction of
what it checks. -/

namespace StridedArray

variable {ε α β : Type}

@[simp] theorem bind_eq_ok {x : Except ε α} {f : α → Except ε β} {b : β} :
    (x >>= f) = .ok b ↔ ∃ a, x = .ok a ∧ f a = .ok b := by
  cases x <;> simp [bind, Except.bind]

@[simp] theorem ok_bind (a : α) (f : α → Except ε β) : (Except.ok a >>= f) = f a := rfl

@[simp] theorem pure_eq_ok {a b : α} : (pure a : Except ε α) = .ok b ↔ a = b := by
  simp [pure, Except.pure]

@[simp] theorem throw_bind (e : ε) (f : α → Except ε β) :
    ((throw e : Except ε α) >>= f) = throw e := rfl

@[simp] theorem map_eq_ok {x : Except ε α} {f : α → β} {b : β} :
    (f <$> x) = .ok b ↔ ∃ a, x = .ok a ∧ f a = b := by
  cases x <;> simp [Functor.map, Except.map]

@[simp] theorem ok_map (a : α) (f : α → β) : (f <$> (Except.ok a : Except ε α)) = .ok (f a) := rfl

@[simp] theorem mapError_eq_ok {ε' : Type} {f : ε → ε'} {x : Except ε α} {a : α} :
    x.mapError f = .ok a ↔ x = .ok a := by
  cases x <;> simp [Except.mapError]

/-- A check that refuses succeeds if its condition does not hold. -/
@[simp] theorem refuse_eq_ok {p : Prop} [Decidable p] {e : ε} {x : Except ε α} {a : α} :
    (if p then throw e else x) = .ok a ↔ ¬ p ∧ x = .ok a := by
  by_cases holds : p <;> simp [holds]

@[simp] theorem demand_eq_ok {p : Prop} [Decidable p] {e : ε} {x : Except ε α} {a : α} :
    (if p then x else throw e) = .ok a ↔ p ∧ x = .ok a := by
  by_cases holds : p <;> simp [holds]

@[simp] theorem choice_eq_ok {p : Prop} [Decidable p] {a b c : α} :
    (if p then pure a else pure b : Except ε α) = .ok c ↔ (if p then a else b) = c := by
  by_cases holds : p <;> simp [holds]

theorem mapM_eq_ok {f : α → Except ε β} {xs : List α} {ys : List β} :
    xs.mapM f = .ok ys ↔ List.Forall₂ (fun x y => f x = .ok y) xs ys := by
  induction xs generalizing ys with
  | nil =>
    rw [List.mapM_nil, pure_eq_ok, List.forall₂_nil_left_iff]
    exact eq_comm
  | cons x xs inductionHypothesis =>
    simp only [List.mapM_cons, bind_eq_ok, pure_eq_ok, inductionHypothesis,
      List.forall₂_cons_left_iff]
    constructor
    · rintro ⟨y, first, rest, others, rfl⟩
      exact ⟨y, rest, first, others, rfl⟩
    · rintro ⟨y, rest, first, others, rfl⟩
      exact ⟨y, first, rest, others, rfl⟩

theorem mem_mapM_ok {f : α → Except ε β} {xs : List α} {ys : List β} (done : xs.mapM f = .ok ys) {x : α}
    (member : x ∈ xs) : ∃ y ∈ ys, f x = .ok y := by
  induction mapM_eq_ok.1 done with
  | nil => cases member
  | cons first rest inductionHypothesis =>
    rcases List.mem_cons.1 member with rfl | member
    · exact ⟨_, List.mem_cons_self .., first⟩
    · obtain ⟨y, later, known⟩ := inductionHypothesis (mapM_eq_ok.2 rest) member
      exact ⟨y, List.mem_cons_of_mem _ later, known⟩

theorem mem_of_mapM_ok {f : α → Except ε β} {xs : List α} {ys : List β} (done : xs.mapM f = .ok ys) {y : β}
    (member : y ∈ ys) : ∃ x ∈ xs, f x = .ok y := by
  induction mapM_eq_ok.1 done with
  | nil => cases member
  | cons first rest inductionHypothesis =>
    rcases List.mem_cons.1 member with rfl | member
    · exact ⟨_, List.mem_cons_self .., first⟩
    · obtain ⟨x, later, known⟩ := inductionHypothesis (mapM_eq_ok.2 rest) member
      exact ⟨x, List.mem_cons_of_mem _ later, known⟩

theorem mapM_eq_map {f : α → Except ε β} {g : α → β} {xs : List α}
    (each : ∀ x ∈ xs, f x = .ok (g x)) : xs.mapM f = .ok (xs.map g) := by
  rw [mapM_eq_ok, List.forall₂_map_right_iff, List.forall₂_same]
  exact each

theorem mapM_congr {f g : α → Except ε β} {xs : List α} (each : ∀ x ∈ xs, f x = g x) : xs.mapM f = xs.mapM g := by
  induction xs with
  | nil => rfl
  | cons x xs inductionHypothesis =>
    rw [List.mapM_cons, List.mapM_cons, each x (List.mem_cons_self ..),
      inductionHypothesis fun y member => each y (List.mem_cons_of_mem _ member)]

theorem mapM_ok_iff {f : α → Except ε β} {xs : List α} :
    (∃ ys, xs.mapM f = .ok ys) ↔ ∀ x ∈ xs, ∃ y, f x = .ok y := by
  constructor
  · rintro ⟨ys, done⟩ x member
    obtain ⟨y, -, known⟩ := mem_mapM_ok done member
    exact ⟨y, known⟩
  · intro each
    induction xs with
    | nil => exact ⟨[], rfl⟩
    | cons x xs inductionHypothesis =>
      obtain ⟨y, first⟩ := each x (List.mem_cons_self ..)
      obtain ⟨ys, rest⟩ := inductionHypothesis fun x member => each x (List.mem_cons_of_mem _ member)
      exact ⟨y :: ys, by rw [List.mapM_cons, first, ok_bind, rest]; rfl⟩

theorem foldlM_ok {f : β → α → Except ε β} {xs : List α}
    (each : ∀ acc, ∀ x ∈ xs, ∃ next, f acc x = .ok next) (start : β) :
    ∃ last, xs.foldlM f start = .ok last := by
  induction xs generalizing start with
  | nil => exact ⟨start, rfl⟩
  | cons x xs inductionHypothesis =>
    obtain ⟨next, step⟩ := each start x (List.mem_cons_self ..)
    obtain ⟨last, rest⟩ :=
      inductionHypothesis (fun acc y member => each acc y (List.mem_cons_of_mem _ member)) next
    exact ⟨last, by rw [List.foldlM_cons, step, ok_bind, rest]⟩

theorem foldlM_step {f : β → α → Except ε β} {xs : List α} {start last : β}
    (done : xs.foldlM f start = .ok last) {x : α} (member : x ∈ xs) : ∃ acc next, f acc x = .ok next := by
  induction xs generalizing start with
  | nil => cases member
  | cons y xs inductionHypothesis =>
    rw [List.foldlM_cons, bind_eq_ok] at done
    obtain ⟨next, step, rest⟩ := done
    rcases List.mem_cons.1 member with rfl | member
    · exact ⟨start, next, step⟩
    · exact inductionHypothesis rest member

/-- What holds at first and is kept by every step holds at the end of a loop. -/
theorem foldlM_invariant {P : β → Prop} {f : β → α → Except ε β} {xs : List α} {start last : β} (first : P start)
    (each : ∀ acc x next, x ∈ xs → P acc → f acc x = .ok next → P next) (done : xs.foldlM f start = .ok last) :
    P last := by
  induction xs generalizing start with
  | nil =>
    cases done
    exact first
  | cons x xs inductionHypothesis =>
    rw [List.foldlM_cons, bind_eq_ok] at done
    obtain ⟨next, step, rest⟩ := done
    exact inductionHypothesis (each start x next (List.mem_cons_self ..) first step)
      (fun acc y after member => each acc y after (List.mem_cons_of_mem _ member)) rest

theorem foldlM_ok_congr {f g : β → α → Except ε β} {xs : List α} {start last : β}
    (each : ∀ acc x next, x ∈ xs → f acc x = .ok next → g acc x = .ok next)
    (known : xs.foldlM f start = .ok last) : xs.foldlM g start = .ok last := by
  induction xs generalizing start with
  | nil => exact known
  | cons x xs inductionHypothesis =>
    rw [List.foldlM_cons, bind_eq_ok] at known
    obtain ⟨next, step, rest⟩ := known
    rw [List.foldlM_cons, each start x next (List.mem_cons_self ..) step, ok_bind]
    exact inductionHypothesis (fun acc y after member => each acc y after (List.mem_cons_of_mem _ member))
      rest

/-! ## Ways to fail -/

def FailsWith (P : ε → Prop) (x : Except ε α) : Prop := ∀ e, x = .error e → P e

namespace FailsWith

variable {P : ε → Prop}

theorem pure (a : α) : FailsWith P (Pure.pure a) := nofun

theorem throw {e : ε} (allowed : P e) : FailsWith P (MonadExcept.throw e : Except ε α) := by
  intro f same
  cases same
  exact allowed

/-- A check that refuses fails in its own way and in that of what comes after it. -/
theorem refuse {p : Prop} [Decidable p] {e : ε} {x : Except ε α} (allowed : P e) (rest : ¬ p → FailsWith P x) :
    FailsWith P (if p then MonadExcept.throw e else x) := by
  split
  · exact throw allowed
  · next passed => exact rest passed

theorem bind {x : Except ε α} {f : α → Except ε β} (first : FailsWith P x)
    (rest : ∀ a, x = .ok a → FailsWith P (f a)) : FailsWith P (x >>= f) := by
  cases x with
  | error e => exact fun _ same => first _ (by cases same; rfl)
  | ok a => exact rest a rfl

theorem foldlM {f : β → α → Except ε β} {xs : List α} (each : ∀ acc, ∀ x ∈ xs, FailsWith P (f acc x)) (start : β) :
    FailsWith P (xs.foldlM f start) := by
  induction xs generalizing start with
  | nil => exact pure start
  | cons x xs inductionHypothesis =>
    rw [List.foldlM_cons]
    exact bind (each start x (List.mem_cons_self ..)) fun next _ =>
      inductionHypothesis (fun acc y member => each acc y (List.mem_cons_of_mem _ member)) next

theorem map {x : Except ε α} {f : α → β} (known : FailsWith P x) : FailsWith P (f <$> x) := by
  cases x with
  | error e => exact fun _ same => known _ (by cases same; rfl)
  | ok a => exact nofun

theorem mapError {x : Except ε α} {Q : ε → Prop} {f : ε → ε} (reported : ∀ e, P e → Q (f e)) (known : FailsWith P x) :
    FailsWith Q (x.mapError f) := by
  cases x with
  | error e => exact fun _ same => by cases same; exact reported e (known e rfl)
  | ok a => exact nofun

theorem ite {p : Prop} [Decidable p] {x y : Except ε α} (first : p → FailsWith P x) (second : ¬ p → FailsWith P y) :
    FailsWith P (if p then x else y) := by
  split
  · next holds => exact first holds
  · next fails => exact second fails

/-- Doing something with every item fails in the ways in which it fails with one of them. -/
theorem mapM {f : α → Except ε β} {xs : List α} (each : ∀ x ∈ xs, FailsWith P (f x)) : FailsWith P (xs.mapM f) := by
  induction xs with
  | nil => exact pure []
  | cons x xs inductionHypothesis =>
    rw [List.mapM_cons]
    exact bind (each x (List.mem_cons_self ..)) fun y _ =>
      bind (inductionHypothesis fun z member => each z (List.mem_cons_of_mem _ member)) fun ys _ => pure (y :: ys)

end FailsWith

end StridedArray
