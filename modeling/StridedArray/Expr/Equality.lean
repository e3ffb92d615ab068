import StridedArray.Expr

/-! # Equality of expressions

Operands often are one object many times over. Equality sees at once when both sides are one object,
and looks at operands only where they are not.

* `Expr.sameAs`, which gives `DecidableEq Expr` — identity;
* `Expr.alike` — the same form with equal numbers as constants. -/

namespace StridedArray.Expr

/-- Equality of expressions, by comparing operands only where they are different objects. -/
def sameAs (a b : Expr) : Decidable (a = b) :=
  match a, b with
  | const k v d, b =>
    match b with
    | const k' v' d' =>
      if h : k = k' ∧ v = v' ∧ d = d' then isTrue (by rw [h.1, h.2.1, h.2.2])
      else isFalse (by simpa using h)
    | special .. | accessor .. | load .. | unary .. | binary .. | select .. | reduce .. =>
      isFalse (by simp)
  | special n e d, b =>
    match b with
    | special n' e' d' =>
      if h : n = n' ∧ e = e' ∧ d = d' then isTrue (by rw [h.1, h.2.1, h.2.2])
      else isFalse (by simpa using h)
    | const .. | accessor .. | load .. | unary .. | binary .. | select .. | reduce .. =>
      isFalse (by simp)
  | accessor s k l i, b =>
    match b with
    | accessor s' k' l' i' =>
      if h : s = s' ∧ k = k' ∧ l = l' then
        match withPtrEqDecEq i i' fun _ => sameAs i i' with
        | isTrue hi => isTrue (by rw [h.1, h.2.1, h.2.2, hi])
        | isFalse hi => isFalse (by simp [hi])
      else isFalse (fun same => h (by simp_all))
    | const .. | special .. | load .. | unary .. | binary .. | select .. | reduce .. =>
      isFalse (by simp)
  | load s k i, b =>
    match b with
    | load s' k' i' =>
      if h : s = s' ∧ k = k' then
        match withPtrEqDecEq i i' fun _ => sameAs i i' with
        | isTrue hi => isTrue (by rw [h.1, h.2, hi])
        | isFalse hi => isFalse (by simp [hi])
      else isFalse (fun same => h (by simp_all))
    | const .. | special .. | accessor .. | unary .. | binary .. | select .. | reduce .. =>
      isFalse (by simp)
  | unary o k x, b =>
    match b with
    | unary o' k' x' =>
      if h : o = o' ∧ k = k' then
        match withPtrEqDecEq x x' fun _ => sameAs x x' with
        | isTrue hx => isTrue (by rw [h.1, h.2, hx])
        | isFalse hx => isFalse (by simp [hx])
      else isFalse (fun same => h (by simp_all))
    | const .. | special .. | accessor .. | load .. | binary .. | select .. | reduce .. =>
      isFalse (by simp)
  | binary o k x y, b =>
    match b with
    | binary o' k' x' y' =>
      if h : o = o' ∧ k = k' then
        match withPtrEqDecEq x x' fun _ => sameAs x x' with
        | isTrue hx =>
          match withPtrEqDecEq y y' fun _ => sameAs y y' with
          | isTrue hy => isTrue (by rw [h.1, h.2, hx, hy])
          | isFalse hy => isFalse (by simp [hy])
        | isFalse hx => isFalse (by simp [hx])
      else isFalse (fun same => h (by simp_all))
    | const .. | special .. | accessor .. | load .. | unary .. | select .. | reduce .. =>
      isFalse (by simp)
  | select k c x y, b =>
    match b with
    | select k' c' x' y' =>
      if h : k = k' then
        match withPtrEqDecEq c c' fun _ => sameAs c c' with
        | isTrue hc =>
          match withPtrEqDecEq x x' fun _ => sameAs x x' with
          | isTrue hx =>
            match withPtrEqDecEq y y' fun _ => sameAs y y' with
            | isTrue hy => isTrue (by rw [h, hc, hx, hy])
            | isFalse hy => isFalse (by simp [hy])
          | isFalse hx => isFalse (by simp [hx])
        | isFalse hc => isFalse (by simp [hc])
      else isFalse (fun same => h (by simp_all))
    | const .. | special .. | accessor .. | load .. | unary .. | binary .. | reduce .. =>
      isFalse (by simp)
  | reduce o k x n, b =>
    match b with
    | reduce o' k' x' n' =>
      if h : o = o' ∧ k = k' ∧ n = n' then
        match withPtrEqDecEq x x' fun _ => sameAs x x' with
        | isTrue hx => isTrue (by rw [h.1, h.2.1, h.2.2, hx])
        | isFalse hx => isFalse (by simp [hx])
      else isFalse (fun same => h (by simp_all))
    | const .. | special .. | accessor .. | load .. | unary .. | binary .. | select .. =>
      isFalse (by simp)

instance : DecidableEq Expr := fun a b => withPtrEqDecEq a b fun _ => sameAs a b

/-- Do two expressions have the same form and equal constants? The two zeros are equal, and what is no
    number is equal to itself, but not to what was declared on its own. -/
def alike (a b : Expr) : Bool :=
  decide (a = b) ||
    match a, b with
    | const k v _, const k' v' _ => k = k' && v.sameNumber v'
    | special n e _, special n' e' _ => n = n' && e = e'
    | accessor s k l i, accessor s' k' l' i' => s = s' && k = k' && l = l' && alike i i'
    | load s k i, load s' k' i' => s = s' && k = k' && alike i i'
    | unary o k a, unary o' k' a' => o = o' && k = k' && alike a a'
    | binary o k a b, binary o' k' a' b' => o = o' && k = k' && alike a a' && alike b b'
    | select k c a b, select k' c' a' b' => k = k' && alike c c' && alike a a' && alike b b'
    | reduce o k b e, reduce o' k' b' e' => o = o' && k = k' && alike b b' && e = e'
    | _, _ => false

@[simp] theorem alike_self (e : Expr) : e.alike e = true := by
  cases e <;> simp [alike]

end StridedArray.Expr
