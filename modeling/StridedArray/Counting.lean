/-! # Counting loops

A loop over the numbers below a bound that ends with the first failure. The numbers are never all there
at the same time, so that a loop with a large bound and an early failure is a short one.

* `foldFrom`, `foldBelow` — the loop, from a number on and from zero on;
* `foldBelow_eq` — it is the fold over the list of the numbers. -/

namespace StridedArray

variable {ε β : Type}

/-- The given count of numbers from the first one on, folded from the left. -/
def foldFrom (f : β → Nat → Except ε β) (acc : β) (first : Nat) : Nat → Except ε β
  | 0 => pure acc
  | count + 1 => do foldFrom f (← f acc first) (first + 1) count

def foldBelow (bound : Nat) (f : β → Nat → Except ε β) (acc : β) : Except ε β :=
  foldFrom f acc 0 bound

theorem foldFrom_eq (f : β → Nat → Except ε β) (count : Nat) : ∀ (acc : β) (first : Nat),
    foldFrom f acc first count = (List.range' first count).foldlM f acc := by
  induction count with
  | zero => intro acc first; rfl
  | succ count ih =>
    intro acc first
    rw [List.range'_succ, List.foldlM_cons]
    show (f acc first >>= fun next => foldFrom f next (first + 1) count) = _
    simp only [ih]

theorem foldBelow_eq (bound : Nat) (f : β → Nat → Except ε β) (acc : β) :
    foldBelow bound f acc = (List.range bound).foldlM f acc := by
  rw [foldBelow, foldFrom_eq, List.range_eq_range']

@[simp] theorem foldBelow_zero (f : β → Nat → Except ε β) (acc : β) :
    foldBelow 0 f acc = .ok acc := rfl

end StridedArray
